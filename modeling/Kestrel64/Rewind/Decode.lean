import Kestrel64.Rewind.Codec

/-! # Rewind: What applyDelta Touches

    `applyDelta` copies blocks of lengths that it reads from the delta, any
    `u32` at all. This module runs it with a log of its memory accesses: every header
    and literal it reads in the delta, every block it reads in the new
    snapshot, every block it writes in `dst`.

    * The log does not change the result (`applyLogged_fst`).
    * No access of a run, also of one that is refused halfway, leaves its
      buffer (`applyLogged_bounds`).
    * The blocks written by a run that succeeds leave no hole in `dst`
      (`applyLogged_covers`).
-/

namespace Rewind

open Patch

/-! ## Section 1: The log -/

inductive Access where
  /-- `n` bytes of the new snapshot from position `i`. -/
  | readNew (i n : Nat)
  /-- `n` bytes of the delta from position `p`. -/
  | readDelta (p n : Nat)
  /-- `n` bytes of `dst` from position `i`. -/
  | writeDst (i n : Nat)

/-- The access stays inside its buffer; `n` is the size of `dst`. -/
def Access.InBounds (nueva d : Bytes) (n : Nat) : Access → Prop
  | .readNew i k => i + k ≤ nueva.length
  | .readDelta p k => p + k ≤ d.length
  | .writeDst i k => i + k ≤ n

/-- The access writes byte `k` of `dst`. -/
def Access.Writes (k : Nat) : Access → Prop
  | .writeDst i n => i ≤ k ∧ k < i + n
  | _ => False

/-- The loop of `applyDelta`, with the accesses of each record as it makes
    them. A record that is refused halfway has made some of them. -/
def applyLoopLogged (nueva d : Bytes) (n : Nat) (dst : Bytes) (p i : Nat) :
    Option Bytes × List Access :=
  if i < n then
    if d.length < p + 8 then (none, [])
    else
      let same := getU32 d p
      let diff := getU32 d (p + 4)
      let head := [Access.readDelta p 4, .readDelta (p + 4) 4]
      if n < i + same ∨ nueva.length < i + same then (none, head)
      else
        let dst := overwrite dst i (slice nueva i same)
        let copy := [Access.readNew i same, .writeDst i same]
        if n < i + same + diff ∨ d.length < p + 8 + diff then (none, head ++ copy)
        else
          let dst := overwrite dst (i + same) (slice d (p + 8) diff)
          let lit := [Access.readDelta (p + 8) diff, .writeDst (i + same) diff]
          if same = 0 ∧ diff = 0 then (none, head ++ copy ++ lit)
          else
            let r := applyLoopLogged nueva d n dst (p + 8 + diff) (i + same + diff)
            (r.1, head ++ copy ++ lit ++ r.2)
  else if i = n then (some dst, [])
  else (none, [])
termination_by n - i

def applyLogged (nueva d : Bytes) : Option Bytes × List Access :=
  if d.length < 8 then (none, [])
  else
    let oldLen := getU64 d 0
    if 2 ^ 31 < oldLen then (none, [.readDelta 0 8])
    else
      let r := applyLoopLogged nueva d oldLen (List.replicate oldLen 0) 8 0
      (r.1, .readDelta 0 8 :: r.2)

theorem applyLoopLogged_fst (nueva d : Bytes) (n : Nat) (dst : Bytes) (p i : Nat) :
    (applyLoopLogged nueva d n dst p i).1 = applyLoop nueva d n dst p i := by
  fun_induction applyLoopLogged nueva d n dst p i with
  | case1 dst p i hi hp => rw [applyLoop, if_pos hi, if_pos hp]
  | case2 dst p i hi hp same head hsame =>
    rw [applyLoop, if_pos hi, if_neg hp]
    exact (if_pos hsame).symm
  | case3 dst p i hi hp same diff head hsame copy hdiff =>
    rw [applyLoop, if_pos hi, if_neg hp]
    exact ((if_neg hsame).trans (if_pos hdiff)).symm
  | case4 dst p i hi hp same diff head hsame copy hdiff lit hz =>
    rw [applyLoop, if_pos hi, if_neg hp]
    exact ((if_neg hsame).trans ((if_neg hdiff).trans (if_pos hz))).symm
  | case5 dst p i hi hp same diff head hsame dst1 copy hdiff dst2 lit hz r ih =>
    rw [applyLoop, if_pos hi, if_neg hp]
    exact ih.trans ((if_neg hsame).trans ((if_neg hdiff).trans (if_neg hz))).symm
  | case6 dst p hi => rw [applyLoop, if_neg hi, if_pos rfl]
  | case7 dst p i hi hne => rw [applyLoop, if_neg hi, if_neg hne]

/-- The log is only a log. -/
theorem applyLogged_fst (nueva d : Bytes) : (applyLogged nueva d).1 = applyDelta nueva d := by
  unfold applyLogged applyDelta
  split_ifs
  · rfl
  · dsimp only
    split_ifs
    · rfl
    · exact applyLoopLogged_fst ..

/-! ## Section 2: Bounds -/

theorem applyLoopLogged_bounds (nueva d : Bytes) (n : Nat) (dst : Bytes) (p i : Nat) :
    ∀ a ∈ (applyLoopLogged nueva d n dst p i).2, a.InBounds nueva d n := by
  fun_induction applyLoopLogged nueva d n dst p i with
  | case1 => simp
  | case2 dst p i _ hp same head hsame =>
    simp only [head, List.forall_mem_cons, Access.InBounds]
    exact ⟨by omega, by omega, by simp⟩
  | case3 dst p i _ hp same diff head hsame copy hdiff =>
    simp only [head, copy, List.cons_append, List.nil_append, List.forall_mem_cons,
      Access.InBounds]
    exact ⟨by omega, by omega, by omega, by omega, by simp⟩
  | case4 dst p i _ hp same diff head hsame copy hdiff lit hz =>
    simp only [head, copy, lit, List.cons_append, List.nil_append, List.forall_mem_cons,
      Access.InBounds]
    exact ⟨by omega, by omega, by omega, by omega, by omega, by omega, by simp⟩
  | case5 dst p i _ hp same diff head hsame dst1 copy hdiff dst2 lit hz r ih =>
    simp only [head, copy, lit, List.cons_append, List.nil_append, List.forall_mem_cons,
      Access.InBounds]
    exact ⟨by omega, by omega, by omega, by omega, by omega, by omega, ih⟩
  | case6 => simp
  | case7 => simp

theorem applyLogged_bounds (nueva d : Bytes) :
    ∀ a ∈ (applyLogged nueva d).2, a.InBounds nueva d (getU64 d 0) := by
  unfold applyLogged
  split_ifs with h8
  · simp
  · dsimp only
    have hhead : Access.InBounds nueva d (getU64 d 0) (.readDelta 0 8) :=
      show 0 + 8 ≤ d.length by omega
    split_ifs
    · simpa using hhead
    · rw [List.forall_mem_cons]
      exact ⟨hhead, applyLoopLogged_bounds nueva d _ _ _ _⟩

/-! ## Section 3: Coverage -/

/-- A run of the loop that succeeds keeps the size of `dst` and writes every
    byte from its position on. -/
theorem applyLoopLogged_covers (nueva d : Bytes) (n : Nat) (dst : Bytes) (p i : Nat)
    (hdst : dst.length = n) {old : Bytes}
    (h : (applyLoopLogged nueva d n dst p i).1 = some old) :
    old.length = n ∧
      ∀ k, i ≤ k → k < n → ∃ a ∈ (applyLoopLogged nueva d n dst p i).2, a.Writes k := by
  fun_induction applyLoopLogged nueva d n dst p i with
  | case1 => simp at h
  | case2 => simp at h
  | case3 => simp at h
  | case4 => simp at h
  | case5 dst p i _ hp same diff head hsame dst1 copy hdiff dst2 lit hz r ih =>
    have hcopy : (slice nueva i same).length = same := length_slice (by omega)
    have hlit : (slice d (p + 8) diff).length = diff := length_slice (by omega)
    have hlen1 : dst1.length = n := (length_overwrite (by omega)).trans hdst
    have hlen2 : dst2.length = n := (length_overwrite (by omega)).trans hlen1
    obtain ⟨hold, hrest⟩ := ih hlen2 h
    refine ⟨hold, fun k hik hkn => ?_⟩
    -- byte `k` belongs to the copied block, to the literal one, or to a later record
    by_cases h1 : k < i + same
    · exact ⟨.writeDst i same, by simp [copy], hik, h1⟩
    · by_cases h2 : k < i + same + diff
      · exact ⟨.writeDst (i + same) diff, by simp [lit], by omega, h2⟩
      · obtain ⟨a, ha, hw⟩ := hrest k (by omega) hkn
        exact ⟨a, List.mem_append_right _ ha, hw⟩
  | case6 dst p _ =>
    obtain rfl : dst = old := by simpa using h
    exact ⟨hdst, fun k hik hkn => by omega⟩
  | case7 => simp at h

theorem applyLogged_covers (nueva d : Bytes) {old : Bytes}
    (h : (applyLogged nueva d).1 = some old) :
    old.length = getU64 d 0 ∧
      ∀ k < old.length, ∃ a ∈ (applyLogged nueva d).2, a.Writes k := by
  unfold applyLogged at h ⊢
  split_ifs at h ⊢ with h8
  dsimp only at h ⊢
  split_ifs at h ⊢ with h31
  obtain ⟨hlen, hcov⟩ := applyLoopLogged_covers nueva d _ _ _ _ (List.length_replicate ..) h
  refine ⟨hlen, fun k hk => ?_⟩
  obtain ⟨a, ha, hw⟩ := hcov k (Nat.zero_le k) (hlen ▸ hk)
  exact ⟨a, List.mem_cons_of_mem _ ha, hw⟩

/-! ## Section 4: The cold delta -/

/-- **The cold delta.** A delta made from two snapshots, of any two lengths,
    gives the old one back. And on any bytes at all, `applyDelta` stays inside
    its three buffers, and what it returns has the announced length and was
    written in full. -/
theorem coldDelta_roundtrip_safe (nueva : Bytes) :
    (∀ vieja : Bytes, vieja.length ≤ 2 ^ 31 →
        applyDelta nueva (makeDelta nueva vieja) = some vieja) ∧
      ∀ d : Bytes,
        (applyLogged nueva d).1 = applyDelta nueva d ∧
        (∀ a ∈ (applyLogged nueva d).2, a.InBounds nueva d (getU64 d 0)) ∧
        ∀ dst, applyDelta nueva d = some dst →
          dst.length = getU64 d 0 ∧
          ∀ k < dst.length, ∃ a ∈ (applyLogged nueva d).2, a.Writes k := by
  constructor
  · intro vieja hlen
    obtain ⟨rs, henc, hdesc⟩ := makeDelta_describes nueva vieja
    rw [henc]
    exact applyDelta_encode hdesc hlen
  · intro d
    refine ⟨applyLogged_fst nueva d, applyLogged_bounds nueva d, fun dst h => ?_⟩
    exact applyLogged_covers nueva d ((applyLogged_fst nueva d).trans h)

/-- Snapshots of different lengths with one byte changed inside the common
    words. -/
theorem coldDelta_roundtrip_shorter :
    applyDelta [1, 2, 3, 4, 5, 6] (makeDelta [1, 2, 3, 4, 5, 6] [1, 2, 9, 4, 5]) =
      some [1, 2, 9, 4, 5] :=
  (coldDelta_roundtrip_safe [1, 2, 3, 4, 5, 6]).1 [1, 2, 9, 4, 5] (by decide)

end Rewind
