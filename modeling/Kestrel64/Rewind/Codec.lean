import Kestrel64.Lib.Bytes
import Kestrel64.Lib.Patch
import Kestrel64.Lib.Index

/-! # Rewind: the Delta Codec

    `namespace codec` of `core/rewind.hpp`. A delta goes from the new
    snapshot back to the old one:

      u64 size of the old snapshot
      records until it is covered: u32 equal, u32 different, old bytes

    "Equal" bytes are copied from the new snapshot at the same position,
    "different" ones are literal. `makeDelta` compares two whole snapshots
    word by word. `DeltaSink` sees the new snapshot in pieces, compares byte
    by byte, and overwrites the old one as it goes.

    Both produce an encoding of a `Patch` that describes the old snapshot,
    and that is all `applyDelta` asks for.
-/

namespace Rewind

open Patch

/-! ## Section 1: Encoding -/

def putU32 (v : Bytes) (x : Nat) : Bytes := v ++ Bytes.le 4 x

def putU64 (v : Bytes) (x : Nat) : Bytes := putU32 (putU32 v x) (x / 2 ^ 32)

/-- The word at position `p`. -/
def getU32 (d : Bytes) (p : Nat) : Nat := Bytes.ofLe (slice d p 4)

def getU64 (d : Bytes) (p : Nat) : Nat := getU32 d p + 2 ^ 32 * getU32 d (p + 4)

/-- One record, with its two lengths as `u32`. -/
def encodeRec (r : Rec Byte) : Bytes := Bytes.le 4 r.same ++ Bytes.le 4 r.lit.length ++ r.lit

/-- A whole delta for an old snapshot of `n` bytes. -/
def encode (n : Nat) (rs : List (Rec Byte)) : Bytes := putU64 [] n ++ rs.flatMap encodeRec

/-! ## Section 2: makeDelta -/

/-- `memcmp(nueva + i, vieja + i, 4) == 0`. -/
def wordEq (nueva vieja : Bytes) (i : Nat) : Bool := slice nueva i 4 = slice vieja i 4

/-- The end of the run of equal words from `i`, below `lim`. -/
def sameEnd (nueva vieja : Bytes) (lim i : Nat) : Nat :=
  if i + 4 ≤ lim ∧ wordEq nueva vieja i then sameEnd nueva vieja lim (i + 4) else i
termination_by lim - i

/-- The end of the different run from `j`: the next equal word, or the end of
    the old snapshot. Past the common words everything is literal. -/
def diffEnd (nueva vieja : Bytes) (lim j : Nat) : Nat :=
  if j < vieja.length then
    if j + 4 ≤ lim ∧ wordEq nueva vieja j then j
    else if j + 4 ≤ lim then diffEnd nueva vieja lim (j + 4)
    else vieja.length
  else j
termination_by vieja.length - j

/-- The bytes of the words both snapshots have. -/
def commonWords (nueva vieja : Bytes) : Nat := min nueva.length vieja.length / 4 * 4

theorem sameEnd_ge (nueva vieja : Bytes) (lim i : Nat) : i ≤ sameEnd nueva vieja lim i := by
  fun_induction sameEnd nueva vieja lim i with
  | case1 i _ ih => omega
  | case2 i _ => exact Nat.le_refl i

theorem diffEnd_ge (nueva vieja : Bytes) (lim j : Nat) : j ≤ diffEnd nueva vieja lim j := by
  fun_induction diffEnd nueva vieja lim j <;> omega

/-- One turn of the outer loop of `makeDelta` makes progress. -/
theorem diffEnd_sameEnd_gt (nueva vieja : Bytes) (lim i : Nat) (h : i < vieja.length) :
    i < diffEnd nueva vieja lim (sameEnd nueva vieja lim i) := by
  have hd := diffEnd_ge nueva vieja lim (sameEnd nueva vieja lim i)
  by_cases hw : i + 4 ≤ lim ∧ wordEq nueva vieja i = true
  · have := sameEnd_ge nueva vieja lim (i + 4)
    rw [sameEnd, if_pos hw] at hd ⊢
    omega
  · rw [sameEnd, if_neg hw]
    rw [diffEnd, if_pos h, if_neg hw]
    split
    · have := diffEnd_ge nueva vieja lim (i + 4)
      omega
    · exact h

/-- The records from position `i` on. -/
def deltaBody (nueva vieja : Bytes) (i : Nat) : Bytes :=
  if _h : i < vieja.length then
    let j := sameEnd nueva vieja (commonWords nueva vieja) i
    let e := diffEnd nueva vieja (commonWords nueva vieja) j
    putU32 (putU32 [] (j - i)) (e - j) ++ slice vieja j (e - j) ++ deltaBody nueva vieja e
  else []
termination_by vieja.length - i
decreasing_by
  have := diffEnd_sameEnd_gt nueva vieja (commonWords nueva vieja) i ‹_›
  omega

def makeDelta (nueva vieja : Bytes) : Bytes :=
  putU64 [] vieja.length ++ deltaBody nueva vieja 0

/-! ## Section 3: applyDelta -/

/-- The loop of `applyDelta`: `p` in the delta, `i` in the old snapshot. -/
def applyLoop (nueva d : Bytes) (n : Nat) (dst : Bytes) (p i : Nat) : Option Bytes :=
  if i < n then
    if d.length < p + 8 then none
    else
      let same := getU32 d p
      let diff := getU32 d (p + 4)
      if n < i + same ∨ nueva.length < i + same then none
      else
        let dst := overwrite dst i (slice nueva i same)
        if n < i + same + diff ∨ d.length < p + 8 + diff then none
        else
          let dst := overwrite dst (i + same) (slice d (p + 8) diff)
          -- an empty record would not advance
          if same = 0 ∧ diff = 0 then none
          else applyLoop nueva d n dst (p + 8 + diff) (i + same + diff)
  else if i = n then some dst
  else none
termination_by n - i

/-- `applyDelta`: the old snapshot, or `none` where the source returns
    false. -/
def applyDelta (nueva d : Bytes) : Option Bytes :=
  if d.length < 8 then none
  else
    let oldLen := getU64 d 0
    if 2 ^ 31 < oldLen then none
    else applyLoop nueva d oldLen (List.replicate oldLen 0) 8 0

/-! ## Section 4: What applyDelta asks for -/

theorem length_putU64 (x : Nat) : (putU64 [] x).length = 8 := by
  simp [putU64, putU32]

theorem getU32_mid {d a c : Bytes} {p x : Nat} (h : d = a ++ Bytes.le 4 x ++ c)
    (hp : p = a.length) (hx : x < 2 ^ 32) : getU32 d p = x := by
  unfold getU32
  rw [slice_mid h hp (by simp), Bytes.ofLe_le]
  exact Nat.mod_eq_of_lt (by norm_num; exact hx)

theorem getU64_putU64 (x : Nat) (rest : Bytes) (hx : x < 2 ^ 32) :
    getU64 (putU64 [] x ++ rest) 0 = x := by
  have hlo : getU32 (putU64 [] x ++ rest) 0 = x :=
    getU32_mid (a := []) (c := Bytes.le 4 (x / 2 ^ 32) ++ rest)
      (by simp [putU64, putU32]) rfl hx
  have hhi : getU32 (putU64 [] x ++ rest) 4 = x / 2 ^ 32 :=
    getU32_mid (a := Bytes.le 4 x) (c := rest) (by simp [putU64, putU32]) (by simp) (by omega)
  unfold getU64
  rw [hlo, hhi]
  omega

/-- From position `i` on, with `old.take i` rebuilt, the remaining records
    rebuild the rest. -/
theorem applyLoop_describes {nueva old d : Bytes} {i j : Nat} {rs : List (Rec Byte)}
    (h : Describes nueva old i rs j) (hj : j = old.length) (hlen : old.length ≤ 2 ^ 31)
    (a : Bytes) (hd : d = a ++ rs.flatMap encodeRec) (dst : Bytes)
    (hdst : dst.length = old.length) (htake : dst.take i = old.take i) :
    applyLoop nueva d old.length dst a.length i = some old := by
  induction h generalizing a dst with
  | nil i =>
    subst hj
    rw [applyLoop, if_neg (Nat.lt_irrefl _), if_pos rfl]
    rw [List.take_length] at htake
    rw [← htake, ← hdst, List.take_length]
  | @cons i j r rs hpos hg _ ih =>
    have hle := hg.lit_le
    have hnew := hg.copy.new_le
    have hlen' : r.len = r.same + r.lit.length := rfl
    have hsplit : d = a ++ encodeRec r ++ rs.flatMap encodeRec := by
      rw [hd, List.flatMap_cons, List.append_assoc]
    have hsame : getU32 d a.length = r.same :=
      getU32_mid (c := Bytes.le 4 r.lit.length ++ r.lit ++ rs.flatMap encodeRec)
        (by rw [hsplit]; simp [encodeRec]) rfl (by omega)
    have hdiff : getU32 d (a.length + 4) = r.lit.length :=
      getU32_mid (a := a ++ Bytes.le 4 r.same) (c := r.lit ++ rs.flatMap encodeRec)
        (by rw [hsplit]; simp [encodeRec]) (by simp) (by omega)
    have hlit : slice d (a.length + 8) r.lit.length = r.lit :=
      slice_mid (a := a ++ Bytes.le 4 r.same ++ Bytes.le 4 r.lit.length)
        (c := rs.flatMap encodeRec) (by rw [hsplit]; simp [encodeRec]) (by simp) rfl
    have hdlen : a.length + 8 + r.lit.length ≤ d.length := by
      rw [hsplit]
      simp [encodeRec]
      omega
    have hslice : (slice nueva i r.same).length = r.same := length_slice hnew
    rw [applyLoop, if_pos (by omega), if_neg (by omega)]
    simp only [hsame, hdiff]
    rw [if_neg (by omega), if_neg (by omega), if_neg (by omega), hlit]
    rw [show i + r.same + r.lit.length = i + r.len by omega,
      show a.length + 8 + r.lit.length = (a ++ encodeRec r).length by simp [encodeRec]; omega]
    -- the record's two blocks extend what has been rebuilt
    have h1len : (overwrite dst i (slice nueva i r.same)).length = old.length := by
      rw [length_overwrite (by omega), hdst]
    have h1 : (overwrite dst i (slice nueva i r.same)).take (i + r.same) =
        old.take i ++ slice nueva i r.same := by
      have := take_overwrite (l := dst) (b := slice nueva i r.same) (i := i) (by omega)
      rw [hslice] at this
      rw [this, htake]
    refine ih hj _ hsplit _ ?_ ?_
    · rw [length_overwrite (by omega), h1len]
    · have := take_overwrite (l := overwrite dst i (slice nueva i r.same)) (b := r.lit)
        (i := i + r.same) (by omega)
      rw [show i + r.len = i + r.same + r.lit.length from (Nat.add_assoc ..).symm, this, h1,
        hg.step]
      rw [hlen', Nat.add_assoc]

/-- **applyDelta inverts every patch.** A delta that encodes a description of
    the whole old snapshot gives it back. -/
theorem applyDelta_encode {nueva old : Bytes} {rs : List (Rec Byte)}
    (h : Describes nueva old 0 rs old.length) (hlen : old.length ≤ 2 ^ 31) :
    applyDelta nueva (encode old.length rs) = some old := by
  unfold applyDelta encode
  rw [if_neg (by rw [List.length_append, length_putU64]; omega)]
  simp only [getU64_putU64 old.length _ (by omega : old.length < 2 ^ 32)]
  rw [if_neg (by omega)]
  have hloop := applyLoop_describes h rfl hlen (putU64 [] old.length) rfl
    (List.replicate old.length 0) (List.length_replicate ..) (by simp)
  rw [length_putU64] at hloop
  exact hloop

/-! ## Section 5: makeDelta describes the old snapshot -/

theorem commonWords_le (nueva vieja : Bytes) :
    commonWords nueva vieja ≤ nueva.length ∧ commonWords nueva vieja ≤ vieja.length := by
  unfold commonWords
  omega

theorem sameEnd_agree {nueva vieja : Bytes} {lim : Nat} (hn : lim ≤ nueva.length)
    (ho : lim ≤ vieja.length) (i : Nat) (hi : i ≤ lim) :
    sameEnd nueva vieja lim i ≤ lim ∧
      Agree nueva vieja i (sameEnd nueva vieja lim i - i) := by
  fun_induction sameEnd nueva vieja lim i with
  | case1 i h ih =>
    obtain ⟨hle, hag⟩ := ih h.1
    have hge := sameEnd_ge nueva vieja lim (i + 4)
    have hword : Agree nueva vieja i 4 :=
      ⟨by omega, by omega, by simpa [wordEq] using h.2⟩
    refine ⟨hle, ?_⟩
    rw [show sameEnd nueva vieja lim (i + 4) - i =
      4 + (sameEnd nueva vieja lim (i + 4) - (i + 4)) by omega]
    exact hword.append hag
  | case2 i h =>
    rw [Nat.sub_self]
    exact ⟨hi, .zero (by omega) (by omega)⟩

theorem diffEnd_le (nueva : Bytes) {vieja : Bytes} {lim : Nat} (ho : lim ≤ vieja.length) (j : Nat)
    (hj : j ≤ vieja.length) :
    diffEnd nueva vieja lim j ≤ vieja.length ∧
      (diffEnd nueva vieja lim j < vieja.length → diffEnd nueva vieja lim j + 4 ≤ lim) := by
  fun_induction diffEnd nueva vieja lim j with
  | case1 j _ hw => exact ⟨hj, fun _ => hw.1⟩
  | case2 j _ _ _ ih => exact ih (by omega)
  | case3 j _ _ _ => exact ⟨Nat.le_refl _, fun h => absurd h (Nat.lt_irrefl _)⟩
  | case4 j hge => exact ⟨hj, fun h => absurd h hge⟩

/-- A position where a record can start: among the common words, or at the
    end. -/
def AtRecord (nueva vieja : Bytes) (i : Nat) : Prop :=
  i ≤ commonWords nueva vieja ∨ i = vieja.length

theorem deltaBody_describes (nueva vieja : Bytes) (i : Nat) (hi : AtRecord nueva vieja i) :
    ∃ rs, deltaBody nueva vieja i = rs.flatMap encodeRec ∧
      Describes nueva vieja i rs vieja.length := by
  obtain ⟨hn, ho⟩ := commonWords_le nueva vieja
  fun_induction deltaBody nueva vieja i with
  | case1 i hlt j e ih =>
    have hi : i ≤ commonWords nueva vieja := by
      rcases hi with hi | hi
      · exact hi
      · omega
    obtain ⟨hjle, hag⟩ := sameEnd_agree hn ho i hi
    have hij : i ≤ j := sameEnd_ge nueva vieja _ i
    have hje : j ≤ e := diffEnd_ge nueva vieja _ j
    obtain ⟨hele, hstop⟩ := diffEnd_le nueva ho j (by omega)
    have hprog : i < e := diffEnd_sameEnd_gt nueva vieja _ i hlt
    have hnext : AtRecord nueva vieja e := by
      by_cases he : e < vieja.length
      · have := hstop he
        exact .inl (by omega)
      · exact .inr (Nat.le_antisymm hele (Nat.le_of_not_lt he))
    obtain ⟨rs, henc, hdesc⟩ := ih hnext
    have hlit : (slice vieja j (e - j)).length = e - j :=
      length_slice (show j + (e - j) ≤ vieja.length by omega)
    refine ⟨⟨j - i, slice vieja j (e - j)⟩ :: rs, ?_, ?_⟩
    · rw [henc, List.flatMap_cons]
      simp [encodeRec, putU32, hlit]
    · have hlen : Rec.len (⟨j - i, slice vieja j (e - j)⟩ : Rec Byte) = e - i := by
        show j - i + (slice vieja j (e - j)).length = e - i
        omega
      have hgives : Rec.Gives nueva vieja i ⟨j - i, slice vieja j (e - j)⟩ := by
        refine ⟨hag, by omega, ?_⟩
        show slice vieja j (e - j) = slice vieja (i + (j - i)) (slice vieja j (e - j)).length
        rw [hlit, show i + (j - i) = j by omega]
      refine .cons (by omega) hgives ?_
      rw [hlen, show i + (e - i) = e by omega]
      exact hdesc
  | case2 i hge =>
    have : i = vieja.length := by
      rcases hi with hi | hi <;> omega
    rw [this]
    exact ⟨[], rfl, .nil _⟩

theorem makeDelta_describes (nueva vieja : Bytes) :
    ∃ rs, makeDelta nueva vieja = encode vieja.length rs ∧
      Describes nueva vieja 0 rs vieja.length := by
  obtain ⟨rs, henc, hdesc⟩ := deltaBody_describes nueva vieja 0 (.inl (Nat.zero_le _))
  exact ⟨rs, by rw [makeDelta, henc, encode], hdesc⟩

end Rewind
