import Kestrel64.Rewind.Codec

/-! # Rewind: the Hot Delta

    `codec::DeltaSink` of `core/rewind.hpp`. The machine's state comes in
    pieces through `feed`; each is compared with the old snapshot `base` at
    its position. Different bytes are noted (the old ones) and overwritten,
    so that at the end `base` is the new snapshot and `out` the delta back.
    An equal gap shorter than `kGap` inside a different run is folded into
    it.

    `SinkInv new old st` is the invariant between two pieces, with `new` the
    snapshot that is coming in: the first `pos` bytes of `base` are already
    new, the records in `out` describe the old bytes up to some position, and
    the open run describes them from there to `pos`.
-/

namespace Rewind

open Patch

/-! ## Section 1: Model -/

structure DeltaSink where
  base : Bytes
  baseLen : Nat
  pos : Nat
  out : Bytes
  same : Nat
  pendEq : Nat
  /-- Old bytes of the different run that is open. -/
  diff : Bytes
  overflow : Bool

namespace DeltaSink

/-- The shortest equal gap that closes a different run (two headers). -/
def kGap : Nat := 16

def begin (vieja : Bytes) : DeltaSink where
  base := vieja
  baseLen := vieja.length
  pos := 0
  out := putU64 [] vieja.length
  same := 0
  pendEq := 0
  diff := []
  overflow := false

def pair (st : DeltaSink) : DeltaSink :=
  { st with
    out := putU32 (putU32 st.out st.same) st.diff.length ++ st.diff
    diff := [] }

/-- `n` equal bytes. -/
def eq (st : DeltaSink) (n : Nat) : DeltaSink :=
  if st.diff = [] then { st with same := st.same + n }
  else if st.pendEq + n < kGap then { st with pendEq := st.pendEq + n }
  else { pair st with same := st.pendEq + n, pendEq := 0 }

/-- The equal gap before the current position joins the open run. -/
def flush (st : DeltaSink) : DeltaSink :=
  if st.pendEq ≠ 0 then
    { st with
      diff := st.diff ++ slice st.base (st.pos - st.pendEq) st.pendEq
      pendEq := 0 }
  else st

/-- The bytes `src` differ from the old ones at the current position. -/
def ne (st : DeltaSink) (src : Bytes) : DeltaSink :=
  let st := flush st
  { st with
    diff := st.diff ++ slice st.base st.pos src.length
    base := overwrite st.base st.pos src }

/-- `while(j + k <= n && memcmp(s + j, b + j - i, k) == 0) j += k`, with `b`
    at position `pos` of `base`. -/
def skip (k : Nat) [NeZero k] (s base : Bytes) (pos i j : Nat) : Nat :=
  if j + k ≤ s.length ∧ slice s j k = slice base (pos + (j - i)) k then
    skip k s base pos i (j + k)
  else j
termination_by s.length - j
decreasing_by
  have := NeZero.pos k
  omega

/-- Where the run of equal bytes from `i` ends. -/
def eqEnd (s base : Bytes) (pos i : Nat) : Nat :=
  skip 1 s base pos i (skip 8 s base pos i (skip 32 s base pos i (skip 1024 s base pos i i)))

/-- `while(k < n && s[k] != b[k - i]) k++`. -/
def neEnd (s base : Bytes) (pos i k : Nat) : Nat :=
  if k < s.length ∧ slice s k 1 ≠ slice base (pos + (k - i)) 1 then neEnd s base pos i (k + 1)
  else k
termination_by s.length - k

theorem skip_ge (k : Nat) [NeZero k] (s base : Bytes) (pos i j : Nat) :
    j ≤ skip k s base pos i j := by
  fun_induction skip k s base pos i j <;> omega

theorem eqEnd_ge (s base : Bytes) (pos i : Nat) : i ≤ eqEnd s base pos i := by
  have h1 := skip_ge 1024 s base pos i i
  have h2 := skip_ge 32 s base pos i (skip 1024 s base pos i i)
  have h3 := skip_ge 8 s base pos i (skip 32 s base pos i (skip 1024 s base pos i i))
  have h4 := skip_ge 1 s base pos i
    (skip 8 s base pos i (skip 32 s base pos i (skip 1024 s base pos i i)))
  unfold eqEnd
  omega

theorem neEnd_ge (s base : Bytes) (pos i k : Nat) : k ≤ neEnd s base pos i k := by
  fun_induction neEnd s base pos i k <;> omega

/-- One turn of the loop of `feed` makes progress. -/
theorem turn_lt {s base base' : Bytes} {pos pos' i : Nat} (h : i < s.length) :
    s.length - neEnd s base' pos' (eqEnd s base pos i) (eqEnd s base pos i + 1) <
      s.length - i := by
  have h1 := eqEnd_ge s base pos i
  have h2 := neEnd_ge s base' pos' (eqEnd s base pos i) (eqEnd s base pos i + 1)
  omega

/-- `eq(n); pos += n`. -/
def passEq (st : DeltaSink) (n : Nat) : DeltaSink := { eq st n with pos := st.pos + n }

/-- `ne(src, n); pos += n`. -/
def passNe (st : DeltaSink) (src : Bytes) : DeltaSink :=
  { ne st src with pos := st.pos + src.length }

/-- The loop of `feed` from byte `i` of the piece. -/
def feedLoop (st : DeltaSink) (s : Bytes) (i : Nat) : DeltaSink :=
  if i < s.length then
    let j := eqEnd s st.base st.pos i
    let st := if i < j then passEq st (j - i) else st
    if s.length ≤ j then st
    else
      let k := neEnd s st.base st.pos j (j + 1)
      feedLoop (passNe st (slice s j (k - j))) s k
  else st
termination_by s.length - i
decreasing_by exact turn_lt ‹_›

def feed (st : DeltaSink) (s : Bytes) : DeltaSink :=
  if st.overflow ∨ st.baseLen < st.pos + s.length then { st with overflow := true }
  else feedLoop st s 0

/-- `finish`: `none` where the source returns false. -/
def finish (st : DeltaSink) : Option DeltaSink :=
  if st.overflow ∨ st.pos ≠ st.baseLen then none
  else if st.diff ≠ [] then
    let st := pair st
    some (if st.pendEq ≠ 0 then pair { st with same := st.pendEq } else st)
  else some (if st.same ≠ 0 then pair st else st)

/-! ## Section 2: The comparison -/

/-- `skip` stops inside the piece, and what it skipped is equal. -/
theorem skip_spec (k : Nat) [NeZero k] {s base : Bytes} {pos i j : Nat} (hij : i ≤ j)
    (hj : j ≤ s.length) (heq : slice s i (j - i) = slice base pos (j - i)) :
    skip k s base pos i j ≤ s.length ∧
      slice s i (skip k s base pos i j - i) = slice base pos (skip k s base pos i j - i) := by
  fun_induction skip k s base pos i j with
  | case1 j h ih =>
    refine ih (by omega) h.1 ?_
    -- the equal run grows by one block of `k`
    rw [show j + k - i = j - i + k by omega, slice_add, slice_add, heq,
      show i + (j - i) = j by omega, h.2]
  | case2 j h => exact ⟨hj, heq⟩

theorem eqEnd_spec {s : Bytes} (base : Bytes) (pos : Nat) {i : Nat} (hi : i ≤ s.length) :
    eqEnd s base pos i ≤ s.length ∧
      slice s i (eqEnd s base pos i - i) = slice base pos (eqEnd s base pos i - i) := by
  have h0 : slice s i (i - i) = slice base pos (i - i) := by simp [slice]
  have h1 := skip_spec 1024 (Nat.le_refl i) hi h0
  have g1 := skip_ge 1024 s base pos i i
  have h2 := skip_spec 32 g1 h1.1 h1.2
  have g2 := skip_ge 32 s base pos i (skip 1024 s base pos i i)
  have h3 := skip_spec 8 (Nat.le_trans g1 g2) h2.1 h2.2
  have g3 := skip_ge 8 s base pos i (skip 32 s base pos i (skip 1024 s base pos i i))
  exact skip_spec 1 (Nat.le_trans (Nat.le_trans g1 g2) g3) h3.1 h3.2

theorem neEnd_le {s base : Bytes} {pos i k : Nat} (hk : k ≤ s.length) :
    neEnd s base pos i k ≤ s.length := by
  fun_induction neEnd s base pos i k with
  | case1 k h ih => exact ih h.1
  | case2 k _ => exact hk

/-! ## Section 3: The invariant -/

/-- The records in `out` describe the old snapshot up to position `r`. -/
def Written (new old out : Bytes) (r : Nat) : Prop :=
  ∃ rs, out = encode old.length rs ∧ Describes new old 0 rs r

/-- The open run describes the old bytes from `r` to `pos`: `same` equal ones,
    those in `diff`, and `pendEq` equal ones not settled yet. -/
structure OpenRun (new old : Bytes) (r : Nat) (st : DeltaSink) : Prop where
  same : Agree new old r st.same
  diff : st.diff = slice old (r + st.same) st.diff.length
  pend : Agree new old (r + st.same + st.diff.length) st.pendEq
  idle : st.diff = [] → st.pendEq = 0
  pos_eq : r + st.same + st.diff.length + st.pendEq = st.pos

structure SinkInv (new old : Bytes) (st : DeltaSink) : Prop where
  baseLen : st.baseLen = old.length
  overflow : st.overflow = false
  base : st.base = splice new old st.pos
  pos_le : st.pos ≤ old.length
  run : ∃ r, Written new old st.out r ∧ OpenRun new old r st

theorem SinkInv.begin (new old : Bytes) : SinkInv new old (begin old) where
  baseLen := rfl
  overflow := rfl
  base := (splice_zero new old).symm
  pos_le := Nat.zero_le _
  run := by
    have h0 : Agree new old 0 0 := .zero (Nat.zero_le _) (Nat.zero_le _)
    exact ⟨0, ⟨[], by simp [DeltaSink.begin, encode], .nil 0⟩, h0, rfl, h0, fun _ => rfl, rfl⟩

/-- `pair` writes the open run as one more record. -/
theorem Written.pair {new old : Bytes} {r : Nat} (st : DeltaSink) (h : Written new old st.out r)
    (hsame : Agree new old r st.same) (hdiff : st.diff = slice old (r + st.same) st.diff.length)
    (hle : r + st.same + st.diff.length ≤ old.length) (hpos : 0 < st.same + st.diff.length) :
    Written new old (pair st).out (r + st.same + st.diff.length) := by
  obtain ⟨rs, hout, hdesc⟩ := h
  have hrec : Rec.Gives new old r ⟨st.same, st.diff⟩ :=
    ⟨hsame, (Nat.add_assoc ..).symm.trans_le hle, hdiff⟩
  refine ⟨rs ++ [⟨st.same, st.diff⟩], ?_, ?_⟩
  · simp [DeltaSink.pair, hout, encode, encodeRec, putU32]
  · rw [Nat.add_assoc]
    exact hdesc.snoc hpos hrec

/-- `n` equal bytes keep the invariant. -/
theorem SinkInv.passEq {new old : Bytes} {st : DeltaSink} (h : SinkInv new old st) {n : Nat}
    (hag : Agree new old st.pos n) : SinkInv new old (passEq st n) := by
  obtain ⟨r, hw, ho⟩ := h.run
  have hpos := ho.pos_eq
  have hbase : st.base = splice new old (st.pos + n) :=
    h.base.trans (splice_of_slice_eq hag.eq)
  unfold DeltaSink.passEq DeltaSink.eq
  split_ifs with hd hg
  · -- no different run is open: the equal one grows
    have hp : r + st.same = st.pos := by
      have := ho.idle hd
      rw [hd, List.length_nil] at hpos
      omega
    refine ⟨h.baseLen, h.overflow, hbase, hag.old_le, r, hw, ?_, ?_, ?_, ho.idle, ?_⟩
    · exact ho.same.append (hp ▸ hag)
    · show st.diff = slice old _ st.diff.length
      rw [hd]
      simp [slice]
    · show Agree new old (r + (st.same + n) + st.diff.length) st.pendEq
      rw [ho.idle hd, hd, List.length_nil]
      exact .zero (by have := hag.new_le; omega) (by have := hag.old_le; omega)
    · show r + (st.same + n) + st.diff.length + st.pendEq = st.pos + n
      omega
  · -- the gap is still too short to close the run
    refine ⟨h.baseLen, h.overflow, hbase, hag.old_le, r, hw, ho.same, ho.diff, ?_,
      fun he => absurd he hd, ?_⟩
    · exact ho.pend.append (hpos ▸ hag)
    · show r + st.same + st.diff.length + (st.pendEq + n) = st.pos + n
      omega
  · have hlen : 0 < st.diff.length := List.length_pos_iff.mpr hd
    have hle := ho.pend.old_le
    have hgap : Agree new old (r + st.same + st.diff.length) (st.pendEq + n) :=
      ho.pend.append (hpos ▸ hag)
    have hw' := hw.pair st ho.same ho.diff (by omega) (by omega)
    refine ⟨h.baseLen, h.overflow, hbase, hag.old_le, _, hw', hgap, ?_, ?_, fun _ => rfl, ?_⟩
    · simp [DeltaSink.pair, slice]
    · exact .zero hgap.new_le hgap.old_le
    · simp only [DeltaSink.pair, List.length_nil]
      omega

/-- `flush` settles the pending gap as part of the different run. -/
theorem SinkInv.flush {new old : Bytes} {st : DeltaSink} (h : SinkInv new old st)
    (hn : new.length = old.length) : SinkInv new old (flush st) ∧ (flush st).pendEq = 0 := by
  obtain ⟨r, hw, ho⟩ := h.run
  have hpos := ho.pos_eq
  have hle := h.pos_le
  unfold DeltaSink.flush
  split_ifs with hp
  · have hgap : slice st.base (st.pos - st.pendEq) st.pendEq =
        slice old (r + st.same + st.diff.length) st.pendEq := by
      rw [h.base, slice_splice_before (by omega) (by omega), ← ho.pend.eq]
      congr 1
      omega
    have hglen : (slice old (r + st.same + st.diff.length) st.pendEq).length = st.pendEq :=
      length_slice (by omega)
    refine ⟨⟨h.baseLen, h.overflow, h.base, h.pos_le, r, hw, ho.same, ?_, ?_, fun _ => rfl, ?_⟩,
      rfl⟩
    · show st.diff ++ slice st.base _ _ = slice old _ (st.diff ++ slice st.base _ _).length
      rw [hgap, List.length_append, hglen, slice_add, ← ho.diff]
    · refine .zero ?_ ?_ <;>
      · show r + st.same + (st.diff ++ slice st.base _ _).length ≤ _
        rw [hgap, List.length_append, hglen]
        omega
    · show r + st.same + (st.diff ++ slice st.base _ _).length + 0 = st.pos
      rw [hgap, List.length_append, hglen]
      omega
  · exact ⟨h, not_not.mp hp⟩

/-- Bytes noted as different keep the invariant, whatever they are. -/
theorem SinkInv.passNe {new old : Bytes} {st : DeltaSink} (h : SinkInv new old st)
    (hn : new.length = old.length) {n : Nat} (hle : st.pos + n ≤ old.length) (hn0 : 0 < n) :
    SinkInv new old (passNe st (slice new st.pos n)) := by
  obtain ⟨hf, hpend⟩ := h.flush hn
  have hfpos : (DeltaSink.flush st).pos = st.pos := by
    unfold DeltaSink.flush
    split <;> rfl
  generalize hst : DeltaSink.flush st = f at hf hpend hfpos
  have hlen : (slice new st.pos n).length = n := length_slice (by omega)
  obtain ⟨r, hw, ho⟩ := hf.run
  have hpos := ho.pos_eq
  have hold : slice f.base f.pos n = slice old f.pos n := by
    rw [hf.base, slice_splice_after (by omega) (Nat.le_refl _)]
  have holen : (slice old f.pos n).length = n := length_slice (by omega)
  have hdlen : (f.diff ++ slice old f.pos n).length = f.diff.length + n := by
    rw [List.length_append, holen]
  unfold DeltaSink.passNe DeltaSink.ne
  rw [hst, hlen]
  dsimp only
  rw [hold]
  refine ⟨hf.baseLen, hf.overflow, ?_, hle, r, hw, ho.same, ?_, ?_, ?_, ?_⟩
  · show overwrite f.base f.pos (slice new st.pos n) = splice new old (st.pos + n)
    rw [hf.base, hfpos]
    exact overwrite_splice (by omega)
  · show f.diff ++ slice old f.pos n =
      slice old (r + f.same) (f.diff ++ slice old f.pos n).length
    rw [hdlen, slice_add, ← ho.diff, show r + f.same + f.diff.length = f.pos by omega]
  · show Agree new old (r + f.same + (f.diff ++ slice old f.pos n).length) f.pendEq
    rw [hpend, hdlen]
    exact .zero (by omega) (by omega)
  · intro he
    rw [← List.length_eq_zero_iff, hdlen] at he
    omega
  · show r + f.same + (f.diff ++ slice old f.pos n).length + f.pendEq = st.pos + n
    rw [hdlen]
    omega

/-! ## Section 4: Feeding -/

/-- `s` is the piece of `new` at position `p`. -/
structure PieceAt (new s : Bytes) (p : Nat) : Prop where
  le : p + s.length ≤ new.length
  eq : slice new p s.length = s

theorem PieceAt.block {new s : Bytes} {p : Nat} (h : PieceAt new s p) {j n : Nat}
    (hjn : j + n ≤ s.length) : slice s j n = slice new (p + j) n := by
  conv_lhs => rw [← h.eq]
  unfold slice
  rw [List.drop_take, List.take_take, List.drop_drop, Nat.min_eq_left (by omega)]

/-- The equal run of one turn of the loop of `feed`. -/
theorem SinkInv.eqTurn {new old s : Bytes} {st : DeltaSink} {i p : Nat}
    (h : SinkInv new old st) (hn : new.length = old.length) (hs : PieceAt new s p)
    (hpos : st.pos = p + i) (hi : i ≤ s.length) :
    let j := eqEnd s st.base st.pos i
    let st' := if i < j then DeltaSink.passEq st (j - i) else st
    SinkInv new old st' ∧ st'.pos = p + j := by
  intro j st'
  obtain ⟨hjle, hjeq⟩ := eqEnd_spec st.base st.pos hi
  have hij : i ≤ j := eqEnd_ge s st.base st.pos i
  have hle := hs.le
  by_cases hlt : i < j
  · have hold : slice st.base st.pos (j - i) = slice old st.pos (j - i) := by
      rw [h.base, slice_splice_after (by omega) (Nat.le_refl _)]
    have hag : Agree new old st.pos (j - i) := by
      refine ⟨by omega, by omega, ?_⟩
      calc slice new st.pos (j - i) = slice new (p + i) (j - i) := by rw [hpos]
        _ = slice s i (j - i) := (hs.block (by omega)).symm
        _ = slice st.base st.pos (j - i) := hjeq
        _ = slice old st.pos (j - i) := hold
    have hst : st' = DeltaSink.passEq st (j - i) := if_pos hlt
    rw [hst]
    exact ⟨h.passEq hag, show st.pos + (j - i) = p + j by omega⟩
  · have hst : st' = st := if_neg hlt
    rw [hst]
    exact ⟨h, by omega⟩

/-- The loop of `feed` takes in the rest of the piece. -/
theorem SinkInv.feedLoop {new old s : Bytes} {st : DeltaSink} {i p : Nat}
    (h : SinkInv new old st) (hn : new.length = old.length) (hs : PieceAt new s p)
    (hpos : st.pos = p + i) (hi : i ≤ s.length) :
    SinkInv new old (feedLoop st s i) ∧ (feedLoop st s i).pos = p + s.length := by
  fun_induction DeltaSink.feedLoop st s i with
  | case1 st i hlt j st1 hj =>
    obtain ⟨h1, hpos1⟩ := h.eqTurn hn hs hpos hi
    have hjle : j ≤ s.length := (eqEnd_spec _ _ hi).1
    exact ⟨h1, hpos1.trans (by omega)⟩
  | case2 st i hlt j st1 hj k ih =>
    obtain ⟨h1, hpos1⟩ : SinkInv new old st1 ∧ st1.pos = p + j := h.eqTurn hn hs hpos hi
    have hjk : j + 1 ≤ k := neEnd_ge s st1.base st1.pos j (j + 1)
    have hkle : k ≤ s.length := neEnd_le (show j + 1 ≤ s.length by omega)
    have hle := hs.le
    have hsrc : slice s j (k - j) = slice new st1.pos (k - j) := by
      rw [hs.block (by omega), hpos1]
    have hlen : (slice s j (k - j)).length = k - j := length_slice (by omega)
    have h2 : SinkInv new old (DeltaSink.passNe st1 (slice s j (k - j))) := by
      rw [hsrc]
      exact h1.passNe hn (by rw [hpos1]; omega) (by omega)
    refine ih h2 ?_ hkle
    show st1.pos + (slice s j (k - j)).length = p + k
    rw [hlen, hpos1]
    omega
  | case3 st i hge => exact ⟨h, by omega⟩

theorem SinkInv.feed {new old s : Bytes} {st : DeltaSink} (h : SinkInv new old st)
    (hn : new.length = old.length) (hs : PieceAt new s st.pos) :
    SinkInv new old (feed st s) ∧ (feed st s).pos = st.pos + s.length := by
  have hle := hs.le
  have hfits : ¬ (st.overflow = true ∨ st.baseLen < st.pos + s.length) := by
    rw [h.overflow, h.baseLen]
    rintro (hf | hf)
    · exact absurd hf (by decide)
    · omega
  unfold DeltaSink.feed
  rw [if_neg hfits]
  exact h.feedLoop hn hs rfl (Nat.zero_le _)

/-- All pieces of the new snapshot, one after the other. -/
theorem SinkInv.feedAll {new old : Bytes} {st : DeltaSink} (h : SinkInv new old st)
    (hn : new.length = old.length) (chunks : List Bytes)
    (hch : slice new st.pos chunks.flatten.length = chunks.flatten)
    (hle : st.pos + chunks.flatten.length ≤ new.length) :
    SinkInv new old (chunks.foldl DeltaSink.feed st) ∧
      (chunks.foldl DeltaSink.feed st).pos = st.pos + chunks.flatten.length := by
  induction chunks generalizing st with
  | nil => exact ⟨h, rfl⟩
  | cons s rest ih =>
    rw [List.flatten_cons, List.length_append] at hch hle
    rw [slice_add] at hch
    have hlen : (slice new st.pos s.length).length = s.length := length_slice (by omega)
    obtain ⟨hs, hrest⟩ := List.append_inj hch hlen
    obtain ⟨h1, hpos⟩ := h.feed hn ⟨by omega, hs⟩
    obtain ⟨h2, hpos2⟩ := ih h1 (by rw [hpos]; exact hrest) (by omega)
    refine ⟨h2, hpos2.trans ?_⟩
    rw [hpos, List.flatten_cons, List.length_append, Nat.add_assoc]

/-! ## Section 5: The end -/

/-- When everything has come in, `finish` succeeds: `base` is the new
    snapshot and `out` describes the old one. -/
theorem SinkInv.finish {new old : Bytes} {st : DeltaSink} (h : SinkInv new old st)
    (hn : new.length = old.length) (hpos : st.pos = old.length) :
    ∃ st', finish st = some st' ∧ st'.base = new ∧ Written new old st'.out old.length := by
  obtain ⟨r, hw, ho⟩ := h.run
  have hsum := ho.pos_eq
  have hbase : st.base = new := by rw [h.base, hpos, splice_length hn]
  have hok : ¬ (st.overflow = true ∨ st.pos ≠ st.baseLen) := by
    rw [h.overflow, h.baseLen, hpos]
    simp
  unfold DeltaSink.finish
  rw [if_neg hok]
  by_cases hd : st.diff = []
  · -- only an equal run is open
    have hpend := ho.idle hd
    rw [if_neg (not_not.mpr hd)]
    refine ⟨_, rfl, ?_⟩
    have hr : r + st.same + st.diff.length = old.length := by omega
    split_ifs with hs
    · refine ⟨hbase, ?_⟩
      rw [← hr]
      exact hw.pair st ho.same ho.diff (by omega) (by omega)
    · refine ⟨hbase, ?_⟩
      rw [show old.length = r by rw [hd, List.length_nil] at hr; omega]
      exact hw
  · have hlen : 0 < st.diff.length := List.length_pos_iff.mpr hd
    have hw1 := hw.pair st ho.same ho.diff (by omega) (by omega)
    rw [if_pos hd]
    refine ⟨_, rfl, ?_⟩
    split_ifs with hp
    · -- the pending gap is the last record, with nothing literal
      have hp : 0 < st.pendEq := Nat.pos_of_ne_zero hp
      refine ⟨hbase, ?_⟩
      rw [show old.length = r + st.same + st.diff.length + st.pendEq + 0 by omega]
      refine Written.pair { DeltaSink.pair st with same := st.pendEq } hw1 ho.pend ?_ ?_ ?_
      · simp [DeltaSink.pair, slice]
      · exact ho.pend.old_le
      · show 0 < st.pendEq + 0
        omega
    · have hp : st.pendEq = 0 := not_not.mp hp
      refine ⟨hbase, ?_⟩
      rw [show old.length = r + st.same + st.diff.length by omega]
      exact hw1

end DeltaSink

end Rewind
