import Kestrel64.Rewind.DeltaSink

/-! # Rewind: Cutting the New Snapshot

    The machine serialises itself in hundreds of fields of all sizes, and each
    of them is one call of `feed`. What the sink emits does not depend on
    where the cuts are: `feed` does to a piece what `byteStep` does to its
    bytes, one after the other, whatever stride found the equal runs.

    * Two equal runs in a row are one (`passEq_passEq`), two different runs
      in a row are one (`passNe_append`).
    * So one turn of the loop of `feed` is a fold of `byteStep` over its equal
      and its different run, and so is the whole loop (`feedLoop_eq_foldl`).
    * A fold over the pieces is a fold over their bytes (`feedAll_eq_foldl`).

    `writesOf` lists what the sink writes over `base`, for any pieces at all.
-/

namespace Rewind

open Patch

namespace DeltaSink

/-! ## Section 1: One byte -/

/-- What `feed` does with one byte. -/
def byteStep (st : DeltaSink) (b : Byte) : DeltaSink :=
  if slice st.base st.pos 1 = [b] then passEq st 1 else passNe st [b]

@[simp] theorem passEq_base (st : DeltaSink) (n : Nat) : (passEq st n).base = st.base := by
  unfold passEq eq pair
  split_ifs <;> rfl

@[simp] theorem passEq_pos (st : DeltaSink) (n : Nat) : (passEq st n).pos = st.pos + n := rfl

@[simp] theorem passNe_pos (st : DeltaSink) (s : Bytes) :
    (passNe st s).pos = st.pos + s.length := rfl

@[simp] theorem flush_base (st : DeltaSink) : (flush st).base = st.base := by
  unfold flush
  split_ifs <;> rfl

@[simp] theorem flush_pos (st : DeltaSink) : (flush st).pos = st.pos := by
  unfold flush
  split_ifs <;> rfl

@[simp] theorem passNe_base (st : DeltaSink) (s : Bytes) :
    (passNe st s).base = overwrite st.base st.pos s := by
  simp [passNe, ne]

@[simp] theorem passEq_baseLen (st : DeltaSink) (n : Nat) :
    (passEq st n).baseLen = st.baseLen := by
  unfold passEq eq pair
  split_ifs <;> rfl

@[simp] theorem passNe_baseLen (st : DeltaSink) (s : Bytes) :
    (passNe st s).baseLen = st.baseLen := by
  unfold passNe ne flush
  split_ifs <;> rfl

@[simp] theorem passEq_overflow (st : DeltaSink) (n : Nat) :
    (passEq st n).overflow = st.overflow := by
  unfold passEq eq pair
  split_ifs <;> rfl

@[simp] theorem passNe_overflow (st : DeltaSink) (s : Bytes) :
    (passNe st s).overflow = st.overflow := by
  unfold passNe ne flush
  split_ifs <;> rfl

/-- Two equal runs in a row are one: whether the gap closes a different run
    depends on their sum. -/
theorem passEq_passEq (st : DeltaSink) (m n : Nat) :
    passEq (passEq st m) n = passEq st (m + n) := by
  unfold passEq eq
  by_cases hd : st.diff = []
  · simp [hd, Nat.add_assoc]
  · by_cases hm : st.pendEq + m < kGap
    · by_cases hn : st.pendEq + (m + n) < kGap
      · simp [hd, hm, hn, Nat.add_assoc]
      · simp [hd, hm, hn, Nat.add_assoc, pair]
    · have hn : ¬ st.pendEq + (m + n) < kGap := by omega
      simp [hd, hm, hn, Nat.add_assoc, pair]

theorem flush_pendEq (st : DeltaSink) : (flush st).pendEq = 0 := by
  unfold flush
  split_ifs with h
  · rfl
  · exact not_not.mp h

/-- Nothing is left to flush right after a different run. -/
theorem flush_passNe (st : DeltaSink) (s : Bytes) : flush (passNe st s) = passNe st s := by
  have h : (passNe st s).pendEq = 0 := flush_pendEq st
  rw [flush, if_neg (not_not.mpr h)]

/-- Two different runs in a row are one: the second is compared with bytes the
    first has not overwritten. -/
theorem passNe_append (st : DeltaSink) (s t : Bytes) (h : st.pos + s.length ≤ st.base.length) :
    passNe (passNe st s) t = passNe st (s ++ t) := by
  have hafter := slice_overwrite_after (j := st.pos + s.length) (n := t.length) h (Nat.le_refl _)
  have happ := overwrite_append (b := t) h
  conv_lhs => rw [passNe, ne, flush_passNe]
  simp only [passNe_base, passNe_pos, hafter, happ]
  simp only [passNe, ne, flush_base, flush_pos, List.length_append, slice_add,
    List.append_assoc, Nat.add_assoc]

/-! ## Section 2: Runs of bytes -/

/-- Bytes equal to those of `base` are one equal run. -/
theorem foldl_eq {st : DeltaSink} {s : Bytes} (hs : s ≠ [])
    (heq : slice st.base st.pos s.length = s) : s.foldl byteStep st = passEq st s.length := by
  induction s generalizing st with
  | nil => exact absurd rfl hs
  | cons b s ih =>
    rw [List.length_cons, Nat.add_comm, slice_add] at heq
    have hlen : (slice st.base st.pos 1).length = 1 := by
      have := congrArg List.length heq
      rw [List.length_append, List.length_cons] at this
      have h1 : (slice st.base st.pos 1).length ≤ 1 := by simp [slice]
      have h2 : (slice st.base (st.pos + 1) s.length).length ≤ s.length := by simp [slice]
      omega
    obtain ⟨hb, hrest⟩ := List.append_inj (heq.trans (List.singleton_append).symm) hlen
    have hstep : byteStep st b = passEq st 1 := if_pos hb
    rw [List.foldl_cons, hstep]
    by_cases hnil : s = []
    · rw [hnil]
      rfl
    · rw [ih hnil (by simpa using hrest), passEq_passEq, List.length_cons, Nat.add_comm]

/-- Bytes that all differ from those of `base` are one different run. -/
theorem foldl_ne {st : DeltaSink} {s : Bytes} (hs : s ≠ [])
    (hfit : st.pos + s.length ≤ st.base.length)
    (hne : ∀ j < s.length, slice s j 1 ≠ slice st.base (st.pos + j) 1) :
    s.foldl byteStep st = passNe st s := by
  induction s generalizing st with
  | nil => exact absurd rfl hs
  | cons b s ih =>
    rw [List.length_cons] at hfit hne
    have hstep : byteStep st b = passNe st [b] :=
      if_neg fun h => hne 0 (by omega) (by simpa [slice] using h.symm)
    rw [List.foldl_cons, hstep]
    by_cases hnil : s = []
    · rw [hnil]
      rfl
    · have hfit1 : st.pos + [b].length ≤ st.base.length := by
        rw [List.length_singleton]
        omega
      rw [ih hnil ?_ ?_, passNe_append st [b] s hfit1]
      · rfl
      · rw [passNe_base, length_overwrite hfit1, passNe_pos, List.length_singleton]
        omega
      · intro j hj
        rw [passNe_base, passNe_pos, slice_overwrite_after hfit1 (by omega),
          List.length_singleton, Nat.add_assoc, Nat.add_comm 1 j]
        exact hne (j + 1) (by omega)

/-! ## Section 3: The loop of feed -/

theorem drop_eq_slice_append {s : Bytes} {i j : Nat} (h : i ≤ j) :
    s.drop i = slice s i (j - i) ++ s.drop j := by
  unfold slice
  conv_lhs => rw [← List.take_append_drop (j - i) (s.drop i)]
  rw [List.drop_drop, show i + (j - i) = j by omega]

theorem skip_stop (k : Nat) [NeZero k] (s base : Bytes) (pos i j : Nat) :
    ¬ (skip k s base pos i j + k ≤ s.length ∧
      slice s (skip k s base pos i j) k = slice base (pos + (skip k s base pos i j - i)) k) := by
  fun_induction skip k s base pos i j with
  | case1 j _ ih => exact ih
  | case2 j h => exact h

/-- The equal run stops only at the end of the piece or at a different
    byte: the last stride is of one byte. -/
theorem eqEnd_stop {s base : Bytes} {pos i : Nat} (h : eqEnd s base pos i < s.length) :
    slice s (eqEnd s base pos i) 1 ≠ slice base (pos + (eqEnd s base pos i - i)) 1 :=
  fun heq => skip_stop 1 s base pos i _ ⟨h, heq⟩

theorem neEnd_ne {s base : Bytes} {pos i k m : Nat} (hk : k ≤ m)
    (hm : m < neEnd s base pos i k) : slice s m 1 ≠ slice base (pos + (m - i)) 1 := by
  fun_induction neEnd s base pos i k with
  | case1 k h ih =>
    by_cases hkm : k = m
    · rw [← hkm]
      exact h.2
    · exact ih (by omega) hm
  | case2 k _ => omega

/-- The equal run of one turn moves the position and leaves `base`. -/
theorem eqTurn_frame {st : DeltaSink} {i j : Nat} (hij : i ≤ j) (st1 : DeltaSink)
    (h : st1 = if i < j then passEq st (j - i) else st) :
    st1.base = st.base ∧ st1.pos = st.pos + (j - i) ∧ st1.baseLen = st.baseLen ∧
      st1.overflow = st.overflow := by
  rw [h]
  split_ifs
  · simp
  · exact ⟨rfl, by omega, rfl, rfl⟩

/-- The equal run of one turn, byte by byte. -/
theorem foldl_eqTurn {st : DeltaSink} {s : Bytes} {i : Nat} (hi : i ≤ s.length) :
    (if i < eqEnd s st.base st.pos i then passEq st (eqEnd s st.base st.pos i - i) else st) =
      (slice s i (eqEnd s st.base st.pos i - i)).foldl byteStep st := by
  obtain ⟨hle, heq⟩ := eqEnd_spec st.base st.pos hi
  generalize eqEnd s st.base st.pos i = j at hle heq ⊢
  split_ifs with hij
  · have hlen : (slice s i (j - i)).length = j - i := length_slice (by omega)
    rw [foldl_eq, hlen]
    · intro hnil
      rw [hnil, List.length_nil] at hlen
      omega
    · rw [hlen, ← heq]
  · rw [show j - i = 0 by omega]
    simp [slice]

/-- The loop of `feed` takes its piece in byte by byte. -/
theorem feedLoop_eq_foldl {st : DeltaSink} {s : Bytes} {i : Nat} (hi : i ≤ s.length)
    (hfit : st.pos + (s.length - i) ≤ st.base.length) :
    feedLoop st s i = (s.drop i).foldl byteStep st := by
  fun_induction feedLoop st s i with
  | case1 st i hlt j st1 hj =>
    have hjle : j ≤ s.length := (eqEnd_spec _ _ hi).1
    have hst1 : st1 = (slice s i (j - i)).foldl byteStep st := foldl_eqTurn hi
    rw [drop_eq_slice_append (eqEnd_ge s st.base st.pos i), List.foldl_append, ← hst1,
      List.drop_eq_nil_of_le hj]
    rfl
  | case2 st i hlt j st1 hj k ih =>
    have hij : i ≤ j := eqEnd_ge s st.base st.pos i
    have hjk : j + 1 ≤ k := neEnd_ge s st1.base st1.pos j (j + 1)
    have hkle : k ≤ s.length := neEnd_le (show j + 1 ≤ s.length by omega)
    have hst1 : st1 = (slice s i (j - i)).foldl byteStep st := foldl_eqTurn hi
    obtain ⟨hbase1, hpos1, -, -⟩ := eqTurn_frame hij st1 rfl
    have hlen : (slice s j (k - j)).length = k - j := length_slice (by omega)
    have hfit1 : st1.pos + (slice s j (k - j)).length ≤ st1.base.length := by
      rw [hbase1, hpos1, hlen]
      omega
    have hrun : passNe st1 (slice s j (k - j)) = (slice s j (k - j)).foldl byteStep st1 := by
      refine (foldl_ne ?_ hfit1 fun m hm => ?_).symm
      · intro hnil
        rw [hnil, List.length_nil] at hlen
        omega
      · -- byte `j` ended the equal run, the others were found by `neEnd`
        rw [hlen] at hm
        have hblock : slice (slice s j (k - j)) m 1 = slice s (j + m) 1 := by
          unfold slice
          rw [List.drop_take, List.take_take, List.drop_drop, Nat.min_eq_left (by omega)]
        rw [hblock]
        cases m with
        | zero =>
          rw [hbase1, hpos1]
          exact eqEnd_stop (show j < s.length by omega)
        | succ m =>
          have := neEnd_ne (m := j + (m + 1)) (by omega) (show j + (m + 1) < k by omega)
          rwa [show j + (m + 1) - j = m + 1 by omega] at this
    rw [ih hkle ?_, drop_eq_slice_append hij, List.foldl_append, ← hst1,
      drop_eq_slice_append (Nat.le_of_succ_le hjk), List.foldl_append, ← hrun]
    rw [passNe_base, passNe_pos, length_overwrite hfit1, hbase1, hpos1, hlen]
    omega
  | case3 st i hge =>
    rw [List.drop_eq_nil_of_le (by omega)]
    rfl

/-! ## Section 4: What stays, what is written -/

/-- The blocks the loop of `feed` writes over `base`: position and bytes. -/
def feedLoopWrites (st : DeltaSink) (s : Bytes) (i : Nat) : List (Nat × Bytes) :=
  if i < s.length then
    let j := eqEnd s st.base st.pos i
    let st := if i < j then passEq st (j - i) else st
    if s.length ≤ j then []
    else
      let k := neEnd s st.base st.pos j (j + 1)
      let src := slice s j (k - j)
      (st.pos, src) :: feedLoopWrites (passNe st src) s k
  else []
termination_by s.length - i
decreasing_by exact turn_lt ‹_›

/-- The blocks that any pieces at all make the sink write. -/
def writesOf (st : DeltaSink) : List Bytes → List (Nat × Bytes)
  | [] => []
  | s :: chunks =>
    (if st.overflow ∨ st.baseLen < st.pos + s.length then [] else feedLoopWrites st s 0) ++
      writesOf (feed st s) chunks

def write (base : Bytes) (w : Nat × Bytes) : Bytes := overwrite base w.1 w.2

theorem length_writes (ws : List (Nat × Bytes)) (base : Bytes)
    (h : ∀ w ∈ ws, w.1 + w.2.length ≤ base.length) :
    (ws.foldl write base).length = base.length := by
  induction ws generalizing base with
  | nil => rfl
  | cons w ws ih =>
    rw [List.forall_mem_cons] at h
    have hw : (write base w).length = base.length := length_overwrite h.1
    rw [List.foldl_cons, ih (write base w) (by rw [hw]; exact h.2), hw]

/-- What the loop of `feed` does besides the delta: it moves to the end of the
    piece, and it changes `base` by blocks below that. -/
structure Fed (st : DeltaSink) (n : Nat) (ws : List (Nat × Bytes)) (st' : DeltaSink) : Prop where
  pos : st'.pos = st.pos + n
  baseLen : st'.baseLen = st.baseLen
  overflow : st'.overflow = st.overflow
  base : st'.base = ws.foldl write st.base
  bounds : ∀ w ∈ ws, w.1 + w.2.length ≤ st.pos + n

theorem feedLoop_fed (st : DeltaSink) (s : Bytes) (i : Nat) (hi : i ≤ s.length) :
    Fed st (s.length - i) (feedLoopWrites st s i) (feedLoop st s i) := by
  fun_induction feedLoop st s i with
  | case1 st i hlt j st1 hj =>
    have hjle : j ≤ s.length := (eqEnd_spec _ _ hi).1
    have hij : i ≤ j := eqEnd_ge s st.base st.pos i
    obtain ⟨hbase1, hpos1, hlen1, hov1⟩ := eqTurn_frame hij st1 rfl
    rw [feedLoopWrites, if_pos hlt]
    dsimp only
    rw [if_pos hj]
    exact ⟨by omega, hlen1, hov1, hbase1, by simp⟩
  | case2 st i hlt j st1 hj k ih =>
    have hij : i ≤ j := eqEnd_ge s st.base st.pos i
    have hjk : j + 1 ≤ k := neEnd_ge s st1.base st1.pos j (j + 1)
    have hkle : k ≤ s.length := neEnd_le (show j + 1 ≤ s.length by omega)
    obtain ⟨hbase1, hpos1, hlen1, hov1⟩ := eqTurn_frame hij st1 rfl
    have hlen : (slice s j (k - j)).length = k - j := length_slice (by omega)
    obtain ⟨hpos, hbl, hov, hbase, hin⟩ := ih hkle
    rw [passNe_pos, hlen, hpos1] at hpos hin
    rw [feedLoopWrites, if_pos hlt]
    dsimp only
    rw [if_neg hj]
    refine ⟨by omega, hbl.trans ((passNe_baseLen ..).trans hlen1),
      hov.trans ((passNe_overflow ..).trans hov1), ?_, ?_⟩
    · rw [hbase, List.foldl_cons, passNe_base, hbase1]
      rfl
    · rw [List.forall_mem_cons]
      refine ⟨?_, fun w hw => (hin w hw).trans (by omega)⟩
      show st1.pos + (slice s j (k - j)).length ≤ _
      rw [hpos1, hlen]
      omega
  | case3 st i hge =>
    rw [feedLoopWrites, if_neg hge]
    exact ⟨by omega, rfl, rfl, rfl, by simp⟩

/-- Any pieces at all: every write lands below `baseLen`. -/
theorem feedAll_writes (st : DeltaSink) (chunks : List Bytes) :
    (chunks.foldl feed st).baseLen = st.baseLen ∧
    (chunks.foldl feed st).base = (writesOf st chunks).foldl write st.base ∧
    ∀ w ∈ writesOf st chunks, w.1 + w.2.length ≤ st.baseLen := by
  induction chunks generalizing st with
  | nil => exact ⟨rfl, rfl, by simp [writesOf]⟩
  | cons s chunks ih =>
    obtain ⟨hlen, hbase, hin⟩ := ih (feed st s)
    rw [List.foldl_cons, writesOf]
    by_cases hov : st.overflow = true ∨ st.baseLen < st.pos + s.length
    · -- the piece does not fit: nothing is written
      have hfeed : feed st s = { st with overflow := true } := if_pos hov
      rw [hfeed] at hlen hbase hin ⊢
      rw [if_pos hov, List.nil_append]
      exact ⟨hlen, hbase, hin⟩
    · have hfeed : feed st s = feedLoop st s 0 := if_neg hov
      have hfed := feedLoop_fed st s 0 (Nat.zero_le _)
      rw [hfeed, hfed.baseLen] at hlen hin
      rw [hfeed, hfed.base] at hbase
      rw [hfeed, if_neg hov]
      refine ⟨hlen, by rw [List.foldl_append]; exact hbase, fun w hw => ?_⟩
      rcases List.mem_append.mp hw with hw | hw
      · have := hfed.bounds w hw
        push Not at hov
        omega
      · exact hin w hw

/-- Either some piece did not fit, or the position is the total. -/
theorem feedAll_pos (st : DeltaSink) (chunks : List Bytes) :
    (chunks.foldl feed st).overflow = true ∨
      (chunks.foldl feed st).pos = st.pos + chunks.flatten.length := by
  induction chunks generalizing st with
  | nil => exact .inr rfl
  | cons s chunks ih =>
    rw [List.foldl_cons, List.flatten_cons, List.length_append]
    by_cases hov : st.overflow = true ∨ st.baseLen < st.pos + s.length
    · -- the flag sticks
      left
      have hfeed : (feed st s).overflow = true := by rw [feed, if_pos hov]
      generalize feed st s = t at hfeed
      clear ih hov
      induction chunks generalizing t with
      | nil => exact hfeed
      | cons s' chunks ih => exact ih (feed t s') (by rw [feed, if_pos (.inl hfeed)])
    · have hfeed : feed st s = feedLoop st s 0 := if_neg hov
      have hfed := feedLoop_fed st s 0 (Nat.zero_le _)
      refine (ih (feed st s)).imp_right fun h => ?_
      rw [h, hfeed, hfed.pos]
      omega

/-! ## Section 5: Any way of cutting -/

/-- Pieces that fit are taken in byte by byte, whatever the cuts are. -/
theorem feedAll_eq_foldl {st : DeltaSink} {chunks : List Bytes} (hov : st.overflow = false)
    (hbl : st.baseLen = st.base.length)
    (hfit : st.pos + chunks.flatten.length ≤ st.base.length) :
    chunks.foldl feed st = chunks.flatten.foldl byteStep st := by
  induction chunks generalizing st with
  | nil => rfl
  | cons s chunks ih =>
    rw [List.flatten_cons, List.length_append] at hfit
    have hfits : ¬ (st.overflow = true ∨ st.baseLen < st.pos + s.length) := by
      rw [hov]
      simp only [Bool.false_eq_true, false_or]
      omega
    have hfeed : feed st s = s.foldl byteStep st := by
      rw [feed, if_neg hfits, feedLoop_eq_foldl (Nat.zero_le _) (by omega), List.drop_zero]
    have hfed := feedLoop_fed st s 0 (Nat.zero_le _)
    have hloop : feed st s = feedLoop st s 0 := if_neg hfits
    have hsize : (feed st s).base.length = st.base.length := by
      rw [hloop, hfed.base]
      exact length_writes _ _ fun w hw => (hfed.bounds w hw).trans (by omega)
    rw [List.foldl_cons, List.flatten_cons, List.foldl_append, ← hfeed]
    refine ih ?_ ?_ ?_
    · rw [hloop, hfed.overflow, hov]
    · rw [hsize, hloop, hfed.baseLen, hbl]
    · rw [hsize, hloop, hfed.pos]
      omega

theorem finish_of_length_ne (vieja : Bytes) {chunks : List Bytes}
    (h : chunks.flatten.length ≠ vieja.length) :
    finish (chunks.foldl feed (begin vieja)) = none := by
  have hlen : (chunks.foldl feed (begin vieja)).baseLen = vieja.length :=
    (feedAll_writes (begin vieja) chunks).1
  rw [finish, if_pos]
  refine (feedAll_pos (begin vieja) chunks).imp_right fun hpos => ?_
  rw [hpos, hlen]
  show 0 + chunks.flatten.length ≠ vieja.length
  omega

/-- **The hot delta.** However the new snapshot is cut, the sink ends with it
    in `base` and with one and the same delta, which leads back to the old
    one. Pieces of another total length are refused, and no pieces at all
    write outside `base`. -/
theorem hotDelta_any_chunks (vieja : Bytes) (hlen : vieja.length ≤ 2 ^ 31) :
    (∀ new : Bytes, new.length = vieja.length →
      ∃ delta, applyDelta new delta = some vieja ∧
        ∀ chunks : List Bytes, chunks.flatten = new →
          ∃ st, finish (chunks.foldl feed (begin vieja)) = some st ∧
            st.base = new ∧ st.out = delta) ∧
    ∀ chunks : List Bytes,
      (chunks.flatten.length ≠ vieja.length →
        finish (chunks.foldl feed (begin vieja)) = none) ∧
      (chunks.foldl feed (begin vieja)).base =
        (writesOf (begin vieja) chunks).foldl write vieja ∧
      ∀ w ∈ writesOf (begin vieja) chunks, w.1 + w.2.length ≤ vieja.length := by
  constructor
  · intro new hn
    have hinv : SinkInv new vieja (new.foldl byteStep (begin vieja)) ∧
        (new.foldl byteStep (begin vieja)).pos = vieja.length := by
      have h := (SinkInv.begin new vieja).feedAll hn [new] (by simp [begin])
        (by simp [begin])
      rw [feedAll_eq_foldl rfl rfl (by simp [begin, hn])] at h
      simpa [begin, hn] using h
    obtain ⟨st, hfin, hbase, rs, hout, hdesc⟩ := hinv.1.finish hn hinv.2
    refine ⟨st.out, hout ▸ applyDelta_encode hdesc hlen, fun chunks hch => ⟨st, ?_, hbase, rfl⟩⟩
    -- any other cut is the same fold over the bytes
    rw [feedAll_eq_foldl rfl rfl (by simp [begin, hch, hn]), hch]
    exact hfin
  · intro chunks
    obtain ⟨-, hbase, hin⟩ := feedAll_writes (begin vieja) chunks
    exact ⟨finish_of_length_ne vieja, hbase, hin⟩

/-- A different run with a short gap in it, cut inside the gap and with an
    empty piece. -/
theorem hotDelta_any_chunks_cut :
    ∃ delta, applyDelta [7, 2, 3, 9] delta = some [1, 2, 3, 4] ∧
      ∃ st, finish ([[7, 2], [], [3, 9]].foldl feed (begin [1, 2, 3, 4])) = some st ∧
        st.base = [7, 2, 3, 9] ∧ st.out = delta := by
  obtain ⟨delta, happ, hall⟩ :=
    (hotDelta_any_chunks [1, 2, 3, 4] (by decide)).1 [7, 2, 3, 9] rfl
  exact ⟨delta, happ, hall [[7, 2], [], [3, 9]] rfl⟩

end DeltaSink

end Rewind
