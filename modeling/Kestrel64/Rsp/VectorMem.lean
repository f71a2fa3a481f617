import Mathlib.Tactic.IntervalCases
import Kestrel64.Lib.RawBytes
import Kestrel64.Rsp.Control
import Kestrel64.Rsp.VectorLane

/-! # RSP: Vector Loads and Stores

    `LWC2` and `SWC2` of `rsp/rsp.cpp` for bytes, halves, words, doublewords
    and the two ends of an unaligned quadword. All but the byte and the right
    end have a fast path, which copies a range between DMEM and the register
    in words, and a loop over bytes.

    A register is an array of `u16` of the host: byte `k` of the vector is in
    byte `k ^ 1` of it. The fast path is a copy through words that swaps the
    bytes of each pair, with raw pointers: it has no result here when it
    would leave DMEM or the register.
-/

namespace Rsp

open Simd RawBytes

/-! ## Section 1: State -/

/-- DMEM, 4 KB; an address is taken modulo its size. -/
abbrev Dmem := BitVec 12 → BitVec 8

/-- What these instructions read and write. -/
structure Mem where
  r : Regs
  vpr : Fin 32 → R128
  dmem : Dmem

def Mem.setV (st : Mem) (vt : Fin 32) (V : R128) : Mem :=
  { st with vpr := fun k => if k = vt then V else st.vpr k }

/-- `rb`: `dmp[a & 0xfff]`. -/
def rb (dm : Dmem) (a : Word) : BitVec 8 := dm (a.setWidth 12)

def wb (dm : Dmem) (a : Word) (v : BitVec 8) : Dmem :=
  fun x => if x = a.setWidth 12 then v else dm x

/-- `R128::gb` -/
def gb (V : R128) (k : Nat) : BitVec 8 :=
  let v := V ⟨k / 2 % 8, by omega⟩
  if k % 2 = 1 then (v &&& 0xff).setWidth 8 else (v >>> 8).setWidth 8

/-- `R128::sb` -/
def sb (V : R128) (k : Nat) (b : BitVec 8) : R128 := fun n =>
  if n.val = k / 2 % 8 then
    if k % 2 = 1 then V n &&& 0xff00 ||| b.setWidth 16
    else V n &&& 0x00ff ||| b.setWidth 16 <<< 8
  else V n

/-! ## Section 2: The fast path -/

def laneSwap64 (x : BitVec 64) : BitVec 64 :=
  (x &&& 0x00ff00ff00ff00ff) <<< 8 ||| (x >>> 8 &&& 0x00ff00ff00ff00ff)

def laneSwap32 (x : BitVec 32) : BitVec 32 :=
  (x &&& 0x00ff00ff) <<< 8 ||| (x >>> 8 &&& 0x00ff00ff)

/-- `(u16)((w >> 8) | (w << 8))` -/
def laneSwap16 (w : BitVec 16) : BitVec 16 := w >>> 8 ||| w <<< 8

/-- `{1,0,3,2,...}` -/
def kLaneSwap : M128 := ofBytes fun k => BitVec.ofNat 8 (twin k)

/-- A whole register through `pshufb`. -/
def laneShuffle (w : BitVec (8 * 16)) : BitVec (8 * 16) :=
  word 16 (byte (shuffle_epi8 (ofBytes (byteAt w)) kLaneSwap))

/-- Load at `src + a`, swap, store at `dst + e`. -/
def moveWord (N M k : Nat) (swap : BitVec (8 * k) → BitVec (8 * k)) (src : Nat → BitVec 8)
    (a : Nat) (dst : Nat → BitVec 8) (e : Nat) : Option (Nat → BitVec 8) := do
  let w ← load N src a k
  store M dst e k (swap w)

/-- `if(n >= 2)` -/
def moveTwo (N M : Nat) (src : Nat → BitVec 8) (a : Nat) (dst : Nat → BitVec 8) (e n : Nat) :
    Option (Nat → BitVec 8) :=
  if 2 ≤ n then moveWord N M 2 laneSwap16 src a dst e else some dst

/-- `if(n >= 4)` and what follows. -/
def moveFour (N M : Nat) (src : Nat → BitVec 8) (a : Nat) (dst : Nat → BitVec 8) (e n : Nat) :
    Option (Nat → BitVec 8) :=
  if 4 ≤ n then do
    let dst ← moveWord N M 4 laneSwap32 src a dst e
    moveTwo N M src (a + 4) dst (e + 4) (n - 4)
  else moveTwo N M src a dst e n

/-- `while(n >= 8)` and what follows. -/
def moveEight (N M : Nat) (src : Nat → BitVec 8) (a : Nat) (dst : Nat → BitVec 8) (e n : Nat) :
    Option (Nat → BitVec 8) :=
  if 8 ≤ n then do
    let dst ← moveWord N M 8 laneSwap64 src a dst e
    moveEight N M src (a + 8) dst (e + 8) (n - 8)
  else moveFour N M src a dst e n
termination_by n

/-- The common body of `dmemToVec` and `vecToDmem`: `n` bytes from `src + a`,
    an array of `N`, to `dst + e`, one of `M`. -/
def laneCopy (N M : Nat) (src : Nat → BitVec 8) (a : Nat) (dst : Nat → BitVec 8) (e n : Nat) :
    Option (Nat → BitVec 8) :=
  if n = 16 then moveWord N M 16 laneShuffle src a dst e else moveEight N M src a dst e n

/-- DMEM as the array that `dmp` points to. -/
def raw (dm : Dmem) (i : Nat) : BitVec 8 := dm (BitVec.ofNat 12 i)

def dmemToVec (dm : Dmem) (a0 : Nat) (V : R128) (e n : Nat) : Option R128 :=
  (laneCopy 4096 16 (raw dm) a0 (byte V) e n).map ofBytes

def vecToDmem (dm : Dmem) (a0 : Nat) (V : R128) (e n : Nat) : Option Dmem :=
  (laneCopy 16 4096 (byte V) e (raw dm) a0 n).map fun q x => q x.toNat

def vecFast (a0 e n : Nat) : Bool := (e ||| n) &&& 1 == 0 && e + n ≤ 16 && a0 + n ≤ 0x1000

/-! ## Section 3: The loops and the instructions -/

/-- `n` turns of `V.sb(o & 15, rb(a++))`, `o` going up. -/
def loadLoop (dm : Dmem) : Nat → Nat → Word → R128 → R128
  | 0, _, _, V => V
  | n + 1, o, a, V => loadLoop dm n (o + 1) (a + 1) (sb V (o % 16) (rb dm a))

/-- `n` turns of `wb(a++, V.gb(o & 15))`, `o` going up. -/
def storeLoop (V : R128) : Nat → Nat → Word → Dmem → Dmem
  | 0, _, _, dm => dm
  | n + 1, o, a, dm => storeLoop V n (o + 1) (a + 1) (wb dm a (gb V (o % 16)))

/-- The low twelve bits, as an offset of `dmp`. -/
def low12 (a : Word) : Nat := (a &&& 0xfff).toNat

/-- `LSV`, `LLV`, `LDV`: `n` bytes, cut off at the end of the register. -/
def loadPart (vecfast : Bool) (n : Nat) (dm : Dmem) (a : Word) (V : R128) (e : Nat) :
    Option R128 :=
  let lim := if 16 < e + n then 16 - e else n
  if vecfast && vecFast (low12 a) e lim then dmemToVec dm (low12 a) V e lim
  else some (loadLoop dm (min (e + n) 16 - e) e a V)

/-- `LQV`: up to the end of the aligned quadword. -/
def loadLeft (vecfast : Bool) (dm : Dmem) (a : Word) (V : R128) (e : Nat) : Option R128 :=
  let lim := ((a ||| 15) - a).toNat
  let lim := if 15 - e < lim then 15 - e else lim
  if vecfast && vecFast (low12 a) e (lim + 1) then dmemToVec dm (low12 a) V e (lim + 1)
  else some (loadLoop dm (lim + 1) e a V)

/-- `LRV`: from the start of the aligned quadword. -/
def loadRight (dm : Dmem) (a : Word) (V : R128) (e : Nat) : R128 :=
  let start := (16 - ((a &&& 15) - BitVec.ofNat 32 e)).toNat
  loadLoop dm (16 - start) start (a &&& ~~~15) V

/-- `SSV`, `SLV`, `SDV`: the element wraps here. -/
def storePart (vecfast : Bool) (n : Nat) (dm : Dmem) (a : Word) (V : R128) (e : Nat) :
    Option Dmem :=
  if vecfast && vecFast (low12 a) e n then vecToDmem dm (low12 a) V e n
  else some (storeLoop V n e a dm)

/-- `SQV` -/
def storeLeft (vecfast : Bool) (dm : Dmem) (a : Word) (V : R128) (e : Nat) : Option Dmem :=
  let n := (16 - (a &&& 15)).toNat
  if vecfast && vecFast (low12 a) e n then vecToDmem dm (low12 a) V e n
  else some (storeLoop V n e a dm)

/-- `SRV` -/
def storeRight (dm : Dmem) (a : Word) (V : R128) (e : Nat) : Dmem :=
  let bse := (16 - (a &&& 15)).toNat
  storeLoop V (a &&& 15).toNat (e + bse) (a &&& ~~~15) dm

/-- The instructions, by the letter of their size. -/
inductive Size where
  | b
  | s
  | l
  | d
  | q
  | r
  deriving DecidableEq

/-- The bytes that the immediate counts; `2u << (sub - 1)` for `s`, `l`, `d`. -/
def Size.bytes : Size → Nat
  | b => 1
  | s => 2
  | l => 4
  | d => 8
  | q => 16
  | r => 16

/-! The fields of the opcode. -/

def ldBase (op : Word) : Fin 32 := (op.extractLsb' 21 5).toFin
def ldVt (op : Word) : Fin 32 := (op.extractLsb' 16 5).toFin
def ldE (op : Word) : Nat := (op.extractLsb' 7 4).toNat

def ldImm (op : Word) : Word :=
  let imm := op &&& 0x7f
  if imm &&& 0x40 ≠ 0 then imm - 0x80 else imm

/-- `rsv + imm * n` -/
def ldAddr (n : Size) (op : Word) (r : Regs) : Word :=
  r (ldBase op) + ldImm op * BitVec.ofNat 32 n.bytes

/-- `execLoadT` -/
def execLoadT (vecfast : Bool) (sub : Size) (op : Word) (st : Mem) : Option Mem :=
  let a := ldAddr sub op st.r
  let V := st.vpr (ldVt op)
  let e := ldE op
  let V' := match sub with
    | .b => some (sb V e (rb st.dmem a))
    | .s | .l | .d => loadPart vecfast sub.bytes st.dmem a V e
    | .q => loadLeft vecfast st.dmem a V e
    | .r => some (loadRight st.dmem a V e)
  V'.map (st.setV (ldVt op))

/-- `execStoreT` -/
def execStoreT (vecfast : Bool) (sub : Size) (op : Word) (st : Mem) : Option Mem :=
  let a := ldAddr sub op st.r
  let V := st.vpr (ldVt op)
  let e := ldE op
  let dm := match sub with
    | .b => some (wb st.dmem a (gb V e))
    | .s | .l | .d => storePart vecfast sub.bytes st.dmem a V e
    | .q => storeLeft vecfast st.dmem a V e
    | .r => some (storeRight st.dmem a V e)
  dm.map fun dm => { st with dmem := dm }

/-! ## Section 4: Bytes of a register -/

theorem byte_ofBytes (f : Nat → BitVec 8) {k : Nat} (hk : k < 16) : byte (ofBytes f) k = f k := by
  rw [byte, dif_pos hk, ofBytes]
  split_ifs with h
  · rw [show 2 * (k / 2) = k by omega]
    exact BitVec.extractLsb'_append_eq_right
  · rw [show 2 * (k / 2) + 1 = k by omega]
    exact BitVec.extractLsb'_append_eq_left

theorem gb_even (V : R128) (n : Fin 8) : gb V (2 * n) = (V n).extractLsb' 8 8 := by
  have hidx : (⟨2 * n.val / 2 % 8, by omega⟩ : Fin 8) = n := Fin.ext (by simp only; omega)
  rw [gb, if_neg (by omega), hidx]
  apply BitVec.eq_of_getLsbD_eq
  intro b hb
  simp [hb]

theorem gb_odd (V : R128) (n : Fin 8) : gb V (2 * n + 1) = (V n).extractLsb' 0 8 := by
  have hidx : (⟨(2 * n.val + 1) / 2 % 8, by omega⟩ : Fin 8) = n := Fin.ext (by simp only; omega)
  rw [gb, if_pos (by omega), hidx]
  apply BitVec.eq_of_getLsbD_eq
  intro b hb
  interval_cases b <;> simp

/-- A byte's number: a lane and a half. -/
theorem lane_cases {k : Nat} (hk : k < 16) : ∃ n : Fin 8, k = 2 * n ∨ k = 2 * n + 1 :=
  ⟨⟨k / 2, by omega⟩, by simp only; omega⟩

/-- The vector's byte `k` is the twin byte of the array. -/
theorem gb_eq (V : R128) {k : Nat} (hk : k < 16) : gb V k = byte V (twin k) := by
  obtain ⟨n, rfl | rfl⟩ := lane_cases hk
  · rw [gb_even, twin, if_pos (by omega), byte_odd]
  · rw [gb_odd, twin, if_neg (by omega), Nat.add_sub_cancel, byte_even]

theorem vec_ext {V W : R128} (h : ∀ k < 16, gb V k = gb W k) : V = W := by
  rw [← ofBytes_byte V, ← ofBytes_byte W]
  funext n
  have hbyte : ∀ k < 16, byte V k = byte W k := by
    intro k hk
    have := h (twin k) (twin_lt rfl hk)
    rwa [gb_eq _ (twin_lt rfl hk), gb_eq _ (twin_lt rfl hk), twin_twin] at this
  unfold ofBytes
  rw [hbyte _ (by omega), hbyte _ (by omega)]

/-! What `sb` makes of a lane, half by half. -/

theorem setLow_low (v : BitVec 16) (x : BitVec 8) :
    (v &&& 0xff00 ||| x.setWidth 16).extractLsb' 0 8 = x := by
  apply BitVec.eq_of_getLsbD_eq
  intro b hb
  interval_cases b <;> simp

theorem setLow_high (v : BitVec 16) (x : BitVec 8) :
    (v &&& 0xff00 ||| x.setWidth 16).extractLsb' 8 8 = v.extractLsb' 8 8 := by
  apply BitVec.eq_of_getLsbD_eq
  intro b hb
  interval_cases b <;> simp

theorem setHigh_low (v : BitVec 16) (x : BitVec 8) :
    (v &&& 0x00ff ||| x.setWidth 16 <<< 8).extractLsb' 0 8 = v.extractLsb' 0 8 := by
  apply BitVec.eq_of_getLsbD_eq
  intro b hb
  interval_cases b <;> simp

theorem setHigh_high (v : BitVec 16) (x : BitVec 8) :
    (v &&& 0x00ff ||| x.setWidth 16 <<< 8).extractLsb' 8 8 = x := by
  apply BitVec.eq_of_getLsbD_eq
  intro b hb
  interval_cases b <;> simp

theorem sb_even (V : R128) (m : Fin 8) (x : BitVec 8) :
    sb V (2 * m) x =
      fun n => if n = m then V n &&& 0x00ff ||| x.setWidth 16 <<< 8 else V n := by
  funext n
  have hlane : n.val = 2 * m.val / 2 % 8 ↔ n = m := by omega
  rw [sb, if_neg (show ¬ 2 * m.val % 2 = 1 by omega)]
  exact if_congr hlane rfl rfl

theorem sb_odd (V : R128) (m : Fin 8) (x : BitVec 8) :
    sb V (2 * m + 1) x = fun n => if n = m then V n &&& 0xff00 ||| x.setWidth 16 else V n := by
  funext n
  have hlane : n.val = (2 * m.val + 1) / 2 % 8 ↔ n = m := by omega
  rw [sb, if_pos (show (2 * m.val + 1) % 2 = 1 by omega)]
  exact if_congr hlane rfl rfl

/-- `sb` writes one byte. -/
theorem gb_sb (V : R128) {j k : Nat} (hj : j < 16) (hk : k < 16) (x : BitVec 8) :
    gb (sb V k x) j = if j = k then x else gb V j := by
  obtain ⟨n, rfl | rfl⟩ := lane_cases hj <;> obtain ⟨m, rfl | rfl⟩ := lane_cases hk
  · rw [sb_even, gb_even, gb_even]
    by_cases h : n = m
    · rw [if_pos h, if_pos (by rw [h]), setHigh_high]
    · rw [if_neg h, if_neg (by omega)]
  · rw [sb_odd, gb_even, gb_even, if_neg (show 2 * n.val ≠ 2 * m + 1 by omega)]
    by_cases h : n = m
    · rw [if_pos h, setLow_high]
    · rw [if_neg h]
  · rw [sb_even, gb_odd, gb_odd, if_neg (show 2 * n.val + 1 ≠ 2 * m by omega)]
    by_cases h : n = m
    · rw [if_pos h, setHigh_low]
    · rw [if_neg h]
  · rw [sb_odd, gb_odd, gb_odd]
    by_cases h : n = m
    · rw [if_pos h, if_pos (by rw [h]), setLow_low]
    · rw [if_neg h, if_neg (by omega)]

/-! ## Section 5: The swaps -/

theorem swap_of_bits {k : Nat} {s : BitVec (8 * k) → BitVec (8 * k)} (hk : k % 2 = 0)
    (h : ∀ w j, j < 8 * k → (s w).getLsbD j =
      if j % 16 < 8 then w.getLsbD (j + 8) else w.getLsbD (j - 8)) : Swaps s := by
  intro w i hi
  apply BitVec.eq_of_getLsbD_eq
  intro b hb
  rw [byteAt_getLsbD _ _ _ hb, byteAt_getLsbD _ _ _ hb, h w _ (by omega)]
  unfold twin
  split_ifs
  · congr 1; omega
  · omega
  · omega
  · congr 1; omega

/-- With the mask of the low byte of each pair, the two shifts swap the bytes
    of each pair. -/
theorem laneSwap_getLsbD {W : Nat} {m : BitVec W}
    (hm : ∀ j : Fin W, m.getLsbD j = decide (j.val % 16 < 8)) (w : BitVec W) {j : Nat}
    (hj : j < W) :
    ((w &&& m) <<< 8 ||| (w >>> 8 &&& m)).getLsbD j =
      if j % 16 < 8 then w.getLsbD (j + 8) else w.getLsbD (j - 8) := by
  simp only [BitVec.getLsbD_or, BitVec.getLsbD_shiftLeft, BitVec.getLsbD_and,
    BitVec.getLsbD_ushiftRight, hm ⟨j, hj⟩, hm ⟨j - 8, by omega⟩, Nat.add_comm 8 j, hj,
    decide_true]
  by_cases h : j % 16 < 8
  · -- the left shift brings a high byte, which the mask has cleared
    have hleft : ((!decide (j < 8)) && decide ((j - 8) % 16 < 8)) = false := by
      by_cases h8 : j < 8
      · simp [h8]
      · simp [show ¬ (j - 8) % 16 < 8 by omega]
    have hzero : (true && !decide (j < 8) && (w.getLsbD (j - 8) && decide ((j - 8) % 16 < 8))) =
        false := by
      rw [Bool.true_and, Bool.and_left_comm, hleft, Bool.and_false]
    rw [hzero]
    simp [h]
  · simp [h, show (j - 8) % 16 < 8 by omega, show ¬ j < 8 by omega]

theorem swaps64 : @Swaps 8 laneSwap64 := by
  apply swap_of_bits rfl
  intro w j hj
  exact laneSwap_getLsbD (by decide) w hj

theorem swaps32 : @Swaps 4 laneSwap32 := by
  apply swap_of_bits rfl
  intro w j hj
  exact laneSwap_getLsbD (by decide) w hj

theorem swaps16 : @Swaps 2 laneSwap16 := by
  apply swap_of_bits rfl
  intro w j hj
  change j < 16 at hj
  simp only [laneSwap16, BitVec.getLsbD_or, BitVec.getLsbD_shiftLeft, BitVec.getLsbD_ushiftRight,
    Nat.add_comm 8 j, hj, decide_true, Nat.mod_eq_of_lt hj]
  split_ifs with h
  · simp [h]
  · simp [h, BitVec.getLsbD_of_ge w (j + 8) (by omega)]

theorem swapsShuffle : @Swaps 16 laneShuffle := by
  intro w i hi
  have htwin : twin i < 16 := twin_lt rfl hi
  have hidx : (BitVec.ofNat 8 (twin i)).toNat = twin i := by
    rw [BitVec.toNat_ofNat]
    omega
  have hmsb : (BitVec.ofNat 8 (twin i)).msb = false := by
    rw [BitVec.msb_eq_false_iff_two_mul_lt, hidx]
    omega
  rw [laneShuffle, byteAt_word _ hi, shuffle_epi8, byte_ofBytes _ hi, kLaneSwap,
    byte_ofBytes _ hi, hmsb, hidx, Nat.mod_eq_of_lt htwin, byte_ofBytes _ htwin]
  rfl

/-! ## Section 6: The fast path copies bytes -/

theorem moveWord_copied {N M k : Nat} {s : BitVec (8 * k) → BitVec (8 * k)} (hs : Swaps s)
    (hk : k % 2 = 0) {a e : Nat} (ha : a + k ≤ N) (he : e + k ≤ M) (src p : Nat → BitVec 8) :
    ∃ q, moveWord N M k s src a p e = some q ∧ Copied src a p e k q := by
  obtain ⟨w, q, hload, hstore, hq⟩ := Copied.word hs hk ha he src p
  refine ⟨q, ?_, hq⟩
  rw [moveWord, hload]
  exact hstore

variable {N M : Nat} {src p : Nat → BitVec 8} {a e n : Nat}

theorem moveTwo_copied (hn : n % 2 = 0) (hlt : n < 4) (ha : a + n ≤ N) (he : e + n ≤ M) :
    ∃ q, moveTwo N M src a p e n = some q ∧ Copied src a p e n q := by
  unfold moveTwo
  split_ifs with h
  · obtain rfl : n = 2 := by omega
    exact moveWord_copied swaps16 rfl ha he src p
  · obtain rfl : n = 0 := by omega
    exact ⟨p, rfl, Copied.nil src p a e⟩

theorem moveFour_copied (hn : n % 2 = 0) (hlt : n < 8) (ha : a + n ≤ N) (he : e + n ≤ M) :
    ∃ q, moveFour N M src a p e n = some q ∧ Copied src a p e n q := by
  unfold moveFour
  split_ifs with h
  · obtain ⟨q, hq, hcopy⟩ := moveWord_copied swaps32 rfl (show a + 4 ≤ N by omega)
      (show e + 4 ≤ M by omega) src p
    obtain ⟨r, hr, hrest⟩ := @moveTwo_copied N M src q (a + 4) (e + 4) (n - 4)
      (by omega) (by omega) (by omega) (by omega)
    refine ⟨r, ?_, ?_⟩
    · rw [hq]; exact hr
    · have := hcopy.append rfl hrest
      rwa [show 4 + (n - 4) = n by omega] at this
  · exact moveTwo_copied hn (by omega) ha he

theorem moveEight_copied (hn : n % 2 = 0) (ha : a + n ≤ N) (he : e + n ≤ M) :
    ∃ q, moveEight N M src a p e n = some q ∧ Copied src a p e n q := by
  induction n using Nat.strong_induction_on generalizing a e p with
  | _ n ih =>
    rw [moveEight]
    split_ifs with h
    · obtain ⟨q, hq, hcopy⟩ := moveWord_copied swaps64 rfl (show a + 8 ≤ N by omega)
        (show e + 8 ≤ M by omega) src p
      obtain ⟨r, hr, hrest⟩ := ih (n - 8) (by omega) (p := q) (a := a + 8) (e := e + 8)
        (by omega) (by omega) (by omega)
      refine ⟨r, ?_, ?_⟩
      · rw [hq]; exact hr
      · have := hcopy.append rfl hrest
        rwa [show 8 + (n - 8) = n by omega] at this
    · exact moveFour_copied hn (by omega) ha he

/-- Inside both arrays the copy succeeds, whatever its length. -/
theorem laneCopy_copied (hn : n % 2 = 0) (ha : a + n ≤ N) (he : e + n ≤ M) :
    ∃ q, laneCopy N M src a p e n = some q ∧ Copied src a p e n q := by
  unfold laneCopy
  split_ifs with h
  · subst h
    exact moveWord_copied swapsShuffle rfl ha he src p
  · exact moveEight_copied hn ha he

/-! ## Section 7: The loops move the same bytes -/

theorem low12_eq (a : Word) : low12 a = (a.setWidth 12).toNat := by
  rw [low12, BitVec.toNat_and, BitVec.toNat_setWidth]
  exact Nat.and_two_pow_sub_one_eq_mod a.toNat 12

theorem succ_add_offset (a : Word) {i : Nat} (hi : 0 < i) :
    (a + 1).setWidth 12 + BitVec.ofNat 12 (i - 1) = a.setWidth 12 + BitVec.ofNat 12 i := by
  obtain ⟨i, rfl⟩ : ∃ k, i = k + 1 := ⟨i - 1, by omega⟩
  have hone : (1 : Word).setWidth 12 = BitVec.ofNat 12 1 := rfl
  rw [BitVec.setWidth_add _ _ (by omega), Nat.add_sub_cancel, BitVec.ofNat_add, hone,
    BitVec.add_assoc, BitVec.add_comm (BitVec.ofNat 12 1)]

/-- Byte `j` of the register comes from `j - o` places up. -/
theorem gb_loadLoop (dm : Dmem) (n : Nat) : ∀ (o : Nat) (a : Word) (V : R128), o + n ≤ 16 →
    ∀ {j : Nat}, j < 16 → gb (loadLoop dm n o a V) j =
      if o ≤ j ∧ j < o + n then dm (a.setWidth 12 + BitVec.ofNat 12 (j - o)) else gb V j := by
  induction n with
  | zero =>
    intro o a V _ j _
    rw [loadLoop, if_neg (by omega)]
  | succ n ih =>
    intro o a V ho j hj
    rw [loadLoop, ih (o + 1) (a + 1) _ (by omega) hj, gb_sb _ hj (by omega),
      Nat.mod_eq_of_lt (show o < 16 by omega)]
    by_cases h1 : o + 1 ≤ j ∧ j < o + 1 + n
    · rw [if_pos h1, if_pos (by omega), ← succ_add_offset a (by omega),
        show j - o - 1 = j - (o + 1) by omega]
    · rw [if_neg h1]
      by_cases h2 : j = o
      · subst h2
        rw [if_pos rfl, if_pos (by omega), Nat.sub_self, rb]
        simp
      · rw [if_neg h2, if_neg (by omega)]

/-- How far `x` is above `a`, modulo 4096. -/
def above (a : Word) (x : BitVec 12) : Nat := (x - a.setWidth 12).toNat

theorem above_add (a : Word) {c : Nat} (hc : c ≤ 4096) (x : BitVec 12) :
    above (a + BitVec.ofNat 32 c) x =
      if c ≤ above a x then above a x - c else above a x + 4096 - c := by
  have hlow : ((a + BitVec.ofNat 32 c).setWidth 12).toNat = (a.toNat + c) % 4096 := by
    rw [BitVec.toNat_setWidth, BitVec.toNat_add, BitVec.toNat_ofNat]
    omega
  have hlow' : (a.setWidth 12).toNat = a.toNat % 4096 := BitVec.toNat_setWidth ..
  have hx := x.isLt
  unfold above
  rw [BitVec.toNat_sub, BitVec.toNat_sub, hlow, hlow']
  split_ifs <;> omega

theorem above_succ (a : Word) (x : BitVec 12) :
    above (a + 1) x = if above a x = 0 then 4095 else above a x - 1 := by
  rw [show a + 1 = a + BitVec.ofNat 32 1 from rfl, above_add a (by omega)]
  split_ifs <;> omega

/-- Byte `x` of DMEM comes from as many places up in the register. -/
theorem storeLoop_at (V : R128) (n : Nat) : ∀ (o : Nat) (a : Word) (dm : Dmem), n < 4096 →
    ∀ x, storeLoop V n o a dm x = if above a x < n then gb V ((o + above a x) % 16) else dm x := by
  induction n with
  | zero =>
    intro o a dm _ x
    rw [storeLoop, if_neg (by omega)]
  | succ n ih =>
    intro o a dm hn x
    rw [storeLoop, ih (o + 1) (a + 1) _ (by omega), above_succ]
    by_cases h0 : above a x = 0
    · have hx : x = a.setWidth 12 := by
        have : x - a.setWidth 12 = 0 := BitVec.eq_of_toNat_eq h0
        rw [← sub_eq_zero]
        exact this
      rw [if_pos h0, if_neg (by omega), if_pos (by omega), wb, if_pos hx, h0, Nat.add_zero]
    · have hx : x ≠ a.setWidth 12 := by
        rintro rfl
        apply h0
        simp [above]
      rw [if_neg h0, wb, if_neg hx, show o + 1 + (above a x - 1) = o + above a x by omega]
      by_cases h1 : above a x < n + 1
      · rw [if_pos h1, if_pos (by omega)]
      · rw [if_neg h1, if_neg (by omega)]

theorem vecFast_spec {a0 e n : Nat} (h : vecFast a0 e n = true) :
    e % 2 = 0 ∧ n % 2 = 0 ∧ e + n ≤ 16 ∧ a0 + n ≤ 4096 := by
  simp only [vecFast, Bool.and_eq_true, decide_eq_true_eq, beq_iff_eq] at h
  obtain ⟨⟨hpar, hreg⟩, hmem⟩ := h
  have hor : ¬ (e ||| n) % 2 = 1 := by
    rw [← Nat.and_one_is_mod, hpar]
    omega
  rw [Nat.or_mod_two_eq_one] at hor
  omega

theorem raw_low12 (dm : Dmem) (a : Word) (i : Nat) :
    raw dm (low12 a + i) = dm (a.setWidth 12 + BitVec.ofNat 12 i) := by
  rw [raw, low12_eq, BitVec.ofNat_add, BitVec.ofNat_toNat, BitVec.setWidth_eq]

/-- Where the fast path is taken it computes what the loop does. -/
theorem dmemToVec_eq {a : Word} {e n : Nat} (h : vecFast (low12 a) e n = true) (dm : Dmem)
    (V : R128) : dmemToVec dm (low12 a) V e n = some (loadLoop dm n e a V) := by
  obtain ⟨he, hn, hreg, hmem⟩ := vecFast_spec h
  obtain ⟨q, hq, hcopy⟩ := @laneCopy_copied _ _ (raw dm) (byte V) _ _ _ hn hmem hreg
  rw [dmemToVec, hq, Option.map_some]
  congr 1
  apply vec_ext
  intro k hk
  have htwin := twin_lt (show 16 % 2 = 0 from rfl) hk
  rw [gb_loadLoop dm n e a V hreg hk, gb_eq _ hk, byte_ofBytes _ htwin, hcopy, gb_eq V hk]
  by_cases hin : e ≤ k ∧ k < e + n
  · obtain ⟨i, rfl⟩ := Nat.exists_eq_add_of_le hin.1
    have hi : twin i < n := twin_lt hn (by omega)
    rw [twin_add he, if_pos (by omega), if_pos hin, Nat.add_sub_cancel_left, twin_twin,
      Nat.add_sub_cancel_left, raw_low12]
  · rw [if_neg hin, if_neg]
    unfold twin
    split <;> omega

theorem vecToDmem_eq {a : Word} {e n : Nat} (h : vecFast (low12 a) e n = true) (dm : Dmem)
    (V : R128) : vecToDmem dm (low12 a) V e n = some (storeLoop V n e a dm) := by
  obtain ⟨he, hn, hreg, hmem⟩ := vecFast_spec h
  obtain ⟨q, hq, hcopy⟩ := @laneCopy_copied _ _ (byte V) (raw dm) _ _ _ hn hreg hmem
  rw [vecToDmem, hq, Option.map_some]
  congr 1
  funext x
  rw [storeLoop_at V n e a dm (by omega), hcopy]
  have habove : low12 a ≤ x.toNat ∧ x.toNat < low12 a + n ↔ above a x < n := by
    rw [low12_eq] at hmem ⊢
    rw [above, BitVec.toNat_sub]
    have := x.isLt
    omega
  by_cases hin : above a x < n
  · obtain ⟨hlo, -⟩ := habove.mpr hin
    have hval : x.toNat - low12 a = above a x := by
      rw [low12_eq] at hlo ⊢
      rw [above, BitVec.toNat_sub]
      have := x.isLt
      omega
    rw [if_pos (habove.mpr hin), if_pos hin, hval, Nat.mod_eq_of_lt (by omega),
      gb_eq _ (by omega), twin_add he]
  · rw [if_neg (mt habove.mp hin), if_neg hin, raw, BitVec.ofNat_toNat, BitVec.setWidth_eq]

/-! ## Section 8: The instructions -/

theorem loadPart_eq (vecfast : Bool) (n : Nat) (dm : Dmem) (a : Word) (V : R128) {e : Nat}
    (he : e < 16) : loadPart vecfast n dm a V e = some (loadLoop dm (min (e + n) 16 - e) e a V) := by
  unfold loadPart
  have hlim : (if 16 < e + n then 16 - e else n) = min (e + n) 16 - e := by
    split_ifs <;> omega
  simp only [hlim]
  split_ifs with h
  · rw [Bool.and_eq_true] at h
    exact dmemToVec_eq h.2 dm V
  · rfl

/-- How many bytes `LQV` loads. -/
def leftCount (a : Word) (e : Nat) : Nat := min (15 - e) ((a ||| 15) - a).toNat + 1

theorem loadLeft_eq (vecfast : Bool) (dm : Dmem) (a : Word) (V : R128) (e : Nat) :
    loadLeft vecfast dm a V e = some (loadLoop dm (leftCount a e) e a V) := by
  unfold loadLeft
  have hlim : (if 15 - e < ((a ||| 15) - a).toNat then 15 - e else ((a ||| 15) - a).toNat) + 1 =
      leftCount a e := by
    unfold leftCount
    split_ifs <;> omega
  simp only [hlim]
  split_ifs with h
  · rw [Bool.and_eq_true] at h
    exact dmemToVec_eq h.2 dm V
  · rfl

theorem storePart_eq (vecfast : Bool) (n : Nat) (dm : Dmem) (a : Word) (V : R128) (e : Nat) :
    storePart vecfast n dm a V e = some (storeLoop V n e a dm) := by
  unfold storePart
  split_ifs with h
  · rw [Bool.and_eq_true] at h
    exact vecToDmem_eq h.2 dm V
  · rfl

theorem storeLeft_eq (vecfast : Bool) (dm : Dmem) (a : Word) (V : R128) (e : Nat) :
    storeLeft vecfast dm a V e = some (storeLoop V (16 - (a &&& 15)).toNat e a dm) := by
  unfold storeLeft
  dsimp only
  split_ifs with h
  · rw [Bool.and_eq_true] at h
    exact vecToDmem_eq h.2 dm V
  · rfl

theorem ldE_lt (op : Word) : ldE op < 16 := (op.extractLsb' 7 4).isLt

/-- Both paths load the same. -/
theorem execLoadT_agree (sub : Size) (op : Word) (st : Mem) :
    ∃ st', execLoadT true sub op st = some st' ∧ execLoadT false sub op st = some st' := by
  unfold execLoadT
  cases sub with
  | b => exact ⟨_, rfl, rfl⟩
  | s | l | d =>
    simp only [loadPart_eq _ _ _ _ _ (ldE_lt op), Option.map_some]
    exact ⟨_, rfl, rfl⟩
  | q =>
    simp only [loadLeft_eq, Option.map_some]
    exact ⟨_, rfl, rfl⟩
  | r => exact ⟨_, rfl, rfl⟩

theorem execStoreT_agree (sub : Size) (op : Word) (st : Mem) :
    ∃ st', execStoreT true sub op st = some st' ∧ execStoreT false sub op st = some st' := by
  unfold execStoreT
  cases sub with
  | b => exact ⟨_, rfl, rfl⟩
  | s | l | d =>
    simp only [storePart_eq, Option.map_some]
    exact ⟨_, rfl, rfl⟩
  | q =>
    simp only [storeLeft_eq, Option.map_some]
    exact ⟨_, rfl, rfl⟩
  | r => exact ⟨_, rfl, rfl⟩

/-! ## Section 9: The two ends of a quadword -/

theorem and15 (a : Word) : (a &&& 15).toNat = a.toNat % 16 := by
  rw [BitVec.toNat_and]
  exact Nat.and_two_pow_sub_one_eq_mod a.toNat 4

theorem or15_sub (a : Word) : ((a ||| 15) - a).toNat = 15 - a.toNat % 16 := by
  have hdiv : (a ||| 15).toNat / 16 = a.toNat / 16 := by
    rw [BitVec.toNat_or]
    change (a.toNat ||| 15) / 2 ^ 4 = _
    rw [Nat.or_div_two_pow]
    exact Nat.or_zero _
  have hmod : (a ||| 15).toNat % 16 = 15 := by
    rw [BitVec.toNat_or]
    change (a.toNat ||| 15) % 2 ^ 4 = _
    rw [Nat.or_mod_two_pow]
    have : ∀ k : Fin 16, k.val ||| 15 % 2 ^ 4 = 15 := by decide
    exact this ⟨a.toNat % 2 ^ 4, Nat.mod_lt _ (by omega)⟩
  rw [BitVec.toNat_sub]
  have := a.isLt
  have := (a ||| 15).isLt
  omega

theorem sixteen_sub_and15 (a : Word) : (16 - (a &&& 15)).toNat = 16 - a.toNat % 16 := by
  have h16 : (16 : Word).toNat = 16 := rfl
  rw [BitVec.toNat_sub, and15, h16]
  omega

/-- The quadword after the one that `a` is in. -/
theorem next_quadword (a : Word) :
    (a + 16) &&& ~~~15 = a + BitVec.ofNat 32 (16 - a.toNat % 16) := by
  have h16 : (16 : Word).toNat = 16 := rfl
  have hadd : (a + 16).toNat % 16 = a.toNat % 16 := by
    rw [BitVec.toNat_add, h16]
    omega
  have hdiv : ((a + 16) &&& ~~~15).toNat / 16 = (a + 16).toNat / 16 := by
    rw [BitVec.toNat_and]
    change ((a + 16).toNat &&& 0xfffffff0) / 2 ^ 4 = _
    rw [Nat.and_div_two_pow]
    change (a + 16).toNat / 16 &&& 2 ^ 28 - 1 = _
    rw [Nat.and_two_pow_sub_one_eq_mod]
    have := (a + 16).isLt
    omega
  have hmod : ((a + 16) &&& ~~~15).toNat % 16 = 0 := by
    rw [BitVec.toNat_and]
    change ((a + 16).toNat &&& 0xfffffff0) % 2 ^ 4 = _
    rw [Nat.and_mod_two_pow]
    exact Nat.and_zero _
  apply BitVec.eq_of_toNat_eq
  rw [BitVec.toNat_add, BitVec.toNat_ofNat]
  rw [BitVec.toNat_add, h16] at hdiv
  have := a.isLt
  omega

theorem next_and15 (a : Word) : ((a + 16) &&& 15).toNat = a.toNat % 16 := by
  have h16 : (16 : Word).toNat = 16 := rfl
  rw [and15, BitVec.toNat_add, h16]
  omega

/-- `SQV` and `SRV` write sixteen bytes. -/
theorem storeRight_storeLeft (dm : Dmem) (a : Word) (V : R128) (x : BitVec 12) :
    storeRight (storeLoop V (16 - (a &&& 15)).toNat 0 a dm) (a + 16) V 0 x =
      if above a x < 16 then gb V (above a x) else dm x := by
  have hbse : (16 - ((a + 16) &&& 15)).toNat = 16 - a.toNat % 16 := by
    rw [sixteen_sub_and15, ← and15, next_and15]
  have hx : above a x < 4096 := (x - a.setWidth 12).isLt
  have hadd := above_add a (show 16 - a.toNat % 16 ≤ 4096 by omega) x
  rw [storeRight, next_quadword, next_and15, hbse, sixteen_sub_and15, Nat.zero_add,
    storeLoop_at V _ _ _ _ (by omega), storeLoop_at V _ _ _ _ (by omega), hadd]
  by_cases h1 : above a x < 16 - a.toNat % 16
  · -- the left part
    have hright : ¬ 16 - a.toNat % 16 ≤ above a x := by omega
    rw [if_neg hright, if_neg (by omega), if_pos h1, if_pos (by omega), Nat.zero_add,
      Nat.mod_eq_of_lt (by omega)]
  · have hright : 16 - a.toNat % 16 ≤ above a x := by omega
    rw [if_pos hright, if_neg h1, Nat.add_sub_of_le hright]
    by_cases h2 : above a x < 16
    · rw [if_pos (by omega), if_pos h2, Nat.mod_eq_of_lt h2]
    · rw [if_neg (by omega), if_neg h2]

/-- `LQV` and `LRV` load sixteen bytes. -/
theorem gb_loadRight_loadLeft (dm : Dmem) (a : Word) (V : R128) {j : Nat} (hj : j < 16) :
    gb (loadRight dm (a + 16) (loadLoop dm (leftCount a 0) 0 a V) 0) j =
      dm (a.setWidth 12 + BitVec.ofNat 12 j) := by
  have hcount : leftCount a 0 = 16 - a.toNat % 16 := by
    rw [leftCount, or15_sub]
    omega
  have hstart : (16 - (((a + 16) &&& 15) - BitVec.ofNat 32 0)).toNat = 16 - a.toNat % 16 := by
    have h16 : (16 : Word).toNat = 16 := rfl
    have hzero : (((a + 16) &&& 15) - BitVec.ofNat 32 0) = (a + 16) &&& 15 := BitVec.sub_zero _
    rw [hzero, BitVec.toNat_sub, next_and15, h16]
    omega
  rw [loadRight, hstart, hcount, next_quadword]
  rw [gb_loadLoop _ _ _ _ _ (by omega) hj, gb_loadLoop _ _ _ _ _ (by omega) hj]
  by_cases h : 16 - a.toNat % 16 ≤ j
  · rw [if_pos (by omega), BitVec.setWidth_add _ _ (by omega), BitVec.add_assoc]
    congr 2
    apply BitVec.eq_of_toNat_eq
    rw [BitVec.toNat_add, BitVec.toNat_setWidth, BitVec.toNat_ofNat, BitVec.toNat_ofNat,
      BitVec.toNat_ofNat]
    omega
  · rw [if_neg (by omega), if_pos (by omega), Nat.sub_zero]

/-- The four instructions that store a register at `a` and load it back:
    `SQV` at `a`, `SRV` at `a + 16`, and the same for the loads, all with
    element 0. -/
structure QrPair (st : Mem) (a : Word) where
  sq : Word
  sr : Word
  lq : Word
  lr : Word
  elem : ldE sq = 0 ∧ ldE sr = 0 ∧ ldE lq = 0 ∧ ldE lr = 0
  addr_left : ldAddr .q sq st.r = a ∧ ldAddr .q lq st.r = a
  addr_right : ldAddr .r sr st.r = a + 16 ∧ ldAddr .r lr st.r = a + 16
  vt_store : ldVt sr = ldVt sq
  vt_load : ldVt lr = ldVt lq

/-- With `a` in register 1: `$v2` stored, `$v3` loaded. -/
def QrPair.of (st : Mem) (a : Word) (h : st.r 1 = a) : QrPair st a where
  sq := 0xe8222000
  sr := 0xe8222801
  lq := 0xc8232000
  lr := 0xc8232801
  elem := by decide
  addr_left := by
    rw [← h]
    exact ⟨BitVec.add_zero _, BitVec.add_zero _⟩
  addr_right := by
    rw [← h]
    exact ⟨rfl, rfl⟩
  vt_store := by decide
  vt_load := by decide

/-- DMEM with the sixteen bytes of `V` at `a`, modulo its size. -/
def Dmem.with16 (dm : Dmem) (a : Word) (V : R128) : Dmem := fun x =>
  if above a x < 16 then gb V (above a x) else dm x

theorem QrPair.store {st : Mem} {a : Word} (p : QrPair st a) (vecfast : Bool) :
    (execStoreT vecfast .q p.sq st >>= execStoreT vecfast .r p.sr) =
      some { st with dmem := st.dmem.with16 a (st.vpr (ldVt p.sq)) } := by
  obtain ⟨hsq, hsr, -, -⟩ := p.elem
  simp only [execStoreT, storeLeft_eq, p.addr_left.1, hsq, Option.map_some, Option.bind_eq_bind,
    Option.bind_some, p.addr_right.1, hsr, p.vt_store]
  congr 2
  funext x
  exact storeRight_storeLeft _ _ _ _

theorem QrPair.load {st : Mem} {a : Word} (p : QrPair st a) (vecfast : Bool) (V : R128) :
    (execLoadT vecfast .q p.lq { st with dmem := st.dmem.with16 a V } >>=
      execLoadT vecfast .r p.lr) =
      some (Mem.setV { st with dmem := st.dmem.with16 a V } (ldVt p.lq) V) := by
  obtain ⟨-, -, hlq, hlr⟩ := p.elem
  simp only [execLoadT, loadLeft_eq, p.addr_left.2, hlq, Option.map_some, Option.bind_eq_bind,
    Option.bind_some, Mem.setV, p.addr_right.2, hlr, p.vt_load]
  congr 2
  funext k
  by_cases hk : k = ldVt p.lq
  · rw [if_pos hk, if_pos hk]
    apply vec_ext
    intro j hj
    have habove : above a (a.setWidth 12 + BitVec.ofNat 12 j) = j := by
      rw [above, BitVec.add_comm, BitVec.add_sub_cancel, BitVec.toNat_ofNat]
      omega
    rw [if_pos True.intro, gb_loadRight_loadLeft _ _ _ hj, Dmem.with16, habove, if_pos hj]
  · rw [if_neg hk, if_neg hk, if_neg hk]

/-- With the fast path and without it the loads and stores do the same; and
    the two ends write sixteen bytes at `a` and nothing else, and load them
    back. -/
theorem ldst_fast_and_pairs (st : Mem) (sub : Size) (op : Word) (vecfast : Bool) (a : Word) :
    (∃ st', execLoadT true sub op st = some st' ∧ execLoadT false sub op st = some st') ∧
    (∃ st', execStoreT true sub op st = some st' ∧ execStoreT false sub op st = some st') ∧
    ∀ p : QrPair st a, ∃ st',
      (execStoreT vecfast .q p.sq st >>= execStoreT vecfast .r p.sr) = some st' ∧
      st' = { st with
        dmem := fun x =>
          if above a x < 16 then gb (st.vpr (ldVt p.sq)) (above a x) else st.dmem x } ∧
      (execLoadT vecfast .q p.lq st' >>= execLoadT vecfast .r p.lr) =
        some (st'.setV (ldVt p.lq) (st.vpr (ldVt p.sq))) :=
  ⟨execLoadT_agree sub op st, execStoreT_agree sub op st,
    fun p => ⟨_, p.store vecfast, rfl, p.load vecfast _⟩⟩

end Rsp
