import Mathlib.Analysis.Real.Sqrt
import Kestrel64.Lib.LeadingBits
import Kestrel64.Rsp.VectorLane

/-! # RSP: Reciprocals and Inverse Square Roots

    `execCop2Div` of `rsp/rsp.cpp`: `VSAR`, `VMOV` and the two families that
    read a table, `VRCP`/`VRCPL`/`VRCPH` and `VRSQ`/`VRSQL`/`VRSQH`. A 32-bit
    operand is fed in two halves, the high one by the `H` instruction, and the
    result comes out in two halves, the high one in `divout`.

    The result is a table entry with an implicit leading one, shifted by the
    exponent of the operand. How far it can be from the real number is a
    property of one bucket of the table at a time: on a bucket the result is
    constant, so it is compared with the values at the two ends.
-/

namespace Rsp

open Simd LeadingBits

/-! ## Section 1: The tables -/

/-- `reciprocals`, as the constructor fills it. -/
def reciprocals (i : Nat) : BitVec 16 :=
  if i = 0 then ~~~0
  else
    let a := i + 512
    let b := 2 ^ 34 / a
    BitVec.ofNat 16 ((b + 1) >>> 8)

/-- `while(a * (b + 1) * (b + 1) < 1 << 44) b++`. The products stay below
    `2 ^ 64`, see `raise_lt`. -/
def raise (a : Nat) (ha : 0 < a) (b : Nat) : Nat :=
  if a * (b + 1) * (b + 1) < 2 ^ 44 then raise a ha (b + 1) else b
termination_by 2 ^ 44 - b
decreasing_by
  have h1 : b + 1 ≤ a * (b + 1) := Nat.le_mul_of_pos_left _ ha
  have h2 : a * (b + 1) ≤ a * (b + 1) * (b + 1) := Nat.le_mul_of_pos_right _ b.succ_pos
  omega

/-- `(i + 512) >> (i % 2 == 1)`. -/
def radicand (i : Nat) : Nat := (i + 512) >>> (if i % 2 = 1 then 1 else 0)

theorem radicand_pos (i : Nat) : 0 < radicand i := by
  unfold radicand
  split
  · rw [Nat.shiftRight_eq_div_pow]; omega
  · rw [Nat.shiftRight_zero]; omega

/-- `invSqrts`, as the constructor fills it. -/
def invSqrts (i : Nat) : BitVec 16 :=
  BitVec.ofNat 16 (raise (radicand i) (radicand_pos i) (1 <<< 17) >>> 1)

/-! ## Section 2: The instructions -/

/-- The vector unit and the two halves of the divider. -/
structure Div extends Vu where
  divin : BitVec 16
  divout : BitVec 16
  divdp : Bool

/-- `D.u(n) = x`, with `D` the register `vd`. -/
def Div.setU (st : Div) (vd : Fin 32) (n : Fin 8) (x : BitVec 16) : Div :=
  { st with vpr := fun r k => if r = vd ∧ k = n then x else st.vpr r k }

/-! The fields of the opcode. -/

def opFn (op : BitVec 32) : Nat := (op.extractLsb' 0 6).toNat
def opE (op : BitVec 32) : Fin 16 := (op.extractLsb' 21 4).toFin
def opVt (op : BitVec 32) : Fin 32 := (op.extractLsb' 16 5).toFin
def opVd (op : BitVec 32) : Fin 32 := (op.extractLsb' 6 5).toFin
def opDe (op : BitVec 32) : Fin 8 := (op.extractLsb' 11 3).toFin

/-- `vte.uc(e & 7)`. -/
def laneOf (vte : R128) (e : Fin 16) : BitVec 16 := vte ⟨e % 8, by omega⟩

/-- The operand of a low instruction: both halves if `L` and the high one was
    fed, else the sign-extended lane. -/
def divInput (st : Div) (L : Bool) (lane : BitVec 16) : BitVec 32 :=
  if L && st.divdp then st.divin ++ lane else lane.signExtend 32

/-- `input >> 31`. -/
def divMask (input : BitVec 32) : BitVec 32 := input.sshiftRight 31

/-- The magnitude, less one below -32768. -/
def divData (input : BitVec 32) : BitVec 32 :=
  let data := input ^^^ divMask input
  if -32768 < input.toInt then data - divMask input else data

/-- `((u64)data << shift & 0x7fc00000) >> 22`. -/
def divIndex (data : BitVec 32) (shift : Nat) : Nat :=
  ((data.signExtend 64 <<< shift &&& 0x7fc00000) >>> 22).toNat

/-- `(0x10000 | entry) << 14`, shifted down. -/
def divShift (entry : BitVec 16) (down : Nat) : BitVec 32 :=
  ((0x10000 ||| entry.setWidth 32) <<< 14).sshiftRight down

def rcpResult (input : BitVec 32) : BitVec 32 :=
  let data := divData input
  if data = 0 then 0x7fffffff
  else if input.toInt = -32768 then 0xffff0000
  else
    let shift := data.clz.toNat
    let index := divIndex data shift
    divShift (reciprocals index) (31 - shift) ^^^ divMask input

def rsqResult (input : BitVec 32) : BitVec 32 :=
  let data := divData input
  if data = 0 then 0x7fffffff
  else if input.toInt = -32768 then 0xffff0000
  else
    let shift := data.clz.toNat
    let index := divIndex data shift
    divShift (invSqrts (index &&& 0x1fe ||| shift &&& 1)) ((31 - shift) >>> 1) ^^^ divMask input

/-- The end of a low instruction: `divout` and `D` take the two halves. -/
def Div.setResult (st : Div) (op : BitVec 32) (result : BitVec 32) : Div :=
  Div.setU { st with
    divdp := false
    divout := (result.sshiftRight 16).setWidth 16
    accl := bcast (opE op) (st.vpr (opVt op)) } (opVd op) (opDe op) (result.setWidth 16)

/-- `VRCPH` and `VRSQH`. -/
def Div.high (st : Div) (op : BitVec 32) (lane : BitVec 16) : Div :=
  Div.setU { st with
    accl := bcast (opE op) (st.vpr (opVt op))
    divdp := true
    divin := lane } (opVd op) (opDe op) st.divout

/-- `execCop2Div`, with `tv` the modified `vt`. -/
def execCop2Div (op : BitVec 32) (tv : M128) (st : Div) : Div :=
  let lane := laneOf tv (opE op)
  match opFn op with
  | 0x1d =>
    let half : R128 :=
      if opE op = 8 then st.acch else if opE op = 9 then st.accm
      else if opE op = 10 then st.accl else fun _ => 0
    { st with toVu := st.toVu.setD (opVd op) half }
  | 0x30 => st.setResult op (rcpResult (divInput st false lane))
  | 0x31 => st.setResult op (rcpResult (divInput st true lane))
  | 0x32 => st.high op lane
  | 0x33 => Div.setU { st with accl := tv } (opVd op) (opDe op) (tv (opDe op))
  | 0x34 => st.setResult op (rsqResult (divInput st false lane))
  | 0x35 => st.setResult op (rsqResult (divInput st true lane))
  | 0x36 => st.high op lane
  | _ => st

/-- `execCop2T` for these instructions. -/
def execCop2T (op : BitVec 32) (st : Div) : Div :=
  execCop2Div op (bcast (opE op) (st.vpr (opVt op))) st

/-! ## Section 3: The tables as numbers

    An entry with its leading one is a 17-bit number; `a` is what it was made
    from, between 512 and 1023 for a reciprocal. -/

/-- `0x10000 | entry`. -/
def mantissa (entry : BitVec 16) : Nat := 2 ^ 16 + entry.toNat

theorem mantissa_bounds (entry : BitVec 16) :
    2 ^ 16 ≤ mantissa entry ∧ mantissa entry < 2 ^ 17 := by
  have := entry.isLt
  unfold mantissa
  omega

/-- The entry for the leading bits `512 + i`. -/
theorem reciprocals_mantissa {a : Nat} (hlo : 512 < a) (hhi : a < 1024) :
    mantissa (reciprocals (a - 512)) = (2 ^ 34 / a + 1) / 256 := by
  have h1 : 2 ^ 34 / a ≤ 2 ^ 34 / 513 := Nat.div_le_div_left hlo (by omega)
  have h2 : 2 ^ 34 / 1023 ≤ 2 ^ 34 / a := Nat.div_le_div_left (by omega) (by omega)
  norm_num at h1 h2
  have hsum : a - 512 + 512 = a := by omega
  rw [mantissa, reciprocals, if_neg (by omega), hsum]
  simp only [BitVec.toNat_ofNat, Nat.shiftRight_eq_div_pow]
  norm_num
  omega

theorem reciprocals_zero : mantissa (reciprocals 0) = 0x1ffff := rfl

/-- A reciprocal is within a part in 256 of the values at both ends of its
    bucket. -/
theorem reciprocals_close {a : Nat} (hlo : 512 ≤ a) (hhi : a < 1024) :
    255 * 2 ^ 26 ≤ 256 * (mantissa (reciprocals (a - 512)) * a) ∧
      256 * (mantissa (reciprocals (a - 512)) * (a + 1)) ≤ 257 * 2 ^ 26 := by
  rcases hlo.eq_or_lt with rfl | hlo
  · rw [Nat.sub_self, reciprocals_zero]
    omega
  · rw [reciprocals_mantissa hlo hhi]
    set q := 2 ^ 34 / a with hq
    set m := (q + 1) / 256 with hm
    have hq1 : q * a ≤ 2 ^ 34 := Nat.div_mul_le_self ..
    have hq2 : 2 ^ 34 < q * a + a := Nat.lt_div_mul_add (by omega)
    have hm1 : 256 * m ≤ q + 1 := by omega
    have hm2 : q + 1 < 256 * m + 256 := by omega
    constructor
    · nlinarith
    · nlinarith

/-- A larger argument has a smaller entry. -/
theorem reciprocals_anti {a b : Nat} (hlo : 512 ≤ a) (hab : a ≤ b) (hhi : b < 1024) :
    mantissa (reciprocals (b - 512)) ≤ mantissa (reciprocals (a - 512)) := by
  rcases hlo.eq_or_lt with rfl | hlo
  · rw [Nat.sub_self, reciprocals_zero]
    exact Nat.le_of_lt_succ (mantissa_bounds _).2
  · rw [reciprocals_mantissa hlo (by omega), reciprocals_mantissa (by omega) hhi]
    have : 2 ^ 34 / b ≤ 2 ^ 34 / a := Nat.div_le_div_left hab (by omega)
    omega

/-- What the loop leaves: the last number whose square is below `2 ^ 44 / a`,
    if it started at one. -/
theorem raise_spec (a : Nat) (ha : 0 < a) (b : Nat) (hb : a * b * b < 2 ^ 44) :
    b ≤ raise a ha b ∧ a * raise a ha b * raise a ha b < 2 ^ 44 ∧
      2 ^ 44 ≤ a * (raise a ha b + 1) * (raise a ha b + 1) := by
  fun_induction raise a ha b with
  | case1 b h ih =>
    obtain ⟨hle, hlo, hhi⟩ := ih h
    exact ⟨by omega, hlo, hhi⟩
  | case2 b h => exact ⟨le_rfl, hb, not_lt.mp h⟩

/-- No product of the loop wraps. -/
theorem raise_lt (a : Nat) (ha : 0 < a) (b : Nat) (hb : a * b * b < 2 ^ 44) (h1 : a < 1024) :
    a * (raise a ha b + 1) * (raise a ha b + 1) < 2 ^ 64 := by
  obtain ⟨-, hlo, -⟩ := raise_spec a ha b hb
  set B := raise a ha b
  have hB : B < 2 ^ 22 := by
    by_contra hge
    have : 2 ^ 22 * 2 ^ 22 ≤ a * B * B :=
      Nat.mul_le_mul (by nlinarith) (by omega)
    omega
  calc a * (B + 1) * (B + 1) ≤ 1023 * 2 ^ 22 * 2 ^ 22 :=
        Nat.mul_le_mul (Nat.mul_le_mul (by omega) (by omega)) (by omega)
    _ < 2 ^ 64 := by norm_num

/-- The entry for the radicand `a`: the last 17-bit number whose square is
    below `2 ^ 42 / a`. -/
theorem invSqrts_mantissa (i : Nat) (hlo : 256 ≤ radicand i) (hhi : radicand i < 1023) :
    radicand i * mantissa (invSqrts i) * mantissa (invSqrts i) < 2 ^ 42 ∧
      2 ^ 42 ≤ radicand i * (mantissa (invSqrts i) + 1) * (mantissa (invSqrts i) + 1) := by
  have hstart : radicand i * 2 ^ 17 * 2 ^ 17 < 2 ^ 44 := by omega
  obtain ⟨hge, hB, hB'⟩ := raise_spec (radicand i) (radicand_pos i) (1 <<< 17) hstart
  rw [invSqrts]
  set B := raise (radicand i) (radicand_pos i) (1 <<< 17)
  set a := radicand i
  -- the root of `2 ^ 44 / 256` bounds the loop
  have hlt : B < 2 ^ 18 := by
    by_contra hge
    have : 256 * 2 ^ 18 * 2 ^ 18 ≤ a * B * B :=
      Nat.mul_le_mul (Nat.mul_le_mul hlo (by omega)) (by omega)
    omega
  have hstart' : (1 : Nat) <<< 17 = 2 ^ 17 := rfl
  have hM : mantissa (BitVec.ofNat 16 (B >>> 1)) = B / 2 := by
    rw [mantissa, BitVec.toNat_ofNat, Nat.shiftRight_eq_div_pow]
    omega
  rw [hM]
  set M := B / 2
  have h1 : 2 * M ≤ B := by omega
  have h2 : B + 1 ≤ 2 * (M + 1) := by omega
  constructor
  · have : a * (2 * M) * (2 * M) ≤ a * B * B :=
      Nat.mul_le_mul (Nat.mul_le_mul_left a h1) h1
    nlinarith
  · have : a * (B + 1) * (B + 1) ≤ a * (2 * (M + 1)) * (2 * (M + 1)) :=
      Nat.mul_le_mul (Nat.mul_le_mul_left a h2) h2
    nlinarith

theorem invSqrts_anti {i j : Nat} (hi : 256 ≤ radicand i) (hij : radicand i ≤ radicand j)
    (hj : radicand j < 1023) : mantissa (invSqrts j) ≤ mantissa (invSqrts i) := by
  obtain ⟨hlt, -⟩ := invSqrts_mantissa j (by omega) hj
  obtain ⟨-, hge⟩ := invSqrts_mantissa i hi (by omega)
  set M := mantissa (invSqrts i)
  set N := mantissa (invSqrts j)
  by_contra hMN
  have : radicand i * (M + 1) * (M + 1) ≤ radicand j * N * N :=
    Nat.mul_le_mul (Nat.mul_le_mul hij (by omega)) (by omega)
  omega

/-! ## Section 4: The result of a positive operand -/

theorem msb_of_pos {x : BitVec 32} (hx : 0 < x.toInt) : x.msb = false := by
  rw [BitVec.msb_eq_toInt]
  simp only [decide_eq_false_iff_not]
  omega

theorem divMask_of_pos {x : BitVec 32} (hx : 0 < x.toInt) : divMask x = 0 := by
  have hmsb := msb_of_pos hx
  rw [divMask, BitVec.sshiftRight_eq_of_msb_false hmsb]
  apply BitVec.eq_of_toNat_eq
  have := BitVec.msb_eq_false_iff_two_mul_lt.mp hmsb
  rw [BitVec.toNat_ushiftRight, Nat.shiftRight_eq_div_pow]
  change _ = 0
  omega

theorem divData_of_pos {x : BitVec 32} (hx : 0 < x.toInt) : divData x = x := by
  simp [divData, divMask_of_pos hx]

theorem clz_eq {x : BitVec 32} (hx : x ≠ 0) : x.clz.toNat + x.toNat.log2 = 31 := by
  have hlt := BitVec.clz_lt_iff_ne_zero.mpr hx
  have hc : x.clz.toNat < 32 := by simpa [BitVec.lt_def] using hlt
  have hlog : x.toNat.log2 = 31 - x.clz.toNat := by
    rw [Nat.log2_eq_iff (by simpa [BitVec.toNat_eq] using hx)]
    refine ⟨BitVec.two_pow_sub_clz_le_toNat_of_ne_zero (by omega) hx, ?_⟩
    have := BitVec.toNat_lt_two_pow_sub_clz (x := x)
    rwa [show 31 - x.clz.toNat + 1 = 32 - x.clz.toNat by omega]
  omega

/-- The index drops the leading one. -/
theorem divIndex_eq {x : BitVec 32} (hx : 0 < x.toInt) :
    divIndex x (31 - x.toNat.log2) = leading 9 x.toNat - 512 := by
  have hpos : x.toNat ≠ 0 := by
    intro h
    simp [BitVec.toInt_eq_toNat_cond, h] at hx
  have hmsb := msb_of_pos hx
  have hlog : x.toNat.log2 < 31 := by
    rw [Nat.log2_lt hpos]
    have := BitVec.msb_eq_false_iff_two_mul_lt.mp hmsb
    omega
  have hlt : x.toNat < 2 ^ (x.toNat.log2 + 1) := Nat.lt_log2_self
  set k := x.toNat.log2 with hk
  -- the shift puts the leading one at bit 31
  have hpow : 2 ^ (k + 1) * 2 ^ (31 - k) = 2 ^ 32 := by
    rw [← Nat.pow_add]
    congr 1
    omega
  have hfit : x.toNat * 2 ^ (31 - k) < 2 ^ 64 := by
    have := Nat.mul_lt_mul_of_pos_right hlt (show 0 < 2 ^ (31 - k) by positivity)
    omega
  have hdiv : x.toNat * 2 ^ (31 - k) / 2 ^ 22 = leading 9 x.toNat := by
    rw [leading, ← hk, ← Nat.mul_div_mul_right _ _ (show 0 < 2 ^ k by positivity),
      ← Nat.mul_div_mul_right (x.toNat * 2 ^ 9) _ (show 0 < 2 ^ 22 by positivity)]
    congr 1
    · rw [Nat.mul_assoc, ← Nat.pow_add, Nat.mul_assoc, ← Nat.pow_add]
      congr 2
      omega
    · ring
  have hbits : (x.signExtend 64 <<< (31 - k)).toNat = x.toNat * 2 ^ (31 - k) := by
    rw [BitVec.signExtend_eq_setWidth_of_msb_false hmsb, BitVec.toNat_shiftLeft,
      BitVec.toNat_setWidth, Nat.shiftLeft_eq,
      Nat.mod_eq_of_lt (show x.toNat < 2 ^ 64 by omega), Nat.mod_eq_of_lt hfit]
  have hle : 2 ^ 9 ≤ leading 9 x.toNat := le_leading hpos
  have hlt' := leading_lt 9 x.toNat
  rw [divIndex, BitVec.toNat_ushiftRight, BitVec.toNat_and, hbits, Nat.shiftRight_and_distrib,
    Nat.shiftRight_eq_div_pow, hdiv]
  change leading 9 x.toNat &&& 2 ^ 9 - 1 = _
  rw [Nat.and_two_pow_sub_one_eq_mod]
  omega

/-- The entry scaled, a non-negative number. -/
theorem divShift_toNat (entry : BitVec 16) (down : Nat) :
    (divShift entry down).toNat = scale 14 (mantissa entry) down ∧
      (divShift entry down).msb = false := by
  have hentry := entry.isLt
  have hor : (0x10000 ||| entry.setWidth 32 : BitVec 32).toNat = mantissa entry := by
    rw [BitVec.toNat_or, BitVec.toNat_setWidth_of_le (by omega)]
    exact (Nat.two_pow_add_eq_or_of_lt hentry 1).symm
  obtain ⟨hlo, hhi⟩ := mantissa_bounds entry
  have hshift : ((0x10000 ||| entry.setWidth 32 : BitVec 32) <<< 14).toNat =
      mantissa entry * 2 ^ 14 := by
    rw [BitVec.toNat_shiftLeft, hor, Nat.shiftLeft_eq, Nat.mod_eq_of_lt (by omega)]
  have hmsb : ((0x10000 ||| entry.setWidth 32 : BitVec 32) <<< 14).msb = false := by
    rw [BitVec.msb_eq_false_iff_two_mul_lt, hshift]
    omega
  have htoNat : (divShift entry down).toNat = scale 14 (mantissa entry) down := by
    rw [divShift, BitVec.toNat_sshiftRight_of_msb_false hmsb, hshift,
      Nat.shiftRight_eq_div_pow, scale]
  refine ⟨htoNat, ?_⟩
  rw [BitVec.msb_eq_false_iff_two_mul_lt, htoNat]
  have := scale_le (m := mantissa entry) 14 down
  omega

theorem divShift_toInt (entry : BitVec 16) (down : Nat) :
    (divShift entry down).toInt = scale 14 (mantissa entry) down := by
  obtain ⟨htoNat, hmsb⟩ := divShift_toNat entry down
  rw [BitVec.toInt_eq_toNat_of_msb hmsb, htoNat]

theorem ne_zero_of_pos {x : BitVec 32} (hx : 0 < x.toInt) : x ≠ 0 := by
  rintro rfl
  simp at hx

theorem shift_eq {x : BitVec 32} (hx : 0 < x.toInt) : x.clz.toNat = 31 - x.toNat.log2 := by
  have := clz_eq (ne_zero_of_pos hx)
  omega

/-- The entry that `rsqResult` reads: the parity of the shift in bit 0. -/
def rsqIndex (x : Nat) : Nat := (leading 9 x - 512) &&& 0x1fe ||| (31 - x.log2) &&& 1

theorem rcpResult_toInt {x : BitVec 32} (hx : 0 < x.toInt) :
    (rcpResult x).toInt =
      scale 14 (mantissa (reciprocals (leading 9 x.toNat - 512))) x.toNat.log2 := by
  have hne := ne_zero_of_pos hx
  have hc := clz_eq hne
  simp only [rcpResult, divData_of_pos hx, if_neg hne, if_neg (show x.toInt ≠ -32768 by omega),
    divMask_of_pos hx, shift_eq hx, divIndex_eq hx]
  rw [show ∀ y : BitVec 32, y ^^^ 0 = y from fun _ => BitVec.xor_zero, divShift_toInt, show 31 - (31 - x.toNat.log2) = x.toNat.log2 by omega]

theorem rsqResult_toInt {x : BitVec 32} (hx : 0 < x.toInt) :
    (rsqResult x).toInt =
      scale 14 (mantissa (invSqrts (rsqIndex x.toNat))) (x.toNat.log2 / 2) := by
  have hne := ne_zero_of_pos hx
  have hc := clz_eq hne
  simp only [rsqResult, divData_of_pos hx, if_neg hne, if_neg (show x.toInt ≠ -32768 by omega),
    divMask_of_pos hx, shift_eq hx, divIndex_eq hx]
  rw [show ∀ y : BitVec 32, y ^^^ 0 = y from fun _ => BitVec.xor_zero, divShift_toInt, show 31 - (31 - x.toNat.log2) = x.toNat.log2 by omega,
    Nat.shiftRight_eq_div_pow, rsqIndex]

/-- For an odd exponent the leading bits with the last one cleared, for an
    even one half of them. -/
theorem radicand_rsqIndex {x : Nat} (hx : x ≠ 0) (hlog : x.log2 < 31) :
    radicand (rsqIndex x) =
      if x.log2 % 2 = 1 then 2 * (leading 9 x / 2) else leading 9 x / 2 := by
  have hlo : 2 ^ 9 ≤ leading 9 x := le_leading hx
  have hhi := leading_lt 9 x
  set j := leading 9 x
  have hdiv : rsqIndex x / 2 = (j - 512) / 2 := by
    rw [rsqIndex, Nat.or_div_two, Nat.and_div_two, Nat.and_div_two]
    change (j - 512) / 2 &&& 2 ^ 8 - 1 ||| (31 - x.log2) / 2 &&& 0 = _
    rw [Nat.and_two_pow_sub_one_eq_mod, Nat.and_zero, Nat.or_zero]
    omega
  have hmod : rsqIndex x % 2 = (31 - x.log2) % 2 := by
    have : rsqIndex x % 2 = 1 ↔ (31 - x.log2) % 2 = 1 := by
      rw [rsqIndex, Nat.or_mod_two_eq_one, Nat.and_mod_two_eq_one, Nat.and_mod_two_eq_one]
      simp
    omega
  rw [radicand, Nat.shiftRight_eq_div_pow]
  split_ifs <;> omega

theorem radicand_bounds {x : Nat} (hx : x ≠ 0) (hlog : x.log2 < 31) :
    256 ≤ radicand (rsqIndex x) ∧ radicand (rsqIndex x) < 1023 := by
  have hlo : 2 ^ 9 ≤ leading 9 x := le_leading hx
  have hhi := leading_lt 9 x
  rw [radicand_rsqIndex hx hlog]
  split_ifs <;> omega

/-- The operand between the radicand and a part in 256 more, scaled by the
    square of what the result is shifted by. -/
theorem radicand_close {x : Nat} (hx : x ≠ 0) (hlog : x.log2 < 31) :
    radicand (rsqIndex x) * (2 ^ (x.log2 / 2) * 2 ^ (x.log2 / 2)) ≤ 256 * x ∧
      65536 * x < 257 * radicand (rsqIndex x) * (2 ^ (x.log2 / 2) * 2 ^ (x.log2 / 2)) := by
  have hlo : 2 ^ 9 ≤ leading 9 x := le_leading hx
  have hj := leading_mul_le 9 x
  have hj' := lt_succ_leading_mul 9 x
  rw [radicand_rsqIndex hx hlog]
  set j := leading 9 x
  set e := x.log2 / 2 with he
  set P := 2 ^ e * 2 ^ e with hP
  have hPpos : 0 < P := by positivity
  set h := j / 2
  have h1 : 2 * h * P ≤ j * P := Nat.mul_le_mul_right P (by omega)
  have h2 : (j + 1) * P ≤ (2 * h + 2) * P := Nat.mul_le_mul_right P (by omega)
  have h3 : 256 * P ≤ h * P := Nat.mul_le_mul_right P (by omega)
  split_ifs with hodd
  · -- two buckets of the reciprocal, at half the scale
    have hpow : 2 ^ x.log2 = 2 * P := by
      rw [hP, ← Nat.pow_add, ← Nat.pow_succ']
      congr 1
      omega
    rw [hpow] at hj hj'
    constructor <;> nlinarith only [h1, h2, h3, hj, hj', hPpos]
  · have hpow : 2 ^ x.log2 = P := by
      rw [hP, ← Nat.pow_add]
      congr 1
      omega
    rw [hpow] at hj hj'
    constructor <;> nlinarith only [h1, h2, h3, hj, hj', hPpos]

/-! ## Section 5: Accuracy and order -/

/-- The two families. -/
inductive Recip where
  | rcp
  | rsq
  deriving DecidableEq

namespace Recip

/-- `VRCPH` or `VRSQH`. -/
def highFn : Recip → Nat
  | rcp => 0x32
  | rsq => 0x36

/-- `VRCPL` or `VRSQL`. -/
def lowFn : Recip → Nat
  | rcp => 0x31
  | rsq => 0x35

def table : Recip → BitVec 32 → BitVec 32
  | rcp => rcpResult
  | rsq => rsqResult

/-- What the result is `2 ^ 31` divided by. -/
noncomputable def denom : Recip → ℝ → ℝ
  | rcp => id
  | rsq => Real.sqrt

/-- The two products that the bound comes down to. -/
theorem close_of_mul {D r : ℝ} (hD : 0 < D) (hhi : 256 * (r * D) ≤ 257 * 2 ^ 31)
    (hlo : 255 * 2 ^ 31 ≤ 256 * ((r + 1) * D)) :
    |r - 2 ^ 31 / D| ≤ 2 ^ 31 / (256 * D) + 1 := by
  have hq : 2 ^ 31 / (256 * D) = 2 ^ 31 / D / 256 := by
    rw [div_div, mul_comm D]
  have h1 : 256 * r ≤ 257 * (2 ^ 31 / D) := by
    rw [← mul_div_assoc, le_div_iff₀ hD]
    linarith
  have h2 : 255 * (2 ^ 31 / D) ≤ 256 * (r + 1) := by
    rw [← mul_div_assoc, div_le_iff₀ hD]
    linarith
  rw [hq, abs_le]
  constructor <;> linarith

/-- A positive operand as a number. -/
theorem toNat_of_pos {x : BitVec 32} (hx : 0 < x.toInt) :
    x.toInt = x.toNat ∧ x.toNat ≠ 0 ∧ x.toNat.log2 < 31 := by
  have hmsb : x.msb = false := by
    rw [BitVec.msb_eq_toInt]
    simp only [decide_eq_false_iff_not]
    omega
  have htoNat := BitVec.toInt_eq_toNat_of_msb hmsb
  have hne : x.toNat ≠ 0 := by omega
  refine ⟨htoNat, hne, ?_⟩
  rw [Nat.log2_lt hne]
  have := BitVec.msb_eq_false_iff_two_mul_lt.mp hmsb
  omega

theorem rcp_close {x : BitVec 32} (hx : 0 < x.toInt) :
    |((rcpResult x).toInt : ℝ) - 2 ^ 31 / (x.toInt : ℝ)| ≤ 2 ^ 31 / (256 * (x.toInt : ℝ)) + 1 := by
  obtain ⟨hval, hne, hlog⟩ := toNat_of_pos hx
  rw [rcpResult_toInt hx, hval]
  set n := x.toNat
  have hj0 : 2 ^ 9 ≤ leading 9 n := le_leading hne
  have hj := leading_mul_le 9 n
  have hj' := lt_succ_leading_mul 9 n
  obtain ⟨hM, hM'⟩ := reciprocals_close hj0 (leading_lt 9 n)
  set M := mantissa (reciprocals (leading 9 n - 512))
  set j := leading 9 n
  have hr := scale_mul_le 14 M n.log2
  have hr' := lt_succ_scale_mul 14 M n.log2
  set r := scale 14 M n.log2
  set P := 2 ^ n.log2
  have hP : 0 < P := by positivity
  have hnpos : 0 < n := by omega
  -- both ends of the bucket, multiplied through by its width
  have hhi : P * (256 * (r * n)) ≤ P * (257 * 2 ^ 31) := by
    have h1 : r * P * (n * 2 ^ 9) ≤ M * 2 ^ 14 * ((j + 1) * P) := Nat.mul_le_mul hr hj'.le
    have h2 : 256 * (M * (j + 1)) * (2 ^ 14 * P) ≤ 257 * 2 ^ 26 * (2 ^ 14 * P) :=
      Nat.mul_le_mul_right _ hM'
    nlinarith
  have hlo : P * (255 * 2 ^ 31) ≤ P * (256 * ((r + 1) * n)) := by
    have h1 : M * 2 ^ 14 * (j * P) ≤ (r + 1) * P * (n * 2 ^ 9) := Nat.mul_le_mul hr'.le hj
    have h2 : 255 * 2 ^ 26 * (2 ^ 14 * P) ≤ 256 * (M * j) * (2 ^ 14 * P) :=
      Nat.mul_le_mul_right _ hM
    nlinarith
  refine close_of_mul (by exact_mod_cast hnpos) ?_ ?_
  · exact_mod_cast Nat.le_of_mul_le_mul_left hhi hP
  · exact_mod_cast Nat.le_of_mul_le_mul_left hlo hP

/-- As `close_of_mul` for a square root, in numbers. -/
theorem close_of_sq {n r : Nat} (hn : 0 < n)
    (hhi : 256 ^ 2 * (r ^ 2 * n) ≤ (257 * 2 ^ 31) ^ 2)
    (hlo : (255 * 2 ^ 31) ^ 2 ≤ 256 ^ 2 * ((r + 1) ^ 2 * n)) :
    |(r : ℝ) - 2 ^ 31 / √(n : ℝ)| ≤ 2 ^ 31 / (256 * √(n : ℝ)) + 1 := by
  have hpos : (0 : ℝ) < n := by exact_mod_cast hn
  have hsq : √(n : ℝ) ^ 2 = n := Real.sq_sqrt hpos.le
  have hroot : 0 < √(n : ℝ) := Real.sqrt_pos.mpr hpos
  refine close_of_mul hroot ?_ ?_
  · rw [← sq_le_sq₀ (by positivity) (by positivity), mul_pow, mul_pow, hsq]
    exact_mod_cast hhi
  · rw [← sq_le_sq₀ (by positivity) (by positivity), mul_pow 256, mul_pow _ (√(n : ℝ)), hsq]
    exact_mod_cast hlo

theorem rsq_close {x : BitVec 32} (hx : 0 < x.toInt) :
    |((rsqResult x).toInt : ℝ) - 2 ^ 31 / √(x.toInt : ℝ)| ≤
      2 ^ 31 / (256 * √(x.toInt : ℝ)) + 1 := by
  obtain ⟨hval, hne, hlog⟩ := toNat_of_pos hx
  rw [rsqResult_toInt hx, hval]
  set n := x.toNat
  obtain ⟨ha, ha'⟩ := radicand_close hne hlog
  obtain ⟨hlo, hhi⟩ := radicand_bounds hne hlog
  obtain ⟨hM, hM'⟩ := invSqrts_mantissa (rsqIndex n) hlo hhi
  obtain ⟨hbig, -⟩ := mantissa_bounds (invSqrts (rsqIndex n))
  set M := mantissa (invSqrts (rsqIndex n))
  set a := radicand (rsqIndex n)
  have hr := scale_mul_le 14 M (n.log2 / 2)
  have hr' := lt_succ_scale_mul 14 M (n.log2 / 2)
  set r := scale 14 M (n.log2 / 2)
  set Q := 2 ^ (n.log2 / 2)
  have hQ : 0 < Q := by positivity
  -- the square of the mantissa, from both sides
  have hsqHi : r * Q * (r * Q) ≤ M * 2 ^ 14 * (M * 2 ^ 14) := Nat.mul_le_mul hr hr
  have hsqLo : M * 2 ^ 14 * (M * 2 ^ 14) ≤ (r + 1) * Q * ((r + 1) * Q) :=
    Nat.mul_le_mul hr'.le hr'.le
  have hstep : 65536 * ((M + 1) * (M + 1)) ≤ 65539 * (M * M) := by nlinarith
  have haM : 65025 * 2 ^ 26 ≤ a * (M * M) := by
    have := Nat.mul_le_mul_left a hstep
    nlinarith
  refine close_of_sq (by exact_mod_cast Nat.pos_of_ne_zero hne) ?_ ?_
  · have h1 : r * Q * (r * Q) * (65536 * n) ≤
        M * 2 ^ 14 * (M * 2 ^ 14) * (257 * a * (Q * Q)) := Nat.mul_le_mul hsqHi ha'.le
    have h2 : a * M * M * (Q * Q * 2 ^ 28) ≤ 2 ^ 42 * (Q * Q * 2 ^ 28) :=
      Nat.mul_le_mul_right _ hM.le
    refine Nat.le_of_mul_le_mul_left ?_ (Nat.mul_pos hQ hQ)
    nlinarith
  · have h1 : M * 2 ^ 14 * (M * 2 ^ 14) * (a * (Q * Q)) ≤
        (r + 1) * Q * ((r + 1) * Q) * (256 * n) := Nat.mul_le_mul hsqLo ha
    have h2 : 65025 * 2 ^ 26 * (Q * Q * 2 ^ 28) ≤ a * (M * M) * (Q * Q * 2 ^ 28) :=
      Nat.mul_le_mul_right _ haM
    refine Nat.le_of_mul_le_mul_left ?_ (Nat.mul_pos hQ hQ)
    nlinarith

theorem rcp_anti {x y : BitVec 32} (hx : 0 < x.toInt) (hxy : x.toInt ≤ y.toInt) :
    (rcpResult y).toInt ≤ (rcpResult x).toInt := by
  have hy : 0 < y.toInt := by omega
  obtain ⟨hvx, hnx, -⟩ := toNat_of_pos hx
  obtain ⟨hvy, hny, -⟩ := toNat_of_pos hy
  rw [rcpResult_toInt hx, rcpResult_toInt hy]
  rw [Int.ofNat_le]
  rcases leading_mono 9 (show x.toNat ≤ y.toNat by omega) with hlt | ⟨heq, hle⟩
  · -- another exponent: any two entries are within a factor of two
    refine scale_le_of_lt ?_ hlt
    have h1 := (mantissa_bounds (reciprocals (leading 9 x.toNat - 512))).1
    have h2 := (mantissa_bounds (reciprocals (leading 9 y.toNat - 512))).2
    omega
  · rw [heq]
    have hlo : 2 ^ 9 ≤ leading 9 x.toNat := le_leading hnx
    exact scale_mono (reciprocals_anti hlo hle (leading_lt 9 _))

theorem rsq_anti {x y : BitVec 32} (hx : 0 < x.toInt) (hxy : x.toInt ≤ y.toInt) :
    (rsqResult y).toInt ≤ (rsqResult x).toInt := by
  have hy : 0 < y.toInt := by omega
  obtain ⟨hvx, hnx, hlx⟩ := toNat_of_pos hx
  obtain ⟨hvy, hny, hly⟩ := toNat_of_pos hy
  rw [rsqResult_toInt hx, rsqResult_toInt hy]
  rw [Int.ofNat_le]
  have hmono := leading_mono 9 (show x.toNat ≤ y.toNat by omega)
  rcases Nat.lt_or_ge (x.toNat.log2 / 2) (y.toNat.log2 / 2) with hlt | hge
  · refine scale_le_of_lt ?_ hlt
    have h1 := (mantissa_bounds (invSqrts (rsqIndex x.toNat))).1
    have h2 := (mantissa_bounds (invSqrts (rsqIndex y.toNat))).2
    omega
  · -- the same shift: the radicands are in order, also from an even exponent
    -- to the odd one after it
    have hshift : x.toNat.log2 / 2 = y.toNat.log2 / 2 := by omega
    have hlo : 2 ^ 9 ≤ leading 9 y.toNat := le_leading hny
    have hhi := leading_lt 9 x.toNat
    rw [hshift]
    refine scale_mono (invSqrts_anti (radicand_bounds hnx hlx).1 ?_ (radicand_bounds hny hly).2)
    rw [radicand_rsqIndex hnx hlx, radicand_rsqIndex hny hly]
    split_ifs <;> omega

theorem table_nonneg (F : Recip) {x : BitVec 32} (hx : 0 < x.toInt) : 0 ≤ (F.table x).toInt := by
  cases F with
  | rcp => rw [table, rcpResult_toInt hx]; exact Int.natCast_nonneg _
  | rsq => rw [table, rsqResult_toInt hx]; exact Int.natCast_nonneg _

theorem table_close (F : Recip) {x : BitVec 32} (hx : 0 < x.toInt) :
    |((F.table x).toInt : ℝ) - 2 ^ 31 / F.denom x.toInt| ≤
      2 ^ 31 / (256 * F.denom x.toInt) + 1 := by
  cases F with
  | rcp => exact rcp_close hx
  | rsq => exact rsq_close hx

theorem table_anti (F : Recip) {x y : BitVec 32} (hx : 0 < x.toInt) (hxy : x.toInt ≤ y.toInt) :
    (F.table y).toInt ≤ (F.table x).toInt := by
  cases F with
  | rcp => exact rcp_anti hx hxy
  | rsq => exact rsq_anti hx hxy

end Recip

/-! ## Section 6: Feeding an operand -/

/-- The lane that an instruction reads as its operand. -/
def operand (op : BitVec 32) (st : Div) : BitVec 16 :=
  laneOf (bcast (opE op) (st.vpr (opVt op))) (opE op)

/-- A state and the two instructions of a family that feed it `x`. The low
    instruction reads its lane after the high one has written its register. -/
structure Feed (F : Recip) (x : BitVec 32) where
  st : Div
  high : BitVec 32
  low : BitVec 32
  high_fn : opFn high = F.highFn
  low_fn : opFn low = F.lowFn
  high_lane : operand high st = x.extractLsb' 16 16
  low_lane : operand low (execCop2T high st) = x.extractLsb' 0 16

theorem result_halves (r : BitVec 32) :
    (r.sshiftRight 16).setWidth 16 ++ r.setWidth 16 = r := by
  ext i hi
  rw [BitVec.getElem_append]
  split
  · simp [BitVec.getLsbD_eq_getElem (show i < 32 by omega)]
  · have hback : 16 + (i - 16) = i := by omega
    have hget : (r.sshiftRight 16)[i - 16] = r[i] := by
      simp [BitVec.getElem_sshiftRight, hback, hi]
    simpa [show i - 16 < 32 by omega] using hget

namespace Feed

variable {F : Recip} {x y : BitVec 32}

def after (f : Feed F x) : Div := execCop2T f.low (execCop2T f.high f.st)

/-- The result: `divout` and the lane of the low instruction. -/
def result (f : Feed F x) : BitVec 32 := f.after.divout ++ f.after.vpr (opVd f.low) (opDe f.low)

theorem execCop2T_high (op : BitVec 32) (st : Div) (h : opFn op = F.highFn) :
    execCop2T op st = st.high op (operand op st) := by
  cases F <;> simp only [Recip.highFn] at h <;> simp [execCop2T, execCop2Div, h, operand]

theorem execCop2T_low (op : BitVec 32) (st : Div) (h : opFn op = F.lowFn) :
    execCop2T op st = st.setResult op (F.table (divInput st true (operand op st))) := by
  cases F <;> simp only [Recip.lowFn] at h <;>
    simp [execCop2T, execCop2Div, h, operand, Recip.table]

/-- The pair computes the table's result of its operand. -/
theorem result_eq (f : Feed F x) : f.result = F.table x := by
  have hhigh := execCop2T_high f.high f.st f.high_fn
  have hlow := execCop2T_low f.low (execCop2T f.high f.st) f.low_fn
  have hinput : divInput (execCop2T f.high f.st) true
      (operand f.low (execCop2T f.high f.st)) = x := by
    rw [f.low_lane, hhigh, f.high_lane]
    exact halves x
  rw [hinput] at hlow
  rw [result, after, hlow]
  simp only [Div.setResult, Div.setU, and_self, if_true]
  exact result_halves _

/-- Any operand can be fed: its halves in lane 0 of two registers. -/
def of (F : Recip) (x : BitVec 32) : Feed F x where
  st :=
    { vpr := fun r _ => if r = 1 then x.extractLsb' 16 16 else x.extractLsb' 0 16
      acch := setzero
      accm := setzero
      accl := setzero
      vcoh := setzero
      vcol := setzero
      vcch := setzero
      vccl := setzero
      vce := setzero
      divin := 0
      divout := 0
      divdp := false }
  high := 0x4a0100c0 ||| BitVec.ofNat 32 F.highFn
  low := 0x4a0200c0 ||| BitVec.ofNat 32 F.lowFn
  high_fn := by cases F <;> decide
  low_fn := by cases F <;> decide
  high_lane := by
    cases F <;> rw [operand, laneOf, bcast_at] <;> rfl
  low_lane := by
    cases F <;> rw [operand, laneOf, bcast_at] <;> rfl

end Feed

/-- Results of the low instructions for positive operands: within a part in
    256 and one unit of the real number, not negative, and not increasing. -/
theorem reciprocal_accurate (F : Recip) {x y : BitVec 32} (f : Feed F x) (g : Feed F y)
    (hx : 0 < x.toInt) (hxy : x.toInt ≤ y.toInt) :
    |(f.result.toInt : ℝ) - 2 ^ 31 / F.denom x.toInt| ≤ 2 ^ 31 / (256 * F.denom x.toInt) + 1 ∧
      0 ≤ f.result.toInt ∧ g.result.toInt ≤ f.result.toInt := by
  rw [f.result_eq, g.result_eq]
  exact ⟨F.table_close hx, F.table_nonneg hx, F.table_anti hx hxy⟩

theorem reciprocal_accurate_two :
    |((Feed.of .rsq 2).result.toInt : ℝ) - 2 ^ 31 / √(2 : BitVec 32).toInt| ≤
        2 ^ 31 / (256 * √(2 : BitVec 32).toInt) + 1 ∧
      0 ≤ (Feed.of .rsq 2).result.toInt ∧
      (Feed.of .rsq 3).result.toInt ≤ (Feed.of .rsq 2).result.toInt :=
  reciprocal_accurate .rsq (Feed.of .rsq 2) (Feed.of .rsq 3) (by decide) (by decide)

end Rsp
