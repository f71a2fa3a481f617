import Kestrel64.Rsp.VectorLane

/-! # RSP: the Vector Instructions One by One

    For each instruction, `LaneOk`: one lane of the scalar path succeeds and
    gives that lane of the fast path. `VMUDL` and `VMADL` need their product
    below 2 ^ 31 and `VMADH` its sum inside `int`; the instructions that read
    a flag need it to be 0 or 1.
-/

namespace Rsp

open Simd Limbs

/-- One lane of the scalar path succeeds with that lane of the fast path. -/
def LaneOk (fn : Fn) (t : M128) (vs vd : Fin 32) (st : Vu) (n : Fin 8) : Prop :=
  (scalarLane fn vs vd (t n) (st.lane n)).map (endLane fn vd) =
    some ((vuOp fn t vs vd st).lane n)

variable {t : M128} {vs vd : Fin 32} {st : Vu} {n : Fin 8}

/-! ## Section 1: Multiplication -/

theorem int_ss (a b : BitVec 16) : int (a.toInt * b.toInt) = some (a.toInt * b.toInt) := by
  obtain ⟨h1, h2⟩ := mul_ss_range a b
  exact checked_of ⟨by norm_num; omega, by norm_num; omega⟩

theorem int_su (a b : BitVec 16) :
    int (a.toInt * (b.toNat : Int)) = some (a.toInt * (b.toNat : Int)) :=
  checked_of (mul_su_range a b)

theorem int_us (a b : BitVec 16) :
    int ((a.toNat : Int) * b.toInt) = some ((a.toNat : Int) * b.toInt) := by
  rw [Int.mul_comm]
  exact int_su b a

/-- A 64-bit operation on something of the size of a product. -/
theorem s64_of {x : Int} (h₁ : -2 ^ 33 ≤ x) (h₂ : x ≤ 2 ^ 33) : s64 x = some x :=
  checked_of ⟨by norm_num; omega, by norm_num; omega⟩

/-- A product in the accumulator, rounded. -/
theorem vmul_at (s t : M128) (n : Fin 8) :
    (BitVec.ofInt 64 ((s n).toInt * (t n).toInt * 2 + 0x8000)).setWidth 48 =
      (vadd48 (vadd48 (vprodSS s t) (vprodSS s t))
        ⟨setzero, setzero, set1_epi16 0x8000⟩).at n := by
  have hround : V48.at ⟨setzero, setzero, set1_epi16 0x8000⟩ n = BitVec.ofInt 48 0x8000 := by
    show join 0 0 0x8000 = BitVec.ofInt 48 0x8000
    decide
  rw [setWidth_ofInt, vadd48_at, vadd48_at, vprodSS_at, hround, ← BitVec.ofInt_add,
    ← BitVec.ofInt_add]
  congr 1
  omega

theorem lane_setAcc (a : V48) (x : R128) :
    ((st.setAcc a).setD vd x).lane n =
      Lane.setD { st.lane n with acch := a.h n, accm := a.m n, accl := a.l n } vd (x n) :=
  lane_setD ..

theorem store_low {v : BitVec 64} {a : V48} (h : v.setWidth 48 = a.at n) :
    Lane.setD ((st.lane n).accSet v) vd ((st.lane n).accSet v).accl =
      ((st.setAcc a).setD vd a.l).lane n := by
  rw [lane_setAcc, accSet_join h]

theorem store_mid {v : BitVec 64} {a : V48} (h : v.setWidth 48 = a.at n) :
    Lane.setD ((st.lane n).accSet v) vd ((st.lane n).accSet v).accm =
      ((st.setAcc a).setD vd a.m).lane n := by
  rw [lane_setAcc, accSet_join h]

/-- Storing the accumulator and its signed saturation. -/
theorem store_signed {v : BitVec 64} {a : V48} (h : v.setWidth 48 = a.at n) :
    Lane.setD ((st.lane n).accSet v) vd (((st.lane n).accSet v).accSat true 0x8000 0x7fff) =
      ((st.setAcc a).setD vd (vsatSigned a)).lane n := by
  rw [lane_setAcc, accSet_join h, accSat_signed a n rfl rfl]

/-- Storing the accumulator and its unsigned saturation. -/
theorem store_unsigned {v : BitVec 64} {a : V48} (h : v.setWidth 48 = a.at n) :
    Lane.setD ((st.lane n).accSet v) vd (((st.lane n).accSet v).accSat false 0x0000 0xffff) =
      ((st.setAcc a).setD vd (vsatUnsignedN a)).lane n := by
  rw [lane_setAcc, accSet_join h, accSat_unsigned a n rfl rfl rfl]

/-- The saturation of `VMULU`. -/
theorem store_mulU {v : BitVec 64} {a : V48} (h : v.setWidth 48 = a.at n) :
    let L := (st.lane n).accSet v
    L.setD vd (if L.acch.toInt < 0 then 0
      else if signsDiffer L.acch L.accm then 0xffff else L.accm) =
      ((st.setAcc a).setD vd (vsatMulU a)).lane n := by
  intro L
  rw [lane_setAcc]
  have hL : L = { st.lane n with acch := a.h n, accm := a.m n, accl := a.l n } := accSet_join h
  rw [hL]
  congr 1
  unfold vsatMulU
  rw [blendv_mask (cmpgt_zero_at a.h n), blendv_mask (signs_mask a.h a.m n)]
  simp only [decide_eq_true_eq]
  rfl

/-- The saturation of `VMACU`. -/
theorem store_macU {v : BitVec 64} {a : V48} (h : v.setWidth 48 = a.at n) :
    let L := (st.lane n).accSet v
    L.setD vd (if L.acch.toInt < 0 then 0
      else if L.acch.toInt ≠ 0 ∨ L.accm.toInt < 0 then 0xffff else L.accm) =
      ((st.setAcc a).setD vd (vsatMacU a)).lane n := by
  have hov : or_si128 (vnot (cmpeq_epi16 a.h setzero)) (cmpgt_epi16 setzero a.m) n =
      mask (decide ((a.h n).toInt ≠ 0 ∨ (a.m n).toInt < 0)) := by
    rw [or_mask (vnot_mask (cmpeq_at a.h setzero n)) (cmpgt_zero_at a.m n)]
    simp only [toInt_ne_zero, Bool.decide_or]
    congr 2
    show (!(a.h n == 0)) = decide (a.h n ≠ 0)
    by_cases hz : a.h n = 0
    · rw [hz]
      rfl
    · rw [beq_eq_false_iff_ne.mpr hz, decide_eq_true hz]
      rfl
  intro L
  rw [lane_setAcc]
  have hL : L = { st.lane n with acch := a.h n, accm := a.m n, accl := a.l n } := accSet_join h
  rw [hL]
  congr 1
  unfold vsatMacU
  rw [blendv_mask (cmpgt_zero_at a.h n), blendv_mask hov]
  simp only [decide_eq_true_eq]
  rfl

theorem s64_round (s t : BitVec 16) :
    s64 (s.toInt * t.toInt * 2 + 0x8000) = some (s.toInt * t.toInt * 2 + 0x8000) := by
  obtain ⟨h1, h2⟩ := mul_ss_range s t
  exact s64_of (by omega) (by omega)

theorem s64_product (s t : BitVec 16) : s64 (s.toInt * t.toInt) = some (s.toInt * t.toInt) := by
  obtain ⟨h1, h2⟩ := mul_ss_range s t
  exact s64_of (by omega) (by omega)

theorem s64_twice (s t : BitVec 16) :
    s64 (s.toInt * t.toInt * 2) = some (s.toInt * t.toInt * 2) := by
  obtain ⟨h1, h2⟩ := mul_ss_range s t
  exact s64_of (by omega) (by omega)

/-- The source register of a lane. -/
theorem lane_vpr : (st.lane n).vpr vs = st.vpr vs n := rfl

theorem lane_vmulf : LaneOk .vmulf t vs vd st n := by
  simp only [LaneOk, scalarLane, lane_vpr, s64_product, s64_twice, s64_round,
    Option.bind_eq_bind, Option.bind_some, Option.pure_def, Option.map_some, endLane]
  rw [store_signed (vmul_at (st.vpr vs) t n)]
  rfl

theorem lane_vmulu : LaneOk .vmulu t vs vd st n := by
  simp only [LaneOk, scalarLane, lane_vpr, s64_product, s64_twice, s64_round,
    Option.bind_eq_bind, Option.bind_some, Option.pure_def, Option.map_some, endLane]
  rw [store_mulU (vmul_at (st.vpr vs) t n)]
  rfl

/-- Adding `v` to the accumulator, against `vadd48`. -/
theorem vadd_at (st : Vu) {v : BitVec 64} {p : V48} {n : Fin 8} (h : v.setWidth 48 = p.at n) :
    ((st.lane n).accGet + v).setWidth 48 = (vadd48 st.acc p).at n := by
  rw [accGet_add, vadd48_at, h]
  rfl

theorem vmac_at (s t : M128) (n : Fin 8) :
    (BitVec.ofInt 64 ((s n).toInt * (t n).toInt * 2)).setWidth 48 =
      (vadd48 (vprodSS s t) (vprodSS s t)).at n := by
  rw [setWidth_ofInt, vadd48_at, vprodSS_at, ← BitVec.ofInt_add]
  congr 1
  omega

theorem lane_vmacf : LaneOk .vmacf t vs vd st n := by
  simp only [LaneOk, scalarLane, lane_vpr, s64_product, s64_twice,
    Option.bind_eq_bind, Option.bind_some, Option.pure_def, Option.map_some, endLane]
  rw [store_signed (vadd_at st (vmac_at (st.vpr vs) t n))]
  rfl

theorem lane_vmacu : LaneOk .vmacu t vs vd st n := by
  simp only [LaneOk, scalarLane, lane_vpr, s64_product, s64_twice,
    Option.bind_eq_bind, Option.bind_some, Option.pure_def, Option.map_some, endLane]
  rw [store_macU (vadd_at st (vmac_at (st.vpr vs) t n))]
  rfl

theorem su_at (s t : M128) (n : Fin 8) :
    (BitVec.ofInt 64 ((s n).toInt * ((t n).toNat : Int))).setWidth 48 = (vprodSU s t).at n := by
  rw [setWidth_ofInt, vprodSU_at]

theorem us_at (s t : M128) (n : Fin 8) :
    (BitVec.ofInt 64 (((s n).toNat : Int) * (t n).toInt)).setWidth 48 = (vprodUS s t).at n := by
  rw [setWidth_ofInt, vprodUS_at]

theorem lane_vmudm : LaneOk .vmudm t vs vd st n := by
  simp only [LaneOk, scalarLane, lane_vpr, int_su,
    Option.bind_eq_bind, Option.bind_some, Option.pure_def, Option.map_some, endLane]
  rw [store_mid (su_at (st.vpr vs) t n)]
  rfl

theorem lane_vmudn : LaneOk .vmudn t vs vd st n := by
  simp only [LaneOk, scalarLane, lane_vpr, int_us,
    Option.bind_eq_bind, Option.bind_some, Option.pure_def, Option.map_some, endLane]
  rw [store_low (us_at (st.vpr vs) t n)]
  rfl

theorem lane_vmadm : LaneOk .vmadm t vs vd st n := by
  simp only [LaneOk, scalarLane, lane_vpr, int_su,
    Option.bind_eq_bind, Option.bind_some, Option.pure_def, Option.map_some, endLane]
  rw [store_signed (vadd_at st (su_at (st.vpr vs) t n))]
  rfl

theorem lane_vmadn : LaneOk .vmadn t vs vd st n := by
  simp only [LaneOk, scalarLane, lane_vpr, int_us,
    Option.bind_eq_bind, Option.bind_some, Option.pure_def, Option.map_some, endLane]
  rw [store_unsigned (vadd_at st (us_at (st.vpr vs) t n))]
  rfl

/-- A product in the upper limbs. -/
theorem vmudh_at (s t : M128) (n : Fin 8) :
    (BitVec.ofInt 64 ((s n).toInt * (t n).toInt) <<< 16).setWidth 48 =
      V48.at ⟨mulhi_epi16 s t, mullo_epi16 s t, setzero⟩ n := by
  have hhi : (mulhi_epi16 s t n ++ mullo_epi16 s t n : BitVec 32) =
      BitVec.ofInt 32 ((s n).toInt * (t n).toInt) := append_mul_ss (s n) (t n)
  apply BitVec.eq_of_toNat_eq
  unfold V48.at join
  rw [hhi, toNat_append16, BitVec.toNat_ofInt, BitVec.toNat_setWidth, BitVec.toNat_shiftLeft,
    BitVec.toNat_ofInt, Nat.shiftLeft_eq]
  show _ = _ + 0
  omega

theorem lane_vmudh : LaneOk .vmudh t vs vd st n := by
  simp only [LaneOk, scalarLane, lane_vpr, int_ss,
    Option.bind_eq_bind, Option.bind_some, Option.pure_def, Option.map_some, endLane]
  rw [store_signed (vmudh_at (st.vpr vs) t n)]
  rfl

/-! The unsigned products, computed in `int`. -/

theorem zero_mulhi_at (s t : M128) (n : Fin 8) :
    (V48.at ⟨setzero, setzero, mulhi_epu16 s t⟩ n).toNat = (s n).toNat * (t n).toNat / 2 ^ 16 := by
  have hhi : (mulhi_epu16 s t n).toNat = (s n).toNat * (t n).toNat / 2 ^ 16 :=
    toNat_mulhi (s n) (t n)
  unfold V48.at
  rw [toNat_join, hhi]
  show 0 * 2 ^ 32 + 0 * 2 ^ 16 + _ = _
  omega

theorem vmudl_at (s t : M128) (n : Fin 8) :
    (((BitVec.ofInt 32 (((s n).toNat : Int) * (t n).toNat) >>> 16).setWidth 16).setWidth
      64).setWidth 48 = V48.at ⟨setzero, setzero, mulhi_epu16 s t⟩ n := by
  have hs := (s n).isLt
  have ht := (t n).isLt
  have hp : (s n).toNat * (t n).toNat < 2 ^ 32 := by nlinarith
  apply BitVec.eq_of_toNat_eq
  rw [zero_mulhi_at, ← Nat.cast_mul]
  simp only [BitVec.toNat_setWidth, BitVec.toNat_ushiftRight, BitVec.toNat_ofInt,
    Nat.shiftRight_eq_div_pow]
  omega

theorem vmadl_at (s t : M128) (n : Fin 8) :
    ((BitVec.ofInt 32 (((s n).toNat : Int) * (t n).toNat / 2 ^ 16)).setWidth 64).setWidth 48 =
      V48.at ⟨setzero, setzero, mulhi_epu16 s t⟩ n := by
  have hs := (s n).isLt
  have ht := (t n).isLt
  have hp : (s n).toNat * (t n).toNat < 2 ^ 32 := by nlinarith
  apply BitVec.eq_of_toNat_eq
  rw [zero_mulhi_at, ← Nat.cast_mul]
  simp only [BitVec.toNat_setWidth, BitVec.toNat_ofInt]
  omega

theorem int_uu {a b : BitVec 16} (h : a.toNat * b.toNat < 2 ^ 31) :
    int ((a.toNat : Int) * b.toNat) = some ((a.toNat : Int) * b.toNat) := by
  refine checked_of ⟨?_, ?_⟩ <;> norm_num <;> rw [← Nat.cast_mul] <;> omega

theorem int_uu_none {a b : BitVec 16} (h : 2 ^ 31 ≤ a.toNat * b.toNat) :
    int ((a.toNat : Int) * b.toNat) = none := by
  refine checked_of_not fun hs => ?_
  have := hs.2
  rw [← Nat.cast_mul] at this
  norm_num at this
  omega

theorem lane_vmudl (h : (st.vpr vs n).toNat * (t n).toNat < 2 ^ 31) :
    LaneOk .vmudl t vs vd st n := by
  simp only [LaneOk, scalarLane, lane_vpr, int_uu h,
    Option.bind_eq_bind, Option.bind_some, Option.pure_def, Option.map_some, endLane]
  rw [store_low (vmudl_at (st.vpr vs) t n)]
  rfl

theorem lane_vmadl (h : (st.vpr vs n).toNat * (t n).toNat < 2 ^ 31) :
    LaneOk .vmadl t vs vd st n := by
  simp only [LaneOk, scalarLane, lane_vpr, int_uu h,
    Option.bind_eq_bind, Option.bind_some, Option.pure_def, Option.map_some, endLane]
  rw [store_unsigned (vadd_at st (vmadl_at (st.vpr vs) t n))]
  rfl

theorem accGet_high (L : Lane) :
    (L.accGet >>> 16).setWidth 32 = (L.acch ++ L.accm : BitVec 32) := by
  have hh := L.acch.isLt
  have hm := L.accm.isLt
  have hl := L.accl.isLt
  apply BitVec.eq_of_toNat_eq
  rw [accGet_join, toNat_append16, BitVec.toNat_setWidth, BitVec.toNat_ushiftRight,
    BitVec.toNat_setWidth, toNat_join, Nat.shiftRight_eq_div_pow]
  omega

/-- The sum of `VMADH` in one lane. -/
def madhSum (L : Lane) (s t : BitVec 16) : Int :=
  (L.acch ++ L.accm : BitVec 32).toInt + s.toInt * t.toInt

theorem vmadh_limbs (st : Vu) (s t : M128) (n : Fin 8) :
    add_epi16 (add_epi16 st.acch (mulhi_epi16 s t))
        (vcarry16 st.accm (mullo_epi16 s t) (add_epi16 st.accm (mullo_epi16 s t))) n =
      BitVec.ofInt 16 (madhSum (st.lane n) (s n) (t n) / 2 ^ 16) ∧
    add_epi16 st.accm (mullo_epi16 s t) n =
      BitVec.ofInt 16 (madhSum (st.lane n) (s n) (t n)) := by
  have hhi : (mulhi_epi16 s t n ++ mullo_epi16 s t n : BitVec 32) =
      BitVec.ofInt 32 ((s n).toInt * (t n).toInt) := append_mul_ss (s n) (t n)
  have hsum := append_add (st.acch n) (st.accm n) (mulhi_epi16 s t n) (mullo_epi16 s t n)
  rw [hhi, ← vcarry16_add] at hsum
  apply append_inj
  rw [append_div, madhSum, BitVec.ofInt_add, BitVec.ofInt_toInt]
  exact hsum.symm

/-- The scalar path of `VMADH` up to its last sum. -/
theorem scalar_vmadh (L : Lane) :
    scalarLane .vmadh vs vd (t n) L =
      (int (madhSum L (L.vpr vs) (t n))).map fun result =>
        let L := { L with
          acch := BitVec.ofInt 16 (result / 2 ^ 16)
          accm := BitVec.ofInt 16 result }
        L.setD vd (L.accSat true 0x8000 0x7fff) := by
  simp only [scalarLane, int_ss, accGet_high, Option.bind_eq_bind, Option.bind_some]
  show (int (madhSum L (L.vpr vs) (t n))).bind _ = _
  cases int (madhSum L (L.vpr vs) (t n)) <;> rfl

theorem lane_vmadh (h : Signed 32 (madhSum (st.lane n) (st.vpr vs n) (t n))) :
    LaneOk .vmadh t vs vd st n := by
  obtain ⟨hh, hm⟩ := vmadh_limbs st (st.vpr vs) t n
  have hint : int (madhSum (st.lane n) (st.vpr vs n) (t n)) = some _ := checked_of h
  unfold LaneOk
  rw [scalar_vmadh, lane_vpr, hint]
  simp only [Option.map_some, endLane, vuOp]
  rw [lane_setD, ← hh, ← hm]
  rw [accSat_signed ⟨_, _, st.accl⟩ n rfl rfl]
  rfl

/-! ## Section 2: Sums and differences -/

/-- Signed operations on two lanes and a flag stay well inside `int`. -/
theorem int_of {x : Int} (h₁ : -2 ^ 18 ≤ x) (h₂ : x ≤ 2 ^ 18) : int x = some x :=
  checked_of ⟨by norm_num; omega, by norm_num; omega⟩

theorem toInt_small {x : Int} (h₁ : -2 ^ 18 ≤ x) (h₂ : x ≤ 2 ^ 18) :
    (BitVec.ofInt 32 x).toInt = x :=
  BitVec.toInt_ofInt_eq_self (by omega) (by norm_num; omega) (by norm_num; omega)

theorem ofInt_sub (w : Nat) (x y : Int) :
    BitVec.ofInt w (x - y) = BitVec.ofInt w x - BitVec.ofInt w y := by
  rw [Int.sub_eq_add_neg, BitVec.ofInt_add, BitVec.ofInt_neg, BitVec.sub_eq_add_neg]

theorem toInt_set (b : Bool) : (set b).toInt = (get (set b) : Int) := by
  cases b <;> decide

theorem get_range (b : Bool) : 0 ≤ (get (set b) : Int) ∧ (get (set b) : Int) ≤ 1 := by
  cases b <;> decide

/-- `VADD` and `VSUB` store the low half and the saturated result. -/
theorem lane_vuAddSub {rr : Int} {al lo hi : M128} (hlow : BitVec.ofInt 16 rr = al n)
    (hwide : sat16 rr = packs_epi32 lo hi n) :
    endLane .vadd vd (Lane.setD { st.lane n with accl := BitVec.ofInt 16 rr } vd (sclamp16 rr)) =
      (vuAddSub al lo hi vd st).lane n := by
  have hD := lane_setD { st with accl := al, vcol := setzero, vcoh := setzero } vd
    (packs_epi32 lo hi) n
  rw [hlow, show sclamp16 rr = _ from hwide]
  exact hD.symm

theorem lane_vadd (hc : IsFlag (st.vcol n)) : LaneOk .vadd t vs vd st n := by
  obtain ⟨b, hb⟩ := hc
  obtain ⟨h1, h2⟩ := toInt_range (st.vpr vs n)
  obtain ⟨h3, h4⟩ := toInt_range (t n)
  obtain ⟨h5, h6⟩ := get_range b
  have hcol : (st.lane n).vcol = set b := hb
  -- the sum in 16 and in 32 bits
  have hlow : BitVec.ofInt 16 ((st.vpr vs n).toInt + (t n).toInt + (get (set b) : Int)) =
      add_epi16 (add_epi16 (st.vpr vs) t) st.vcol n := by
    rw [BitVec.ofInt_add, BitVec.ofInt_add, BitVec.ofInt_toInt, BitVec.ofInt_toInt, ← toInt_set,
      BitVec.ofInt_toInt, ← hb]
    rfl
  have hwide : sat16 ((st.vpr vs n).toInt + (t n).toInt + (get (set b) : Int)) =
      packs_epi32
        (add_epi32 (add_epi32 (cvtepi16_epi32 (st.vpr vs)) (cvtepi16_epi32 t))
          (cvtepi16_epi32 st.vcol))
        (add_epi32 (add_epi32 (cvtepi16_epi32 (srli_si128 (st.vpr vs) 8))
          (cvtepi16_epi32 (srli_si128 t 8))) (cvtepi16_epi32 (srli_si128 st.vcol 8))) n := by
    rw [packs_wide, wide_add, wide_add, wide_cvtepi16, wide_cvtepi16, wide_cvtepi16, hb]
    unfold BitVec.signExtend
    rw [← BitVec.ofInt_add, ← BitVec.ofInt_add, toInt_set, toInt_small (by omega) (by omega)]
  simp only [LaneOk, scalarLane, lane_vpr, hcol, Option.bind_eq_bind]
  rw [int_of (by omega) (by omega), Option.bind_some, int_of (by omega) (by omega),
    Option.bind_some, Option.pure_def, Option.map_some]
  exact congrArg some (lane_vuAddSub hlow hwide)

theorem lane_vsub (hc : IsFlag (st.vcol n)) : LaneOk .vsub t vs vd st n := by
  obtain ⟨b, hb⟩ := hc
  obtain ⟨h1, h2⟩ := toInt_range (st.vpr vs n)
  obtain ⟨h3, h4⟩ := toInt_range (t n)
  obtain ⟨h5, h6⟩ := get_range b
  have hcol : (st.lane n).vcol = set b := hb
  have hlow : BitVec.ofInt 16 ((st.vpr vs n).toInt - (t n).toInt - (get (set b) : Int)) =
      sub_epi16 (sub_epi16 (st.vpr vs) t) st.vcol n := by
    rw [ofInt_sub, ofInt_sub, BitVec.ofInt_toInt, BitVec.ofInt_toInt, ← toInt_set,
      BitVec.ofInt_toInt, ← hb]
    rfl
  have hwide : sat16 ((st.vpr vs n).toInt - (t n).toInt - (get (set b) : Int)) =
      packs_epi32
        (sub_epi32 (sub_epi32 (cvtepi16_epi32 (st.vpr vs)) (cvtepi16_epi32 t))
          (cvtepi16_epi32 st.vcol))
        (sub_epi32 (sub_epi32 (cvtepi16_epi32 (srli_si128 (st.vpr vs) 8))
          (cvtepi16_epi32 (srli_si128 t 8))) (cvtepi16_epi32 (srli_si128 st.vcol 8))) n := by
    rw [packs_wide, wide_sub, wide_sub, wide_cvtepi16, wide_cvtepi16, wide_cvtepi16, hb]
    unfold BitVec.signExtend
    rw [← ofInt_sub, ← ofInt_sub, toInt_set, toInt_small (by omega) (by omega)]
  simp only [LaneOk, scalarLane, lane_vpr, hcol, Option.bind_eq_bind]
  rw [int_of (by omega) (by omega), Option.bind_some, int_of (by omega) (by omega),
    Option.bind_some, Option.pure_def, Option.map_some]
  exact congrArg some (lane_vuAddSub hlow hwide)

/-- `VABS` in one lane of the fast path. -/
theorem vabs_at (s t : M128) (n : Fin 8) :
    andnot_si128 (cmpeq_epi16 s setzero)
        (blendv_epi8 t (sub_epi16 setzero t) (cmpgt_epi16 setzero s)) n =
      (if s n = 0 then 0 else if (s n).toInt < 0 then -t n else t n) ∧
    andnot_si128 (cmpeq_epi16 s setzero)
        (blendv_epi8 t (subs_epi16 setzero t) (cmpgt_epi16 setzero s)) n =
      (if s n = 0 then 0 else if (s n).toInt < 0 then sat16 (-(t n).toInt) else t n) := by
  have hclear : ∀ x : M128, andnot_si128 (cmpeq_epi16 s setzero) x n =
      if s n = 0 then 0 else x n := by
    intro x
    show ~~~ mask (s n == 0) &&& x n = _
    by_cases hz : s n = 0
    · rw [if_pos hz, hz]
      exact BitVec.zero_and
    · rw [if_neg hz, beq_eq_false_iff_ne.mpr hz]
      exact BitVec.allOnes_and
  rw [hclear, hclear, blendv_mask (cmpgt_zero_at s n), blendv_mask (cmpgt_zero_at s n)]
  simp only [decide_eq_true_eq]
  refine ⟨?_, ?_⟩
  · show (if _ then _ else if _ then 0#16 - t n else _) = _
    rw [BitVec.zero_sub]
  · show (if _ then _ else if _ then sat16 (0 - (t n).toInt) else _) = _
    rw [Int.zero_sub]

/-- Storing the low slice and `D` with no flags. -/
theorem lane_setLowD (al dv : M128) :
    (Vu.setD { st with accl := al } vd dv).lane n =
      Lane.setD { st.lane n with accl := al n } vd (dv n) := lane_setD ..

theorem lane_vabs : LaneOk .vabs t vs vd st n := by
  obtain ⟨h3, h4⟩ := toInt_range (t n)
  obtain ⟨hal, hdv⟩ := vabs_at (st.vpr vs) t n
  have hzero : st.vpr vs n = 0 ↔ (st.vpr vs n).toInt = 0 := by
    rw [← not_iff_not]
    exact (toInt_ne_zero _).symm
  simp only [LaneOk, scalarLane, vuOp]
  rw [lane_setLowD, hal, hdv]
  by_cases hneg : ((st.lane n).vpr vs).toInt < 0
  · have hne : ¬ st.vpr vs n = 0 := fun h => by
      rw [lane_vpr, hzero.mp h] at hneg
      exact absurd hneg (by decide)
    have hneg' : (st.vpr vs n).toInt < 0 := hneg
    rw [if_pos hneg, if_neg hne, if_pos hneg', if_neg hne, if_pos hneg']
    by_cases hmin : (t n).toInt = -32768
    · -- the one value whose negation saturates
      have ht : t n = 0x8000 := BitVec.eq_of_toInt_eq hmin
      rw [if_pos hmin, ht]
      rfl
    · have hn : BitVec.ofInt 16 (-(t n).toInt) = -t n := by
        rw [BitVec.ofInt_neg, BitVec.ofInt_toInt]
      rw [if_neg hmin, int_of (by omega) (by omega), sat16_of_range (by omega) (by omega), hn]
      simp only [Option.bind_eq_bind, Option.bind_some, Option.pure_def, Option.map_some, hn]
      rfl
  · have hneg' : ¬ (st.vpr vs n).toInt < 0 := hneg
    rw [if_neg hneg]
    by_cases hpos : 0 < ((st.lane n).vpr vs).toInt
    · have hne : ¬ st.vpr vs n = 0 := fun h => by
        rw [lane_vpr, hzero.mp h] at hpos
        exact absurd hpos (by decide)
      rw [if_pos hpos, if_neg hne, if_neg hneg', if_neg hne, if_neg hneg']
      rfl
    · have hpos' : ¬ 0 < (st.vpr vs n).toInt := hpos
      have hz : st.vpr vs n = 0 := hzero.mpr (by omega)
      rw [if_neg hpos, if_pos hz, if_pos hz]
      rfl

/-- A 32-bit element that is 0 or 1 as a flag lane. -/
theorem sat16_bit {x : BitVec 32} (h : x.toNat < 2) : sat16 x.toInt = set (x != 0) := by
  have hx : x = 0 ∨ x = 1 := by
    rcases (show x.toNat = 0 ∨ x.toNat = 1 by omega) with h0 | h1
    · exact .inl (BitVec.eq_of_toNat_eq h0)
    · exact .inr (BitVec.eq_of_toNat_eq h1)
  rcases hx with rfl | rfl <;> decide

/-- The low slice, `D` and the flags stored together. -/
theorem lane_setLow (st : Vu) (vd : Fin 32) (n : Fin 8) (r co cl ch cc ce : M128) :
    Vu.lane { st.setLow vd r with vcoh := co, vcol := cl, vcch := ch, vccl := cc, vce := ce } n =
      Lane.setD { st.lane n with
        accl := r n, vcoh := co n, vcol := cl n, vcch := ch n, vccl := cc n, vce := ce n }
        vd (r n) :=
  lane_setD { st with accl := r, vcoh := co, vcol := cl, vcch := ch, vccl := cc, vce := ce } vd r n

/-- The carry of `VADDC`. -/
theorem vaddc_carry (s t : M128) (n : Fin 8) :
    packs_epi32 (srli_epi32 (add_epi32 (cvtepu16_epi32 s) (cvtepu16_epi32 t)) 16)
        (srli_epi32 (add_epi32 (cvtepu16_epi32 (srli_si128 s 8))
          (cvtepu16_epi32 (srli_si128 t 8))) 16) n =
      set (((s n).setWidth 32 + (t n).setWidth 32) >>> 16 != 0) := by
  have hs := (s n).isLt
  have ht := (t n).isLt
  have hbit : (((s n).setWidth 32 + (t n).setWidth 32) >>> 16).toNat < 2 := by
    rw [BitVec.toNat_ushiftRight, BitVec.toNat_add, BitVec.toNat_setWidth, BitVec.toNat_setWidth,
      Nat.shiftRight_eq_div_pow]
    omega
  rw [packs_wide, wide_srli, wide_add, wide_cvtepu16, wide_cvtepu16, sat16_bit hbit]

theorem lane_vaddc : LaneOk .vaddc t vs vd st n := by
  have hs := (st.vpr vs n).isLt
  have ht := (t n).isLt
  simp only [LaneOk, scalarLane, lane_vpr, vuOp, Option.bind_eq_bind]
  rw [int_of (by omega) (by omega), Option.bind_some, Option.pure_def, Option.map_some]
  have hsum : BitVec.ofInt 32 (((st.vpr vs n).toNat : Int) + (t n).toNat) =
      (st.vpr vs n).setWidth 32 + (t n).setWidth 32 := by
    apply BitVec.eq_of_toNat_eq
    rw [BitVec.toNat_ofInt, BitVec.toNat_add, BitVec.toNat_setWidth, BitVec.toNat_setWidth]
    omega
  have hlow : ((st.vpr vs n).setWidth 32 + (t n).setWidth 32).setWidth 16 =
      add_epi16 (st.vpr vs) t n := by
    apply BitVec.eq_of_toNat_eq
    show _ = (st.vpr vs n + t n).toNat
    rw [BitVec.toNat_setWidth, BitVec.toNat_add, BitVec.toNat_setWidth, BitVec.toNat_setWidth,
      BitVec.toNat_add]
    omega
  rw [hsum, hlow, ← vaddc_carry]
  rw [lane_setLow st vd n]
  rfl

theorem sub_wide (s t : BitVec 16) :
    BitVec.ofInt 32 ((s.toNat : Int) - t.toNat) = s.setWidth 32 - t.setWidth 32 := by
  have hs := s.isLt
  have ht := t.isLt
  apply BitVec.eq_of_toNat_eq
  rw [BitVec.toNat_ofInt, BitVec.toNat_sub, BitVec.toNat_setWidth, BitVec.toNat_setWidth]
  omega

theorem sat16_and_one (x : BitVec 32) : sat16 (x &&& 1).toInt = set (x &&& 1 != 0) := by
  apply sat16_bit
  rw [BitVec.toNat_and]
  exact Nat.lt_of_le_of_lt Nat.and_le_right (by decide)

theorem wide_vnot (a b : M128) (n : Fin 8) : wide (vnot a) (vnot b) n = ~~~ wide a b n := by
  have hones : wide vones vones n = BitVec.allOnes 32 := by
    have hd : ∀ k, dword vones k = BitVec.allOnes 32 := by
      intro k
      show mask (0#16 == 0#16) ++ mask (0#16 == 0#16) = BitVec.allOnes 32
      decide
    unfold wide
    split <;> exact hd _
  unfold vnot
  rw [wide_xor, hones, BitVec.xor_allOnes]

/-- The borrow of `VSUBC`. -/
theorem vsubc_borrow (s t : M128) (n : Fin 8) :
    packs_epi32
        (and_si128 (srli_epi32 (sub_epi32 (cvtepu16_epi32 s) (cvtepu16_epi32 t)) 16) (set1_epi32 1))
        (and_si128 (srli_epi32 (sub_epi32 (cvtepu16_epi32 (srli_si128 s 8))
          (cvtepu16_epi32 (srli_si128 t 8))) 16) (set1_epi32 1)) n =
      set (((s n).setWidth 32 - (t n).setWidth 32) >>> 16 &&& 1 != 0) := by
  rw [packs_wide, wide_and, wide_srli, wide_sub, wide_cvtepu16, wide_cvtepu16, wide_set1,
    sat16_and_one]

/-- `VCO.high` of `VSUBC`: the operands differ. -/
theorem vsubc_differ (s t : M128) (n : Fin 8) :
    packs_epi32
        (and_si128 (vnot (cmpeq_epi32 (sub_epi32 (cvtepu16_epi32 s) (cvtepu16_epi32 t)) setzero))
          (set1_epi32 1))
        (and_si128 (vnot (cmpeq_epi32 (sub_epi32 (cvtepu16_epi32 (srli_si128 s 8))
          (cvtepu16_epi32 (srli_si128 t 8))) setzero)) (set1_epi32 1)) n =
      set ((s n).setWidth 32 - (t n).setWidth 32 != 0) := by
  rw [packs_wide, wide_and, wide_vnot, wide_cmpeq, wide_sub, wide_cvtepu16, wide_cvtepu16,
    wide_setzero, wide_set1]
  unfold bne
  cases (s n).setWidth 32 - (t n).setWidth 32 == 0 <;> decide

theorem lane_vsubc : LaneOk .vsubc t vs vd st n := by
  have hs := (st.vpr vs n).isLt
  have ht := (t n).isLt
  simp only [LaneOk, scalarLane, lane_vpr, vuOp, Option.bind_eq_bind]
  rw [int_of (by omega) (by omega), Option.bind_some, Option.pure_def, Option.map_some, sub_wide]
  have hlow : ((st.vpr vs n).setWidth 32 - (t n).setWidth 32).setWidth 16 =
      sub_epi16 (st.vpr vs) t n := by
    apply BitVec.eq_of_toNat_eq
    show _ = (st.vpr vs n - t n).toNat
    rw [BitVec.toNat_setWidth, BitVec.toNat_sub, BitVec.toNat_setWidth, BitVec.toNat_setWidth,
      BitVec.toNat_sub]
    omega
  rw [hlow, ← vsubc_borrow, ← vsubc_differ]
  rw [lane_setLow st vd n]
  rfl

/-! ## Section 3: Comparisons -/

/-- The four comparisons, from their condition. -/
theorem lane_vuCompare {s cm : M128} {c : Bool} (h : cm n = mask c) :
    Lane.setD { (st.lane n).compare (s n) (t n) c with vcch := 0, vcol := 0, vcoh := 0 } vd
        (if c then s n else t n) = (vuCompare s t cm vd st).lane n := by
  unfold vuCompare
  rw [lane_setLow st vd n, blendv_mask h, vflagFromMask_at h]
  rfl

theorem beq_toInt (a b : BitVec 16) : (a.toInt == b.toInt) = (a == b) := by
  by_cases h : a = b
  · rw [h, beq_self_eq_true, beq_self_eq_true]
  · have hne : a.toInt ≠ b.toInt := fun he => h (BitVec.eq_of_toInt_eq he)
    rw [beq_eq_false_iff_ne.mpr h, beq_eq_false_iff_ne.mpr hne]

theorem get_bne (b : Bool) : (get (set b) != 0) = b := by
  cases b <;> rfl

theorem get_beq (b : Bool) : (get (set b) == 0) = !b := by
  cases b <;> rfl

theorem lane_vlt (hcol : IsFlag (st.vcol n)) (hcoh : IsFlag (st.vcoh n)) :
    LaneOk .vlt t vs vd st n := by
  obtain ⟨p, hp⟩ := hcol
  obtain ⟨q, hq⟩ := hcoh
  have hcm := or_mask (cmpgt_at t (st.vpr vs) n) (and_mask (cmpeq_at (st.vpr vs) t n)
    (and_mask (vmaskFromFlag_at hp) (vmaskFromFlag_at hq)))
  refine Eq.trans ?_ (congrArg some (lane_vuCompare hcm))
  simp only [scalarLane, lane_vpr, show (st.lane n).vcol = set p from hp,
    show (st.lane n).vcoh = set q from hq, get_bne, beq_toInt, Bool.and_assoc]
  rfl

theorem lane_veq (hcoh : IsFlag (st.vcoh n)) : LaneOk .veq t vs vd st n := by
  obtain ⟨q, hq⟩ := hcoh
  have hcm := andnot_mask (vmaskFromFlag_at hq) (cmpeq_at (st.vpr vs) t n)
  refine Eq.trans ?_ (congrArg some (lane_vuCompare hcm))
  simp only [scalarLane, lane_vpr, show (st.lane n).vcoh = set q from hq, get_beq]
  rfl

theorem lane_vne (hcoh : IsFlag (st.vcoh n)) : LaneOk .vne t vs vd st n := by
  obtain ⟨q, hq⟩ := hcoh
  have hcm := or_mask (vnot_mask (cmpeq_at (st.vpr vs) t n)) (vmaskFromFlag_at hq)
  refine Eq.trans ?_ (congrArg some (lane_vuCompare hcm))
  simp only [scalarLane, lane_vpr, show (st.lane n).vcoh = set q from hq, get_bne]
  rfl

theorem lane_vge (hcol : IsFlag (st.vcol n)) (hcoh : IsFlag (st.vcoh n)) :
    LaneOk .vge t vs vd st n := by
  obtain ⟨p, hp⟩ := hcol
  obtain ⟨q, hq⟩ := hcoh
  have hcm := or_mask (cmpgt_at (st.vpr vs) t n) (and_mask (cmpeq_at (st.vpr vs) t n)
    (vnot_mask (and_mask (vmaskFromFlag_at hp) (vmaskFromFlag_at hq))))
  refine Eq.trans ?_ (congrArg some (lane_vuCompare hcm))
  simp only [scalarLane, lane_vpr, show (st.lane n).vcol = set p from hp,
    show (st.lane n).vcoh = set q from hq, get_beq, beq_toInt, Bool.not_and]
  rfl

theorem get_ite {α : Type} {x : BitVec 16} {b : Bool} (h : x = set b) (u v : α) :
    (if get x ≠ 0 then u else v) = if b then u else v := by
  subst h
  cases b <;> rfl

theorem lane_vmrg (hccl : IsFlag (st.vccl n)) : LaneOk .vmrg t vs vd st n := by
  obtain ⟨p, hp⟩ := hccl
  have hsel := get_ite (show (st.lane n).vccl = set p from hp) (st.vpr vs n) (t n)
  simp only [LaneOk, scalarLane, lane_vpr, vuOp]
  rw [lane_setLow st vd n, blendv_mask (vmaskFromFlag_at hp), hsel]
  rfl

/-! ## Section 4: Clipping -/

theorem le_zero_mask (x : M128) (n : Fin 8) :
    vnot (cmpgt_epi16 x setzero) n = mask (decide ((x n).toInt ≤ 0)) := by
  rw [vnot_mask (cmpgt_at x setzero n), ← decide_not]
  simp only [not_lt]
  rfl

theorem ge_zero_mask (x : M128) (n : Fin 8) :
    vnot (cmpgt_epi16 setzero x) n = mask (decide (0 ≤ (x n).toInt)) := by
  rw [vnot_mask (cmpgt_zero_at x n), ← decide_not]
  simp only [not_lt]

/-- The result of `VCH`: a sum where the signs differ, else a difference. -/
def chResult (s t : M128) : M128 :=
  blendv_epi8 (sub_epi16 s t) (add_epi16 s t) (cmpgt_epi16 setzero (xor_si128 s t))

theorem chResult_at (s t : M128) (n : Fin 8) :
    chResult s t n = if signsDiffer (s n) (t n) then s n + t n else s n - t n :=
  blendv_mask (signs_mask s t n)

/-- `VCO.high` of `VCH`. -/
theorem ch_voh (s t : M128) (n : Fin 8) :
    vflagFromMask (and_si128 (vnot (cmpeq_epi16 (chResult s t) setzero))
        (vnot (cmpeq_epi16 s (vnot t)))) n =
      set ((chResult s t n).toInt != 0 && s n != t n ^^^ 0xffff) := by
  rw [vflagFromMask_at (and_mask (vnot_mask (cmpeq_at (chResult s t) setzero n))
    (vnot_mask (cmpeq_at s (vnot t) n))), vnot_at]
  have hz : ((chResult s t n).toInt != 0) = !(chResult s t n == 0) :=
    congrArg not (beq_toInt (chResult s t n) 0)
  have hc : t n ^^^ 0xffff = ~~~ t n := BitVec.xor_allOnes
  rw [hz, hc]
  rfl

/-- `VCE` of `VCH`. -/
theorem ch_vce (s t : M128) (n : Fin 8) :
    vflagFromMask (and_si128 (cmpgt_epi16 setzero (xor_si128 s t))
        (cmpeq_epi16 (chResult s t) vones)) n =
      set (signsDiffer (s n) (t n) && (chResult s t n).toInt == -1) := by
  rw [vflagFromMask_at (and_mask (signs_mask s t n) (cmpeq_at (chResult s t) vones n))]
  have hone : ((chResult s t n).toInt == -1) = (chResult s t n == vones n) :=
    beq_toInt (chResult s t n) (vones n)
  rw [hone]

/-- One lane of `VCH` in the fast path. -/
theorem vch_at :
    (vuOp .vch t vs vd st).lane n =
      let s := st.vpr vs n
      let d := signsDiffer s (t n)
      let r := chResult (st.vpr vs) t n
      let al := if d then (if r.toInt ≤ 0 then -t n else s) else if 0 ≤ r.toInt then t n else s
      Lane.setD { st.lane n with
        accl := al
        vccl := set (if d then decide (r.toInt ≤ 0) else decide ((t n).toInt < 0))
        vcch := set (if d then decide ((t n).toInt < 0) else decide (0 ≤ r.toInt))
        vcol := set d
        vcoh := set (r.toInt != 0 && s != t n ^^^ 0xffff)
        vce := set (d && r.toInt == -1) } vd al := by
  have hd := signs_mask (st.vpr vs) t n
  have hle := le_zero_mask (chResult (st.vpr vs) t) n
  have hge := ge_zero_mask (chResult (st.vpr vs) t) n
  have hneg := cmpgt_zero_at t n
  have hal : blendv_epi8
      (blendv_epi8 (st.vpr vs) t (vnot (cmpgt_epi16 setzero (chResult (st.vpr vs) t))))
      (blendv_epi8 (st.vpr vs) (sub_epi16 setzero t)
        (vnot (cmpgt_epi16 (chResult (st.vpr vs) t) setzero)))
      (cmpgt_epi16 setzero (xor_si128 (st.vpr vs) t)) n =
      if signsDiffer (st.vpr vs n) (t n) then
        (if (chResult (st.vpr vs) t n).toInt ≤ 0 then -t n else st.vpr vs n)
      else if 0 ≤ (chResult (st.vpr vs) t n).toInt then t n else st.vpr vs n := by
    rw [blendv_mask hd, blendv_mask hle, blendv_mask hge]
    simp only [decide_eq_true_eq]
    have hz : sub_epi16 setzero t n = -t n := BitVec.zero_sub (t n)
    rw [hz]
  have hres : blendv_epi8 (sub_epi16 (st.vpr vs) t) (add_epi16 (st.vpr vs) t)
      (cmpgt_epi16 setzero (xor_si128 (st.vpr vs) t)) = chResult (st.vpr vs) t := rfl
  simp only [vuOp]
  rw [lane_setLow st vd n, hres, hal, vflagFromMask_at (blend_masks hneg hle hd),
    vflagFromMask_at (blend_masks hge hneg hd), vflagFromMask_at hd, ch_voh, ch_vce]

theorem lane_vch : LaneOk .vch t vs vd st n := by
  obtain ⟨h1, h2⟩ := toInt_range (st.vpr vs n)
  obtain ⟨h3, h4⟩ := toInt_range (t n)
  have hsum : BitVec.ofInt 16 ((st.vpr vs n).toInt + (t n).toInt) = st.vpr vs n + t n := by
    rw [BitVec.ofInt_add, BitVec.ofInt_toInt, BitVec.ofInt_toInt]
  have hdiff : BitVec.ofInt 16 ((st.vpr vs n).toInt - (t n).toInt) = st.vpr vs n - t n := by
    rw [ofInt_sub, BitVec.ofInt_toInt, BitVec.ofInt_toInt]
  have hneg : BitVec.ofInt 16 (-(t n).toInt) = -t n := by
    rw [BitVec.ofInt_neg, BitVec.ofInt_toInt]
  unfold LaneOk
  rw [vch_at, chResult_at]
  simp only [scalarLane]
  cases hd : signsDiffer ((st.lane n).vpr vs) (t n) with
  | true =>
    have hd' : signsDiffer (st.vpr vs n) (t n) = true := hd
    rw [if_pos rfl, lane_vpr, int_of (by omega) (by omega), int_of (by omega) (by omega), hd']
    simp only [Option.bind_eq_bind, Option.bind_some, Option.pure_def, Option.map_some, hsum, hneg,
      if_true, Bool.true_and]
    rfl
  | false =>
    have hd' : signsDiffer (st.vpr vs n) (t n) = false := hd
    rw [if_neg (by decide), lane_vpr, int_of (by omega) (by omega), hd']
    simp only [Option.bind_eq_bind, Option.bind_some, Option.pure_def, Option.map_some, hdiff,
      Bool.false_eq_true, if_false, Bool.false_and]
    rfl

/-- One lane of `VCR` in the fast path. -/
theorem vcr_at :
    (vuOp .vcr t vs vd st).lane n =
      let s := st.vpr vs n
      let d := signsDiffer s (t n)
      let a := decide (s.toInt + (t n).toInt + 1 ≤ 0)
      let b := decide (0 ≤ s.toInt - (t n).toInt)
      let al := if d then (if a then ~~~ t n else s) else if b then t n else s
      Lane.setD { st.lane n with
        accl := al
        vccl := set (if d then a else decide ((t n).toInt < 0))
        vcch := set (if d then decide ((t n).toInt < 0) else b)
        vcol := 0
        vcoh := 0
        vce := 0 } vd al := by
  obtain ⟨h1, h2⟩ := toInt_range (st.vpr vs n)
  obtain ⟨h3, h4⟩ := toInt_range (t n)
  have hd := signs_mask (st.vpr vs) t n
  have hneg := cmpgt_zero_at t n
  have ha : packs_epi32
      (cmpgt_epi32 setzero (add_epi32 (cvtepi16_epi32 (st.vpr vs)) (cvtepi16_epi32 t)))
      (cmpgt_epi32 setzero (add_epi32 (cvtepi16_epi32 (srli_si128 (st.vpr vs) 8))
        (cvtepi16_epi32 (srli_si128 t 8)))) n =
      mask (decide ((st.vpr vs n).toInt + (t n).toInt + 1 ≤ 0)) := by
    rw [packs_wide, wide_cmpgt, wide_add, wide_cvtepi16, wide_cvtepi16, wide_setzero,
      sat16_mask32]
    unfold BitVec.signExtend
    rw [← BitVec.ofInt_add]
    show mask (decide ((BitVec.ofInt 32 ((st.vpr vs n).toInt + (t n).toInt)).toInt < 0)) = _
    rw [toInt_small (by omega) (by omega)]
    rfl
  have hb : vnot (cmpgt_epi16 t (st.vpr vs)) n =
      mask (decide (0 ≤ (st.vpr vs n).toInt - (t n).toInt)) := by
    rw [vnot_mask (cmpgt_at t (st.vpr vs) n), ← decide_not]
    congr 1
    rw [decide_eq_decide]
    omega
  simp only [vuOp]
  rw [lane_setLow st vd n, blendv_mask hd, blendv_mask ha, blendv_mask hb,
    vflagFromMask_at (blend_masks hneg ha hd), vflagFromMask_at (blend_masks hb hneg hd), vnot_at]
  rfl

theorem lane_vcr : LaneOk .vcr t vs vd st n := by
  obtain ⟨h1, h2⟩ := toInt_range (st.vpr vs n)
  obtain ⟨h3, h4⟩ := toInt_range (t n)
  unfold LaneOk
  rw [vcr_at]
  simp only [scalarLane]
  cases hd : signsDiffer ((st.lane n).vpr vs) (t n) with
  | true =>
    have hd' : signsDiffer (st.vpr vs n) (t n) = true := hd
    rw [if_pos rfl, lane_vpr, int_of (by omega) (by omega), Option.bind_eq_bind,
      Option.bind_some, int_of (by omega) (by omega), hd']
    rfl
  | false =>
    have hd' : signsDiffer (st.vpr vs n) (t n) = false := hd
    rw [if_neg (by decide), lane_vpr, int_of (by omega) (by omega), hd']
    rfl

/-- The unsigned sum of `VCL` wraps. -/
theorem vcl_carry (s t : M128) (n : Fin 8) :
    vnot (cmpeq_epi16 (max_epu16 (add_epi16 s t) s) (add_epi16 s t)) n =
      mask (decide (2 ^ 16 ≤ (s n).toNat + (t n).toNat)) := by
  have hs := (s n).isLt
  have ht := (t n).isLt
  rw [vnot_mask (cmpeq_at _ _ n)]
  congr 1
  show (!((if (s n + t n).ult (s n) then s n else s n + t n) == s n + t n)) = _
  have hult : (s n + t n).ult (s n) = decide (2 ^ 16 ≤ (s n).toNat + (t n).toNat) := by
    show decide ((s n + t n).toNat < (s n).toNat) = _
    rw [decide_eq_decide, BitVec.toNat_add]
    omega
  rw [hult]
  by_cases hc : 2 ^ 16 ≤ (s n).toNat + (t n).toNat
  · have hne : s n ≠ s n + t n := by
      intro he
      have := congrArg BitVec.toNat he
      rw [BitVec.toNat_add] at this
      omega
    rw [decide_eq_true hc, if_pos rfl, beq_eq_false_iff_ne.mpr hne]
    rfl
  · rw [decide_eq_false hc, if_neg (by decide), beq_self_eq_true]
    rfl

/-- The comparison of `VCL`. -/
theorem vcl_ge (s t : M128) (n : Fin 8) :
    cmpeq_epi16 (max_epu16 s t) s n =
      mask (decide (0 ≤ ((s n).toNat : Int) - (t n).toNat)) := by
  rw [cmpeq_at]
  congr 1
  show ((if (s n).ult (t n) then t n else s n) == s n) = _
  have hult : (s n).ult (t n) = decide ((s n).toNat < (t n).toNat) := rfl
  rw [hult]
  by_cases hc : (s n).toNat < (t n).toNat
  · have hne : t n ≠ s n := by
      intro he
      rw [he] at hc
      exact Nat.lt_irrefl _ hc
    rw [decide_eq_true hc, if_pos rfl, beq_eq_false_iff_ne.mpr hne, decide_eq_false (by omega)]
  · rw [decide_eq_false hc, if_neg (by decide), beq_self_eq_true, decide_eq_true (by omega)]

/-- One lane of `VCL` in the fast path. -/
theorem vcl_at {col coh ce ccl cch : Bool} (hcol : st.vcol n = set col) (hcoh : st.vcoh n = set coh)
    (hce : st.vce n = set ce) (hccl : st.vccl n = set ccl) (hcch : st.vcch n = set cch) :
    (vuOp .vcl t vs vd st).lane n =
      let s := st.vpr vs n
      let z := s + t n == 0
      let c := decide (2 ^ 16 ≤ s.toNat + (t n).toNat)
      let a := if ce then z || !c else z && !c
      let b := decide (0 ≤ (s.toNat : Int) - (t n).toNat)
      let al :=
        if col then (if coh then (if ccl then -t n else s) else if a then -t n else s)
        else (if coh then (if cch then t n else s) else if b then t n else s)
      Lane.setD { st.lane n with
        accl := al
        vccl := set (if col && !coh then a else ccl)
        vcch := set (if !col && !coh then b else cch)
        vcol := 0
        vcoh := 0
        vce := 0 } vd al := by
  have mcol := vmaskFromFlag_at hcol
  have mcoh := vmaskFromFlag_at hcoh
  have mce := vmaskFromFlag_at hce
  have mccl := vmaskFromFlag_at hccl
  have mcch := vmaskFromFlag_at hcch
  have hz : cmpeq_epi16 (add_epi16 (st.vpr vs) t) setzero n = mask (st.vpr vs n + t n == 0) := rfl
  have hnc := vnot_mask (vcl_carry (st.vpr vs) t n)
  have ha := blend_masks (and_mask hz hnc) (or_mask hz hnc) mce
  have hb := vcl_ge (st.vpr vs) t n
  have hneg : sub_epi16 setzero t n = -t n := BitVec.zero_sub (t n)
  simp only [vuOp]
  rw [lane_setLow st vd n, blendv_mask mcol, blendv_mask mcoh, blendv_mask mcoh,
    blendv_mask mccl, blendv_mask ha, blendv_mask mcch, blendv_mask hb, hneg,
    vflagFromMask_at (blend_masks mccl ha (and_mask mcol (vnot_mask mcoh))),
    vflagFromMask_at (blend_masks mcch hb (andnot_mask mcol (vnot_mask mcoh)))]
  rfl

theorem ofInt_neg_toNat (t : BitVec 16) : BitVec.ofInt 16 (-(t.toNat : Int)) = -t := by
  rw [BitVec.ofInt_neg, BitVec.ofInt_natCast, BitVec.ofNat_toNat, BitVec.setWidth_eq]

theorem ofInt_add_toNat (s t : BitVec 16) :
    BitVec.ofInt 16 ((s.toNat : Int) + t.toNat) = s + t := by
  rw [BitVec.ofInt_add, BitVec.ofInt_natCast, BitVec.ofInt_natCast, BitVec.ofNat_toNat,
    BitVec.ofNat_toNat, BitVec.setWidth_eq, BitVec.setWidth_eq]

/-- `(u32)(S + T) != sum`. -/
theorem scalar_carry (s t : BitVec 16) :
    (BitVec.ofInt 32 ((s.toNat : Int) + t.toNat) != (s + t).setWidth 32) =
      decide (2 ^ 16 ≤ s.toNat + t.toNat) := by
  have hs := s.isLt
  have ht := t.isLt
  have hfull : (BitVec.ofInt 32 ((s.toNat : Int) + t.toNat)).toNat = s.toNat + t.toNat := by
    rw [BitVec.toNat_ofInt]
    omega
  have hsum : ((s + t).setWidth 32).toNat = (s.toNat + t.toNat) % 2 ^ 16 := by
    rw [BitVec.toNat_setWidth, BitVec.toNat_add]
    omega
  by_cases hc : 2 ^ 16 ≤ s.toNat + t.toNat
  · have hne : BitVec.ofInt 32 ((s.toNat : Int) + t.toNat) ≠ (s + t).setWidth 32 := by
      intro he
      rw [he, hsum] at hfull
      omega
    rw [decide_eq_true hc, bne_iff_ne]
    exact hne
  · have he : BitVec.ofInt 32 ((s.toNat : Int) + t.toNat) = (s + t).setWidth 32 := by
      apply BitVec.eq_of_toNat_eq
      rw [hfull, hsum]
      omega
    rw [decide_eq_false hc, he, bne_self_eq_false]

/-- One lane of `VCL` in the scalar path. -/
theorem scalar_vcl {L : Lane} {u : BitVec 16} {col coh ce ccl cch : Bool}
    (hcol : L.vcol = set col) (hcoh : L.vcoh = set coh) (hce : L.vce = set ce)
    (hccl : L.vccl = set ccl) (hcch : L.vcch = set cch) :
    scalarLane .vcl vs vd u L =
      let s := L.vpr vs
      let z := s + u == 0
      let c := decide (2 ^ 16 ≤ s.toNat + u.toNat)
      let a := if ce then z || !c else z && !c
      let b := decide (0 ≤ (s.toNat : Int) - u.toNat)
      some { L with
        accl :=
          if col then (if coh then (if ccl then -u else s) else if a then -u else s)
          else (if coh then (if cch then u else s) else if b then u else s)
        vccl := set (if col && !coh then a else ccl)
        vcch := set (if !col && !coh then b else cch) } := by
  obtain ⟨vpr, acch, accm, accl, vcoh, vcol, vcch, vccl, vce⟩ := L
  dsimp only at hcol hcoh hce hccl hcch
  subst hcol hcoh hce hccl hcch
  have hs := (vpr vs).isLt
  have hu := u.isLt
  simp only [scalarLane, get_ite rfl]
  cases col with
  | true =>
    cases coh with
    | true =>
      rw [if_pos rfl, if_pos rfl, int_of (by omega) (by omega)]
      simp only [Option.bind_eq_bind, Option.bind_some, Option.pure_def, ofInt_neg_toNat]
      rfl
    | false =>
      rw [if_pos rfl, if_neg (by decide), int_of (by omega) (by omega), Option.bind_eq_bind,
        Option.bind_some, int_of (by omega) (by omega)]
      simp only [Option.bind_some, Option.pure_def, ofInt_neg_toNat, ofInt_add_toNat,
        scalar_carry]
      rfl
  | false =>
    cases coh with
    | true => rfl
    | false =>
      rw [if_neg (by decide), if_neg (by decide), int_of (by omega) (by omega)]
      rfl

theorem lane_vcl (hcol : IsFlag (st.vcol n)) (hcoh : IsFlag (st.vcoh n)) (hce : IsFlag (st.vce n))
    (hccl : IsFlag (st.vccl n)) (hcch : IsFlag (st.vcch n)) : LaneOk .vcl t vs vd st n := by
  obtain ⟨col, hcol⟩ := hcol
  obtain ⟨coh, hcoh⟩ := hcoh
  obtain ⟨ce, hce⟩ := hce
  obtain ⟨ccl, hccl⟩ := hccl
  obtain ⟨cch, hcch⟩ := hcch
  unfold LaneOk
  rw [vcl_at hcol hcoh hce hccl hcch, scalar_vcl (L := st.lane n) hcol hcoh hce hccl hcch]
  rfl

/-! ## Section 5: Logic -/

theorem lane_logic (x : M128) :
    Lane.setD { st.lane n with accl := x n } vd (x n) = (st.setLow vd x).lane n :=
  (lane_setLowD x x).symm

theorem lane_vand : LaneOk .vand t vs vd st n :=
  congrArg some (lane_logic (and_si128 (st.vpr vs) t))

theorem lane_vor : LaneOk .vor t vs vd st n :=
  congrArg some (lane_logic (or_si128 (st.vpr vs) t))

theorem lane_vxor : LaneOk .vxor t vs vd st n :=
  congrArg some (lane_logic (xor_si128 (st.vpr vs) t))

/-- The complemented operations. -/
theorem lane_vnot (x : M128) :
    Lane.setD { st.lane n with accl := ~~~ x n } vd (~~~ x n) = (st.setLow vd (vnot x)).lane n := by
  rw [← vnot_at]
  exact lane_logic (vnot x)

theorem lane_vnand : LaneOk .vnand t vs vd st n :=
  congrArg some (lane_vnot (and_si128 (st.vpr vs) t))

theorem lane_vnor : LaneOk .vnor t vs vd st n :=
  congrArg some (lane_vnot (or_si128 (st.vpr vs) t))

theorem lane_vnxor : LaneOk .vnxor t vs vd st n :=
  congrArg some (lane_vnot (xor_si128 (st.vpr vs) t))

end Rsp
