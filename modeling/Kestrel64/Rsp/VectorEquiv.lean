import Kestrel64.Rsp.VectorOps

/-! # RSP: the Two Paths of the Vector Unit Agree

    `vuOpT` and `execCop2Scalar` leave the same state whenever the scalar path
    has a defined result, and `LaneFits` says exactly when it has one. The
    products of two unsigned lanes in `VMUDL` and `VMADL` are computed in
    `int`, which they leave from 2 ^ 31 on, and so can the sum of `VMADH`.
    All other instructions are always in range.
-/

namespace Rsp

open Simd Limbs

/-- Each flag lane is 0 or 1. -/
structure FlagsOk (st : Vu) : Prop where
  vcoh : ∀ n, IsFlag (st.vcoh n)
  vcol : ∀ n, IsFlag (st.vcol n)
  vcch : ∀ n, IsFlag (st.vcch n)
  vccl : ∀ n, IsFlag (st.vccl n)
  vce : ∀ n, IsFlag (st.vce n)

/-- The signed arithmetic of one lane of the scalar path stays in range. -/
def LaneFits (fn : Fn) (s t : BitVec 16) (L : Lane) : Prop :=
  match fn with
  | .vmudl | .vmadl => s.toNat * t.toNat < 2 ^ 31
  | .vmadh => Signed 32 (madhSum L s t)
  | _ => True

/-! ## Section 1: One lane -/

theorem lane_ok {fn : Fn} {t : M128} {vs vd : Fin 32} {st : Vu} {n : Fin 8} (hf : FlagsOk st)
    (h : LaneFits fn (st.vpr vs n) (t n) (st.lane n)) : LaneOk fn t vs vd st n := by
  cases fn with
  | vmulf => exact lane_vmulf
  | vmulu => exact lane_vmulu
  | vmacf => exact lane_vmacf
  | vmacu => exact lane_vmacu
  | vmudl => exact lane_vmudl h
  | vmudm => exact lane_vmudm
  | vmudn => exact lane_vmudn
  | vmudh => exact lane_vmudh
  | vmadl => exact lane_vmadl h
  | vmadm => exact lane_vmadm
  | vmadn => exact lane_vmadn
  | vmadh => exact lane_vmadh h
  | vadd => exact lane_vadd (hf.vcol n)
  | vsub => exact lane_vsub (hf.vcol n)
  | vabs => exact lane_vabs
  | vaddc => exact lane_vaddc
  | vsubc => exact lane_vsubc
  | vlt => exact lane_vlt (hf.vcol n) (hf.vcoh n)
  | veq => exact lane_veq (hf.vcoh n)
  | vne => exact lane_vne (hf.vcoh n)
  | vge => exact lane_vge (hf.vcol n) (hf.vcoh n)
  | vcl => exact lane_vcl (hf.vcol n) (hf.vcoh n) (hf.vce n) (hf.vccl n) (hf.vcch n)
  | vch => exact lane_vch
  | vcr => exact lane_vcr
  | vmrg => exact lane_vmrg (hf.vccl n)
  | vand => exact lane_vand
  | vnand => exact lane_vnand
  | vor => exact lane_vor
  | vnor => exact lane_vnor
  | vxor => exact lane_vxor
  | vnxor => exact lane_vnxor

/-- Out of range, the lane has no defined result. -/
theorem lane_none {fn : Fn} {t : BitVec 16} {vs vd : Fin 32} {L : Lane}
    (h : ¬ LaneFits fn (L.vpr vs) t L) : scalarLane fn vs vd t L = none := by
  cases fn with
  | vmudl =>
    simp only [scalarLane, int_uu_none (Nat.le_of_not_lt h)]
    rfl
  | vmadl =>
    simp only [scalarLane, int_uu_none (Nat.le_of_not_lt h)]
    rfl
  | vmadh =>
    rw [scalar_vmadh (t := fun _ => t) (n := 0)]
    have hint : int (madhSum L (L.vpr vs) t) = none := checked_of_not h
    rw [hint]
    rfl
  | _ => exact absurd trivial h

/-! ## Section 2: Flags -/

theorem isFlag_zero : IsFlag 0 := ⟨false, rfl⟩

/-- `vflagFromMask` gives flags whatever the mask. -/
theorem isFlag_vflagFromMask (m : M128) (n : Fin 8) : IsFlag (vflagFromMask m n) := by
  have hlt : (vflagFromMask m n).toNat < 2 := by
    show (m n &&& 1).toNat < 2
    rw [BitVec.toNat_and]
    exact Nat.lt_of_le_of_lt Nat.and_le_right (by decide)
  rcases (show (vflagFromMask m n).toNat = 0 ∨ (vflagFromMask m n).toNat = 1 by omega) with h | h
  · exact ⟨false, BitVec.eq_of_toNat_eq h⟩
  · exact ⟨true, BitVec.eq_of_toNat_eq h⟩

/-- The fast path keeps flags 0 or 1. -/
theorem vuOp_flags {fn : Fn} {t : M128} {vs vd : Fin 32} {st : Vu} (hf : FlagsOk st) :
    FlagsOk (vuOp fn t vs vd st) := by
  have hz : ∀ n, IsFlag (setzero n) := fun _ => isFlag_zero
  cases fn with
  | vadd | vsub | vmrg => exact ⟨hz, hz, hf.vcch, hf.vccl, hf.vce⟩
  | vaddc => exact ⟨hz, fun n => ⟨_, vaddc_carry _ _ n⟩, hf.vcch, hf.vccl, hf.vce⟩
  | vsubc =>
    exact ⟨fun n => ⟨_, vsubc_differ _ _ n⟩, fun n => ⟨_, vsubc_borrow _ _ n⟩, hf.vcch, hf.vccl,
      hf.vce⟩
  | vlt | veq | vne | vge => exact ⟨hz, hz, hz, isFlag_vflagFromMask _, hf.vce⟩
  | vcl | vcr => exact ⟨hz, hz, isFlag_vflagFromMask _, isFlag_vflagFromMask _, hz⟩
  | vch =>
    exact ⟨isFlag_vflagFromMask _, isFlag_vflagFromMask _, isFlag_vflagFromMask _,
      isFlag_vflagFromMask _, isFlag_vflagFromMask _⟩
  | _ => exact ⟨hf.vcoh, hf.vcol, hf.vcch, hf.vccl, hf.vce⟩

/-! ## Section 3: The instruction -/

theorem execCop2Scalar_ok {fn : Fn} {t : M128} {vs vd : Fin 32} {st : Vu} (hf : FlagsOk st)
    (h : ∀ n, LaneFits fn (st.vpr vs n) (t n) (st.lane n)) :
    execCop2Scalar fn t vs vd st = some (vuOp fn t vs vd st) := by
  -- the lanes before what follows the loop
  have hbody : ∀ n, ∃ L, scalarLane fn vs vd (t n) (st.lane n) = some L ∧
      endLane fn vd L = (vuOp fn t vs vd st).lane n :=
    fun n => Option.map_eq_some_iff.mp (lane_ok hf (h n))
  choose f hf₁ hf₂ using hbody
  obtain ⟨st', hloop, hlane⟩ := forLanes_some st hf₁
  unfold execCop2Scalar
  rw [hloop, Option.map_some]
  congr 1
  apply Vu.ext_lane
  intro n
  rw [lane_scalarEnd, hlane, hf₂]

theorem execCop2Scalar_none {fn : Fn} {t : M128} {vs vd : Fin 32} {st : Vu} {n : Fin 8}
    (h : ¬ LaneFits fn (st.vpr vs n) (t n) (st.lane n)) : execCop2Scalar fn t vs vd st = none := by
  unfold execCop2Scalar
  rw [forLanes_none (fun n => scalarLane fn vs vd (t n)) (lane_none (L := st.lane n) h),
    Option.map_none]

/-- **SSE path = scalar path.** For every instruction, registers and element
    selector, from flags 0 or 1: the scalar path has a defined result, the
    fast path leaves the same state and the flags stay 0 or 1, if and only if
    every lane is in range. -/
theorem vu_paths_iff (fn : Fn) (e : Fin 16) (vs vt vd : Fin 32) (st : Vu) (hf : FlagsOk st) :
    (∃ st', execCop2Scalar fn (bcast e (st.vpr vt)) vs vd st = some st' ∧
      vuOp fn (bcast e (st.vpr vt)) vs vd st = st' ∧ FlagsOk st') ↔
    ∀ n, LaneFits fn (st.vpr vs n) (bcast e (st.vpr vt) n) (st.lane n) := by
  constructor
  · rintro ⟨st', hok, -, -⟩ n
    by_contra hout
    rw [execCop2Scalar_none hout] at hok
    exact absurd hok nofun
  · intro h
    exact ⟨_, execCop2Scalar_ok hf h, rfl, vuOp_flags hf⟩

/-- All registers full of `x`, all flags clear. -/
def filled (x : BitVec 16) : Vu where
  vpr := fun _ _ => x
  acch := setzero
  accm := setzero
  accl := setzero
  vcoh := setzero
  vcol := setzero
  vcch := setzero
  vccl := setzero
  vce := setzero

theorem filled_flags (x : BitVec 16) : FlagsOk (filled x) :=
  ⟨fun _ => isFlag_zero, fun _ => isFlag_zero, fun _ => isFlag_zero, fun _ => isFlag_zero,
    fun _ => isFlag_zero⟩

/-- `VMUDL` of small lanes is in range. -/
theorem vu_paths_vmudl_small :
    ∃ st', execCop2Scalar .vmudl (bcast 0 ((filled 0x100).vpr 2)) 1 3 (filled 0x100) = some st' ∧
      vuOp .vmudl (bcast 0 ((filled 0x100).vpr 2)) 1 3 (filled 0x100) = st' ∧ FlagsOk st' :=
  (vu_paths_iff .vmudl 0 1 2 3 (filled 0x100) (filled_flags _)).mpr fun n => by
    rw [bcast_at]
    show (0x100 : BitVec 16).toNat * (0x100 : BitVec 16).toNat < 2 ^ 31
    decide

/-- `VMUDL` of 0xffff by 0xffff: the product 0xfffe0001 does not fit in
    `int`, so the scalar path has no defined result. -/
theorem vmudl_overflow :
    FlagsOk (filled 0xffff) ∧
    ¬ ∃ st', execCop2Scalar .vmudl (bcast 0 ((filled 0xffff).vpr 2)) 1 3 (filled 0xffff) =
        some st' ∧
      vuOp .vmudl (bcast 0 ((filled 0xffff).vpr 2)) 1 3 (filled 0xffff) = st' ∧ FlagsOk st' := by
  refine ⟨filled_flags _, ?_⟩
  rintro ⟨st', hok, -, -⟩
  have hout : ¬ LaneFits .vmudl ((filled 0xffff).vpr 1 0) (bcast 0 ((filled 0xffff).vpr 2) 0)
      ((filled 0xffff).lane 0) := by
    rw [bcast_at]
    show ¬ (0xffff : BitVec 16).toNat * (0xffff : BitVec 16).toNat < 2 ^ 31
    decide
  rw [execCop2Scalar_none hout] at hok
  exact absurd hok nofun

end Rsp
