import Mathlib.Order.Basic
import Mathlib.Tactic.Ring

/-! # Numbers in Segments

    A format with an exponent and a mantissa whose segments lie end to end:
    segment `e` begins at `base e` and has `size` values, `step e` apart.

    `decode_le_iff` makes decoding and encoding an adjunction, and so values
    are compared as their codes are (`lt_decode_iff`).
-/

namespace Segments

structure Format where
  /-- Values of a mantissa. -/
  size : Nat
  /-- Segments. -/
  count : Nat
  base : Nat → Nat
  step : Nat → Nat
  size_pos : 0 < size
  step_pos : ∀ e, 0 < step e
  base_succ : ∀ e < count, base (e + 1) = base e + size * step e

namespace Format

variable (F : Format)

def decode (c : Nat) : Nat := c % F.size * F.step (c / F.size) + F.base (c / F.size)

/-- `z` is in segment `e`. -/
structure In (e z : Nat) : Prop where
  seg : e < F.count
  le : F.base e ≤ z
  lt : z < F.base (e + 1)

def encode (e z : Nat) : Nat := e * F.size + (z - F.base e) / F.step e

variable {F} {c e z : Nat}

theorem base_mono {a b : Nat} (hab : a ≤ b) (hb : b ≤ F.count) : F.base a ≤ F.base b := by
  induction b, hab using Nat.le_induction with
  | base => exact le_rfl
  | succ b _ ih =>
    rw [F.base_succ b hb]
    exact (ih (Nat.le_of_succ_le hb)).trans (Nat.le_add_right _ _)

theorem base_le_decode : F.base (c / F.size) ≤ F.decode c := Nat.le_add_left _ _

theorem decode_lt (hc : c < F.count * F.size) : F.decode c < F.base (c / F.size + 1) := by
  have hseg : c / F.size < F.count := (Nat.div_lt_iff_lt_mul F.size_pos).mpr hc
  rw [F.base_succ _ hseg, decode, Nat.add_comm]
  exact Nat.add_lt_add_left
    ((Nat.mul_lt_mul_right (F.step_pos _)).mpr (Nat.mod_lt _ F.size_pos)) _

theorem mantissa_lt (h : F.In e z) : (z - F.base e) / F.step e < F.size := by
  have hlt := h.lt
  rw [F.base_succ e h.seg] at hlt
  rw [Nat.div_lt_iff_lt_mul (F.step_pos e)]
  have := h.le
  omega

theorem encode_div (h : F.In e z) : F.encode e z / F.size = e := by
  unfold encode
  rw [Nat.add_comm, Nat.add_mul_div_right _ _ F.size_pos, Nat.div_eq_of_lt (mantissa_lt h),
    Nat.zero_add]

theorem decode_le_iff (hc : c < F.count * F.size) (h : F.In e z) :
    F.decode c ≤ z ↔ c ≤ F.encode e z := by
  have hsplit := Nat.div_add_mod' c F.size
  have hseg : c / F.size < F.count := (Nat.div_lt_iff_lt_mul F.size_pos).mpr hc
  rcases lt_trichotomy (c / F.size) e with hlt | heq | hgt
  · -- a segment in front of that of `z`
    have hbase : F.base (c / F.size + 1) ≤ F.base e := base_mono hlt h.seg.le
    have hcode : c < F.encode e z :=
      lt_of_lt_of_le ((Nat.div_lt_iff_lt_mul F.size_pos).mp hlt) (Nat.le_add_right _ _)
    exact iff_of_true ((decode_lt hc).le.trans (hbase.trans h.le)) hcode.le
  · have hmant : c % F.size * F.step e ≤ z - F.base e ↔ c % F.size ≤ (z - F.base e) / F.step e :=
      (Nat.le_div_iff_mul_le (F.step_pos e)).symm
    have hle := h.le
    unfold decode encode
    rw [heq] at hsplit ⊢
    omega
  · -- a segment behind it
    have hbase : F.base (e + 1) ≤ F.base (c / F.size) := base_mono hgt hseg.le
    have hcode : ¬ c ≤ F.encode e z := by
      intro hle
      have := Nat.div_le_div_right (c := F.size) hle
      rw [encode_div h] at this
      omega
    exact iff_of_false (not_le.mpr (lt_of_lt_of_le h.lt (hbase.trans base_le_decode))) hcode

theorem lt_decode_iff (hc : c < F.count * F.size) (h : F.In e z) :
    z < F.decode c ↔ F.encode e z < c := by
  rw [← not_le, ← not_le, decode_le_iff hc h]

end Format

end Segments
