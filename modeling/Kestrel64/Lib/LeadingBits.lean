import Mathlib.Algebra.Order.Ring.Nat
import Mathlib.Data.Nat.Log
import Mathlib.Tactic.Positivity
import Mathlib.Tactic.Ring

/-! # Library: Tables Read by the Leading Bits

    A table over `[2 ^ p, 2 ^ (p + 1))` gives a function on all positive
    numbers: the argument is normalised so that its leading one stands at bit
    `p`, the entry is read at what that leaves, and the exponent comes back in
    as a shift of the entry.

    Two facts are enough to use such a table. An argument lies between its
    leading bits and their successor, scaled; and the order of arguments is
    the lexicographic order of exponent and leading bits.
-/

namespace LeadingBits

/-! ## Section 1: Normalising -/

/-- The leading `p + 1` bits. -/
def leading (p x : Nat) : Nat := x * 2 ^ p / 2 ^ x.log2

variable {p x y : Nat}

theorem leading_mul_le (p x : Nat) : leading p x * 2 ^ x.log2 ≤ x * 2 ^ p :=
  Nat.div_mul_le_self ..

theorem lt_succ_leading_mul (p x : Nat) : x * 2 ^ p < (leading p x + 1) * 2 ^ x.log2 := by
  rw [Nat.add_mul, Nat.one_mul]
  exact Nat.lt_div_mul_add (by positivity)

theorem le_leading (hx : x ≠ 0) : 2 ^ p ≤ leading p x := by
  rw [leading, Nat.le_div_iff_mul_le (by positivity), Nat.mul_comm]
  exact Nat.mul_le_mul_right _ (Nat.log2_self_le hx)

theorem leading_lt (p x : Nat) : leading p x < 2 ^ (p + 1) := by
  rw [leading, Nat.div_lt_iff_lt_mul (by positivity)]
  calc x * 2 ^ p < 2 ^ (x.log2 + 1) * 2 ^ p :=
        Nat.mul_lt_mul_of_pos_right Nat.lt_log2_self (by positivity)
    _ = 2 ^ (p + 1) * 2 ^ x.log2 := by ring

/-- Fewer exponents, or the same and fewer leading bits. -/
theorem leading_mono (p : Nat) (h : x ≤ y) :
    x.log2 < y.log2 ∨ x.log2 = y.log2 ∧ leading p x ≤ leading p y := by
  have hlog : x.log2 ≤ y.log2 := by
    rw [Nat.log2_eq_log_two, Nat.log2_eq_log_two]
    exact Nat.log_mono_right h
  rcases hlog.lt_or_eq with hlt | heq
  · exact .inl hlt
  · refine .inr ⟨heq, ?_⟩
    rw [leading, leading, heq]
    exact Nat.div_le_div_right (Nat.mul_le_mul_right _ h)

/-! ## Section 2: Scaling the entry back -/

/-- The entry `m`, `s` places up and `e` places down. -/
def scale (s m e : Nat) : Nat := m * 2 ^ s / 2 ^ e

variable {s m m' e e' : Nat}

theorem scale_mul_le (s m e : Nat) : scale s m e * 2 ^ e ≤ m * 2 ^ s :=
  Nat.div_mul_le_self ..

theorem lt_succ_scale_mul (s m e : Nat) : m * 2 ^ s < (scale s m e + 1) * 2 ^ e := by
  rw [Nat.add_mul, Nat.one_mul]
  exact Nat.lt_div_mul_add (by positivity)

theorem scale_le (s e : Nat) : scale s m e ≤ m * 2 ^ s := Nat.div_le_self ..

theorem scale_mono (h : m' ≤ m) : scale s m' e ≤ scale s m e :=
  Nat.div_le_div_right (Nat.mul_le_mul_right _ h)

/-- One exponent more makes up for an entry up to twice as large. -/
theorem scale_le_of_lt (h : m' ≤ 2 * m) (he : e < e') : scale s m' e' ≤ scale s m e := by
  have hpow : 2 ^ (e + 1) ≤ 2 ^ e' := Nat.pow_le_pow_right (by omega) he
  calc scale s m' e' ≤ m' * 2 ^ s / 2 ^ (e + 1) := Nat.div_le_div_left hpow (by positivity)
    _ ≤ 2 * m * 2 ^ s / 2 ^ (e + 1) := Nat.div_le_div_right (Nat.mul_le_mul_right _ h)
    _ = m * 2 ^ s * 2 / (2 ^ e * 2) := by rw [Nat.pow_succ]; ring_nf
    _ = scale s m e := Nat.mul_div_mul_right _ _ (by omega)

end LeadingBits
