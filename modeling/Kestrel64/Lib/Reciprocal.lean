import Mathlib.Algebra.Order.Ring.Nat
import Mathlib.Data.Nat.ModEq
import Mathlib.Data.Nat.Prime.Basic
import Mathlib.Tactic.Ring

/-! # Library: Division by a Reciprocal

    Dividing by a fixed `d` can be done by multiplying with a rounded-up
    reciprocal `m = ⌈K / d⌉` and dividing by `K`. With `m * d = K + e`, the
    quotient comes out right exactly for those `x` whose error `x * e` has not
    eaten what the remainder of `x` leaves up to `d`.

    For a power of two `K` the quotient is right for every `x` with
    `x * e < K`, and at `x * e = K` it is wrong only for powers of two.
-/

namespace Reciprocal

/-! ## Section 1: When the quotient is right -/

variable {K d m e x : Nat}

/-- The product, as the true quotient and what is left of it. -/
theorem mul_quot (hm : m * d = K + e) (x : Nat) :
    d * (x * m) = d * (x / d * K) + (x % d * K + x * e) := by
  calc d * (x * m) = x * (m * d) := by ring
    _ = (d * (x / d) + x % d) * K + x * e := by rw [hm, Nat.div_add_mod]; ring
    _ = d * (x / d * K) + (x % d * K + x * e) := by ring

theorem quot_eq_iff (hd : 0 < d) (hm : m * d = K + e) (hK : 0 < K) :
    x * m / K = x / d ↔ x * e < (d - x % d) * K := by
  have hmul := mul_quot hm x
  have hmod := Nat.mod_lt x hd
  have hsplit : x % d * K + (d - x % d) * K = d * K := by
    rw [← Nat.add_mul, Nat.add_sub_of_le hmod.le]
  have hle : x / d * K ≤ x * m :=
    Nat.le_of_mul_le_mul_left (by rw [hmul]; exact Nat.le_add_right _ _) hd
  have hsucc : d * ((x / d + 1) * K) = d * (x / d * K) + d * K := by ring
  constructor
  · intro h
    have hlt : x * m < (x / d + 1) * K := by
      rw [← Nat.div_lt_iff_lt_mul hK, h]
      exact Nat.lt_succ_self _
    have := Nat.mul_lt_mul_of_pos_left hlt hd
    omega
  · intro h
    refine Nat.div_eq_of_lt_le hle (Nat.lt_of_mul_lt_mul_left (a := d) ?_)
    omega

/-- Below the bound the error never shows. -/
theorem quot_eq (hd : 0 < d) (hm : m * d = K + e) (hx : x * e < K) : x * m / K = x / d := by
  refine (quot_eq_iff hd hm (Nat.zero_lt_of_lt hx)).mpr (hx.trans_le ?_)
  exact Nat.le_mul_of_pos_left K (Nat.sub_pos_of_lt (Nat.mod_lt x hd))

/-- At the bound the quotient is wrong for the last remainder, and one too
    large. -/
theorem quot_edge (hd : 0 < d) (hm : m * d = K + e) (hK : 0 < K) (hx : x * e = K) :
    (x * m / K = x / d ↔ ¬ d ∣ x + 1) ∧ (d ∣ x + 1 → x * m / K = x / d + 1) := by
  have hmod := Nat.mod_lt x hd
  have hdvd : d ∣ x + 1 ↔ x % d + 1 = d := by
    rw [Nat.dvd_iff_mod_eq_zero, Nat.add_mod]
    by_cases h1 : d = 1
    · subst h1
      omega
    · rw [Nat.mod_eq_of_lt (show 1 < d by omega)]
      constructor
      · intro h
        by_contra hne
        rw [Nat.mod_eq_of_lt (by omega)] at h
        omega
      · intro h
        rw [h, Nat.mod_self]
  constructor
  · rw [quot_eq_iff hd hm hK, hx, hdvd]
    constructor
    · intro h hlast
      rw [show d - x % d = 1 by omega, Nat.one_mul] at h
      exact Nat.lt_irrefl K h
    · intro h
      calc K < 2 * K := by omega
        _ ≤ (d - x % d) * K := Nat.mul_le_mul_right K (by omega)
  · intro h
    have hmul := mul_quot hm x
    have hlast : (x % d + 1) * K = d * K := by rw [hdvd.mp h]
    refine Nat.div_eq_of_eq_mul_left hK (Nat.eq_of_mul_eq_mul_left hd ?_)
    rw [hmul, hx]
    calc d * (x / d * K) + (x % d * K + K) = d * (x / d * K) + (x % d + 1) * K := by ring
      _ = d * ((x / d + 1) * K) := by rw [hlast]; ring

/-! ## Section 2: Powers of two -/

/-- The bound is met with the last remainder only at a power of two whose
    successor `d` divides. -/
theorem edge_iff {k : Nat} (hm : m * d = 2 ^ k + e) (he : e < d) (hx : x < 2 ^ k) :
    (x * e = 2 ^ k ∧ d ∣ x + 1) ↔ x.isPowerOfTwo ∧ d ∣ x + 1 ∧ 2 ^ k < d * x := by
  constructor
  · rintro ⟨hxe, hdvd⟩
    obtain ⟨n, -, hn⟩ := (Nat.dvd_prime_pow Nat.prime_two).mp (Dvd.intro e hxe)
    refine ⟨⟨n, hn⟩, hdvd, ?_⟩
    have hpos : 0 < x := by rw [hn]; exact Nat.two_pow_pos n
    calc 2 ^ k = x * e := hxe.symm
      _ < x * d := Nat.mul_lt_mul_of_pos_left he hpos
      _ = d * x := Nat.mul_comm x d
  · rintro ⟨⟨n, rfl⟩, hdvd, hlt⟩
    refine ⟨?_, hdvd⟩
    have hn : n < k := (Nat.pow_lt_pow_iff_right (by decide)).mp hx
    have hpow : 2 ^ n * 2 ^ (k - n) = 2 ^ k := by
      rw [← Nat.pow_add, Nat.add_sub_of_le hn.le]
    -- both errors complete `2 ^ k` to a multiple of `d`, and both are below it
    have hsmall : 2 ^ (k - n) < d := by
      refine Nat.lt_of_mul_lt_mul_right (a := 2 ^ n) ?_
      rwa [Nat.mul_comm, hpow]
    have hother : d ∣ 2 ^ k + 2 ^ (k - n) := by
      rw [← hpow, ← Nat.succ_mul]
      exact hdvd.mul_right _
    have hmine : d ∣ 2 ^ k + e := Dvd.intro_left m hm
    have hsame : e = 2 ^ (k - n) := by
      have hmod : (2 ^ k + e) % d = (2 ^ k + 2 ^ (k - n)) % d := by
        rw [Nat.mod_eq_zero_of_dvd hmine, Nat.mod_eq_zero_of_dvd hother]
      have := Nat.ModEq.add_left_cancel' (2 ^ k) hmod
      rwa [Nat.ModEq, Nat.mod_eq_of_lt he, Nat.mod_eq_of_lt hsmall] at this
    rw [hsame, hpow]

end Reciprocal
