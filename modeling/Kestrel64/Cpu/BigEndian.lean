import Kestrel64.Cpu.DCache

/-! # CPU: Big-Endian Units

    What `beRead`, `beByte` and `beWrite` have to do with each other, for
    units of up to eight bytes. Everything comes down to where bit `j` of a
    unit is: in byte `n - 1 - j / 8`.
-/

namespace Cpu

variable {f g : Nat → Byte} {off off' n i j : Nat} {v : BitVec 64}

theorem getLsbD_beByte (v : BitVec 64) (n i : Nat) (hj : j < 8) :
    (beByte v n i).getLsbD j = v.getLsbD (8 * (n - 1 - i) + j) := by
  unfold beByte
  rw [BitVec.getLsbD_setWidth, BitVec.getLsbD_ushiftRight]
  simp [hj]

theorem beRead_succ (f : Nat → Byte) (off n : Nat) :
    beRead f off (n + 1) = beRead f off n <<< 8 ||| (f (off + n)).setWidth 64 := by
  unfold beRead
  rw [List.range_succ, List.foldl_append]
  rfl

theorem getLsbD_beRead (hn : n ≤ 8) (j : Nat) :
    (beRead f off n).getLsbD j =
      if j < 8 * n then (f (off + (n - 1 - j / 8))).getLsbD (j % 8) else false := by
  induction n generalizing j with
  | zero => simp [beRead]
  | succ n ih =>
    rw [beRead_succ, BitVec.getLsbD_or, BitVec.getLsbD_shiftLeft, BitVec.getLsbD_setWidth]
    by_cases hj : j < 8
    · -- the byte that came last
      have hlast : off + (n + 1 - 1 - j / 8) = off + n := by omega
      rw [if_pos (by omega), hlast, Nat.mod_eq_of_lt hj]
      simp [hj, show j < 64 by omega]
    · have hprev : n - 1 - (j - 8) / 8 = n + 1 - 1 - j / 8 := by omega
      have hbit : (j - 8) % 8 = j % 8 := by omega
      have hbyte : (f (off + n)).getLsbD j = false := BitVec.getLsbD_of_ge _ _ (by omega)
      rw [ih (by omega), hprev, hbit, hbyte]
      by_cases hlt : j < 8 * (n + 1)
      · simp [hj, hlt, show j < 64 by omega, show j - 8 < 8 * n by omega]
      · simp [hlt, show ¬ j - 8 < 8 * n by omega]

theorem beByte_beRead (hn : n ≤ 8) (hi : i < n) : beByte (beRead f off n) n i = f (off + i) := by
  apply BitVec.eq_of_getLsbD_eq
  intro j hj
  rw [getLsbD_beByte _ _ _ hj, getLsbD_beRead hn, if_pos (by omega)]
  congr 2 <;> omega

/-- A unit is its bytes. -/
theorem beRead_eq_iff (hn : n ≤ 8) :
    beRead f off n = beRead g off' n ↔ ∀ i < n, f (off + i) = g (off' + i) := by
  constructor
  · intro h i hi
    calc f (off + i) = beByte (beRead f off n) n i := (beByte_beRead hn hi).symm
      _ = beByte (beRead g off' n) n i := by rw [h]
      _ = g (off' + i) := beByte_beRead hn hi
  · exact beRead_congr

theorem beRead_eq_zext_iff (hn : n ≤ 8) :
    (beRead f off n).toNat = v.toNat % 2 ^ (8 * n) ↔ ∀ i < n, f (off + i) = beByte v n i := by
  have hbits : (beRead f off n).toNat = v.toNat % 2 ^ (8 * n) ↔
      ∀ j < 8 * n, (beRead f off n).getLsbD j = v.getLsbD j := by
    rw [Nat.eq_iff_testBit_eq]
    constructor
    · intro h j hj
      have := h j
      rwa [Nat.testBit_mod_two_pow, decide_eq_true hj, Bool.true_and] at this
    · intro h j
      rw [Nat.testBit_mod_two_pow]
      by_cases hj : j < 8 * n
      · rw [decide_eq_true hj, Bool.true_and]
        exact h j hj
      · rw [decide_eq_false hj, Bool.false_and]
        exact (getLsbD_beRead hn j).trans (if_neg hj)
  rw [hbits]
  constructor
  · intro h i hi
    apply BitVec.eq_of_getLsbD_eq
    intro j hj
    rw [getLsbD_beByte _ _ _ hj, ← h _ (by omega), getLsbD_beRead hn, if_pos (by omega)]
    congr 2 <;> omega
  · intro h j hj
    rw [getLsbD_beRead hn, if_pos hj, h _ (by omega), getLsbD_beByte _ _ _ (by omega)]
    congr 1
    omega

theorem beWrite_at (hi : i < n) : beWrite f off n v (off + i) = beByte v n i := by
  unfold beWrite
  rw [if_pos (by omega), Nat.add_sub_cancel_left]

theorem beWrite_out {a : Nat} (h : ¬ (off ≤ a ∧ a < off + n)) : beWrite f off n v a = f a :=
  if_neg h

end Cpu
