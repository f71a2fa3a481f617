import Mathlib.Logic.Function.Iterate
import Kestrel64.Lib.BitStream

/-! # Cyclic Redundancy Checks

    A check sum is the remainder of the message, bit by bit, on division by a
    polynomial. The lowest bit comes first, as on a stream.

    * `shift` is one step of the division. It is linear (`shift_xor`), and on
      numbers whose low bits are 0 it only shifts.
    * `feed` takes the bits of a message. A byte at a time it is eight steps
      after the byte is added (`feed_lsb`), so that the part that depends on the
      low byte can be kept in a table (`feed_byte`).
-/

namespace Crc

open BitStream

variable {w : Nat} (poly : BitVec w)

/-- One step of the division. -/
def shift (c : BitVec w) : BitVec w := (c >>> 1) ^^^ (if c.getLsbD 0 then poly else 0)

/-- The remainder after one more bit of the message. -/
def bit (c : BitVec w) (b : Bool) : BitVec w := shift poly (c ^^^ BitVec.ofNat w b.toNat)

/-- The remainder after some bits of the message. -/
def feed (c : BitVec w) (bits : List Bool) : BitVec w := bits.foldl (bit poly) c

theorem feed_append (c : BitVec w) (bits bits' : List Bool) :
    feed poly c (bits ++ bits') = feed poly (feed poly c bits) bits' := List.foldl_append

theorem shift_xor (a b : BitVec w) : shift poly (a ^^^ b) = shift poly a ^^^ shift poly b := by
  unfold shift
  rw [BitVec.ushiftRight_xor_distrib, BitVec.getLsbD_xor]
  apply BitVec.eq_of_getLsbD_eq
  intro i hi
  cases a.getLsbD 0 <;> cases b.getLsbD 0 <;> simp [Bool.xor_comm, Bool.xor_left_comm]

theorem shift_of_even {c : BitVec w} (h : c.getLsbD 0 = false) : shift poly c = c >>> 1 := by
  unfold shift
  rw [h]
  simp

theorem iterate_xor (n : Nat) (a b : BitVec w) :
    (shift poly)^[n] (a ^^^ b) = (shift poly)^[n] a ^^^ (shift poly)^[n] b := by
  induction n generalizing a b with
  | zero => rfl
  | succ n ih => rw [Function.iterate_succ_apply, shift_xor, ih, ← Function.iterate_succ_apply,
      ← Function.iterate_succ_apply]

/-- A number whose low bits are 0 is shifted as it is. -/
theorem iterate_of_low {n : Nat} {c : BitVec w} (h : ∀ i < n, c.getLsbD i = false) :
    (shift poly)^[n] c = c >>> n := by
  induction n generalizing c with
  | zero => simp
  | succ n ih =>
    have hlow : ∀ i < n, (c >>> 1).getLsbD i = false := by
      intro i hi
      rw [BitVec.getLsbD_ushiftRight]
      exact h _ (by omega)
    rw [Function.iterate_succ_apply, shift_of_even poly (h 0 (Nat.succ_pos n)), ih hlow,
      ← BitVec.shiftRight_add, Nat.add_comm]

theorem shift_ofNat {x : Nat} (hx : x < 2 ^ w) :
    shift poly (BitVec.ofNat w x) =
      shift poly (BitVec.ofNat w (decide (x % 2 = 1)).toNat) ^^^ BitVec.ofNat w (x / 2) := by
  have hhalf : ∀ y, y < 2 ^ w → BitVec.ofNat w y >>> 1 = BitVec.ofNat w (y / 2) := by
    intro y hy
    apply BitVec.eq_of_toNat_eq
    have hdiv : y / 2 < 2 ^ w := by omega
    rw [BitVec.toNat_ushiftRight, BitVec.toNat_ofNat, BitVec.toNat_ofNat, Nat.mod_eq_of_lt hy,
      Nat.mod_eq_of_lt hdiv, Nat.shiftRight_eq_div_pow, Nat.pow_one]
  have hle : (decide (x % 2 = 1)).toNat ≤ x := by
    rcases Nat.mod_two_eq_zero_or_one x with h | h
    · simp [h]
    · simp only [h, decide_true, Bool.toNat_true]
      omega
  have hodd : (BitVec.ofNat w x).getLsbD 0 =
      (BitVec.ofNat w (decide (x % 2 = 1)).toNat).getLsbD 0 := by
    rcases Nat.mod_two_eq_zero_or_one x with h | h <;> simp [BitVec.getLsbD_ofNat, h]
  have hzero : (decide (x % 2 = 1)).toNat / 2 = 0 := by
    cases decide (x % 2 = 1) <;> rfl
  unfold shift
  rw [hhalf x hx, hhalf _ (Nat.lt_of_le_of_lt hle hx), hodd, hzero, BitVec.xor_comm (BitVec.ofNat w 0),
    BitVec.xor_assoc, BitVec.xor_comm (BitVec.ofNat w 0)]
  simp [BitVec.xor_comm]

/-- The bits of a number, fed one after the other, are added at once. -/
theorem feed_lsb {n x : Nat} (hn : n ≤ w) (c : BitVec w) (hx : x < 2 ^ n) :
    feed poly c (lsb n x) = (shift poly)^[n] (c ^^^ BitVec.ofNat w x) := by
  induction n generalizing c x with
  | zero =>
    have hzero : x = 0 := by omega
    subst hzero
    simp [lsb, feed]
  | succ n ih =>
    have hfull : x < 2 ^ w := Nat.lt_of_lt_of_le hx (Nat.pow_le_pow_right (by omega) hn)
    have hhalf : x / 2 < 2 ^ n := by
      rw [Nat.pow_succ] at hx
      omega
    show feed poly (bit poly c (decide (x % 2 = 1))) (lsb n (x / 2)) = _
    rw [ih (by omega) _ hhalf, Function.iterate_succ_apply, bit, shift_xor, shift_xor,
      shift_ofNat poly hfull, BitVec.xor_assoc]

/-- A byte at a time: the part that depends on the low byte, and the rest, shifted. -/
theorem feed_byte (hw : 8 ≤ w) (c : BitVec w) (b : BitVec 8) :
    feed poly c (lsb 8 b.toNat) =
      (shift poly)^[8] ((c ^^^ b.setWidth w) &&& BitVec.ofNat w 0xff) ^^^ (c >>> 8) := by
  have hmask : ∀ i, (BitVec.ofNat w 0xff).getLsbD i = (decide (i < w) && decide (i < 8)) := by
    intro i
    rw [BitVec.getLsbD_ofNat, show 0xff = 2 ^ 8 - 1 from rfl, Nat.testBit_two_pow_sub_one]
  have hsplit : c ^^^ b.setWidth w = ((c ^^^ b.setWidth w) &&& BitVec.ofNat w 0xff) ^^^
      ((c ^^^ b.setWidth w) &&& ~~~BitVec.ofNat w 0xff) := by
    apply BitVec.eq_of_getLsbD_eq
    intro i hi
    simp only [BitVec.getLsbD_xor, BitVec.getLsbD_and, BitVec.getLsbD_not, hmask, hi, decide_true,
      Bool.true_and]
    cases decide (i < 8) <;> simp
  have hlow : ∀ i < 8, ((c ^^^ b.setWidth w) &&& ~~~BitVec.ofNat w 0xff).getLsbD i = false := by
    intro i hi
    simp [hmask, hi]
  have hhigh : ((c ^^^ b.setWidth w) &&& ~~~BitVec.ofNat w 0xff) >>> 8 = c >>> 8 := by
    apply BitVec.eq_of_getLsbD_eq
    intro i hi
    have hb : b.getLsbD (8 + i) = false := BitVec.getLsbD_of_ge b (8 + i) (by omega)
    by_cases hin : 8 + i < w
    · simp only [BitVec.getLsbD_ushiftRight, BitVec.getLsbD_and, BitVec.getLsbD_xor,
        BitVec.getLsbD_not, BitVec.getLsbD_setWidth, hmask, hin, hb]
      simp
    · simp [BitVec.getLsbD_of_ge c (8 + i) (by omega), hmask, hin]
  rw [feed_lsb poly hw c b.isLt, BitVec.ofNat_toNat]
  conv_lhs => rw [hsplit]
  rw [iterate_xor, iterate_of_low poly hlow, hhigh]

/-! ### The check sum of zip and gzip -/

def crc32 (bs : Bytes) : BitVec 32 := feed 0xEDB88320 0xFFFFFFFF (ofBytes bs) ^^^ 0xFFFFFFFF

end Crc
