import Mathlib.Algebra.Order.Ring.Nat
import Mathlib.Data.Nat.ModEq
import Mathlib.Tactic.Ring

/-! # Little-Endian Words

    Unsigned integers as byte strings, least significant byte first. `le w x`
    keeps the low `w` bytes of `x`, which is what storing a wide integer in a
    narrower field does.
-/

abbrev Byte := BitVec 8
abbrev Bytes := List Byte

namespace Bytes

/-- The `w` low bytes of `x`. -/
def le : Nat → Nat → Bytes
  | 0, _ => []
  | w + 1, x => BitVec.ofNat 8 x :: le w (x / 256)

/-- The integer a byte string stands for. -/
def ofLe : Bytes → Nat
  | [] => 0
  | b :: bs => b.toNat + 256 * ofLe bs

@[simp] theorem length_le (w x : Nat) : (le w x).length = w := by
  induction w generalizing x with
  | zero => rfl
  | succ w ih => simp [le, ih]

theorem ofLe_le (w x : Nat) : ofLe (le w x) = x % 256 ^ w := by
  induction w generalizing x with
  | zero => simp [le, ofLe, Nat.mod_one]
  | succ w ih =>
    have hbyte : (BitVec.ofNat 8 x).toNat = x % 256 := by simp
    show (BitVec.ofNat 8 x).toNat + 256 * ofLe (le w (x / 256)) = _
    rw [ih, hbyte, Nat.pow_succ, Nat.mul_comm (256 ^ w) 256, Nat.mod_mul]

theorem ofLe_lt (bs : Bytes) : ofLe bs < 256 ^ bs.length := by
  induction bs with
  | nil => exact Nat.one_pos
  | cons b bs ih =>
    have hb := b.isLt
    rw [ofLe, List.length_cons, Nat.pow_succ]
    omega

/-- Any byte string is the integer it stands for, written back. -/
theorem le_ofLe (bs : Bytes) : le bs.length (ofLe bs) = bs := by
  induction bs with
  | nil => rfl
  | cons b bs ih =>
    have hb := b.isLt
    have hlow : BitVec.ofNat 8 (b.toNat + 256 * ofLe bs) = b := by
      apply BitVec.eq_of_toNat_eq
      rw [BitVec.toNat_ofNat]
      omega
    have hhigh : (b.toNat + 256 * ofLe bs) / 256 = ofLe bs := by omega
    rw [List.length_cons, le, ofLe, hlow, hhigh, ih]

theorem ofLe_le_of_lt {w x : Nat} (h : x < 256 ^ w) : ofLe (le w x) = x := by
  rw [ofLe_le, Nat.mod_eq_of_lt h]

theorem ofLe_append (as bs : Bytes) : ofLe (as ++ bs) = ofLe as + 256 ^ as.length * ofLe bs := by
  induction as with
  | nil => simp [ofLe]
  | cons a as ih =>
    rw [List.cons_append, ofLe, ih, ofLe, List.length_cons, Nat.pow_succ, Nat.mul_add,
      ← Nat.mul_assoc, Nat.mul_comm 256 (256 ^ as.length), Nat.add_assoc]

/-! ### Fields -/

/-- The integer in `w` bytes from `off` on. -/
def field (s : Bytes) (off w : Nat) : Nat := ofLe ((s.drop off).take w)

/-- A field in the middle, given by the lengths around it. -/
theorem field_mid {s a b c : Bytes} {off w : Nat} (h : s = a ++ b ++ c) (ha : off = a.length)
    (hb : w = b.length) : field s off w = ofLe b := by
  subst h ha hb
  rw [field, List.append_assoc, List.drop_left, List.take_left]

/-- A field behind the first `n` bytes. -/
theorem field_append {a b : Bytes} {n : Nat} (h : a.length = n) (off w : Nat) :
    field (a ++ b) (n + off) w = field b off w := by
  rw [field, field, ← List.drop_drop, List.drop_left' h]

/-- Part `i` of a layout, if it is a number. -/
theorem field_part {s a c : Bytes} {parts : List Bytes} {i off w x : Nat}
    (h : s = a ++ parts.flatten ++ c) (hi : parts[i]? = some (le w x))
    (hoff : a.length + (parts.take i).flatten.length = off) (hx : x < 256 ^ w) :
    field s off w = x := by
  obtain ⟨hlt, hget⟩ := List.getElem?_eq_some_iff.mp hi
  have hsplit : parts.flatten =
      (parts.take i).flatten ++ (le w x ++ (parts.drop (i + 1)).flatten) := by
    rw [← hget, ← List.flatten_cons, List.getElem_cons_drop, ← List.flatten_append,
      List.take_append_drop]
  have hmid : s = (a ++ (parts.take i).flatten) ++ le w x ++ ((parts.drop (i + 1)).flatten ++ c) := by
    rw [h, hsplit]
    simp only [List.append_assoc]
  have hlen : off = (a ++ (parts.take i).flatten).length := by
    rw [List.length_append, hoff]
  rw [field_mid hmid hlen (length_le w x).symm, ofLe_le_of_lt hx]

/-- Entry `k` of a table of numbers. -/
theorem field_table (f : Nat → Nat) {n k w : Nat} (hk : k < n) (hf : f k < 256 ^ w) :
    field ((List.range n).flatMap fun k => le w (f k)) (k * w) w = f k := by
  have hsplit : ((List.range n).flatMap fun k => le w (f k)) =
      [] ++ ((List.range n).map fun k => le w (f k)).flatten ++ [] := by
    rw [List.flatMap_def, List.nil_append, List.append_nil]
  apply field_part hsplit (i := k)
  · rw [List.getElem?_map, List.getElem?_range hk]
    rfl
  · have hlen : (List.length ∘ fun k => le w (f k)) = fun _ => w := by
      funext k
      exact length_le w (f k)
    rw [← List.map_take, List.take_range, Nat.min_eq_left (Nat.le_of_lt hk), List.length_flatten,
      List.map_map, hlen, List.map_const', List.length_range, List.sum_replicate_nat]
    exact Nat.zero_add _
  · exact hf

theorem field_lt (s : Bytes) (off w : Nat) : field s off w < 256 ^ w := by
  have hlt := ofLe_lt ((s.drop off).take w)
  have hlen : ((s.drop off).take w).length ≤ w := List.length_take_le ..
  exact Nat.lt_of_lt_of_le hlt (Nat.pow_le_pow_right (by omega) hlen)

/-- A field is its lower part and its upper part. -/
theorem field_add {s : Bytes} {off v : Nat} (h : off + v ≤ s.length) (w : Nat) :
    field s off (v + w) = field s off v + 256 ^ v * field s (off + v) w := by
  have hlen : ((s.drop off).take v).length = v := by
    rw [List.length_take, List.length_drop]
    omega
  rw [field, List.take_add, ofLe_append, hlen, List.drop_drop]
  rfl

end Bytes
