import Kestrel64.Lib.Bytes

/-! # Bit Streams

    Numbers and byte strings as strings of bits.  A plain field is written
    least significant bit first and bytes are read the same way; a code word
    goes out most significant bit first.
-/

namespace BitStream

/-- The `w` low bits of `x`, least significant first. -/
def lsb : Nat → Nat → List Bool
  | 0, _ => []
  | w + 1, x => decide (x % 2 = 1) :: lsb w (x / 2)

/-- The number a bit string stands for, least significant bit first. -/
def ofLsb : List Bool → Nat
  | [] => 0
  | b :: bs => b.toNat + 2 * ofLsb bs

/-- The `w` low bits of `x`, most significant first. -/
def msb : Nat → Nat → List Bool
  | 0, _ => []
  | w + 1, x => decide (x / 2 ^ w % 2 = 1) :: msb w x

/-- A byte string as the stream of its bits. -/
def ofBytes (bs : Bytes) : List Bool := bs.flatMap fun b => lsb 8 b.toNat

@[simp] theorem length_lsb (w x : Nat) : (lsb w x).length = w := by
  induction w generalizing x with
  | zero => rfl
  | succ w ih => simp [lsb, ih]

@[simp] theorem length_msb (w x : Nat) : (msb w x).length = w := by
  induction w with
  | zero => rfl
  | succ w ih => simp [msb, ih]

theorem ofLsb_lsb (w x : Nat) : ofLsb (lsb w x) = x % 2 ^ w := by
  induction w generalizing x with
  | zero => simp [lsb, ofLsb, Nat.mod_one]
  | succ w ih =>
    have hbit : (decide (x % 2 = 1)).toNat = x % 2 := by
      rcases Nat.mod_two_eq_zero_or_one x with h | h <;> simp [h]
    show (decide (x % 2 = 1)).toNat + 2 * ofLsb (lsb w (x / 2)) = _
    rw [ih, hbit, Nat.pow_succ, Nat.mul_comm (2 ^ w) 2, Nat.mod_mul]

theorem ofLsb_lt (bits : List Bool) : ofLsb bits < 2 ^ bits.length := by
  induction bits with
  | nil => exact Nat.one_pos
  | cons b bits ih =>
    have hbit : b.toNat < 2 := Bool.toNat_lt b
    rw [ofLsb, List.length_cons, Nat.pow_succ]
    omega

/-- Any string of bits is a field. -/
theorem lsb_ofLsb (bits : List Bool) : lsb bits.length (ofLsb bits) = bits := by
  induction bits with
  | nil => rfl
  | cons b bits ih =>
    have hdiv : (b.toNat + 2 * ofLsb bits) / 2 = ofLsb bits := by
      have hbit : b.toNat < 2 := Bool.toNat_lt b
      omega
    have hmod : decide ((b.toNat + 2 * ofLsb bits) % 2 = 1) = b := by
      cases b <;> simp
    rw [List.length_cons, lsb, ofLsb, hdiv, hmod, ih]

theorem lsb_add (v w x : Nat) : lsb (v + w) x = lsb v x ++ lsb w (x / 2 ^ v) := by
  induction v generalizing x with
  | zero => simp [lsb]
  | succ v ih =>
    rw [Nat.succ_add]
    show _ :: lsb (v + w) (x / 2) = _ :: lsb v (x / 2) ++ _
    rw [ih, Nat.div_div_eq_div_mul, Nat.pow_succ, Nat.mul_comm (2 ^ v) 2]
    rfl

theorem lsb_mod (w x : Nat) : lsb w (x % 2 ^ w) = lsb w x := by
  induction w generalizing x with
  | zero => rfl
  | succ w ih =>
    have hlow : x % 2 ^ (w + 1) % 2 = x % 2 :=
      Nat.mod_mod_of_dvd x (Dvd.intro_left _ (Nat.pow_succ ..).symm)
    have hhigh : x % 2 ^ (w + 1) / 2 = x / 2 % 2 ^ w := by
      rw [Nat.pow_succ, Nat.mul_comm, Nat.mod_mul_right_div_self]
    simp only [lsb, hlow, hhigh, ih]

/-- Two fields of one width with the same bits hold the same number. -/
theorem lsb_inj {w x y : Nat} (hx : x < 2 ^ w) (hy : y < 2 ^ w) (h : lsb w x = lsb w y) : x = y := by
  have := congrArg ofLsb h
  rwa [ofLsb_lsb, ofLsb_lsb, Nat.mod_eq_of_lt hx, Nat.mod_eq_of_lt hy] at this

@[simp] theorem ofBytes_nil : ofBytes [] = [] := rfl

@[simp] theorem ofBytes_cons (b : Byte) (bs : Bytes) :
    ofBytes (b :: bs) = lsb 8 b.toNat ++ ofBytes bs := rfl

@[simp] theorem ofBytes_append (as bs : Bytes) : ofBytes (as ++ bs) = ofBytes as ++ ofBytes bs := by
  simp [ofBytes]

@[simp] theorem length_ofBytes (bs : Bytes) : (ofBytes bs).length = 8 * bs.length := by
  induction bs with
  | nil => rfl
  | cons b bs ih =>
    simp only [ofBytes_cons, List.length_append, length_lsb, ih, List.length_cons]
    omega

/-- A little-endian integer on the stream is the same field of bits. -/
theorem ofBytes_le (w x : Nat) : ofBytes (Bytes.le w x) = lsb (8 * w) x := by
  induction w generalizing x with
  | zero => rfl
  | succ w ih =>
    have hbyte : lsb 8 (BitVec.ofNat 8 x).toNat = lsb 8 x := by
      rw [BitVec.toNat_ofNat, lsb_mod]
    rw [Bytes.le, ofBytes_cons, ih, hbyte, Nat.mul_succ, Nat.add_comm, lsb_add]
    rfl

theorem ofBytes_inj {as bs : Bytes} (h : ofBytes as = ofBytes bs) : as = bs := by
  induction as generalizing bs with
  | nil =>
    have hlen := congrArg List.length h
    simp only [length_ofBytes, List.length_nil] at hlen
    exact (List.eq_nil_of_length_eq_zero (by omega)).symm
  | cons a as ih =>
    cases bs with
    | nil => simp [lsb] at h
    | cons b bs =>
      simp only [ofBytes_cons] at h
      obtain ⟨hab, has⟩ := List.append_inj h (by simp)
      have hbyte : a = b := BitVec.eq_of_toNat_eq (lsb_inj a.isLt b.isLt hab)
      rw [hbyte, ih has]

/-- The bytes in front of a stream that begins with the bits of `as`. -/
theorem take_of_ofBytes {bs as : Bytes} {rest : List Bool} (h : ofBytes bs = ofBytes as ++ rest) :
    bs.take as.length = as ∧ ofBytes (bs.drop as.length) = rest := by
  have hlen := congrArg List.length h
  simp only [length_ofBytes, List.length_append] at hlen
  rw [← List.take_append_drop as.length bs, ofBytes_append] at h
  obtain ⟨hfront, hback⟩ := List.append_inj h (by
    rw [length_ofBytes, length_ofBytes, List.length_take]; omega)
  exact ⟨ofBytes_inj hfront, hback⟩

end BitStream
