import Kestrel64.Lib.Bytes

/-! # FAT32

    The format from the reader's side: what the slots of a directory say.

    * A slot has 32 bytes. `records` reads the slots of a directory up to the
      end mark; `none` means that there is no end mark.
    * The parts of a long name stand in front of their short entry, the last
      part first. `longName` reads them, and is `none` where they are not as
      they must be.
-/

namespace Fat

open Bytes (field)

/-! ## Section 1: Slots -/

/-- The first `n` pieces of `w` bytes. -/
def pieces (w : Nat) : Nat → Bytes → List Bytes
  | 0, _ => []
  | n + 1, s => s.take w :: pieces w n (s.drop w)

theorem pieces_append {w : Nat} {ss : List Bytes} (h : ∀ s ∈ ss, s.length = w) (k : Nat)
    (rest : Bytes) : pieces w (ss.length + k) (ss.flatten ++ rest) = ss ++ pieces w k rest := by
  induction ss with
  | nil => simp
  | cons s ss ih =>
    rw [List.forall_mem_cons] at h
    rw [List.length_cons, Nat.succ_add, List.flatten_cons, List.append_assoc, pieces,
      List.take_left' h.1, List.drop_left' h.1, ih h.2, List.cons_append]

theorem pieces_replicate {w k : Nat} (b : Byte) :
    pieces w k (List.replicate (w * k) b) = List.replicate k (List.replicate w b) := by
  induction k with
  | zero => rfl
  | succ k ih =>
    rw [pieces, List.take_replicate, List.drop_replicate, Nat.mul_succ,
      Nat.min_eq_left (Nat.le_add_left ..), Nat.add_sub_cancel, ih, List.replicate_succ]

/-! ## Section 2: Directories -/

/-- What a directory says about one file. -/
structure Rec where
  sfn : Bytes
  attr : Nat
  cluster : Nat
  size : Nat
  long : Option (List (BitVec 16))
deriving DecidableEq

/-- The 13 units of a part of a long name. -/
def units (s : Bytes) : List (BitVec 16) :=
  [1, 3, 5, 7, 9, 14, 16, 18, 20, 22, 24, 28, 30].map fun off => BitVec.ofNat 16 (field s off 2)

/-- The check sum of a short name. -/
def checksum (sfn : Bytes) : Byte := sfn.foldl (fun s c => s.rotateRight 1 + c) 0

/-- The parts are numbered down to 1, the first one has the mark `0x40`, and all
    have the sum of the short name. -/
def partsOk (sum : Byte) : Bool → List Bytes → Bool
  | _, [] => true
  | first, s :: ss =>
    field s 0 1 = ss.length + 1 + (if first then 0x40 else 0) && field s 11 1 = 0x0f &&
      field s 12 1 = 0 && field s 13 1 = sum.toNat && field s 26 2 = 0 && partsOk sum false ss

/-- The long name in the parts in front of the short name `sfn`. Behind a name
    that does not fill the last part come a 0 and `0xffff`. -/
def longName (sfn : Bytes) (parts : List Bytes) : Option (List (BitVec 16)) :=
  let us := parts.reverse.flatMap units
  let name := us.takeWhile (· ≠ 0)
  let rest := us.drop name.length
  if parts = [] ∨ partsOk (checksum sfn) true parts = false then none
  else if rest = [] ∨ rest.length < 13 ∧ rest = 0 :: List.replicate (rest.length - 1) 0xffff then
    some name
  else none

/-- The files in the slots of a directory; `parts` are the parts of a long name
    read so far. -/
def records : List Bytes → List Bytes → Option (List Rec)
  | _, [] => none
  | parts, s :: ss =>
    if field s 0 1 = 0 then some []
    else if field s 0 1 = 0xe5 then records [] ss
    else if field s 11 1 = 0x0f then records (parts ++ [s]) ss
    else do
      let rs ← records [] ss
      some ({ sfn := s.take 11
              attr := field s 11 1
              cluster := field s 26 2 + field s 20 2 * 2 ^ 16
              size := field s 28 4
              long := longName (s.take 11) parts } :: rs)

/-- The files in the bytes of a directory. -/
def readDir (bytes : Bytes) : Option (List Rec) :=
  records [] (pieces 32 (bytes.length / 32) bytes)

/-! ### Reading what was written -/

/-- Slots that are parts of a long name wait for the short entry. -/
theorem records_parts {ps : List Bytes}
    (h : ∀ s ∈ ps, field s 0 1 ≠ 0 ∧ field s 0 1 ≠ 0xe5 ∧ field s 11 1 = 0x0f)
    (parts ss : List Bytes) : records parts (ps ++ ss) = records (parts ++ ps) ss := by
  induction ps generalizing parts with
  | nil => rw [List.nil_append, List.append_nil]
  | cons s ps ih =>
    rw [List.forall_mem_cons] at h
    obtain ⟨⟨h0, he, hattr⟩, hps⟩ := h
    rw [List.cons_append, records, if_neg h0, if_neg he, if_pos hattr, ih hps, List.append_assoc,
      List.singleton_append]

end Fat
