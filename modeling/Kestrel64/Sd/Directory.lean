import Kestrel64.Sd.Names

/-! # SD Card: Directories

    The directory part of `buildVirtual` of `core/sdcard.hpp`: how many slots
    a directory needs, how many clusters that is, and the slots themselves,
    written one after another into the bytes of the directory.

    A write past the end of these bytes is `none`.
-/

namespace Sd

open Patch

def kSecPerClus : Nat := 8
def kClus : Nat := kSecPerClus * 512

/-! ## Section 1: Slots -/

/-- The fixed date, 1 January 2026, and time. -/
def date : Nat := (2026 - 1980) * 2 ^ 9 + 2 ^ 5 + 1
def time : Nat := 0

/-- `dirEntry`, on bytes that are 0. -/
def dirEntry (sfn : Bytes) (dir : Bool) (clus size : Nat) : Bytes :=
  sfn ++ [if dir then 0x10 else 0x20, 0, 0] ++ Bytes.le 2 time ++ Bytes.le 2 date ++
    Bytes.le 2 date ++ Bytes.le 2 (clus / 2 ^ 16) ++ Bytes.le 2 time ++ Bytes.le 2 date ++
    Bytes.le 2 clus ++ Bytes.le 4 (if dir then 0 else size)

/-- Unit `ci` of a long name: behind the name comes a 0, and then `0xffff`. -/
def lfnUnit (lfn : List (BitVec 16)) (ci : Nat) : BitVec 16 :=
  match lfn[ci]? with
  | some u => u
  | none => if ci = lfn.length then 0 else 0xffff

/-- Units `k` up to `k + n` of part `part`, as bytes. -/
def lfnUnits (lfn : List (BitVec 16)) (part k n : Nat) : Bytes :=
  (List.range n).flatMap fun i => Bytes.le 2 (lfnUnit lfn ((part - 1) * 13 + (k + i))).toNat

/-- Part `part` of `parts`. -/
def longSlot (sum : Byte) (lfn : List (BitVec 16)) (parts part : Nat) : Bytes :=
  BitVec.ofNat 8 (part ||| if part = parts then 0x40 else 0) :: lfnUnits lfn part 0 5 ++
    [0x0f, 0, sum] ++ lfnUnits lfn part 5 6 ++ Bytes.le 2 0 ++ lfnUnits lfn part 11 2

/-- The loop over the parts, from the last to the first. -/
def longSlotsFrom (sum : Byte) (lfn : List (BitVec 16)) (parts : Nat) : Nat → List Bytes
  | 0 => []
  | part + 1 => longSlot sum lfn parts (part + 1) :: longSlotsFrom sum lfn parts part

def longSlots (sfn : Bytes) (lfn : List (BitVec 16)) : List Bytes :=
  let parts := (lfn.length + 12) / 13
  longSlotsFrom (lfnSum sfn) lfn parts parts

/-! ## Section 2: A directory -/

/-- What a directory says about a child: its names and its node. -/
structure Child where
  entry : Entry
  dir : Bool
  first : Nat
  size : Nat

def childSlots (c : Child) : List Bytes :=
  (if c.entry.needLfn then longSlots c.entry.sfn c.entry.lfn else []) ++
    [dirEntry c.entry.sfn c.dir c.first c.size]

/-- `.` and `..`, with their clusters. The root has neither. -/
def dotSlots : Option (Nat × Nat) → List Bytes
  | none => []
  | some (self, parent) =>
    [dirEntry (pad 11 [dot]) true self 0, dirEntry (pad 11 [dot, dot]) true parent 0]

/-- The slots of a directory. -/
def dirSlots (up : Option (Nat × Nat)) (cs : List Child) : List Bytes :=
  dotSlots up ++ cs.flatMap childSlots

/-- The slots a child takes in its directory. -/
def entrySlots (e : Entry) : Nat := 1 + if e.needLfn then (e.lfn.length + 12) / 13 else 0

/-- `cnt`: the slots a directory is sized for, without the end mark. -/
def slotCount (root : Bool) (es : List Entry) : Nat :=
  (if root then 0 else 2) + (es.map entrySlots).sum

/-- The clusters of a node of `size` bytes. -/
def clusterCount (dir : Bool) (size : Nat) : Nat :=
  let count := (size + kClus - 1) / kClus % 2 ^ 32
  if dir ∧ count = 0 then 1 else count

/-- The loop that writes the slots at `p`. -/
def putSlots : Bytes → Nat → List Bytes → Option Bytes
  | bytes, _, [] => some bytes
  | bytes, p, s :: ss =>
    if p + 32 ≤ bytes.length then putSlots (overwrite bytes p s) (p + 32) ss else none

/-- The bytes of a directory of `count` clusters. -/
def dirBytes (count : Nat) (up : Option (Nat × Nat)) (cs : List Child) : Option Bytes :=
  putSlots (List.replicate (count * kClus) 0) 0 (dirSlots up cs)

end Sd
