import Kestrel64.Lib.Decimal
import Kestrel64.Lib.Patch

/-! # SD Card: Names

    `core/sdcard.hpp`: the names a host directory gets in the virtual FAT32
    volume. A name that is not an 8.3 name as it stands gets an alias
    `BASE~N.EXT`, and its UTF-16 form goes into long-name entries.

    A name is a byte string in UTF-8. A `memcpy` past the 11 bytes of a short
    name is `none`.
-/

namespace Sd

open Patch

def dot : Byte := 0x2e
def space : Byte := 0x20
def tilde : Byte := 0x7e
def underscore : Byte := 0x5f

/-! ## Section 1: Short names -/

/-- `rfind`: the last position of `c`. -/
def rfind (c : Byte) : Bytes → Option Nat
  | [] => none
  | b :: n =>
    match rfind c n with
    | some i => some (i + 1)
    | none => if b = c then some 0 else none

/-- What is in front of the last dot, or all of the name. -/
def basePart (n : Bytes) : Bytes :=
  match rfind dot n with
  | none => n
  | some i => n.take i

/-- What is behind the last dot. -/
def extPart (n : Bytes) : Bytes :=
  match rfind dot n with
  | none => []
  | some i => n.drop (i + 1)

def isUpper (c : Byte) : Bool := 0x41 ≤ c.toNat && c.toNat ≤ 0x5a
def isLower (c : Byte) : Bool := 0x61 ≤ c.toNat && c.toNat ≤ 0x7a

/-- The other characters of a short name: `$ % ' - _ @ ~`, the grave accent, `! ( )`,
    the braces, `^ # &`, and the terminator, which `strchr` finds too. -/
def special : Bytes :=
  [0x24, 0x25, 0x27, 0x2d, 0x5f, 0x40, 0x7e, 0x60, 0x21, 0x28, 0x29, 0x7b, 0x7d, 0x5e, 0x23, 0x26, 0]

/-- `ok` of `plain83`. -/
def isPlain (c : Byte) : Bool := isUpper c || Decimal.isDigit c || special.contains c

def pad (w : Nat) (s : Bytes) : Bytes := s ++ List.replicate (w - s.length) space

/-- `plain83`: the 11 bytes of a name that is valid as it stands. -/
def plain83 (n : Bytes) : Option Bytes :=
  let base := basePart n
  let ext := extPart n
  if base = [] ∨ 8 < base.length ∨ 3 < ext.length then none
  else if rfind dot n ≠ none ∧ rfind dot n ≠ some (n.idxOf dot) then none
  else if !base.all isPlain then none
  else if !ext.all isPlain then none
  else some (pad 8 base ++ pad 3 ext)

/-- `keep` of `alias83`. -/
def keep (c : Byte) : Option Byte :=
  if isLower c then some (c - 32)
  else if isUpper c || Decimal.isDigit c then some c
  else none

/-- `BASE~N` of `alias83`. For more than 8 characters of `~N` the length that is
    left is below 0, and `substr` keeps all of the base. -/
def aliasBase (n : Bytes) (seq : Nat) : Bytes :=
  let base := (basePart n).filterMap keep
  let tail := tilde :: Decimal.text seq
  let base := if base = [] then [underscore] else base
  (if tail.length ≤ 8 then base.take (8 - tail.length) else base) ++ tail

/-- `alias83`: the alias number `seq` of a name. -/
def alias83 (n : Bytes) (seq : Nat) : Option Bytes :=
  let ext := ((extPart n).filterMap keep).take 3
  let base := aliasBase n seq
  if 11 < base.length then none
  else some (overwrite (overwrite (List.replicate 11 space) 0 base) 8 ext)

/-! ## Section 2: Long names -/

def lfnSum (sfn : Bytes) : Byte :=
  sfn.foldl (fun s c => ((s &&& 1) <<< 7) + (s >>> 1) + c) 0

/-- The bytes of the character that begins with `b`. -/
def charLen (b : Nat) : Nat := if b < 0x80 then 1 else if b < 0xe0 then 2 else if b < 0xf0 then 3 else 4

/-- The units of the number `c`. -/
def units (c : Nat) : List (BitVec 16) :=
  if 0x10000 ≤ c then
    let c := c - 0x10000
    [BitVec.ofNat 16 (0xd800 + c / 2 ^ 10), BitVec.ofNat 16 (0xdc00 + c % 2 ^ 10)]
  else [BitVec.ofNat 16 c]

/-- The loop of `utf16`; each round takes a byte at least. -/
def utf16Loop : Nat → Bytes → List (BitVec 16)
  | 0, _ => []
  | _ + 1, [] => []
  | fuel + 1, b :: s =>
    let n := charLen b.toNat
    let c := if 1 < n then b.toNat % (0x40 / 2 ^ (n - 1)) else b.toNat
    let c := (s.take (n - 1)).foldl (fun c b => c * 2 ^ 6 + b.toNat % 2 ^ 6) c
    units c ++ utf16Loop fuel (s.drop (n - 1))

def utf16 (s : Bytes) : List (BitVec 16) := utf16Loop s.length s

/-! ## Section 3: The names of a directory -/

structure Entry where
  sfn : Bytes
  lfn : List (BitVec 16) := []
  needLfn : Bool
deriving DecidableEq

/-- The loop over the alias numbers. From ten digits on `~N` alone is too long,
    so that `seq` stays a `u32` and 2^32 rounds are enough. -/
def aliasLoop (n : Bytes) (taken : List Bytes) : Nat → Nat → Option (Nat × Bytes)
  | 0, _ => none
  | fuel + 1, seq =>
    match alias83 n seq with
    | none => none
    | some sfn => if sfn ∈ taken then aliasLoop n taken fuel (seq + 1) else some (seq, sfn)

/-- The loop of `entriesOf` over the children that are left. -/
def entriesFrom : Nat → List Entry → List Bytes → Option (List Entry)
  | _, out, [] => some out
  | seq, out, n :: ns =>
    match plain83 n with
    | some sfn => entriesFrom seq (out ++ [{ sfn, needLfn := false }]) ns
    | none =>
      match aliasLoop n (out.map Entry.sfn) (2 ^ 32) seq with
      | none => none
      | some (seq, sfn) =>
        entriesFrom seq (out ++ [{ sfn, lfn := utf16 n, needLfn := true }]) ns

/-- `entriesOf` a directory with these names. -/
def entriesOf (names : List Bytes) : Option (List Entry) := entriesFrom 1 [] names

end Sd
