import Kestrel64.Lib.Crc
import Kestrel64.Archive.Deflate

/-! # The Zip Format

    What a zip file is, from the writer's side: the data of the entries with a
    local header in front of each, the central directory, and the end record
    with a comment. What a reader does not need (dates, versions, attributes)
    may be any bytes of the right length.

    * The local headers may be in any order and with anything between them; the
      file begins with one.
    * `Chosen` is the entry a reader of ROM images is looking for.
-/

namespace Archive.Zip

open BitStream

/-! ## Section 1: Entries -/

structure Entry where
  name : Bytes
  extra : Bytes
  comment : Bytes
  content : Bytes
  /-- The blocks of a deflated entry. -/
  blocks : Option (List Deflate.Block)
  packed : Bytes
  /-- Where the local header is. -/
  offset : Nat
  localExtra : Bytes
  /-- The versions and flags, the time, the attributes, and the fields of the
      local header that are in the directory too. -/
  version : Bytes
  time : Bytes
  attributes : Bytes
  localFields : Bytes

def localSignature : Nat := 0x04034b50
def centralSignature : Nat := 0x02014b50
def endSignature : Nat := 0x06054b50

namespace Entry

def method (e : Entry) : Nat := if e.blocks.isSome then 8 else 0

/-- The local header and the data. -/
def localPart (e : Entry) : Bytes :=
  Bytes.le 4 localSignature ++ e.localFields ++ Bytes.le 2 e.name.length ++
    Bytes.le 2 e.localExtra.length ++ e.name ++ e.localExtra ++ e.packed

/-- The entry in the central directory. -/
def central (e : Entry) : Bytes :=
  Bytes.le 4 centralSignature ++ e.version ++ Bytes.le 2 e.method ++ e.time ++
    Bytes.le 4 (Crc.crc32 e.content).toNat ++ Bytes.le 4 e.packed.length ++
    Bytes.le 4 e.content.length ++ Bytes.le 2 e.name.length ++ Bytes.le 2 e.extra.length ++
    Bytes.le 2 e.comment.length ++ e.attributes ++ Bytes.le 4 e.offset ++
    e.name ++ e.extra ++ e.comment

/-- The data are the content, or a DEFLATE stream for it up to the end of a byte. -/
def Packs (e : Entry) : Prop :=
  match e.blocks with
  | none => e.packed = e.content
  | some bs => bs ≠ [] ∧ Deflate.Legal 0 [] bs ∧ Deflate.expand bs [] = e.content ∧
      ∃ pad, pad.length < 8 ∧ ofBytes e.packed = Deflate.encode bs ++ pad

structure Legal (front : Bytes) (e : Entry) : Prop where
  name : e.name.length < 2 ^ 16
  extra : e.extra.length < 2 ^ 16
  comment : e.comment.length < 2 ^ 16
  localExtra : e.localExtra.length < 2 ^ 16
  content : e.content.length < 2 ^ 32
  version : e.version.length = 6
  time : e.time.length = 4
  attributes : e.attributes.length = 8
  localFields : e.localFields.length = 22
  packs : e.Packs
  placed : ∃ a c, front = a ++ e.localPart ++ c ∧ a.length = e.offset

/-- No block announces more than 30 distance codes. -/
def Fits (e : Entry) : Prop := ∀ bs ∈ e.blocks, ∀ blk ∈ bs, blk.distCodes ≤ 30

instance (e : Entry) : Decidable e.Fits :=
  inferInstanceAs (Decidable (∀ bs ∈ e.blocks, ∀ blk ∈ bs, blk.distCodes ≤ 30))

end Entry

/-! ## Section 2: Files -/

structure File where
  /-- The local headers and the data. -/
  front : Bytes
  entries : List Entry
  /-- What is between the directory and the end record. -/
  gap : Bytes
  comment : Bytes

namespace File

def directory (z : File) : Bytes := z.entries.flatMap Entry.central

def endRecord (z : File) : Bytes :=
  Bytes.le 4 endSignature ++ Bytes.le 2 0 ++ Bytes.le 2 0 ++ Bytes.le 2 z.entries.length ++
    Bytes.le 2 z.entries.length ++ Bytes.le 4 z.directory.length ++ Bytes.le 4 z.front.length ++
    Bytes.le 2 z.comment.length

def bytes (z : File) : Bytes := z.front ++ z.directory ++ z.gap ++ z.endRecord ++ z.comment

/-- Where the end record is. -/
def endAt (z : File) : Nat := (z.front ++ z.directory ++ z.gap).length

structure Legal (z : File) : Prop where
  nonempty : z.entries ≠ []
  count : z.entries.length ≤ 65535
  entries : ∀ e ∈ z.entries, e.Legal z.front
  comment : z.comment.length < 2 ^ 16
  size : z.bytes.length < 2 ^ 32
  begins : ∃ rest, z.front = Bytes.le 4 localSignature ++ rest
  /-- The signature of the end record is not found again behind it. -/
  last : ∀ i, z.endAt < i → i + 4 ≤ z.bytes.length → Bytes.field z.bytes i 4 ≠ endSignature

end File

/-! ## Section 3: The entry to take -/

def romExtensions : List String := [".z64", ".n64", ".v64", ".rom", ".bin", ".u64", ".ndd"]

def text (s : String) : Bytes := s.toList.map fun c => BitVec.ofNat 8 c.toNat

/-- The small letter of a capital one. -/
def small (c : Byte) : Byte := if 0x41 ≤ c.toNat ∧ c.toNat ≤ 0x5a then c + 0x20 else c

/-- The name ends in the extension of a ROM, in capital or small letters. -/
def Entry.IsRom (e : Entry) : Prop := ∃ x ∈ romExtensions, text x <:+ e.name.map small

/-- A ROM before anything else, and then the larger one. -/
def Better (e f : Entry) : Prop :=
  (e.IsRom ∧ ¬ f.IsRom) ∨ ((e.IsRom ↔ f.IsRom) ∧ f.content.length < e.content.length)

/-- No entry is better, and none before is as good. -/
def Chosen (es : List Entry) (e : Entry) : Prop :=
  ∃ before after, es = before ++ e :: after ∧
    (∀ f ∈ before, Better e f) ∧ ∀ f ∈ after, ¬ Better f e

end Archive.Zip
