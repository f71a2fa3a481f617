import Mathlib.Logic.Function.Iterate
import Kestrel64.Archive.Indexed

/-! # Unwrapping a Download

    `unwrap` of `core/archive.cpp`: a zip or gzip container is replaced by what
    is in it, anything else stays. Every index is checked, as in the decoder.

    * What is reported is kept as the numbers and names that are printed, not as
      the text.
    * Memory does not run out, and `usize` has 64 bits, so that sums of offsets
      stay far below its end.
-/

namespace Archive.Indexed

open Checked

/-- What `what` reports: the size, and for a zip the name of the entry. -/
inductive What
  | none
  | gzip (size : Nat)
  | zip (name : Bytes) (size : Nat)
  deriving DecidableEq, Repr

/-- The variables `unwrap` works on. -/
structure State where
  data : Bytes
  what : What
  error : String
  deriving DecidableEq, Repr

/-- `return false` with a message. -/
def fail (s : State) (error : String) : Checked (Bool × State) := .ok (false, { s with error })

def rd32 (p : Bytes) (pos : Nat) : Checked Nat := do
  let lo ← rd16 p pos
  let hi ← rd16 p (pos + 2)
  .ok (lo ||| (hi <<< 16))

/-! ## Section 1: Names -/

def lower (s : Bytes) : Bytes :=
  s.map fun c => if 0x41 ≤ c.toNat ∧ c.toNat ≤ 0x5a then c - 0x41 + 0x61 else c

/-- `.z64`, `.n64`, `.v64`, `.rom`, `.bin`, `.u64` and `.ndd`. -/
def ext : List Bytes :=
  [[0x2e, 0x7a, 0x36, 0x34], [0x2e, 0x6e, 0x36, 0x34], [0x2e, 0x76, 0x36, 0x34],
    [0x2e, 0x72, 0x6f, 0x6d], [0x2e, 0x62, 0x69, 0x6e], [0x2e, 0x75, 0x36, 0x34],
    [0x2e, 0x6e, 0x64, 0x64]]

def looksLikeRom (name : Bytes) : Bool :=
  let n := lower name
  ext.any fun e => decide (e.length ≤ n.length) && n.drop (n.length - e.length) == e

/-! ## Section 2: The check sum -/

def crcRound (c : BitVec 32) : BitVec 32 :=
  if c &&& 1 ≠ 0 then 0xEDB88320 ^^^ (c >>> 1) else c >>> 1

def tab : List (BitVec 32) := (List.range 256).map fun i => crcRound^[8] (BitVec.ofNat 32 i)

def crc32 (p : Bytes) : Checked (BitVec 32) := do
  let c ← p.foldlM (fun (c : BitVec 32) b => do
    let t ← read tab ((c ^^^ b.setWidth 32) &&& 0xff).toNat
    .ok (t ^^^ (c >>> 8))) 0xFFFFFFFF
  .ok (c ^^^ 0xFFFFFFFF)

/-! ## Section 3: gzip -/

/-- Past a name and the 0 behind it. -/
def skipName (p : Bytes) : Nat → Nat → Checked Nat
  | 0, _ => .error .fuel
  | fuel + 1, off =>
    if off < p.length then do
      let c ← read p off
      if c = 0 then .ok (off + 1) else skipName p fuel (off + 1)
    else .ok (off + 1)

/-- Past the extra field. -/
def skipExtra (p : Bytes) (flg : Byte) : Checked Nat :=
  if flg &&& 0x04 ≠ 0 then do
    let extra ← rd16 p 10
    .ok (10 + (2 + extra))
  else .ok 10

/-- Past a name the flags announce. -/
def skipField (p : Bytes) (flg flag : Byte) (off : Nat) : Checked Nat :=
  if flg &&& flag ≠ 0 then skipName p (p.length + 1) off else .ok off

/-- Where the data begin, or `none` if the extra field is cut off. -/
def gzipStart (p : Bytes) (flg : Byte) : Checked (Option Nat) :=
  if flg &&& 0x04 ≠ 0 ∧ p.length < 10 + 2 then .ok none
  else do
    let off ← skipExtra p flg
    let off ← skipField p flg 0x08 off
    let off ← skipField p flg 0x10 off
    .ok (some (if flg &&& 0x02 ≠ 0 then off + 2 else off))

def unwrapGzip (s : State) : Checked (Bool × State) :=
  let p := s.data
  let n := p.length
  if n < 18 then fail s "gzip: fichero demasiado corto"
  else do
    let method ← read p 2
    if method ≠ 8 then fail s "gzip: metodo de compresion no es deflate"
    else do
      let flg ← read p 3
      match ← gzipStart p flg with
      | none => fail s "gzip: cabecera truncada"
      | some off =>
        if n ≤ off + 8 then fail s "gzip: cabecera truncada"
        else do
          let tail ← minus n 4
          -- The size is a hint for the room to reserve.
          let _isize ← rd32 p tail
          let len ← minus n (off + 8)
          let inp ← range p off len
          match ← inflate inp with
          | .error e => fail s e
          | .ok out => do
            let tail ← minus n 8
            let want ← rd32 p tail
            let crc ← crc32 out
            if crc.toNat ≠ want then fail s "gzip: CRC32 no cuadra (fichero corrupto)"
            else .ok (true, { s with what := .gzip out.length, data := out })

/-! ## Section 4: zip -/

/-- The search for the end record, from `floor_ + k` down to `floor_`; 0 if there is none. -/
def findEocd (p : Bytes) (floor_ : Nat) : Nat → Checked Nat
  | 0 => do
    let sig ← rd32 p floor_
    .ok (if sig = 0x06054b50 then floor_ else 0)
  | k + 1 => do
    let sig ← rd32 p (floor_ + (k + 1))
    if sig = 0x06054b50 then .ok (floor_ + (k + 1)) else findEocd p floor_ k

/-- The entry chosen so far; `off` is 0 before the first one. -/
structure Best where
  off : Nat := 0
  size : Nat := 0
  isRom : Bool := false
  name : Bytes := []

/-- The entry at `cd` is better. -/
def Best.improves (best : Best) (isRom : Bool) (usz : Nat) : Bool :=
  isRom && !best.isRom ||
    isRom == best.isRom && (best.off == 0 || decide (best.size < usz))

/-- The walk over the central directory, with `count` entries to go. -/
def walkDir (p : Bytes) : Nat → Nat → Best → Checked Best
  | 0, _, best => .ok best
  | count + 1, cd, best =>
    if p.length < cd + 46 then .ok best
    else do
      let sig ← rd32 p cd
      if sig ≠ 0x02014b50 then .ok best
      else do
        let nameLen ← rd16 p (cd + 28)
        let extraLen ← rd16 p (cd + 30)
        let cmtLen ← rd16 p (cd + 32)
        let usz ← rd32 p (cd + 24)
        if p.length < cd + 46 + nameLen then .ok best
        else do
          let name ← range p (cd + 46) nameLen
          let isRom := looksLikeRom name
          let best := if best.improves isRom usz then { off := cd, size := usz, isRom, name } else best
          walkDir p count (cd + (46 + nameLen + extraLen + cmtLen)) best

/-- The bytes of an entry. -/
def extract (method : Nat) (raw : Bytes) : Checked (Except String Bytes) :=
  if method = 0 then .ok (.ok raw)
  else if method = 8 then inflate raw
  else .ok (.error ("zip: metodo de compresion " ++ toString method ++
    " no soportado (solo guardado y deflate)"))

/-- The chosen entry takes the place of the data. -/
def unwrapEntry (s : State) (best : Best) : Checked (Bool × State) := do
  let p := s.data
  let n := p.length
  let method ← rd16 p (best.off + 10)
  let wantCrc ← rd32 p (best.off + 16)
  let comp ← rd32 p (best.off + 20)
  let local_ ← rd32 p (best.off + 42)
  if n < local_ + 30 then fail s "zip: cabecera local invalida"
  else do
    let sig ← rd32 p local_
    if sig ≠ 0x04034b50 then fail s "zip: cabecera local invalida"
    else do
      let nameLen ← rd16 p (local_ + 26)
      let extraLen ← rd16 p (local_ + 28)
      let start := local_ + 30 + nameLen + extraLen
      if n < start + comp then fail s "zip: datos comprimidos fuera del fichero"
      else do
        let raw ← range p start comp
        match ← extract method raw with
        | .error e => fail s e
        | .ok out => do
          let crc ← crc32 out
          if wantCrc ≠ 0 ∧ crc.toNat ≠ wantCrc then
            fail s "zip: CRC32 no cuadra (fichero corrupto)"
          else .ok (true, { s with what := .zip best.name out.length, data := out })

def unwrapZip (s : State) : Checked (Bool × State) :=
  let p := s.data
  let n := p.length
  if n < 22 then fail s "zip: fichero demasiado corto"
  else do
    let floor_ := if 66000 < n then n - 66000 else 0
    let top ← minus n 22
    let span ← minus top floor_
    let eocd ← findEocd p floor_ span
    if eocd = 0 then fail s "zip: no se encuentra el directorio central"
    else do
      let count ← rd16 p (eocd + 10)
      let cd ← rd32 p (eocd + 16)
      let best ← walkDir p count cd {}
      if best.off = 0 then fail s "zip: no hay ninguna entrada utilizable"
      else unwrapEntry s best

/-! ## Section 5: Containers -/

def unwrap (s : State) : Checked (Bool × State) :=
  let s := { s with what := .none }
  if s.data.length < 8 then .ok (true, s)
  else do
    let magic ← range s.data 0 4
    if magic = [0x50, 0x4b, 3, 4] then unwrapZip s
    else if magic.take 2 = [0x1f, 0x8b] then unwrapGzip s
    else if magic = [0x37, 0x7a, 0xbc, 0xaf] then
      fail s "7z no soportado (LZMA): descomprimelo a .z64/.n64/.v64, .zip o .gz"
    else if magic = [0x52, 0x61, 0x72, 0x21] then
      fail s "rar no soportado: descomprimelo a .z64/.n64/.v64, .zip o .gz"
    else .ok (true, s)

end Archive.Indexed
