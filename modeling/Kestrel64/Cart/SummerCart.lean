import Kestrel64.Lib.Checked
import Kestrel64.Lib.Transition
import Kestrel64.Sd.Volume

/-! # SummerCart64: Registers and Commands

    The flashcart of `core/memory.cpp`: its key, its registers, its 8 KiB
    buffer and the commands that move sectors and USB packets. Addresses and
    counts are raw 32-bit values of the guest. Every access through a pointer
    is checked against the vector it points into.

    The C library's files are a parameter (`Stdio`), and so is the card the
    first command finds at the configured path.
-/

namespace Sc64

/-! ## Section 1: The card -/

/-- What an image is read and written with. `sector` is what the file holds. -/
structure Stdio (F : Type) where
  sector : F → Nat → Bytes
  /-- `_fseeki64` from the start. -/
  seek : Nat → F → Option F
  /-- `fread` of up to 512 bytes. -/
  fread : F → Bytes × F
  /-- `fwrite`, and how many bytes it took. -/
  fwrite : Bytes → F → Nat × F

/-- A file keeps what is not written to it, and takes a sector whole or not
    at all. -/
structure Stdio.Sound {F : Type} (io : Stdio F) : Prop where
  seek : ∀ {off f f'}, io.seek off f = some f' → io.sector f' = io.sector f
  fread : ∀ f, io.sector (io.fread f).2 = io.sector f
  fwrite : ∀ {lba f f'} (src) {i}, io.seek (lba * 512) f = some f' → i ≠ lba →
    io.sector (io.fwrite src f').2 i = io.sector f i
  whole : ∀ {src f}, (io.fwrite src f).1 ≠ 512 → io.sector (io.fwrite src f).2 = io.sector f

/-- What is behind `sd`. -/
inductive Card (F : Type)
  | absent
  | image (img : F) (total : Nat)
  | folder (v : Sd.SdCard)

variable {F : Type} (io : Stdio F)

def Card.total : Card F → Nat
  | .absent => 0
  | .image _ total => total
  | .folder v => v.total

def Card.present (c : Card F) : Bool := 0 < c.total

/-- `none` is `false`. -/
def Card.read (lba : Nat) : Card F → Option Bytes × Card F
  | .absent => (none, .absent)
  | .image img total =>
    if total ≤ lba then (none, .image img total)
    else
      match io.seek (lba * 512) img with
      | none => (none, .image img total)
      | some img =>
        let r := io.fread img
        (some (r.1 ++ Sd.zeros (512 - r.1.length)), .image r.2 total)
  | .folder v => (v.read lba, .folder v)

def Card.write (lba : Nat) (src : Bytes) : Card F → Bool × Card F
  | .absent => (false, .absent)
  | .image img total =>
    if total ≤ lba then (false, .image img total)
    else
      match io.seek (lba * 512) img with
      | none => (false, .image img total)
      | some img =>
        let r := io.fwrite src img
        (r.1 == 512, .image r.2 total)
  | .folder v =>
    match v.write lba src with
    | none => (false, .folder v)
    | some v => (true, .folder v)

/-- What is on the card. -/
def Card.sector (lba : Nat) : Card F → Option Bytes
  | .absent => none
  | .image img _ => some (io.sector img lba)
  | .folder v => v.read lba

/-! ## Section 2: The flashcart -/

def baseCart : Nat := 0x10000000
def kScReg : Nat := 0x1fff0000
def kScBuf : Nat := 0x1ffe0000
def kScBufSz : Nat := 0x2000
def kScSdram : Nat := 64 * 2 ^ 20
def kUsbKeep : Nat := 2 ^ 20

structure State (F : Type) where
  rom : Bytes
  sd : Card F := .absent
  sdTried : Bool := false
  /-- 0, then 1 after `_UNL`, then 2, open. -/
  scKey : Nat := 0
  scData0 : BitVec 32 := 0
  scData1 : BitVec 32 := 0
  scErr : Bool := false
  scRomWrite : Bool := false
  scSwap : Bool := false
  scSdInit : Bool := false
  scSector : BitVec 32 := 0
  scBuf : Bytes
  usbText : Bytes := []
  usbPackets : Nat := 0
  usbBytes : Nat := 0
  usbLastType : Nat := 0

/-- The vectors a guest address can lead into. -/
inductive Window
  | buffer
  | rom
  deriving DecidableEq, Repr

abbrev Ptr := Window × Nat

def State.window (s : State F) : Window → Bytes
  | .buffer => s.scBuf
  | .rom => s.rom

def State.setWindow (s : State F) (bs : Bytes) : Window → State F
  | .buffer => { s with scBuf := bs }
  | .rom => { s with rom := bs }

/-- `none` is the null pointer. -/
def State.scBufAt (s : State F) (phys : BitVec 32) : Option Ptr :=
  let a := phys.toNat
  if kScBuf ≤ a ∧ a < kScBuf + kScBufSz then some (.buffer, a - kScBuf)
  else if baseCart ≤ a ∧ a - baseCart < s.rom.length then some (.rom, a - baseCart)
  else none

/-- `*p`. -/
def State.load (s : State F) : Option Ptr → Checked Byte
  | none => .error .index
  | some p => Checked.read (s.window p.1) p.2

/-- `*p = b`. -/
def State.store (s : State F) (b : Byte) : Option Ptr → Checked (State F)
  | none => .error .index
  | some p => do
    let bs ← Checked.write (s.window p.1) p.2 b
    return s.setWindow bs p.1

/-- `memset(p, 0, n)`. -/
def State.memset (s : State F) (p : Ptr) (n : Nat) : Checked (State F) :=
  (List.range n).foldlM (fun s j => s.store 0 (some (p.1, p.2 + j))) s

/-! ## Section 3: Commands -/

inductive Command
  | configGet | configSet
  | sdOp
  | sdSectorSet
  | sdRead | sdWrite
  | usbWrite | usbWriteStatus | usbReadStatus
  | unknown
  deriving DecidableEq, Repr

/-- The letters `c`, `C`, `i`, `I`, `s`, `S`, `M`, `U` and `u`. -/
def Command.decode : Nat → Command
  | 0x63 => .configGet
  | 0x43 => .configSet
  | 0x69 => .sdOp
  | 0x49 => .sdSectorSet
  | 0x73 => .sdRead
  | 0x53 => .sdWrite
  | 0x4d => .usbWrite
  | 0x55 => .usbWriteStatus
  | 0x75 => .usbReadStatus
  | _ => .unknown

/-- `rom.resize(n, 0)`, if it grows. -/
def growTo (n : Nat) (rom : Bytes) : Bytes :=
  if rom.length < n then rom ++ List.replicate (n - rom.length) 0 else rom

/-- `CONFIG_GET` and `CONFIG_SET`: the old value comes back. -/
def scConfig (set : Bool) (s : State F) : State F :=
  let old : BitVec 32 := if s.scData0 = 1 then if s.scRomWrite then 1 else 0 else 0
  let s :=
    if set ∧ s.scData0 = 1 then
      let on : Bool := s.scData1 ≠ 0
      { s with scRomWrite := on, rom := if on then growTo kScSdram s.rom else s.rom }
    else s
  { s with scData1 := old }

/-- The card at the configured path, looked at once. -/
def scMount (opened : Card F) (s : State F) : State F :=
  if s.sdTried then s else { s with sdTried := true, sd := opened }

/-- `SD_OP`, by `DATA1`. -/
def scSdOp (opened : Card F) (s : State F) : Checked (State F) :=
  match s.scData1.toNat with
  | 0 => .ok { s with scSdInit := false }
  | 1 =>
    let s := scMount opened s
    .ok (if s.sd.present then { s with scSdInit := true } else { s with scErr := true })
  | 2 =>
    let s := scMount opened s
    .ok { s with scData1 := (if s.sd.present then 1 else 0) ||| if s.scSdInit then 2 else 0 }
  | 3 =>
    -- only the start of the 32 bytes is looked at
    match s.scBufAt s.scData0 with
    | some p => s.memset p 32
    | none => .ok s
  | 4 => .ok { s with scSwap := true }
  | 5 => .ok { s with scSwap := false }
  | _ => .ok { s with scErr := true }

/-- The address of block `k` of a transfer. -/
def State.block (s : State F) (k : Nat) : BitVec 32 := s.scData0 + BitVec.ofNat 32 (k * 512)

/-- A block from the card to memory: `false` if the transfer ends here. -/
def scReadBlock (k : Nat) (s : State F) : Checked (Bool × State F) :=
  let a := s.block k
  match s.sd.read io s.scSector.toNat with
  | (none, sd) => .ok (false, { s with sd, scErr := true })
  | (some tmp, sd) => do
    let sw := s.scSwap && a.toNat < kScBuf
    let s ← (List.range 512).foldlM (fun s i =>
      s.store (tmp.getD (if sw then i ^^^ 1 else i) 0) (s.scBufAt (a + BitVec.ofNat 32 i)))
      { s with sd }
    return (true, { s with scSector := s.scSector + 1 })

/-- A block from memory to the card. -/
def scWriteBlock (k : Nat) (s : State F) : Checked (Bool × State F) := do
  let a := s.block k
  let tmp ← (List.range 512).mapM fun i => s.load (s.scBufAt (a + BitVec.ofNat 32 i))
  let r := s.sd.write io s.scSector.toNat tmp
  return if r.1 then (true, { s with sd := r.2, scSector := s.scSector + 1 })
    else (false, { s with sd := r.2, scErr := true })

def scBlock (wr : Bool) (k : Nat) (s : State F) : Checked (Bool × State F) :=
  if wr then scWriteBlock io k s else scReadBlock io k s

/-- The loop over the blocks: `n` are left from block `k` on. -/
def scBlocks (wr : Bool) : Nat → Nat → State F → Checked (State F)
  | 0, _, s => .ok s
  | n + 1, k, s =>
    let a := s.block k
    if (s.scBufAt a).isNone ∨ (s.scBufAt (a + 511)).isNone then .ok { s with scErr := true }
    else do
      let r ← scBlock io wr k s
      if r.1 then scBlocks wr n (k + 1) r.2 else .ok r.2

/-- `SD_READ` and `SD_WRITE`: `DATA1` sectors at `DATA0`. -/
def scTransfer (wr : Bool) (s : State F) : Checked (State F) :=
  if !s.scSdInit then .ok { s with scErr := true } else scBlocks io wr s.scData1.toNat 0 s

/-- The packet of the SDK, unwrapped: the type and the body. -/
def usbFrame (type : Nat) (pkt : Bytes) : Nat × Bytes :=
  match pkt with
  | 0x4b :: 0x36 :: 0x34 :: t :: b3 :: b2 :: b1 :: b0 :: rest =>
    (t.toNat, rest.take (((b3.toNat * 256 + b2.toNat) * 256 + b1.toNat) * 256 + b0.toNat))
  | _ => (type, pkt)

/-- The bytes of the packet; `none` where one is in no window. -/
def usbBytesAt (s : State F) : Nat → Nat → Checked (Option Bytes)
  | 0, _ => .ok (some [])
  | n + 1, i =>
    match s.scBufAt (s.scData0 + BitVec.ofNat 32 i) with
    | none => .ok none
    | some p => do
      let b ← s.load (some p)
      let rest ← usbBytesAt s n (i + 1)
      return rest.map (b :: ·)

/-- `USB_WRITE`: `DATA1` is the type and the length. -/
def scUsbWrite (s : State F) : Checked (State F) := do
  let type := s.scData1.toNat / 2 ^ 24
  let len := s.scData1.toNat % 2 ^ 24
  match ← usbBytesAt s len 0 with
  | none => return { s with scErr := true }
  | some pkt =>
    let f := usbFrame type pkt
    let text := s.usbText ++ f.2
    return { s with
      usbPackets := s.usbPackets + 1
      usbBytes := s.usbBytes + len
      usbLastType := f.1
      usbText := if f.1 = 1 then text.drop (text.length - kUsbKeep) else s.usbText }

def scCommand (opened : Card F) (cmd : Command) (s : State F) : Checked (State F) :=
  let s := { s with scErr := false }
  match cmd with
  | .configGet => .ok (scConfig false s)
  | .configSet => .ok (scConfig true s)
  | .sdOp => scSdOp opened s
  | .sdSectorSet => .ok { s with scSector := s.scData0 }
  | .sdRead => scTransfer io false s
  | .sdWrite => scTransfer io true s
  | .usbWrite => scUsbWrite s
  | .usbWriteStatus => .ok { s with scData0 := 0 }
  | .usbReadStatus => .ok { s with scData0 := 0, scData1 := 0 }
  | .unknown => .ok { s with scErr := true }

/-! ## Section 4: The bus -/

def scRead (phys : BitVec 32) (s : State F) : Checked (Option (BitVec 32)) :=
  let a := phys.toNat
  if s.scKey ≠ 2 then .ok none
  else if kScBuf ≤ a ∧ a < kScBuf + kScBufSz then do
    let o := (a - kScBuf) / 4 * 4
    let b0 ← Checked.read s.scBuf o
    let b1 ← Checked.read s.scBuf (o + 1)
    let b2 ← Checked.read s.scBuf (o + 2)
    let b3 ← Checked.read s.scBuf (o + 3)
    return some (b0 ++ b1 ++ b2 ++ b3)
  else if a < kScReg ∨ kScReg + 0x20 ≤ a then .ok none
  else
    match a % 0x20 / 4 with
    | 0 => .ok (some (if s.scErr then 0x40000000 else 0))
    | 1 => .ok (some s.scData0)
    | 2 => .ok (some s.scData1)
    | 3 => .ok (some 0x53437632)
    | _ => .ok (some 0)

/-- The key listens at any time. -/
def nextKey (key : Nat) (value : BitVec 32) : Nat :=
  if value = 0xffffffff then 0
  else if value = 0 then if key ≠ 2 then 0 else key
  else if value = 0x5f554e4c ∧ key = 0 then 1
  else if value = 0x4f434b5f ∧ key = 1 then 2
  else if key ≠ 2 then 0 else key

/-- The command a write starts. -/
def State.command (s : State F) (phys value : BitVec 32) : Option Command :=
  let a := phys.toNat
  if s.scKey = 2 ∧ kScReg ≤ a ∧ a < kScReg + 4 then some (.decode (value.toNat % 256)) else none

def scWrite (opened : Card F) (phys value : BitVec 32) (s : State F) : Checked (State F) :=
  let a := phys.toNat
  if a / 4 * 4 = kScReg + 0x10 then .ok { s with scKey := nextKey s.scKey value }
  else if s.scKey ≠ 2 then .ok s
  else if kScBuf ≤ a ∧ a < kScBuf + kScBufSz then do
    let o := (a - kScBuf) / 4 * 4
    let bs ← (List.range 4).foldlM (fun bs i =>
      Checked.write bs (o + i) ((value >>> (24 - 8 * i)).setWidth 8)) s.scBuf
    return { s with scBuf := bs }
  else if a < kScReg ∨ kScReg + 0x20 ≤ a then .ok s
  else
    match a % 0x20 / 4 with
    | 0 => scCommand io opened (.decode (value.toNat % 256)) s
    | 1 => .ok { s with scData0 := value }
    | 2 => .ok { s with scData1 := value }
    | _ => .ok s

/-- A byte of a DMA to the cartridge. -/
def scDmaWrite (cart : BitVec 32) (b : Byte) (s : State F) : Checked (State F) :=
  let a := cart.toNat
  if kScBuf ≤ a ∧ a < kScBuf + kScBufSz then do
    let bs ← Checked.write s.scBuf (a - kScBuf) b
    return { s with scBuf := bs }
  else if s.scRomWrite ∧ baseCart ≤ a ∧ a - baseCart < s.rom.length then do
    let bs ← Checked.write s.rom (a - baseCart) b
    return { s with rom := bs }
  else .ok s

/-- What the console does to the flashcart. -/
inductive Access
  | read (phys : BitVec 32)
  | write (phys value : BitVec 32)
  | dma (cart : BitVec 32) (b : Byte)

def access (opened : Card F) (s : State F) : Access → Checked (State F)
  | .read phys => do
    let _ ← scRead phys s
    return s
  | .write phys value => scWrite io opened phys value s
  | .dma cart b => scDmaWrite cart b s

end Sc64
