import Mathlib.Logic.Function.Basic
import Kestrel64.Gb.Cart
import Kestrel64.Lib.Index

/-! # SI: The Joybus Interpreter

    `pifProcessJoybus` runs the block of commands in the 64 bytes of PIF RAM
    against the four controller ports and the cartridge's EEPROM and clock.
    A command is a TX size, an RX size, that many bytes to the device and room
    for that many back; bit 7 of the RX size says on return that nothing
    answered. The interpreter bills the time on the line.

    Every index into PIF RAM, a pak, the EEPROM or a Game Boy cartridge is
    checked. `rxp` is a pointer to the RX area that `operator[]` makes;
    `hardened` says whether it checks its argument even so.

    The host's clock is read once for a whole run. What the host puts in place
    of the pads, over the network or from a movie, is a parameter.
-/

namespace Si

open Gb (GbCart GbFile)

/-! ## Section 1: Devices -/

structure TpakRegs where
  power : Bool := false
  cartOn : Bool := false
  pull : Bool := false
  bank : Byte := 0
  rst : Byte := 0
  deriving DecidableEq, Repr

/-- A port. The accessory is nothing, a Controller Pak, a Rumble Pak or a
    Transfer Pak. -/
structure PadPort where
  connected : Bool := false
  mouse : Bool := false
  accessory : Byte := 0
  buttons : BitVec 32 := 0
  stickX : Byte := 0
  stickY : Byte := 0
  rumble : Bool := false
  mempak : Bytes := []
  mempakDirty : Bool := false
  tp : TpakRegs := {}
  gb : GbCart := {}
  tpGen : Nat := 0

/-- A pad injected by telemetry: for how many polls (negative: for good),
    `padRemoteButtons` and `padRemoteStick`. -/
structure PadRemote where
  padRemotePolls : Int := 0
  padRemoteButtons : BitVec 32 := 0
  padRemoteStick : BitVec 32 := 0
  deriving DecidableEq, Repr

/-- `btn`, `sx` and `sy` -/
structure Pad where
  btn : BitVec 32
  sx : Byte
  sy : Byte
  deriving DecidableEq, Repr

/-- `std::tm` -/
structure Tm where
  sec : Int
  min : Int
  hour : Int
  mday : Int
  wday : Int
  mon : Int
  year : Int
  deriving DecidableEq, Repr

/-- The clock of the cartridge. -/
structure Rtc where
  on : Bool := false
  ctrl : Bytes := List.replicate 8 0
  nv : Bytes := List.replicate 8 0
  offset : Int := 0
  frozen : Int := 0
  deriving DecidableEq, Repr

def Rtc.stopped (r : Rtc) : Bool := r.ctrl.getD 1 0 &&& 0x06 ≠ 0

inductive SaveType where
  | none
  | eeprom4k
  | eeprom16k
  | sram256k
  | sram768k
  | flash1m
  | sram1m
  deriving DecidableEq, Repr

/-- The host during a run. `M` is the state of the network game and of the
    movie; no path in `tpakRom` is an empty one. -/
structure Host (M : Type) where
  time : Int
  localtime : Int → Tm
  mktime : Tm → Int
  lockstep : Bool
  netplayPad : M → Nat → Pad → M × Pad
  movieSample : M → Nat → Pad → M × Pad
  tpakGen : Nat → Nat
  tpakRom : Nat → Option GbFile

structure Memory (M : Type) where
  pifram : Bytes
  padPort : Fin 4 → PadPort
  padRemote : Fin 4 → PadRemote
  padPolls : Nat
  eeprom : Bytes
  saveType : SaveType
  saveDirty : Bool
  rtc : Rtc
  movie : M

variable {M : Type} (H : Host M)

/-! ## Section 2: Commands -/

/-- A command in the block: where its TX size is, for which channel, and the
    two sizes. -/
structure Cmd where
  at' : Nat
  channel : Nat
  tx : Nat
  rx : Nat
  deriving DecidableEq, Repr

/-- The command at `i`, from its two size bytes. -/
def cmdAt (i channel : Nat) (t rxsz : Byte) : Cmd where
  at' := i
  channel := channel
  tx := (t &&& 0x3f).toNat
  rx := (rxsz &&& 0x3f).toNat

def Cmd.txStart (h : Cmd) : Nat := h.at' + 2

def Cmd.rxStart (h : Cmd) : Nat := h.at' + 2 + h.tx

def Memory.setPort (m : Memory M) (port : Fin 4) (pp : PadPort) : Memory M :=
  { m with padPort := Function.update m.padPort port pp }

/-- `rxp[k] = b` -/
def Memory.put (h : Cmd) (k : Nat) (b : Byte) (m : Memory M) : Checked (Memory M) := do
  let ram ← Checked.write m.pifram (h.rxStart + k) b
  return { m with pifram := ram }

/-- `for(k < n) rxp[k] = f(k)` -/
def Memory.fill (h : Cmd) (n : Nat) (f : Nat → Byte) (m : Memory M) : Checked (Memory M) :=
  (List.range n).foldlM (fun m k => m.put h k (f k)) m

/-- The first three bytes of the RX area, where it has them. -/
def Memory.putInfo (h : Cmd) (b0 b1 b2 : Byte) (m : Memory M) : Checked (Memory M) :=
  if 3 ≤ h.rx then do
    let m ← m.put h 0 b0
    let m ← m.put h 1 b1
    m.put h 2 b2
  else .ok m

/-- `for(k < n) d[k] = f(k)` -/
def table (n : Nat) (f : Nat → Checked Byte) : Checked Bytes := (List.range n).mapM f

/-- Status and reset of a controller. -/
def Memory.info (h : Cmd) (port : Fin 4) (m : Memory M) : Checked (Memory M) :=
  let pp := m.padPort port
  if pp.mouse then m.putInfo h 0x02 0x00 0x00
  else m.putInfo h 0x05 0x00 (if pp.accessory ≠ 0 then 0x01 else 0x00)

/-- What the game sees of a pad: the host's, the injected one, the network's
    or the movie's. -/
def Memory.samplePad (port : Fin 4) (m : Memory M) : Memory M × Pad :=
  let pp := m.padPort port
  let rem := m.padRemote port
  let pad : Pad :=
    if rem.padRemotePolls ≠ 0 then
      ⟨rem.padRemoteButtons, (rem.padRemoteStick &&& 0xff).setWidth 8,
        (rem.padRemoteStick >>> 8 &&& 0xff).setWidth 8⟩
    else ⟨pp.buttons, pp.stickX, pp.stickY⟩
  let left := if 0 < rem.padRemotePolls then rem.padRemotePolls - 1 else rem.padRemotePolls
  let (movie, pad) := if H.lockstep then H.netplayPad m.movie port pad else (m.movie, pad)
  let (movie, pad) := H.movieSample movie port pad
  ({ m with
      padPolls := if port = 0 then m.padPolls + 1 else m.padPolls
      padRemote := Function.update m.padRemote port { rem with padRemotePolls := left }
      movie := movie }, pad)

/-- `if(rx >= k + 2) { rxp[k] = b0; rxp[k + 1] = b1; }` -/
def Memory.putPair (h : Cmd) (k : Nat) (b0 b1 : Byte) (m : Memory M) : Checked (Memory M) :=
  if k + 2 ≤ h.rx then do
    let m ← m.put h k b0
    m.put h (k + 1) b1
  else .ok m

def Memory.buttons (h : Cmd) (port : Fin 4) (m : Memory M) : Checked (Memory M) := do
  let mouse := (m.padPort port).mouse
  let (m, pad) := m.samplePad H port
  let m ← m.fill h h.rx fun _ => 0
  let m ← m.putPair h 0 ((pad.btn >>> 8).setWidth 8) (pad.btn.setWidth 8)
  let m ← m.putPair h 2 pad.sx pad.sy
  if mouse ∧ 2 ≤ h.rx then do
    let b ← Checked.read m.pifram h.rxStart
    let m ← m.put h 0 (b &&& 0xc0)
    m.put h 1 0
  else .ok m

/-- `tpakSync`: another cartridge, if the menu has chosen one. Of the old one
    nothing stays but the file that `flush` writes. -/
def PadPort.tpakSync (pp : PadPort) (port : Nat) : PadPort :=
  if H.tpakGen port = pp.tpGen then pp
  else
    let had := pp.gb.loaded
    let gb := match H.tpakRom port with
      | none => {}
      | some file => GbCart.load H.time file
    { pp with
      tpGen := H.tpakGen port
      gb := gb
      tp := { pp.tp with pull := had, cartOn := false } }

/-- The bytes of a GB cartridge through the window of the Transfer Pak. -/
def PadPort.gbWindow (pp : PadPort) (wr : Bool) (off : Nat) (data : Bytes) :
    Checked (PadPort × Bytes) := do
  let ga := (pp.tp.bank &&& 3).toNat * 0x4000 + (off - 0xC000)
  if wr then do
    let gb ← (List.range 32).foldlM
      (fun gb k => GbCart.write H.time gb ((ga + k) % 0x10000) (data.getD k 0)) pp.gb
    return ({ pp with gb := gb }, data)
  else do
    let data ← table 32 fun k => pp.gb.read ((ga + k) % 0x10000)
    return (pp, data)

/-- The registers of the Transfer Pak, and `fill`. -/
def PadPort.tpakRegs (pp : PadPort) (wr : Bool) (off : Nat) (last : Byte) : PadPort × Byte :=
  if 0x8000 ≤ off ∧ off < 0x9000 then
    if wr then
      if last = 0x84 then ({ pp with tp := { pp.tp with power := true } }, 0)
      else if last = 0xFE then ({ pp with tp := { pp.tp with power := false } }, 0)
      else (pp, 0)
    else (pp, if pp.tp.power then 0x84 else 0)
  else if pp.tp.power = false then (pp, 0)
  else if 0xA000 ≤ off ∧ off < 0xB000 then
    (if wr then { pp with tp := { pp.tp with bank := last } } else pp, 0)
  else if 0xB000 ≤ off ∧ off < 0xC000 then
    if wr then ({ pp with tp := { pp.tp with cartOn := last.getLsbD 0, rst := 0x04 } }, 0)
    else if pp.gb.loaded then
      let on : Byte := if pp.tp.cartOn then 0x09 else 0
      let pull : Byte := if pp.tp.pull then 0x40 else 0
      ({ pp with tp := { pp.tp with pull := false } }, 0x80 ||| on ||| pull)
    else (pp, 0x40)
  else (pp, 0)

/-- `RSTB_DETECTION` is handed out once, in the first byte. -/
def PadPort.tpakRst (pp : PadPort) (off : Nat) (data : Bytes) : PadPort × Bytes :=
  if pp.tp.power ∧ 0xB000 ≤ off ∧ off < 0xC000 ∧ pp.gb.loaded then
    ({ pp with tp := { pp.tp with rst := 0 } }, data.set 0 (data.getD 0 0 ||| pp.tp.rst))
  else (pp, data)

def PadPort.transferPak (pp : PadPort) (port : Nat) (wr : Bool) (off : Nat) (data : Bytes) :
    Checked (PadPort × Bytes) :=
  let pp := pp.tpakSync H port
  if pp.tp.power ∧ 0xC000 ≤ off then pp.gbWindow H wr off data
  else
    let (pp, fill) := pp.tpakRegs wr off (data.getD 31 0)
    .ok (if wr then (pp, data) else pp.tpakRst off (List.replicate 32 fill))

def PadPort.controllerPak (pp : PadPort) (wr : Bool) (off : Nat) (data : Bytes) :
    Checked (PadPort × Bytes) :=
  if wr then
    if off + 32 ≤ pp.mempak.length then do
      let mempak ← (List.range 32).foldlM
        (fun pak k => Checked.write pak (off + k) (data.getD k 0)) pp.mempak
      return ({ pp with mempak := mempak, mempakDirty := true }, data)
    else .ok (pp, data)
  else do
    let data ← table 32 fun k =>
      if off + k < pp.mempak.length then Checked.read pp.mempak (off + k) else .ok 0
    return (pp, data)

def PadPort.rumblePak (pp : PadPort) (wr : Bool) (off : Nat) (data : Bytes) : PadPort × Bytes :=
  if wr then
    (if 0xC000 ≤ off ∧ off < 0xD000 then { pp with rumble := data.getD 0 0 ≠ 0 } else pp, data)
  else (pp, List.replicate 32 (if 0x8000 ≤ off ∧ off < 0x9000 then 0x80 else 0))

/-- What the accessory does with 32 bytes at `off`: its new state, and the
    bytes that were read or written. -/
def PadPort.access (pp : PadPort) (port : Nat) (wr : Bool) (off : Nat) (data : Bytes) :
    Checked (PadPort × Bytes) :=
  if pp.accessory = 3 then pp.transferPak H port wr off data
  else if pp.accessory = 1 then pp.controllerPak wr off data
  else if pp.accessory = 2 then .ok (pp.rumblePak wr off data)
  else .ok (pp, if wr then data else List.replicate 32 0)

/-- One bit into `crc`. -/
def crcBit (crc : Byte) (bit : Bool) : Byte :=
  let poly : Byte := if crc &&& 0x80 ≠ 0 then 0x85 else 0x00
  (crc <<< 1 ||| if bit then 1 else 0) ^^^ poly

/-- The 33rd round shifts zeros in. -/
def mempakDataCrc (data : Bytes) : Byte :=
  (List.range 33).foldl
    (fun crc i => (List.range 8).foldl
      (fun crc j => crcBit crc (decide (i ≠ 32) && (data.getD i 0).getLsbD (7 - j))) crc) 0

/-- Byte `k` of the TX area, and 0 behind it. -/
def Memory.txByte (h : Cmd) (k : Nat) (m : Memory M) : Checked Byte :=
  if k < h.tx then Checked.read m.pifram (h.txStart + k) else .ok 0

/-- The address on the wire, with its CRC in the low five bits. -/
def Memory.wire (h : Cmd) (m : Memory M) : Checked Nat :=
  if 3 ≤ h.tx then do
    let hi ← Checked.read m.pifram (h.txStart + 1)
    let lo ← Checked.read m.pifram (h.txStart + 2)
    return hi.toNat * 0x100 + lo.toNat
  else .ok 0

/-- The bytes of a write. -/
def Memory.pakData (h : Cmd) (wr : Bool) (m : Memory M) : Checked Bytes :=
  if wr then table 32 fun k => m.txByte h (3 + k) else .ok (List.replicate 32 0)

/-- The loop that ends a read of every accessory. -/
def Memory.pakReply (h : Cmd) (wr : Bool) (data : Bytes) (m : Memory M) : Checked (Memory M) :=
  if wr then .ok m else m.fill h (min h.rx 32) fun k => data.getD k 0

/-- Reads and writes of 32 bytes of the accessory. -/
def Memory.pak (h : Cmd) (port : Fin 4) (wr : Bool) (m : Memory M) : Checked (Memory M) := do
  let wire ← m.wire h
  let off := wire / 32 * 32
  let data ← m.pakData h wr
  let (pp, data) ← (m.padPort port).access H port wr off data
  let m ← (m.setPort port pp).pakReply h wr data
  let crc := mempakDataCrc data
  let crc := if pp.accessory = 0 then ~~~crc else crc
  let crcAt := if wr then 0 else 32
  if crcAt < h.rx then m.put h crcAt crc else .ok m

def Memory.eepromTypeByte (m : Memory M) : Byte := if m.saveType = .eeprom4k then 0x80 else 0xC0

/-- `off < eeprom.size() ? eeprom[off] : 0` -/
def Memory.eepromByte (m : Memory M) (off : Nat) : Checked Byte :=
  if off < m.eeprom.length then Checked.read m.eeprom off else .ok 0

def Memory.eepromRead (h : Cmd) (m : Memory M) : Checked (Memory M) := do
  let addr ← m.txByte h 1
  (List.range (min h.rx 8)).foldlM (fun (m : Memory M) k => do
    let b ← m.eepromByte (addr.toNat * 8 + k)
    m.put h k b) m

/-- Data byte `k` of a write to byte `off` of the EEPROM. -/
def Memory.eepromSet (h : Cmd) (off k : Nat) (m : Memory M) : Checked (Memory M) :=
  if off < m.eeprom.length then do
    let b ← Checked.read m.pifram (h.txStart + 2 + k)
    let eeprom ← Checked.write m.eeprom off b
    return { m with eeprom := eeprom, saveDirty := true }
  else .ok m

def Memory.eepromWrite (h : Cmd) (m : Memory M) : Checked (Memory M) := do
  let addr ← m.txByte h 1
  let m ← (List.range (min 8 (h.tx - 2))).foldlM
    (fun m k => m.eepromSet h (addr.toNat * 8 + k) k) m
  if 1 ≤ h.rx then m.put h 0 0 else .ok m

def bcd (v : Int) : Byte :=
  let v := BitVec.ofInt 32 v
  ((v / 10) <<< 4 ||| v % 10).setWidth 8

def unbcd (v : Byte) : Int := (v >>> 4).toNat * 10 + (v &&& 0xf).toNat

def Rtc.rtcStatus (r : Rtc) : Byte := if r.stopped then 0x80 else 0x00

def Rtc.rtcNow (r : Rtc) : Int := if r.stopped then r.frozen else H.time + r.offset

def Rtc.rtcRead (r : Rtc) (blk : Nat) : Bytes :=
  if blk = 0 then r.ctrl
  else if blk = 1 then r.nv
  else if blk = 2 then
    let tm := H.localtime (r.rtcNow H)
    [bcd (tm.sec.tmod 60), bcd tm.min, bcd tm.hour ||| 0x80, bcd tm.mday, bcd tm.wday,
      bcd (tm.mon + 1), bcd (tm.year.tmod 100), bcd (tm.year.tdiv 100)]
  else List.replicate 8 0

def Rtc.rtcWrite (r : Rtc) (blk : Nat) (d : Bytes) : Rtc :=
  if blk = 0 then
    let now := r.rtcNow H
    let r' : Rtc := { r with ctrl := d }
    if r.stopped = false ∧ r'.stopped = true then { r' with frozen := now }
    else if r.stopped = true ∧ r'.stopped = false then { r' with offset := r'.frozen - H.time }
    else r'
  else if blk = 1 then
    if r.ctrl.getD 0 0 &&& 1 = 0 then { r with nv := d } else r
  else if blk = 2 then
    if r.ctrl.getD 0 0 &&& 2 ≠ 0 ∨ r.stopped = false then r
    else
      let t := H.mktime {
        sec := unbcd (d.getD 0 0 &&& 0x7f)
        min := unbcd (d.getD 1 0 &&& 0x7f)
        hour := unbcd (d.getD 2 0 &&& 0x3f)
        mday := unbcd (d.getD 3 0 &&& 0x3f)
        wday := 0
        mon := unbcd (d.getD 5 0 &&& 0x1f) - 1
        year := unbcd (d.getD 6 0) + 100 * unbcd (d.getD 7 0) }
      if t ≠ -1 then { r with frozen := t } else r
  else r

def Memory.rtcReadBlock (h : Cmd) (m : Memory M) : Checked (Memory M) := do
  let addr ← m.txByte h 1
  let d := m.rtc.rtcRead H (addr &&& 3).toNat
  let m ← m.fill h (min h.rx 8) fun k => d.getD k 0
  if 9 ≤ h.rx then m.put h 8 m.rtc.rtcStatus else .ok m

def Memory.rtcWriteBlock (h : Cmd) (m : Memory M) : Checked (Memory M) := do
  let addr ← m.txByte h 1
  let d ← table 8 fun k => m.txByte h (2 + k)
  let m := { m with rtc := m.rtc.rtcWrite H (addr &&& 3).toNat d }
  if 1 ≤ h.rx then m.put h 0 m.rtc.rtcStatus else .ok m

/-- `absent`: `rxsz |= NO_DEVICE` -/
def Memory.absent (h : Cmd) (m : Memory M) : Checked (Memory M × Bool) := do
  let rxsz ← Checked.read m.pifram (h.at' + 1)
  let ram ← Checked.write m.pifram (h.at' + 1) (rxsz ||| 0x80)
  return ({ m with pifram := ram }, false)

/-- The device has answered. -/
def answered (m : Checked (Memory M)) : Checked (Memory M × Bool) := do
  let m ← m
  return (m, true)

/-- A command to a connected controller. -/
def Memory.controller (h : Cmd) (port : Fin 4) (cmd : Byte) (m : Memory M) :
    Checked (Memory M × Bool) :=
  if cmd = 0x00 ∨ cmd = 0xFF then answered (m.info h port)
  else if cmd = 0x01 then answered (m.buttons H h port)
  else if cmd = 0x02 ∨ cmd = 0x03 then
    if (m.padPort port).mouse then m.absent h else answered (m.pak H h port (cmd = 0x03))
  else m.absent h

/-- A command to the cartridge. -/
def Memory.cartridge (h : Cmd) (cmd : Byte) (m : Memory M) : Checked (Memory M × Bool) :=
  if cmd = 0x00 then answered (m.putInfo h 0x00 m.eepromTypeByte 0x00)
  else if cmd = 0x04 then answered (m.eepromRead h)
  else if cmd = 0x05 then answered (m.eepromWrite h)
  else if cmd = 0x06 then
    if m.rtc.on then answered (m.putInfo h 0x00 0x10 m.rtc.rtcStatus) else m.absent h
  else if cmd = 0x07 then if m.rtc.on then answered (m.rtcReadBlock H h) else m.absent h
  else if cmd = 0x08 then if m.rtc.on then answered (m.rtcWriteBlock H h) else m.absent h
  else m.absent h

def billTx (n : Nat) : Nat := n * 8 * 4 + 3

def billRx (n : Nat) : Nat := n * 8 * 4 + 4

/-- A command that was executed: whether its device answered, and whether the
    reply was billed. -/
structure Entry where
  cmd : Cmd
  answered : Bool
  billed : Bool
  deriving DecidableEq, Repr

/-- After the switch: `if(!(rxsz & NO_DEVICE)) billRx(rx)` -/
def Memory.bill (h : Cmd) (us : Nat) (answered : Bool) (m : Memory M) :
    Checked (Memory M × Entry × Nat) := do
  let rxsz ← Checked.read m.pifram (h.at' + 1)
  if rxsz &&& 0x80 = 0 then return (m, ⟨h, answered, true⟩, us + billRx h.rx)
  else return (m, ⟨h, answered, false⟩, us)

/-- `&xs[i]`, one past the end included unless `operator[]` checks. -/
def refer (hardened : Bool) (xs : Bytes) (i : Nat) : Checked Unit :=
  if i < xs.length ∨ (hardened = false ∧ i = xs.length) then .ok () else .error .index

/-- A command, and the time it takes. -/
def Memory.command (hardened : Bool) (h : Cmd) (us : Nat) (m : Memory M) :
    Checked (Memory M × Entry × Nat) := do
  let cmd ← Checked.read m.pifram h.txStart
  refer hardened m.pifram h.rxStart
  let us := us + billTx h.tx
  if hport : h.channel < 4 then
    let port : Fin 4 := ⟨h.channel, hport⟩
    if (m.padPort port).connected then do
      let (m, answered) ← m.controller H h port cmd
      m.bill h us answered
    else do
      let (m, answered) ← m.absent h
      return (m, ⟨h, answered, false⟩, us)
  else if h.channel = 4 then do
    let (m, answered) ← m.cartridge H h cmd
    m.bill h us answered
  else do
    let (m, answered) ← m.absent h
    m.bill h us answered

/-- A run: the memory, the time on the line, and what was executed. -/
structure Run (M : Type) where
  mem : Memory M
  us : Nat
  log : List Entry

/-- The loop over the block. -/
def Run.scan (hardened : Bool) : Nat → Nat → Nat → Run M → Checked (Run M)
  | 0, i, _, r => if i < 63 then .error .fuel else .ok r
  | fuel + 1, i, channel, r =>
    if i < 63 then do
      let t ← Checked.read r.mem.pifram i
      if t = 0xFE then .ok r
      else if t = 0x00 then r.scan hardened fuel (i + 1) (channel + 1)
      else if t = 0xFF then r.scan hardened fuel (i + 1) channel
      else do
        let rxsz ← Checked.read r.mem.pifram (i + 1)
        let h := cmdAt i channel t rxsz
        if 64 < h.rxStart + h.rx ∨ 64 ≤ h.txStart then .ok r
        else do
          let (m, e, us) ← r.mem.command H hardened h r.us
          Run.scan hardened fuel (h.rxStart + h.rx) (channel + 1) ⟨m, us, r.log ++ [e]⟩
    else .ok r

def pifProcessJoybus (hardened : Bool) (m : Memory M) : Checked (Run M) :=
  Run.scan H hardened 63 0 0 ⟨m, 0, []⟩

end Si
