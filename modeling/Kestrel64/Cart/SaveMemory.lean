import Kestrel64.Si.Joybus

/-! # Cartridge: The Save Memory

    SRAM and FlashRAM on the parallel bus (`saveRead`, `saveWrite`,
    `flashCommand` and the branch of `piDma` for this domain), beside the
    EEPROM of the joybus.

    FlashRAM has a command register, a status and a buffer for one page. A
    sector, or the whole chip, is chosen and then erased. A page goes into the
    buffer and is then programmed.

    Addresses are physical and in the save domain, from `0x08000000`: neither
    `phys - 0x08000000` nor a transfer's `cart++` wraps around. The watch points
    of the debugger and the timing of a transfer are left out.
-/

namespace Cart

open Si (SaveType)

/-! ## Section 1: Types -/

def isEeprom (t : SaveType) : Bool := t = .eeprom4k || t = .eeprom16k

def isSram (t : SaveType) : Bool := t = .sram256k || t = .sram768k || t = .sram1m

def isFlash (t : SaveType) : Bool := t = .flash1m

def saveSize : SaveType → Nat
  | .eeprom4k => 512
  | .eeprom16k => 2048
  | .sram256k => 32 * 1024
  | .sram768k => 96 * 1024
  | .flash1m => 128 * 1024
  | .sram1m => 128 * 1024
  | .none => 0

/-- No command sets `erase`. -/
inductive FlashMode where
  | status
  | read
  | erase
  | write
  deriving DecidableEq, Repr

structure SaveMemory (M : Type) where
  mem : Si.Memory M
  saveRam : Bytes := []
  flashMode : FlashMode := .status
  /-- The silicon id in the low word, the status register in the low byte of
      the high one. -/
  flashStatus : BitVec 64 := 0x1111800100C2001E
  flashErasePage : BitVec 32 := 0
  flashWritePage : BitVec 32 := 0
  flashPageBuf : Bytes := List.replicate 128 0

/-- `phys - 0x0800'0000` -/
def BASE_SAVE : Nat := 0x08000000

def isSaveDomain (phys : Nat) : Bool := BASE_SAVE ≤ phys && phys < 0x10000000

/-- `for(i < n && base + i < a.size()) a[base + i] = f(i)` -/
def storeAt (n base : Nat) (f : Nat → Byte) (a : Bytes) : Bytes :=
  (List.range n).foldl (fun a i => if base + i < a.length then a.set (base + i) (f i) else a) a

/-- `bePick`: `nbytes` at `off`, and 0 behind the end. -/
def bePick (a : Bytes) (off nbytes : Nat) : BitVec 32 :=
  (List.range nbytes).foldl (fun v i => v <<< 8 ||| (a.getD (off + i) 0).setWidth 32) 0

/-! ## Section 2: Access -/

variable {M : Type}

namespace SaveMemory

variable (s : SaveMemory M)

/-- The 768 kbit SRAM has three banks, 256 KiB apart. -/
def saveOffset (phys : Nat) : Option Nat :=
  let off := phys - BASE_SAVE
  if s.mem.saveType = .sram768k then
    let bank := off >>> 18
    if bank < 3 ∧ off % 0x40000 < 0x8000 then some (bank * (32 * 1024) + off % 0x8000) else none
  else some off

/-- An old chip counts its start address in words. -/
def flashArrayOff (phys : Nat) : Nat :=
  let id := s.flashStatus.setWidth 32
  let off := (phys - BASE_SAVE) % 0x10000
  if id = 0x00C20000 ∨ id = 0x00C20001 ∨ id = 0x00C2001E then off * 2 else off

/-- The bytes of `flashStatus`, highest first. -/
def statusBytes : Bytes :=
  (List.range 8).map fun i => (s.flashStatus >>> (56 - 8 * i)).setWidth 8

def saveRead (phys nbytes : Nat) : BitVec 32 :=
  if isFlash s.mem.saveType then
    if s.flashMode ≠ .read then bePick s.statusBytes ((phys - BASE_SAVE) % 8) nbytes
    else bePick s.saveRam (s.flashArrayOff phys) nbytes
  else if isSram s.mem.saveType then
    match s.saveOffset phys with
    | some off => bePick s.saveRam off nbytes
    | none => 0
  else 0

/-- `flashStatus` with another status register. -/
def withSr (sr : BitVec 64) : SaveMemory M :=
  { s with flashStatus := (s.flashStatus &&& ~~~((0xff : BitVec 64) <<< 32)) ||| sr <<< 32 }

def setSr (clr set : BitVec 64) : SaveMemory M :=
  s.withSr ((s.flashStatus >>> 32 &&& 0xff &&& ~~~clr) ||| set)

/-- `saveDirty = true` -/
def dirtied : SaveMemory M := { s with mem := { s.mem with saveDirty := true } }

/-- Where `0x78` begins to erase, and how many bytes. -/
def eraseRange : Nat × Nat :=
  if s.flashErasePage ≠ 0xffffffff then
    ((s.flashErasePage &&& 0xff80).toNat * 128, 128 * 128)
  else (0, s.saveRam.length)

def flashErase : SaveMemory M :=
  let (base, len) := s.eraseRange
  { ({ s with saveRam := storeAt len base (fun _ => 0xFF) s.saveRam }.dirtied.setSr 2 8) with
    flashMode := .status }

def flashProgram (cmd : BitVec 32) : SaveMemory M :=
  let page := cmd &&& 0xffff
  { ({ s with
        flashWritePage := page
        saveRam := storeAt 128 (page.toNat * 128) (s.flashPageBuf.getD · 0) s.saveRam
      }.dirtied.setSr 1 4) with
    flashMode := .status }

def flashCommand (cmd : BitVec 32) : SaveMemory M :=
  if cmd >>> 24 = 0xE1 then { s.setSr 0 1 with flashMode := .status }
  else if cmd >>> 24 = 0xF0 then { s with flashMode := .read }
  else if cmd >>> 24 = 0xD2 then { s with flashMode := .status }
  else if cmd >>> 24 = 0x3C then { s with flashErasePage := 0xffffffff }
  else if cmd >>> 24 = 0x4B then { s with flashErasePage := cmd &&& 0xffff }
  else if cmd >>> 24 = 0x78 then s.flashErase
  else if cmd >>> 24 = 0xB4 then { s with flashMode := .write }
  else if cmd >>> 24 = 0xA5 then s.flashProgram cmd
  else s

/-- `put`: byte `i` of a value of `nbytes`, highest first. -/
def valueByte (value : BitVec 64) (nbytes i : Nat) : Byte :=
  (value >>> (8 * (nbytes - 1 - i))).setWidth 8

def saveWrite (phys : Nat) (value : BitVec 64) (nbytes : Nat) : SaveMemory M :=
  if isFlash s.mem.saveType ∧ 0x10000 ≤ phys % 0x20000 then s.flashCommand (value.setWidth 32)
  else if isFlash s.mem.saveType then
    if s.flashMode = .status then
      if (phys - BASE_SAVE) % 0x10000 < 4 then s.withSr (value &&& 0xff) else s
    else
      { s with
        flashPageBuf := storeAt nbytes ((phys - BASE_SAVE) % 0x80) (valueByte value nbytes)
          s.flashPageBuf }
  else if isSram s.mem.saveType then
    match s.saveOffset phys with
    | some off =>
      { s with saveRam := storeAt nbytes off (valueByte value nbytes) s.saveRam }.dirtied
    | none => s
  else s

section Commands

variable {s : SaveMemory M} {cmd : BitVec 32}

@[simp] theorem flashErase_mem : s.flashErase.mem = { s.mem with saveDirty := true } := rfl

@[simp] theorem flashErase_saveRam :
    s.flashErase.saveRam = storeAt s.eraseRange.2 s.eraseRange.1 (fun _ => 0xFF) s.saveRam := rfl

@[simp] theorem flashProgram_mem :
    (s.flashProgram cmd).mem = { s.mem with saveDirty := true } := rfl

@[simp] theorem flashProgram_saveRam :
    (s.flashProgram cmd).saveRam =
      storeAt 128 ((cmd &&& 0xffff).toNat * 128) (s.flashPageBuf.getD · 0) s.saveRam := by
  simp only [flashProgram, setSr, withSr, dirtied]

end Commands

/-- `write8`, `write16` and `write32`. -/
def cpuWrite (phys : Nat) (value : BitVec 64) (nbytes : Nat) : SaveMemory M :=
  if isSaveDomain phys ∧ s.mem.saveType ≠ .none then s.saveWrite phys value nbytes else s

end SaveMemory

/-! ## Section 3: DMA -/

structure PiRegs where
  pi_cart_addr : BitVec 32
  pi_dram_addr : BitVec 32
  pi_rd_len : BitVec 32
  pi_wr_len : BitVec 32
  deriving DecidableEq, Repr

namespace PiRegs

variable (r : PiRegs)

def cart : Nat := r.pi_cart_addr.toNat % 0x20000000

def dram : Nat := r.pi_dram_addr.toNat % 0x1000000

def len (toCart : Bool) : Nat := (if toCart then r.pi_rd_len else r.pi_wr_len).toNat % 0x1000000 + 1

/-- The registers after `len` bytes. -/
def after (len : Nat) : PiRegs :=
  { r with
    pi_cart_addr := BitVec.ofNat 32 (r.cart + len) &&& 0xfffffffe
    pi_dram_addr := BitVec.ofNat 32 (r.dram + len + 1) &&& 0x00fffffe }

end PiRegs

namespace SaveMemory

variable (s : SaveMemory M)

/-- The loop of a transfer into the save memory. -/
def dmaIn (rdram : Bytes) (cart dram len : Nat) : SaveMemory M :=
  (List.range len).foldl
    (fun s i => s.saveWrite (cart + i) ((rdram.getD (dram + i) 0).setWidth 64) 1) s

/-- Byte `i` of a transfer out of it. The chip has one counter for a burst. -/
def dmaByte (cart i : Nat) : Byte :=
  if isFlash s.mem.saveType ∧ s.flashMode = .read then s.saveRam.getD (s.flashArrayOff cart + i) 0
  else (s.saveRead (cart + i) 1).setWidth 8

/-- The branch of `piDma` for the save domain, where it is taken. -/
def piDma (toCart : Bool) (r : PiRegs) (rdram : Bytes) : Option (SaveMemory M × PiRegs × Bytes) :=
  if s.mem.saveType ≠ .none ∧ isSaveDomain r.cart then
    let len := r.len toCart
    if toCart then some (s.dmaIn rdram r.cart r.dram len, r.after len, rdram)
    else some (s, r.after len, storeAt len r.dram (s.dmaByte r.cart) rdram)
  else none

variable {s}

theorem piDma_isSome (htype : s.mem.saveType ≠ .none) {r : PiRegs} (hdom : isSaveDomain r.cart)
    (toCart : Bool) (rdram : Bytes) : ∃ out, s.piDma toCart r rdram = some out := by
  unfold piDma
  rw [if_pos ⟨htype, hdom⟩]
  cases toCart <;> exact ⟨_, rfl⟩

theorem piDma_toCart {r : PiRegs} {rdram : Bytes} {out} (h : s.piDma true r rdram = some out) :
    out.1 = s.dmaIn rdram r.cart r.dram (r.len true) := by
  unfold piDma at h
  dsimp only at h
  by_cases hdom : s.mem.saveType ≠ .none ∧ isSaveDomain r.cart
  · rw [if_pos hdom, if_pos rfl] at h
    exact congrArg Prod.fst (Option.some.inj h).symm
  · rw [if_neg hdom] at h
    cases h

theorem piDma_toRam {r : PiRegs} {rdram : Bytes} {out} (h : s.piDma false r rdram = some out) :
    out.1 = s ∧ out.2.2 = storeAt (r.len false) r.dram (s.dmaByte r.cart) rdram := by
  unfold piDma at h
  dsimp only at h
  by_cases hdom : s.mem.saveType ≠ .none ∧ isSaveDomain r.cart
  · rw [if_pos hdom, if_neg Bool.false_ne_true] at h
    obtain rfl := Option.some.inj h
    exact ⟨rfl, rfl⟩
  · rw [if_neg hdom] at h
    cases h

end SaveMemory

end Cart
