import Kestrel64.Gb.Rtc

/-! # Game Boy: The Cartridge in the Transfer Pak

    The bus of a Game Boy cartridge, `0x0000` to `0xBFFF`, as its bank
    controller answers it. Every index into the ROM and the RAM is checked.

    * `GbCart.read_safe`, `GbCart.write_safe` — no access leaves them.

    The MBC2 has 512 nibbles of RAM whatever the header says, and indexes
    them without looking at the size: a `GbCart` carries that size.
-/

namespace Gb

/-! ## Section 1: Model -/

inductive Mbc where
  | none
  | mbc1
  | mbc2
  | mbc3
  | mbc5
  deriving DecidableEq, Repr

structure Regs where
  ramOn : Bool := false
  romBank : BitVec 16 := 1
  hiBank : Byte := 0
  mode : Byte := 0
  rtc : Rtc := {}
  latched : RtcRegs := {}
  deriving DecidableEq, Repr

theorem nibbles_none : Mbc.none = .mbc2 → ([] : Bytes).length = 512 := nofun

structure GbCart where
  rom : Bytes := []
  ram : Bytes := []
  mbc : Mbc := .none
  battery : Bool := false
  hasRtc : Bool := false
  ramDirty : Bool := false
  r : Regs := {}
  nibbles : mbc = .mbc2 → ram.length = 512 := by exact Gb.nibbles_none

def GbCart.loaded (c : GbCart) : Bool := !c.rom.isEmpty

/-- What the type byte of the header says: the controller, and whether there
    are a battery and a clock. -/
def kindOf (t : Byte) : Mbc × Bool × Bool :=
  match t.toNat with
  | 0x01 | 0x02 => (.mbc1, false, false)
  | 0x03 => (.mbc1, true, false)
  | 0x05 => (.mbc2, false, false)
  | 0x06 => (.mbc2, true, false)
  | 0x09 => (.none, true, false)
  | 0x0F | 0x10 => (.mbc3, true, true)
  | 0x11 | 0x12 => (.mbc3, false, false)
  | 0x13 => (.mbc3, true, false)
  | 0x19 | 0x1A | 0x1C | 0x1D => (.mbc5, false, false)
  | 0x1B | 0x1E => (.mbc5, true, false)
  | _ => (.none, false, false)

def kRam : List Nat := [0, 2048, 8192, 32768, 131072, 65536]

/-- The size of the RAM. -/
def ramSizeOf (mbc : Mbc) (size : Byte) : Nat :=
  if mbc = .mbc2 then 512 else kRam.getD size.toNat 0

/-- The five registers, every fourth byte from `i` on. -/
def regsAt (t : Bytes) (i : Nat) : RtcRegs where
  s := t.getD i 0
  m := t.getD (i + 4) 0
  h := t.getD (i + 8) 0
  dl := t.getD (i + 12) 0
  dh := t.getD (i + 16) 0

/-- The registers after `loadSav`: the clock is in the 48 bytes behind the
    RAM, if they are all there. -/
def Regs.loadSav (r : Regs) (hasRtc : Bool) (t : Bytes) : Regs :=
  if hasRtc ∧ t.length = 48 then
    { r with
      rtc := ⟨regsAt t 0, (BitVec.ofNat 64 (Bytes.ofLe (Patch.slice t 40 8))).toInt⟩
      latched := regsAt t 20 }
  else r

/-- The RAM after `loadSav`. A short file leaves the rest. -/
def loadRam (ram sav : Bytes) : Bytes := sav.take ram.length ++ ram.drop sav.length

@[simp] theorem length_loadRam (ram sav : Bytes) : (loadRam ram sav).length = ram.length := by
  unfold loadRam
  rw [List.length_append, List.length_take, List.length_drop]
  omega

theorem length_ramSize {mbc : Mbc} (size : Byte) (h : mbc = .mbc2) :
    (List.replicate (ramSizeOf mbc size) (0 : Byte)).length = 512 := by
  rw [List.length_replicate, ramSizeOf, if_pos h]

/-- What the host has where the menu points, and the save beside it. -/
structure GbFile where
  rom : Option Bytes
  sav : Option Bytes

/-- `load`; an empty cartridge where it fails. -/
def GbCart.load (now : Int) (f : GbFile) : GbCart :=
  match f.rom with
  | none => {}
  | some d =>
    if d.length < 0x150 then {}
    else
      let kind := kindOf (d.getD 0x147 0)
      let size := d.getD 0x149 0
      let ram := List.replicate (ramSizeOf kind.1 size) (0 : Byte)
      let r : Regs := { rtc := { rtcBase := now } }
      let sav := if kind.2.1 then f.sav.getD [] else []
      { rom := d
        ram := loadRam ram sav
        mbc := kind.1
        battery := kind.2.1
        hasRtc := kind.2.2
        r := r.loadSav kind.2.2 (Patch.slice sav ram.length 48)
        nibbles := fun h => (length_loadRam _ _).trans (length_ramSize size h) }

def GbCart.romAt (c : GbCart) (off : Nat) : Checked Byte :=
  if c.rom.isEmpty then .ok 0xFF else Checked.read c.rom (off % c.rom.length)

def GbCart.ramIdx (c : GbCart) (a bank : Nat) : Nat :=
  (bank * 0x2000 + (a - 0xA000)) % c.ram.length

/-- RAM through `ramIdx`, if there is any. -/
def GbCart.ramAt (c : GbCart) (a bank : Nat) : Checked Byte :=
  if c.ram.isEmpty then .ok 0xFF else Checked.read c.ram (c.ramIdx a bank)

/-- The bank at `0x0000`. -/
def GbCart.lowBank (c : GbCart) : Nat :=
  if c.mbc = .mbc1 ∧ c.r.mode ≠ 0 then c.r.hiBank.toNat <<< 5 else 0

/-- The bank at `0x4000`. -/
def GbCart.highBank (c : GbCart) : Nat :=
  if c.mbc = .mbc1 then c.r.hiBank.toNat <<< 5 ||| c.r.romBank.toNat &&& 0x1F
  else c.r.romBank.toNat

/-- The bank of RAM of the MBC1. -/
def GbCart.ramBank1 (c : GbCart) : Nat := if c.r.mode ≠ 0 then c.r.hiBank.toNat else 0

/-- The MBC3 has a register of the clock selected. -/
def GbCart.clockOn (c : GbCart) : Prop := 0x08 ≤ c.r.hiBank ∧ c.r.hiBank ≤ 0x0C

instance (c : GbCart) : Decidable c.clockOn := inferInstanceAs (Decidable (_ ∧ _))

/-- Reads from `0xA000` to `0xBFFF`. -/
def GbCart.readRam (c : GbCart) (a : Nat) : Checked Byte :=
  match c.mbc with
  | .none => c.ramAt a 0
  | .mbc1 => if c.r.ramOn then c.ramAt a c.ramBank1 else .ok 0xFF
  | .mbc2 =>
    if c.r.ramOn then do
      let b ← Checked.read c.ram ((a - 0xA000) &&& 0x1FF)
      return 0xF0 ||| b &&& 0x0F
    else .ok 0xFF
  | .mbc3 =>
    if c.r.ramOn then
      if c.clockOn then
        if c.hasRtc then c.r.latched.get (c.r.hiBank.toNat - 8) else .ok 0xFF
      else c.ramAt a (c.r.hiBank &&& 3).toNat
    else .ok 0xFF
  | .mbc5 => if c.r.ramOn then c.ramAt a (c.r.hiBank &&& 0x0F).toNat else .ok 0xFF

def GbCart.read (c : GbCart) (a : Nat) : Checked Byte :=
  if c.rom.isEmpty then .ok 0xFF
  else if a < 0x4000 then c.romAt (c.lowBank * 0x4000 + a)
  else if a < 0x8000 then c.romAt (c.highBank * 0x4000 + (a - 0x4000))
  else if 0xA000 ≤ a ∧ a < 0xC000 then c.readRam a
  else .ok 0xFF

def GbCart.setRegs (c : GbCart) (r : Regs) : GbCart := { c with r := r }

def GbCart.setRtc (c : GbCart) (rtc : Rtc) : GbCart :=
  { c with r := { c.r with rtc := rtc }, ramDirty := true }

/-- `ram[i] = v; ramDirty = true;` -/
def GbCart.poke (c : GbCart) (i : Nat) (v : Byte) : Checked GbCart :=
  if i < c.ram.length then
    .ok { c with
      ram := c.ram.set i v
      ramDirty := true
      nibbles := fun h => List.length_set.trans (c.nibbles h) }
  else .error .index

def GbCart.pokeRam (c : GbCart) (a bank : Nat) (v : Byte) : Checked GbCart :=
  if c.ram.isEmpty then .ok c else c.poke (c.ramIdx a bank) v

/-- A bank register, where 0 selects bank 1. -/
def bankOf (v : Byte) : BitVec 16 := if v = 0 then 1 else v.setWidth 16

/-- Writes below `0x8000`: the registers of the controller. -/
def GbCart.writeReg (now : Int) (c : GbCart) (a : Nat) (v : Byte) : GbCart :=
  match c.mbc with
  | .none => c
  | .mbc1 =>
    if a < 0x2000 then c.setRegs { c.r with ramOn := v &&& 0x0F = 0x0A }
    else if a < 0x4000 then c.setRegs { c.r with romBank := bankOf (v &&& 0x1F) }
    else if a < 0x6000 then c.setRegs { c.r with hiBank := v &&& 3 }
    else c.setRegs { c.r with mode := v &&& 1 }
  | .mbc2 =>
    if a < 0x4000 then
      if a &&& 0x100 ≠ 0 then c.setRegs { c.r with romBank := bankOf (v &&& 0x0F) }
      else c.setRegs { c.r with ramOn := v &&& 0x0F = 0x0A }
    else c
  | .mbc3 =>
    if a < 0x2000 then c.setRegs { c.r with ramOn := v &&& 0x0F = 0x0A }
    else if a < 0x4000 then c.setRegs { c.r with romBank := bankOf (v &&& 0x7F) }
    else if a < 0x6000 then c.setRegs { c.r with hiBank := v }
    else
      -- 0 and then 1 latches the clock
      let r := if c.r.mode = 0 ∧ v = 1 ∧ c.hasRtc = true then
          let rtc := c.r.rtc.rtcSync now
          { c.r with rtc := rtc, latched := rtc.rtc }
        else c.r
      c.setRegs { r with mode := v }
  | .mbc5 =>
    if a < 0x2000 then c.setRegs { c.r with ramOn := v &&& 0x0F = 0x0A }
    else if a < 0x3000 then
      c.setRegs { c.r with romBank := c.r.romBank &&& 0x100 ||| v.setWidth 16 }
    else if a < 0x4000 then
      c.setRegs { c.r with romBank := c.r.romBank &&& 0xFF ||| (v &&& 1).setWidth 16 <<< 8 }
    else if a < 0x6000 then c.setRegs { c.r with hiBank := v &&& 0x0F }
    else c

/-- Writes from `0xA000` to `0xBFFF`. -/
def GbCart.writeRam (now : Int) (c : GbCart) (a : Nat) (v : Byte) : Checked GbCart :=
  match c.mbc with
  | .none => c.pokeRam a 0 v
  | .mbc1 => if c.r.ramOn then c.pokeRam a c.ramBank1 v else .ok c
  | .mbc2 => if c.r.ramOn then c.poke ((a - 0xA000) &&& 0x1FF) (v &&& 0x0F) else .ok c
  | .mbc3 =>
    if c.r.ramOn then
      if c.clockOn then
        if c.hasRtc then do
          let rtc ← c.r.rtc.write now (c.r.hiBank.toNat - 8) v
          return c.setRtc rtc
        else .ok c
      else c.pokeRam a (c.r.hiBank &&& 3).toNat v
    else .ok c
  | .mbc5 => if c.r.ramOn then c.pokeRam a (c.r.hiBank &&& 0x0F).toNat v else .ok c

def GbCart.write (now : Int) (c : GbCart) (a : Nat) (v : Byte) : Checked GbCart :=
  if c.rom.isEmpty then .ok c
  else if a < 0x8000 then .ok (c.writeReg now a v)
  else if 0xA000 ≤ a ∧ a < 0xC000 then c.writeRam now a v
  else .ok c

/-! ## Section 2: No access leaves the cartridge -/

open Checked (Safe)

section Access

variable (c : GbCart) (now : Int) (a bank : Nat) (v : Byte)

theorem mod_length_lt {xs : Bytes} (h : xs.isEmpty = false) (i : Nat) : i % xs.length < xs.length :=
  Nat.mod_lt i (List.length_pos_iff.mpr (by simpa using h))

theorem GbCart.romAt_safe : Safe (c.romAt a) fun _ => True := by
  unfold GbCart.romAt
  split_ifs with h
  · exact .ok trivial
  · exact .read (mod_length_lt (Bool.eq_false_iff.mpr h) a)

theorem GbCart.ramAt_safe : Safe (c.ramAt a bank) fun _ => True := by
  unfold GbCart.ramAt
  split_ifs with h
  · exact .ok trivial
  · exact .read (mod_length_lt (Bool.eq_false_iff.mpr h) _)

/-- A nibble of the MBC2. -/
theorem GbCart.nibble_lt (h : c.mbc = .mbc2) (i : Nat) : i &&& 0x1FF < c.ram.length := by
  rw [c.nibbles h]
  exact Nat.lt_succ_of_le Nat.and_le_right

/-- A register of the clock. -/
theorem GbCart.clock_lt (h : c.clockOn) : c.r.hiBank.toNat - 8 < 5 := by
  have hle : c.r.hiBank.toNat ≤ (0x0C : Byte).toNat := BitVec.le_def.mp h.2
  have : (0x0C : Byte).toNat = 12 := rfl
  omega

theorem RtcRegs.get_safe (r : RtcRegs) {i : Nat} (h : i < 5) : Safe (r.get i) fun _ => True := by
  interval_cases i <;> exact .ok trivial

theorem RtcRegs.set_safe (r : RtcRegs) {i : Nat} (h : i < 5) : Safe (r.set v i) fun _ => True := by
  interval_cases i <;> exact .ok trivial

theorem GbCart.readRam_safe : Safe (c.readRam a) fun _ => True := by
  unfold GbCart.readRam
  cases hmbc : c.mbc with
  | none => exact c.ramAt_safe _ _
  | mbc1 =>
    dsimp only
    split_ifs
    · exact c.ramAt_safe _ _
    · exact .ok trivial
  | mbc2 =>
    dsimp only
    split_ifs
    · exact (Safe.read (c.nibble_lt hmbc _)).bind fun _ _ => .ok trivial
    · exact .ok trivial
  | mbc3 =>
    dsimp only
    split_ifs with hoff hclock
    · exact c.r.latched.get_safe (c.clock_lt hclock)
    · exact .ok trivial
    · exact c.ramAt_safe _ _
    · exact .ok trivial
  | mbc5 =>
    dsimp only
    split_ifs
    · exact c.ramAt_safe _ _
    · exact .ok trivial

theorem GbCart.read_safe : Safe (c.read a) fun _ => True := by
  unfold GbCart.read
  split_ifs
  · exact .ok trivial
  · exact c.romAt_safe _
  · exact c.romAt_safe _
  · exact c.readRam_safe _
  · exact .ok trivial

theorem GbCart.poke_safe {i : Nat} (h : i < c.ram.length) : Safe (c.poke i v) fun _ => True := by
  unfold GbCart.poke
  rw [if_pos h]
  exact .ok trivial

theorem GbCart.pokeRam_safe : Safe (c.pokeRam a bank v) fun _ => True := by
  unfold GbCart.pokeRam
  split_ifs with h
  · exact .ok trivial
  · exact c.poke_safe v (mod_length_lt (Bool.eq_false_iff.mpr h) _)

theorem Rtc.write_safe (r : Rtc) {i : Nat} (h : i < 5) : Safe (r.write now i v) fun _ => True := by
  unfold Rtc.write
  refine (Safe.read (show i < kMask.length from h)).bind fun mask _ => ?_
  exact ((r.rtcSync now).rtc.set_safe (v &&& mask) h).bind fun _ _ => .ok trivial

theorem GbCart.writeRam_safe : Safe (c.writeRam now a v) fun _ => True := by
  unfold GbCart.writeRam
  cases hmbc : c.mbc with
  | none => exact c.pokeRam_safe _ _ v
  | mbc1 =>
    dsimp only
    split_ifs
    · exact c.pokeRam_safe _ _ v
    · exact .ok trivial
  | mbc2 =>
    dsimp only
    split_ifs
    · exact c.poke_safe _ (c.nibble_lt hmbc _)
    · exact .ok trivial
  | mbc3 =>
    dsimp only
    split_ifs with hoff hclock
    · exact (c.r.rtc.write_safe now v (c.clock_lt hclock)).bind fun _ _ => .ok trivial
    · exact .ok trivial
    · exact c.pokeRam_safe _ _ v
    · exact .ok trivial
  | mbc5 =>
    dsimp only
    split_ifs
    · exact c.pokeRam_safe _ _ v
    · exact .ok trivial

theorem GbCart.write_safe : Safe (c.write now a v) fun _ => True := by
  unfold GbCart.write
  split_ifs
  · exact .ok trivial
  · exact .ok trivial
  · exact c.writeRam_safe now a v
  · exact .ok trivial

end Access

end Gb
