import Mathlib.Data.Nat.Bitwise
import Kestrel64.Lib.Index

/-! # CPU: the Bus

    `core/memory.cpp` as the CPU's loads and stores see it: RDRAM, the RSP's
    DMEM and IMEM, the PIF RAM, the MI repeat arm, the journal of RSP work
    that is dated but not applied yet, and the address decode of `read8` to
    `write64` around them.

    The devices behind the decode (the RCP register file, the cartridge, the
    save chip, the IS-Viewer window, the PIF) are a parameter, `Devices`:
    every route of a load or a store ends in the same call on them.

    Addresses are natural numbers below `2^64`; `phys` is an address with the
    three segment bits masked off. Two regions of the source's table are not
    here: `CART_ROM` and `SAVE` are only installed together with the ROM and
    the save chip, whose windows the decode takes before it asks the table.
-/

namespace Cpu

/-! ## Section 1: State -/

abbrev Byte := BitVec 8

/-- RDRAM is 4 MB, or 8 MB with the expansion pak. -/
inductive Pak where
  | base
  | expansion
  deriving DecidableEq, Repr

def Pak.size : Pak → Nat
  | .base => 0x400000
  | .expansion => 0x800000

theorem Pak.size_dvd (pak : Pak) : pak.size % 8 = 0 := by cases pak <;> rfl

theorem Pak.size_le (pak : Pak) : pak.size ≤ 0x800000 := by cases pak <;> decide

/-- An SP to RDRAM transfer whose bytes are taken and not in RDRAM yet. -/
structure DpLogDma where
  dram : Nat
  length : Nat
  count : Nat
  skip : Nat
  pay : List Byte

/-- What a journal entry does when it is applied. -/
inductive LogWork where
  | view (st : Nat)
  | arm (at_ : Nat)
  | dma (d : DpLogDma)
  | sp (reg v : Nat)
  | dpc (reg v : Nat)

structure DpLogEnt where
  at_ : Nat
  work : LogWork

/-- The memory side of the machine. `dev` is everything the devices keep for
    themselves. -/
structure Mem (Dev : Type) where
  rdram : Nat → Byte
  /-- DMEM and, from `0x1000` on, IMEM. -/
  spMem : Nat → Byte
  pifram : Nat → Byte
  miRepeatOn : Bool
  miRepeatLen : Nat
  dpLog : List DpLogEnt
  romLoaded : Bool
  scOn : Bool
  scKey : Nat
  saveFitted : Bool
  dev : Dev

/-- The devices behind the decode. Register-level accesses see the whole
    memory side; a journal entry only reaches RDRAM and the devices. `now` is
    the guest clock `cartNow()`. -/
structure Devices (Dev : Type) where
  mmioRead32 : Nat → Nat → Mem Dev → BitVec 32 × Mem Dev
  mmioWrite32 : Nat → Nat → BitVec 32 → Mem Dev → Mem Dev
  cartRead : Nat → Nat → Nat → Mem Dev → BitVec 32 × Mem Dev
  cartWrite : Nat → Nat → BitVec 64 → Nat → Mem Dev → Mem Dev
  saveRead : Nat → Nat → Mem Dev → BitVec 32 × Mem Dev
  saveWrite : Nat → BitVec 64 → Nat → Mem Dev → Mem Dev
  isvWrite : Nat → BitVec 32 → Nat → Mem Dev → Option (Mem Dev)
  pifCommand : Mem Dev → Mem Dev
  logApply : LogWork → (Nat → Byte) × Dev → (Nat → Byte) × Dev
  armEpoch : Dev → Nat

/-- Devices that are never asked. -/
def noDevices : Devices Unit where
  mmioRead32 := fun _ _ m => (0, m)
  mmioWrite32 := fun _ _ _ m => m
  cartRead := fun _ _ _ m => (0, m)
  cartWrite := fun _ _ _ _ m => m
  saveRead := fun _ _ m => (0, m)
  saveWrite := fun _ _ _ m => m
  isvWrite := fun _ _ _ _ => none
  pifCommand := fun m => m
  logApply := fun _ r => r
  armEpoch := fun _ => 0

/-! ## Section 2: Bytes -/

/-- `n` bytes from `off` on as one big-endian number. -/
def beRead (f : Nat → Byte) (off n : Nat) : BitVec 64 :=
  (List.range n).foldl (fun v i => v <<< 8 ||| (f (off + i)).setWidth 64) 0

/-- Byte `i` of the `n`-byte big-endian form of `v`. -/
def beByte (v : BitVec 64) (n i : Nat) : Byte := (v >>> (8 * (n - 1 - i))).setWidth 8

/-- `f` with the `n` bytes of `v` at `off`. -/
def beWrite (f : Nat → Byte) (off n : Nat) (v : BitVec 64) : Nat → Byte :=
  fun a => if off ≤ a ∧ a < off + n then beByte v n (a - off) else f a

/-! ## Section 3: The address map -/

def baseDmem : Nat := 0x04000000
def baseSp : Nat := 0x04040000
def basePifram : Nat := 0x1fc007c0
def piframSize : Nat := 0x40
def baseRdramReg : Nat := 0x03f00000

/-- The segment bits masked off: KSEG0 and KSEG1 alias the same bus. -/
def phys (addr : Nat) : Nat := addr % 0x20000000

def isMmio (a : Nat) : Bool := baseRdramReg ≤ a && a < 0x04900000

def isSaveDomain (a : Nat) : Bool := 0x08000000 ≤ a && a < 0x10000000

variable {Dev : Type}

def isCart (m : Mem Dev) (a : Nat) : Bool :=
  m.romLoaded && 0x10000000 ≤ a &&
    (a < 0x1fc00000 ||
      (m.scOn && 0x1fd00000 ≤ a && (m.scKey == 2 || a / 4 * 4 == 0x1fff0010)))

/-- A RAM the table of regions maps. -/
inductive Area where
  | rdram
  | sp
  | pif
  deriving DecidableEq, Repr

/-- The RAM behind an address, with the offset in it and the bytes that
    remain to its end. -/
def resolve (pak : Pak) (addr : Nat) : Option (Area × Nat × Nat) :=
  let a := phys addr
  if baseDmem ≤ a ∧ a < baseSp then
    let o := a % 0x2000
    some (.sp, o, 0x1000 - o % 0x1000)
  else if a < pak.size then
    some (.rdram, a, pak.size - a)
  else if basePifram ≤ a ∧ a < basePifram + piframSize then
    some (.pif, a - basePifram, piframSize - (a - basePifram))
  else
    none

def Mem.area (m : Mem Dev) : Area → Nat → Byte
  | .rdram => m.rdram
  | .sp => m.spMem
  | .pif => m.pifram

def Mem.setArea (m : Mem Dev) (f : Nat → Byte) : Area → Mem Dev
  | .rdram => { m with rdram := f }
  | .sp => { m with spMem := f }
  | .pif => { m with pifram := f }

/-! ## Section 4: The journal -/

def kDmaPgN : Nat := 0x800

/-- The entry is a transfer that touches page `p`. -/
def DpLogEnt.marks (e : DpLogEnt) (p : Nat) : Bool :=
  match e.work with
  | .dma d =>
    d.dram / 0x1000 ≤ p && p ≤ (d.dram + (d.length + d.skip) * d.count - 1) / 0x1000
      && p < kDmaPgN
  | _ => false

def DpLogEnt.isDma (e : DpLogEnt) : Bool :=
  match e.work with
  | .dma _ => true
  | _ => false

/-- Number of unapplied transfers on page `p`. -/
def dmaPg (m : Mem Dev) (p : Nat) : Nat := m.dpLog.countP (·.marks p)

/-- Number of unapplied transfers. -/
def dmaPgPend (m : Mem Dev) : Nat := m.dpLog.countP (·.isDma)

/-- The rows of a transfer, each `length` bytes, `skip` bytes apart. -/
def spDmaLogApply (pak : Pak) (d : DpLogDma) (ram : Nat → Byte) : Nat → Byte :=
  (List.range d.count).foldl (fun ram c =>
    (List.range d.length).foldl (fun ram i =>
      let a := d.dram + c * (d.length + d.skip) + i
      if a < pak.size then
        fun x => if x = a then d.pay.getD (c * d.length + i) 0 else ram x
      else ram) ram) ram

def applyEnt (D : Devices Dev) (pak : Pak) (e : DpLogEnt) (m : Mem Dev) : Mem Dev :=
  match e.work with
  | .dma d => { m with rdram := spDmaLogApply pak d m.rdram }
  | w =>
    let r := D.logApply w (m.rdram, m.dev)
    { m with rdram := r.1, dev := r.2 }

/-- The loop of `dpLogApply` over the journal. -/
def applyLog (D : Devices Dev) (pak : Pak) (upTo : Nat) :
    List DpLogEnt → Mem Dev → Mem Dev
  | [], m => { m with dpLog := [] }
  | e :: es, m =>
    if upTo < e.at_ then { m with dpLog := e :: es }
    else applyLog D pak upTo es (applyEnt D pak e m)

/-- Apply the entries dated up to `upTo`. -/
def dpLogApply (D : Devices Dev) (pak : Pak) (upTo : Nat) (m : Mem Dev) : Mem Dev :=
  applyLog D pak upTo m.dpLog m

/-- Does `[lo, hi)` touch a page with unapplied transfers? Long ranges are
    not looked up page by page. -/
def dmaSettleHits (m : Mem Dev) (lo hi : Nat) : Bool :=
  let p := lo / 0x1000
  let e := (hi - 1) / 0x1000
  dmaPgPend m ≠ 0 &&
    (p + 8 ≤ e || (List.range (e + 1 - p)).any fun i => p + i < kDmaPgN && dmaPg m (p + i) ≠ 0)

/-- The CPU is about to look at `[lo, hi)` of RDRAM. -/
def dmaSettle (D : Devices Dev) (pak : Pak) (now lo hi : Nat) (m : Mem Dev) : Mem Dev :=
  if dmaSettleHits m lo hi then dpLogApply D pak now m else m

/-- The settle finds an entry to apply. -/
def settleDue (m : Mem Dev) (now lo hi : Nat) : Bool :=
  dmaSettleHits m lo hi &&
    match m.dpLog with
    | [] => false
    | e :: _ => e.at_ ≤ now

/-! ## Section 5: Reads and writes -/

section Access

variable (D : Devices Dev) (pak : Pak) (now : Nat)

/-- `read8`, `read16` and `read32`: `n` is 1, 2 or 4. -/
def busRead (n addr : Nat) (m : Mem Dev) : BitVec 32 × Mem Dev :=
  let a := phys addr
  if isCart m a then
    D.cartRead now a n m
  else if isSaveDomain a && m.saveFitted then
    D.saveRead a n m
  else
    let mmio : BitVec 32 × Mem Dev :=
      if isMmio a then
        let r := D.mmioRead32 now (a / 4 * 4) m
        (r.1 >>> (8 * (4 - n - a % 4 / n * n)), r.2)
      else (0, m)
    match resolve pak addr with
    | some (area, off, rem) =>
      if n ≤ rem then ((beRead (m.area area) off n).setWidth 32, m) else mmio
    | none => mmio

def read8 (addr : Nat) (m : Mem Dev) : BitVec 8 × Mem Dev :=
  let r := busRead D pak now 1 addr m
  (r.1.setWidth 8, r.2)

def read16 (addr : Nat) (m : Mem Dev) : BitVec 16 × Mem Dev :=
  let r := busRead D pak now 2 addr m
  (r.1.setWidth 16, r.2)

def read32 (addr : Nat) (m : Mem Dev) : BitVec 32 × Mem Dev :=
  busRead D pak now 4 addr m

def read64 (addr : Nat) (m : Mem Dev) : BitVec 64 × Mem Dev :=
  let hi := read32 D pak now addr m
  let lo := read32 D pak now (addr + 4) hi.2
  (hi.1 ++ lo.1, lo.2)

/-- A sub-word store that reaches a register reads the word, folds the unit
    in and writes it back. -/
def mmioFold (n a : Nat) (v : BitVec 32) (m : Mem Dev) : Mem Dev :=
  let r := D.mmioRead32 now (a / 4 * 4) m
  let sh := 8 * (4 - n - a % 4 / n * n)
  let mask : BitVec 32 := BitVec.ofNat 32 (2 ^ (8 * n) - 1) <<< sh
  D.mmioWrite32 now (a / 4 * 4) (r.1 &&& ~~~mask ||| v <<< sh) r.2

/-- `write8`, `write16` and `write32`: `n` is 1, 2 or 4 and `v` has `n`
    bytes. -/
def busWrite (n addr : Nat) (v : BitVec 32) (m : Mem Dev) : Mem Dev :=
  let a := phys addr
  match (if 0x13ff0000 ≤ a ∧ a < 0x14000000 then D.isvWrite a v n m else none) with
  | some m' => m'
  | none =>
    if isCart m a then
      D.cartWrite now a (v.setWidth 64) n m
    else if isSaveDomain a && m.saveFitted then
      D.saveWrite a (v.setWidth 64) n m
    else
      let mmio : Mem Dev :=
        if isMmio a then
          if n = 4 then D.mmioWrite32 now (a / 4 * 4) v m else mmioFold D now n a v m
        else m
      match resolve pak addr with
      | some (area, off, rem) =>
        if n ≤ rem then
          let m' := m.setArea (beWrite (m.area area) off n (v.setWidth 64)) area
          -- a word store on the control byte wakes the PIF
          if n = 4 ∧ a / 4 * 4 = basePifram + 0x3c then D.pifCommand m' else m'
        else mmio
      | none => mmio

def write8 (addr : Nat) (v : BitVec 8) (m : Mem Dev) : Mem Dev :=
  busWrite D pak now 1 addr (v.setWidth 32) m

def write16 (addr : Nat) (v : BitVec 16) (m : Mem Dev) : Mem Dev :=
  busWrite D pak now 2 addr (v.setWidth 32) m

def write32 (addr : Nat) (v : BitVec 32) (m : Mem Dev) : Mem Dev :=
  busWrite D pak now 4 addr v m

def write64 (addr : Nat) (v : BitVec 64) (m : Mem Dev) : Mem Dev :=
  write32 D pak now (addr + 4) (v.setWidth 32)
    (write32 D pak now addr ((v >>> 32).setWidth 32) m)

/-- The RCP's RAMs and registers ignore the byte enables of the bus. -/
def quirkRange (a : Nat) : Bool :=
  (baseDmem ≤ a && a < baseSp) || (basePifram ≤ a && a < basePifram + piframSize) || isMmio a

/-- A store to such a device is a word store of the shifted register. -/
def wordStoreQuirk (a : Nat) (reg : BitVec 64) (width : Nat) (m : Mem Dev) :
    Option (Mem Dev) :=
  if !quirkRange a || width == 4 then
    none
  else
    let out : BitVec 32 :=
      if width = 8 then (reg >>> 32).setWidth 32
      else (reg <<< ((4 - width - a % 4) * 8)).setWidth 32
    some (write32 D pak now (a / 4 * 4) out m)

/-- The broadcast of `MI_MODE` repeat: the register's datapath word, placed
    on its lane, replayed over the span inside its 2 KB page. -/
def miRepeatStore (a : Nat) (value : BitVec 64) (sz : Nat) (m : Mem Dev) : Mem Dev :=
  let unit := if sz = 8 then 8 else 4
  let word : BitVec 64 := if unit = 8 then value else (value.setWidth 32).setWidth 64
  let shifted := word <<< ((unit - sz - a % unit) * 8)
  let stop := a / 8 * 8 + m.miRepeatLen
  let page := a / 0x800 * 0x800
  let m := dmaSettle D pak now page (page + 0x800) m
  let ram := (List.range (stop - a)).foldl (fun ram i =>
    let j := a + i
    let x := page + j % 0x800
    if x < pak.size then fun y => if y = x then beByte shifted unit (j % unit) else ram y
    else ram) m.rdram
  { m with rdram := ram }

end Access

/-! ## Section 6: What an access leaves alone -/

section Frame

variable (D : Devices Dev) (pak : Pak)

/-- The decode masks the segment bits before it looks at anything. -/
theorem busWrite_phys {n a b : Nat} (h : phys a = phys b) (now : Nat) (v : BitVec 32)
    (m : Mem Dev) : busWrite D pak now n a v m = busWrite D pak now n b v m := by
  unfold busWrite resolve
  rw [h]

/-- A store below the RCP's windows reaches RDRAM or nothing. -/
theorem busWrite_low {n addr : Nat} (h : phys addr < baseRdramReg) (now : Nat) (v : BitVec 32)
    (m : Mem Dev) : ∃ ram, busWrite D pak now n addr v m = { m with rdram := ram } := by
  have hb : baseRdramReg = 0x03f00000 := rfl
  have hisv : ¬ (0x13ff0000 ≤ phys addr ∧ phys addr < 0x14000000) := by omega
  have hcart : isCart m (phys addr) = false := by
    simp only [isCart, Bool.and_eq_false_iff, decide_eq_false_iff_not]
    left
    right
    omega
  have hsave : isSaveDomain (phys addr) = false := by
    simp only [isSaveDomain, Bool.and_eq_false_iff, decide_eq_false_iff_not]
    left
    omega
  have hmmio : isMmio (phys addr) = false := by
    simp only [isMmio, Bool.and_eq_false_iff, decide_eq_false_iff_not]
    left
    omega
  have hpif : ¬ phys addr / 4 * 4 = basePifram + 0x3c := by
    simp only [basePifram]
    omega
  have hres : resolve pak addr =
      if phys addr < pak.size then some (.rdram, phys addr, pak.size - phys addr) else none := by
    unfold resolve
    dsimp only
    rw [if_neg (by simp only [baseDmem]; omega)]
    refine if_congr Iff.rfl rfl ?_
    rw [if_neg (by simp only [basePifram]; omega)]
  unfold busWrite
  dsimp only
  rw [if_neg hisv, hcart, hsave, hmmio, hres]
  by_cases hlt : phys addr < pak.size
  · rw [if_pos hlt]
    by_cases hn : n ≤ pak.size - phys addr
    · exact ⟨beWrite m.rdram (phys addr) n (v.setWidth 64), by
        simp [hn, hpif, Mem.setArea, Mem.area]⟩
    · exact ⟨m.rdram, by simp [hn]⟩
  · rw [if_neg hlt]
    exact ⟨m.rdram, by simp⟩

theorem write64_low {addr : Nat} (h : phys addr < 0x800000) (now : Nat) (v : BitVec 64)
    (m : Mem Dev) : ∃ ram, write64 D pak now addr v m = { m with rdram := ram } := by
  have h1 : phys addr < baseRdramReg := lt_trans h (by decide)
  have h2 : phys (addr + 4) < baseRdramReg := by
    simp only [phys, baseRdramReg] at h ⊢
    omega
  obtain ⟨ram, hr⟩ := busWrite_low D pak (n := 4) h1 now _ m
  obtain ⟨ram', hr'⟩ :=
    busWrite_low D pak (n := 4) h2 now (v.setWidth 32) { m with rdram := ram }
  refine ⟨ram', ?_⟩
  unfold write64 write32
  rw [hr, hr']

theorem applyEnt_miRepeatOn (e : DpLogEnt) (m : Mem Dev) :
    (applyEnt D pak e m).miRepeatOn = m.miRepeatOn := by
  unfold applyEnt
  split <;> rfl

theorem applyLog_miRepeatOn (upTo : Nat) (es : List DpLogEnt) (m : Mem Dev) :
    (applyLog D pak upTo es m).miRepeatOn = m.miRepeatOn := by
  induction es generalizing m with
  | nil => rfl
  | cons e es ih =>
    unfold applyLog
    split_ifs
    · rfl
    · rw [ih, applyEnt_miRepeatOn]

@[simp] theorem dmaSettle_miRepeatOn (now lo hi : Nat) (m : Mem Dev) :
    (dmaSettle D pak now lo hi m).miRepeatOn = m.miRepeatOn := by
  unfold dmaSettle dpLogApply
  split_ifs
  · exact applyLog_miRepeatOn D pak now m.dpLog m
  · rfl

/-- Applying never leaves more entries than there were. -/
theorem applyLog_length (upTo : Nat) (es : List DpLogEnt) (m : Mem Dev) :
    (applyLog D pak upTo es m).dpLog.length ≤ es.length := by
  induction es generalizing m with
  | nil => exact Nat.le_refl _
  | cons e es ih =>
    unfold applyLog
    split_ifs
    · exact Nat.le_refl _
    · exact Nat.le_succ_of_le (ih _)

theorem dmaSettle_of_not_due {now lo hi : Nat} {m : Mem Dev} (h : settleDue m now lo hi = false) :
    dmaSettle D pak now lo hi m = m := by
  unfold dmaSettle
  split_ifs with hh
  · unfold dpLogApply
    rw [settleDue, hh, Bool.true_and] at h
    cases hl : m.dpLog with
    | nil =>
      unfold applyLog
      rw [← hl]
    | cons e es =>
      rw [hl] at h
      unfold applyLog
      rw [if_pos (by simpa using h), ← hl]
  · rfl

theorem dmaSettle_length_lt {now lo hi : Nat} {m : Mem Dev} (h : settleDue m now lo hi = true) :
    (dmaSettle D pak now lo hi m).dpLog.length < m.dpLog.length := by
  rw [settleDue, Bool.and_eq_true] at h
  obtain ⟨hh, hd⟩ := h
  unfold dmaSettle
  rw [if_pos hh]
  unfold dpLogApply
  cases hl : m.dpLog with
  | nil =>
    rw [hl] at hd
    exact absurd hd Bool.false_ne_true
  | cons e es =>
    rw [hl] at hd
    unfold applyLog
    rw [if_neg (by simpa using hd)]
    exact Nat.lt_succ_of_le (applyLog_length D pak now es _)

end Frame

end Cpu
