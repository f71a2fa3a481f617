import Kestrel64.Cart.SaveMemory
import Kestrel64.Lib.Transition
import Kestrel64.Si.JoybusSaves

/-! # Cartridge: The Save Files

    The save memory and the four Controller Paks are loaded from files when a
    game starts (`attachSaveFile`) and stored when the emulator ends
    (`flushSaveFile`), each if its flag says that the game has written to it.

    `saves_survive`: the end and a new start lose no byte, at any point of any
    session. A state that is loaded sets the flag of the save memory but not
    those of the paks; a pak is kept where no state was loaded since the start
    or the game has written to it.

    The files are named after the ROM; `Ext` is the part that differs. A guest
    of a network game is `tainted`: its files stay as they are. The files of
    the Transfer Pak are left out, and so is a file that cannot be opened.
-/

namespace Cart

open Checked LTS WriteBack
open Si (SaveType PadPort)

/-! ## Section 1: Files -/

inductive Ext where
  | eep
  | fla
  | sra
  | mpk (port : Fin 4)
  deriving DecidableEq, Repr

abbrev Files := Ext → Option Bytes

def saveExt (t : SaveType) : Ext := if isEeprom t then .eep else if isFlash t then .fla else .sra

/-- As much of the file as fits; the rest of `back` stays. -/
def loadInto (back : Bytes) : Option Bytes → Bytes
  | none => back
  | some data => data.take back.length ++ back.drop data.length

/-- Where there is a path and something to store. -/
def storeFrom (path : Option Ext) (back : Bytes) (files : Files) : Files :=
  match path with
  | none => files
  | some e => if back = [] then files else Function.update files e (some back)

section Format

def be16 (v : Nat) : Bytes := [BitVec.ofNat 8 (v / 0x100), BitVec.ofNat 8 v]

/-- `__OSPackId` up to the two sums. -/
def packId : Bytes :=
  [0, 0, 0, 0, 0x4b, 0x65, 0x73, 0x74] ++ List.replicate 16 0 ++ be16 1 ++ [1, 0]

/-- The half words of `id`. -/
def halfwords (id : Bytes) : List Nat :=
  (List.range (id.length / 2)).map fun j =>
    (id.getD (2 * j) 0).toNat * 0x100 + (id.getD (2 * j + 1) 0).toNat

def packIdBlock : Bytes :=
  packId ++ be16 (halfwords packId).sum ++
    be16 ((halfwords packId).map fun d => 0xffff - d).sum

/-- `__OSInode` behind its first half word: four and then 123 unused pages. -/
def inodePages : Bytes := List.replicate 8 0 ++ (List.replicate 123 (be16 3)).flatten

def inodeTable : Bytes := be16 (inodePages.map BitVec.toNat).sum ++ inodePages

/-- A pak as it leaves the factory: the id in the blocks 1, 3, 4 and 6, the
    inode table in 8 and again in 16. -/
def mempakFormat : Bytes :=
  List.replicate 32 0 ++ packIdBlock ++ List.replicate 32 0 ++ packIdBlock ++ packIdBlock ++
    List.replicate 32 0 ++ packIdBlock ++ List.replicate 32 0 ++ inodeTable ++ inodeTable ++
    List.replicate (32 * 1024 - 24 * 32) 0

end Format

/-! ## Section 2: The emulator -/

variable {M : Type}

namespace SaveMemory

def fillByte (t : SaveType) : Byte := if isFlash t then 0xFF else 0x00

/-- A new object; `m` has what is not saved. -/
def new (m : Si.Memory M) : SaveMemory M where
  mem :=
    { m with
      eeprom := []
      saveType := .eeprom16k
      saveDirty := false
      padPort := fun p => { m.padPort p with mempak := [], mempakDirty := false } }

variable (s : SaveMemory M)

/-- The save memory in `reset`. -/
def reset : SaveMemory M :=
  let t := s.mem.saveType
  let eeprom :=
    if isEeprom t ∧ s.mem.eeprom = [] then List.replicate (saveSize t) 0 else s.mem.eeprom
  let saveRam :=
    if isEeprom t = false ∧ t ≠ .none ∧ s.saveRam = [] then
      List.replicate (saveSize t) (fillByte t)
    else s.saveRam
  { s with mem := { s.mem with eeprom := eeprom }, saveRam := saveRam, flashMode := .status }

/-- The end of `resolveSaveType`, which has found `t`. -/
def resolveSaveType (t : SaveType) : SaveMemory M :=
  let sized (back : Bytes) (fill : Byte) :=
    if back.length ≠ saveSize t then List.replicate (saveSize t) fill else back
  if isEeprom t then
    { s with mem := { s.mem with saveType := t, eeprom := sized s.mem.eeprom 0 }, saveRam := [] }
  else if t ≠ .none then
    { s with
      mem := { s.mem with saveType := t, eeprom := [] }
      saveRam := sized s.saveRam (fillByte t) }
  else { s with mem := { s.mem with saveType := t, eeprom := [] }, saveRam := [] }

/-- The paks in `attachSaveFile`. -/
def attachPaks (files : Files) : SaveMemory M :=
  { s with
    mem :=
      { s.mem with
        padPort := fun p =>
          let pp := s.mem.padPort p
          let pak := if pp.mempak = [] then mempakFormat else pp.mempak
          { pp with mempak := loadInto pak (files (.mpk p)) } } }

/-- `back->resize(saveSize(), fill)`, where it is shorter. -/
def resized (back : Bytes) (fill : Byte) : Bytes :=
  back ++ List.replicate (saveSize s.mem.saveType - back.length) fill

/-- The cartridge in `attachSaveFile`. -/
def attachCart (files : Files) : SaveMemory M :=
  let t := s.mem.saveType
  if t = .none then s
  else if isEeprom t then
    let eeprom := loadInto (s.resized s.mem.eeprom (fillByte t)) (files (saveExt t))
    { s with mem := { s.mem with eeprom := eeprom } }
  else { s with saveRam := loadInto (s.resized s.saveRam (fillByte t)) (files (saveExt t)) }

end SaveMemory

/-- A process, and the files behind it. -/
structure Console (M : Type) where
  save : SaveMemory M
  saveFilePath : Option Ext
  files : Files

namespace Console

/-- `reset`, `resolveSaveType` and `attachSaveFile` of a new process. -/
def boot (t : SaveType) (files : Files) (m : Si.Memory M) : Console M where
  save := (((SaveMemory.new m).reset.resolveSaveType t).attachPaks files).attachCart files
  saveFilePath := if t = .none then none else some (saveExt t)
  files := files

variable (s : Console M)

def storePak (files : Files) (p : Fin 4) : Files :=
  let pp := s.save.mem.padPort p
  if pp.mempakDirty then storeFrom (some (.mpk p)) pp.mempak files else files

def flushPaks : Files := (List.finRange 4).foldl s.storePak s.files

def flushSaveFile (tainted : Bool) : Files :=
  if tainted then s.files
  else if s.saveFilePath = none ∨ s.save.mem.saveType = .none ∨ s.save.mem.saveDirty = false then
    s.flushPaks
  else
    storeFrom s.saveFilePath
      (if isEeprom s.save.mem.saveType then s.save.mem.eeprom else s.save.saveRam) s.flushPaks

/-- The end of the process, and a new one. -/
def restart (t : SaveType) (tainted : Bool) (m : Si.Memory M) : Console M :=
  boot t (s.flushSaveFile tainted) m

/-- A state is loaded: `m` is what it holds, the flags are not in it. -/
def loaded (m : SaveMemory M) : Console M :=
  { s with
    save :=
      { m with
        mem :=
          { m.mem with
            saveDirty := true
            padPort := fun p =>
              { m.mem.padPort p with mempakDirty := (s.save.mem.padPort p).mempakDirty } } } }

end Console

inductive Label (M : Type) where
  /-- The CPU stores to the parallel bus. -/
  | write (phys : Nat) (value : BitVec 64) (nbytes : Nat)
  | dma (toCart : Bool) (r : PiRegs) (rdram : Bytes)
  /-- A block of joybus commands. -/
  | joybus (H : Si.Host M) (hardened : Bool) (pifram : Bytes)
  | load (m : SaveMemory M)
  | restart (tainted : Bool) (m : Si.Memory M)

def Label.isRestart : Label M → Bool
  | .restart _ _ => true
  | _ => false

def Label.isLoad : Label M → Bool
  | .load _ => true
  | _ => false

/-- A state of a game with this save memory. -/
structure Fits (t : SaveType) (m : SaveMemory M) : Prop where
  saveType : m.mem.saveType = t
  eeprom : m.mem.eeprom.length = if isEeprom t then saveSize t else 0
  saveRam : m.saveRam.length = if isEeprom t then 0 else saveSize t
  paks : ∀ p, (m.mem.padPort p).mempak.length = 32 * 1024

/-- One step of the emulator with a cartridge of the type `t`. -/
def step (t : SaveType) (s : Console M) (l : Label M) (s' : Console M) : Prop :=
  match l with
  | .write phys value nbytes => s' = { s with save := s.save.cpuWrite phys value nbytes }
  | .dma toCart r rdram =>
      ∃ out, s.save.piDma toCart r rdram = some out ∧ s' = { s with save := out.1 }
  | .joybus H hardened pifram =>
      ∃ r, Si.pifProcessJoybus H hardened { s.save.mem with pifram := pifram } = .ok r ∧
        s' = { s with save := { s.save with mem := r.mem } }
  | .load m => Fits t m ∧ s' = s.loaded m
  | .restart tainted m => s' = s.restart t tainted m

/-- Sessions, one after the other. -/
def sessions (t : SaveType) : System (Console M) (Label M) where
  init := fun s => ∃ files m, s = .boot t files m
  step := step t

/-- No state was loaded since the last start. -/
def Unloaded (tr : List (Console M × Label M)) : Prop :=
  ∀ x ∈ tr.takeWhile fun x => !x.2.isRestart, x.2.isLoad = false

/-! ## Section 3: Accesses set the flag -/

/-- `saveRam`, with the flag that it shares with the EEPROM. -/
def SaveMemory.ram (s : SaveMemory M) : Buffer Bytes := ⟨s.saveRam, s.mem.saveDirty⟩

structure SaveMemory.Stores (s s' : SaveMemory M) : Prop where
  mem : s.mem.Stores s'.mem
  ram : s.ram.Next s'.ram
  size : s'.saveRam.length = s.saveRam.length

theorem length_storeAt (n base : Nat) (f : Nat → Byte) (a : Bytes) :
    (storeAt n base f a).length = a.length := by
  unfold storeAt
  induction n with
  | zero => rfl
  | succ n ih =>
    rw [List.range_succ, List.foldl_append, List.foldl_cons, List.foldl_nil]
    split_ifs
    · exact List.length_set.trans ih
    · exact ih

namespace SaveMemory

variable {s s' s'' : SaveMemory M}

theorem Stores.refl (s : SaveMemory M) : s.Stores s := ⟨.refl _, .refl _, rfl⟩

theorem Stores.trans (h₁ : s.Stores s') (h₂ : s'.Stores s'') : s.Stores s'' :=
  ⟨h₁.mem.trans h₂.mem, h₁.ram.trans h₂.ram, h₂.size.trans h₁.size⟩

/-- Nothing that is stored has changed. -/
theorem Stores.aside (hmem : s'.mem = s.mem) (hram : s'.saveRam = s.saveRam) : s.Stores s' := by
  refine ⟨hmem ▸ .refl _, ?_, congrArg List.length hram⟩
  unfold SaveMemory.ram
  rw [hmem, hram]
  exact .refl _

theorem Stores.of_dirty (hmem : s'.mem = { s.mem with saveDirty := true })
    (hsize : s'.saveRam.length = s.saveRam.length) : s.Stores s' := by
  refine ⟨?_, .of_dirty ?_, hsize⟩
  · rw [hmem]
    exact ⟨.of_dirty rfl, rfl, rfl, fun _ => .refl _⟩
  · unfold SaveMemory.ram
    rw [hmem]

theorem flashCommand_stores (cmd : BitVec 32) : s.Stores (s.flashCommand cmd) := by
  unfold flashCommand
  split_ifs
  · exact .aside rfl rfl
  · exact .aside rfl rfl
  · exact .aside rfl rfl
  · exact .aside rfl rfl
  · exact .aside rfl rfl
  · refine .of_dirty flashErase_mem ?_
    rw [flashErase_saveRam, length_storeAt]
  · exact .aside rfl rfl
  · refine .of_dirty flashProgram_mem ?_
    rw [flashProgram_saveRam, length_storeAt]
  · exact .refl s

theorem saveWrite_stores (phys : Nat) (value : BitVec 64) (nbytes : Nat) :
    s.Stores (s.saveWrite phys value nbytes) := by
  unfold saveWrite
  split_ifs
  · exact flashCommand_stores _
  · exact .aside rfl rfl
  · exact .refl s
  · exact .aside rfl rfl
  · cases s.saveOffset phys with
    | none => exact .refl s
    | some off => exact .of_dirty rfl (length_storeAt _ _ _ _)
  · exact .refl s

theorem cpuWrite_stores (phys : Nat) (value : BitVec 64) (nbytes : Nat) :
    s.Stores (s.cpuWrite phys value nbytes) := by
  unfold cpuWrite
  split_ifs
  · exact saveWrite_stores _ _ _
  · exact .refl s

theorem dmaIn_stores (rdram : Bytes) (cart dram len : Nat) :
    s.Stores (s.dmaIn rdram cart dram len) := by
  unfold dmaIn
  induction len with
  | zero => exact .refl s
  | succ len ih =>
    rw [List.range_succ, List.foldl_append, List.foldl_cons, List.foldl_nil]
    exact ih.trans (saveWrite_stores _ _ _)

theorem piDma_stores {toCart : Bool} {r : PiRegs} {rdram : Bytes} {out}
    (h : s.piDma toCart r rdram = some out) : s.Stores out.1 := by
  cases toCart with
  | true =>
    rw [piDma_toCart h]
    exact dmaIn_stores _ _ _ _
  | false =>
    rw [(piDma_toRam h).1]
    exact .refl s

theorem Stores.joybus {mem : Si.Memory M} (h : s.mem.Stores mem) : s.Stores { s with mem := mem } :=
  ⟨h, fun hclean => ⟨rfl, (h.next hclean).2⟩, rfl⟩

/-- What the cartridge's file is a copy of. -/
def backing (s : SaveMemory M) : Buffer Bytes :=
  ⟨if isEeprom s.mem.saveType then s.mem.eeprom else s.saveRam, s.mem.saveDirty⟩

theorem Stores.backing (h : s.Stores s') : s.backing.Next s'.backing := by
  unfold SaveMemory.backing
  rw [h.mem.saveType]
  split_ifs
  · exact h.mem.next
  · exact h.ram

end SaveMemory

theorem Fits.stores {t : SaveType} {s s' : SaveMemory M} (hs : Fits t s) (h : s.Stores s') :
    Fits t s' where
  saveType := h.mem.saveType.trans hs.saveType
  eeprom := h.mem.size.trans hs.eeprom
  saveRam := h.size.trans hs.saveRam
  paks p := (h.mem.ports p).size.trans (hs.paks p)

theorem Fits.length_backing {t : SaveType} {s : SaveMemory M} (hs : Fits t s) :
    s.backing.data.length = saveSize t := by
  have heep := hs.eeprom
  have hram := hs.saveRam
  unfold SaveMemory.backing
  rw [hs.saveType]
  split_ifs at heep hram ⊢
  · exact heep
  · exact hram

/-! ## Section 4: Start and end -/

/-- The save memory without a file. -/
def blank (t : SaveType) : Bytes := List.replicate (saveSize t) (SaveMemory.fillByte t)

theorem length_loadInto (back : Bytes) (file : Option Bytes) :
    (loadInto back file).length = back.length := by
  cases file with
  | none => rfl
  | some data =>
    unfold loadInto
    rw [List.length_append, List.length_take, List.length_drop]
    omega

theorem loadInto_self {back data : Bytes} (h : data.length = back.length) :
    loadInto back (some data) = data := by
  change data.take back.length ++ back.drop data.length = data
  rw [← h, List.take_length, h, List.drop_length, List.append_nil]

section Boot

variable {t : SaveType} {files : Files} {m : Si.Memory M}

theorem length_mempakFormat : mempakFormat.length = 32 * 1024 := by
  unfold mempakFormat packIdBlock inodeTable inodePages packId be16
  simp only [List.length_append, List.length_replicate, List.length_flatten, List.map_replicate,
    List.length_cons, List.length_nil, List.sum_replicate_nat]

@[simp] theorem length_blank : (blank t).length = saveSize t := List.length_replicate

/-- A new object, sized for `t`. -/
def fresh (t : SaveType) (m : Si.Memory M) : SaveMemory M :=
  (SaveMemory.new m).reset.resolveSaveType t

theorem fresh_saveType : (fresh t m).mem.saveType = t := by
  cases t <;> rfl

theorem fresh_eeprom : (fresh t m).mem.eeprom = if isEeprom t then blank t else [] := by
  have hreset : (SaveMemory.new m).reset.mem.eeprom = List.replicate 2048 0 := rfl
  unfold fresh SaveMemory.resolveSaveType
  dsimp only
  rw [hreset, List.length_replicate]
  cases t <;> rfl

theorem fresh_saveRam : (fresh t m).saveRam = if isEeprom t then [] else blank t := by
  have hreset : (SaveMemory.new m).reset.saveRam = [] := rfl
  unfold fresh SaveMemory.resolveSaveType
  dsimp only
  rw [hreset]
  cases t <;> rfl

variable {s : SaveMemory M}

theorem resized_eq {fill : Byte} {back : Bytes} (h : back.length = saveSize s.mem.saveType) :
    s.resized back fill = back := by
  unfold SaveMemory.resized
  rw [h, Nat.sub_self, List.replicate_zero, List.append_nil]

/-- The cartridge's file is loaded over the blank memory. -/
theorem attachCart_eq (htype : s.mem.saveType = t)
    (heep : s.mem.eeprom = if isEeprom t then blank t else [])
    (hram : s.saveRam = if isEeprom t then [] else blank t) :
    (s.attachCart files).mem.eeprom =
        (if isEeprom t then loadInto (blank t) (files (saveExt t)) else []) ∧
      (s.attachCart files).saveRam =
        if isEeprom t then [] else loadInto (blank t) (files (saveExt t)) := by
  unfold SaveMemory.attachCart
  dsimp only
  rw [htype]
  by_cases hnone : t = .none
  · subst hnone
    rw [if_pos rfl, heep, hram]
    refine ⟨rfl, ?_⟩
    have hlen := length_loadInto (blank .none) (files (saveExt .none))
    exact (List.eq_nil_of_length_eq_zero hlen).symm
  · rw [if_neg hnone]
    by_cases he : isEeprom t
    · rw [if_pos he] at heep hram ⊢
      rw [heep, resized_eq (by rw [htype, length_blank])]
      exact ⟨(if_pos he).symm, hram.trans (if_pos he).symm⟩
    · rw [if_neg he] at heep hram ⊢
      rw [hram, resized_eq (by rw [htype, length_blank])]
      exact ⟨heep.trans (if_neg he).symm, (if_neg he).symm⟩

theorem boot_cart :
    (Console.boot t files m).save.mem.eeprom =
        (if isEeprom t then loadInto (blank t) (files (saveExt t)) else []) ∧
      (Console.boot t files m).save.saveRam =
        if isEeprom t then [] else loadInto (blank t) (files (saveExt t)) :=
  attachCart_eq (s := (fresh t m).attachPaks files) fresh_saveType fresh_eeprom fresh_saveRam

theorem boot_pak (p : Fin 4) :
    ((Console.boot t files m).save.mem.padPort p).pak =
      attach (loadInto mempakFormat) (files (.mpk p)) := by
  cases t <;> rfl

theorem boot_saveType : (Console.boot t files m).save.mem.saveType = t := by
  cases t <;> rfl

theorem boot_clean : (Console.boot t files m).save.mem.saveDirty = false := by
  cases t <;> rfl

theorem boot_backing :
    (Console.boot t files m).save.backing =
      attach (loadInto (blank t)) (files (saveExt t)) := by
  obtain ⟨heep, hram⟩ := @boot_cart M t files m
  unfold SaveMemory.backing attach
  rw [boot_saveType, boot_clean, heep, hram]
  split_ifs <;> rfl

theorem boot_fits : Fits t (Console.boot t files m).save := by
  obtain ⟨heep, hram⟩ := @boot_cart M t files m
  refine ⟨boot_saveType, ?_, ?_, fun p => ?_⟩
  · rw [heep]
    split_ifs
    · rw [length_loadInto, length_blank]
    · rfl
  · rw [hram]
    split_ifs
    · rfl
    · rw [length_loadInto, length_blank]
  · have hpak := congrArg (fun b => b.data.length) (@boot_pak M t files m p)
    exact hpak.trans ((length_loadInto _ _).trans length_mempakFormat)

end Boot

/-! ## Section 5: Sessions -/

/-- The invariant for the cartridge. -/
structure Kept (t : SaveType) (s : Console M) : Prop where
  path : s.saveFilePath = if t = .none then none else some (saveExt t)
  fits : Fits t s.save
  synced : Synced (loadInto (blank t)) (s.files (saveExt t)) s.save.backing

/-- The invariant for the pak of a port. -/
def PakKept (p : Fin 4) (s : Console M) : Prop :=
  Synced (loadInto mempakFormat) (s.files (.mpk p)) (s.save.mem.padPort p).pak

variable {t : SaveType} {s s' : Console M} {p : Fin 4}

theorem boot_kept (files : Files) (m : Si.Memory M) : Kept t (Console.boot t files m) := by
  refine ⟨rfl, boot_fits, ?_⟩
  rw [boot_backing]
  exact synced_attach

theorem boot_pakKept (files : Files) (m : Si.Memory M) : PakKept p (Console.boot t files m) := by
  unfold PakKept
  rw [boot_pak]
  exact synced_attach

theorem Kept.stores (h : Kept t s) {save : SaveMemory M} (hst : s.save.Stores save) :
    Kept t { s with save := save } :=
  ⟨h.path, h.fits.stores hst, h.synced.next hst.backing⟩

/-- What the steps of the game itself do to the console. -/
theorem step_stores {l : Label M} (h : step t s l s') (hload : l.isLoad = false)
    (hrestart : l.isRestart = false) :
    ∃ save, s' = { s with save := save } ∧ s.save.Stores save := by
  cases l with
  | write phys value nbytes => exact ⟨_, h, SaveMemory.cpuWrite_stores _ _ _⟩
  | dma toCart r rdram =>
    obtain ⟨out, hout, rfl⟩ := h
    exact ⟨_, rfl, SaveMemory.piDma_stores hout⟩
  | joybus H hardened pifram =>
    obtain ⟨r, hr, rfl⟩ := h
    have haside : s.save.mem.Stores { s.save.mem with pifram := pifram } := .aside rfl rfl rfl
    exact ⟨_, rfl, .joybus (haside.trans (Si.pifProcessJoybus_stores hr))⟩
  | load m => cases hload
  | restart tainted m => cases hrestart

theorem step_kept {l : Label M} (h : step t s l s') (hs : Kept t s) : Kept t s' := by
  cases l with
  | load m =>
    obtain ⟨hfits, rfl⟩ := h
    refine ⟨hs.path, ⟨hfits.saveType, hfits.eeprom, hfits.saveRam, hfits.paks⟩, ?_⟩
    exact fun hclean => nomatch hclean
  | restart tainted m =>
    cases h
    exact boot_kept _ _
  | _ =>
    obtain ⟨save, rfl, hst⟩ := step_stores h rfl rfl
    exact hs.stores hst

theorem run_kept {tr} (hr : (sessions (M := M) t).Run tr s) : Kept t s := by
  induction hr with
  | init h =>
    obtain ⟨files, m, rfl⟩ := h
    exact boot_kept files m
  | step _ hs ih => exact step_kept hs ih

theorem run_pakKept {tr} (hr : (sessions (M := M) t).Run tr s) (hun : Unloaded tr) (p : Fin 4) :
    PakKept p s := by
  induction hr with
  | init h =>
    obtain ⟨files, m, rfl⟩ := h
    exact boot_pakKept files m
  | @step tr s l s' _ hs ih =>
    unfold Unloaded at hun
    rw [List.takeWhile_cons] at hun
    cases hrestart : l.isRestart with
    | true =>
      cases l with
      | restart tainted m =>
        cases hs
        exact boot_pakKept _ _
      | _ => cases hrestart
    | false =>
      rw [hrestart, Bool.not_false, if_pos rfl, List.forall_mem_cons] at hun
      obtain ⟨save, rfl, hst⟩ := step_stores hs hun.1 hrestart
      exact (ih hun.2).next (hst.mem.ports p).next

theorem storeFrom_apply {e e' : Ext} {back : Bytes} (hback : back ≠ []) (files : Files) :
    storeFrom (some e) back files e' = if e' = e then some back else files e' := by
  change (if back = [] then files else Function.update files e (some back)) e' = _
  rw [if_neg hback, Function.update_apply]

theorem storeFrom_of_ne {e e' : Ext} (h : e' ≠ e) (back : Bytes) (files : Files) :
    storeFrom (some e) back files e' = files e' := by
  change (if back = [] then files else Function.update files e (some back)) e' = _
  split_ifs
  · rfl
  · exact Function.update_of_ne h _ _

theorem mpk_ne_saveExt (p : Fin 4) (t : SaveType) : Ext.mpk p ≠ saveExt t := by
  cases t <;> exact nofun

theorem storePak_apply (hfits : Fits t s.save) (files : Files) (q : Fin 4) :
    s.storePak files q (.mpk p) =
      if p = q then flush id (files (.mpk p)) (s.save.mem.padPort p).pak else files (.mpk p) := by
  have hpak : (s.save.mem.padPort q).mempak ≠ [] := by
    intro hnil
    have hlen := hfits.paks q
    rw [hnil] at hlen
    cases hlen
  unfold Console.storePak
  by_cases hpq : p = q
  · subst hpq
    rw [if_pos rfl]
    unfold flush PadPort.pak
    split_ifs
    · rw [storeFrom_apply hpak, if_pos rfl]
      rfl
    · rfl
  · rw [if_neg hpq]
    split_ifs
    · exact storeFrom_of_ne (fun heq => hpq (Ext.mpk.inj heq)) _ _
    · rfl

theorem storePak_cart (files : Files) (q : Fin 4) :
    s.storePak files q (saveExt t) = files (saveExt t) := by
  unfold Console.storePak
  split_ifs
  · exact storeFrom_of_ne (mpk_ne_saveExt q t).symm _ _
  · rfl

theorem foldl_storePak (hfits : Fits t s.save) (ps : List (Fin 4)) (files : Files) :
    ps.foldl s.storePak files (.mpk p) =
      if ps.contains p then flush id (files (.mpk p)) (s.save.mem.padPort p).pak
      else files (.mpk p) := by
  induction ps generalizing files with
  | nil => rfl
  | cons q ps ih =>
    rw [List.foldl_cons, ih, storePak_apply hfits]
    by_cases hpq : p = q
    · subst hpq
      rw [if_pos rfl, List.contains_cons, beq_self_eq_true, Bool.true_or, if_pos rfl]
      unfold flush
      split_ifs <;> rfl
    · rw [if_neg hpq, List.contains_cons, beq_eq_false_iff_ne.mpr hpq, Bool.false_or]

theorem flushPaks_pak (hfits : Fits t s.save) :
    s.flushPaks (.mpk p) = flush id (s.files (.mpk p)) (s.save.mem.padPort p).pak :=
  (foldl_storePak hfits _ _).trans (if_pos (List.contains_iff_mem.mpr (List.mem_finRange p)))

theorem flushPaks_cart : s.flushPaks (saveExt t) = s.files (saveExt t) := by
  unfold Console.flushPaks
  generalize s.files = files
  induction List.finRange 4 generalizing files with
  | nil => rfl
  | cons q ps ih => exact (ih _).trans (storePak_cart files q)

theorem flush_pak (hs : Kept t s) :
    s.flushSaveFile false (.mpk p) =
      flush id (s.files (.mpk p)) (s.save.mem.padPort p).pak := by
  rw [← flushPaks_pak hs.fits]
  unfold Console.flushSaveFile
  rw [if_neg Bool.false_ne_true, hs.path]
  by_cases hnone : t = .none
  · rw [if_pos hnone, if_pos (.inl rfl)]
  · rw [if_neg hnone]
    split
    · rfl
    · exact storeFrom_of_ne (mpk_ne_saveExt p t) _ _

theorem flush_cart (hs : Kept t s) (hnone : t ≠ .none) :
    s.flushSaveFile false (saveExt t) = flush id (s.files (saveExt t)) s.save.backing := by
  have hback : s.save.backing.data ≠ [] := by
    intro hnil
    have hlen := hs.fits.length_backing
    rw [hnil] at hlen
    cases t <;> first | exact absurd rfl hnone | cases hlen
  have hdata : (if isEeprom t then s.save.mem.eeprom else s.save.saveRam) = s.save.backing.data := by
    unfold SaveMemory.backing
    rw [hs.fits.saveType]
  rw [← flushPaks_cart]
  unfold Console.flushSaveFile flush
  rw [if_neg Bool.false_ne_true, hs.path, if_neg hnone, hs.fits.saveType, hdata]
  have hdirty : s.save.backing.dirty = s.save.mem.saveDirty := rfl
  rw [hdirty]
  cases s.save.mem.saveDirty with
  | false => rw [if_pos (.inr (.inr rfl)), if_neg Bool.false_ne_true]
  | true =>
    rw [if_neg (by simp [hnone]), if_pos rfl, storeFrom_apply hback, if_pos rfl]
    rfl

theorem restart_backing (hs : Kept t s) (m : Si.Memory M) :
    (s.restart t false m).save.backing.data = s.save.backing.data := by
  have hlen := hs.fits.length_backing
  unfold Console.restart
  rw [boot_backing]
  change loadInto (blank t) _ = _
  by_cases hnone : t = .none
  · have hempty : s.save.backing.data = [] := by
      apply List.eq_nil_of_length_eq_zero
      rw [hlen, hnone]
      rfl
    rw [hempty]
    apply List.eq_nil_of_length_eq_zero
    rw [length_loadInto, length_blank, hnone]
    rfl
  · rw [flush_cart hs hnone]
    exact hs.synced.reload (loadInto_self (hlen.trans length_blank.symm))

theorem restart_pak (hs : Kept t s) (hpak : PakKept p s) (m : Si.Memory M) :
    ((s.restart t false m).save.mem.padPort p).mempak = (s.save.mem.padPort p).mempak := by
  have hboot := @boot_pak M t (s.flushSaveFile false) m p
  have hdata : ((s.restart t false m).save.mem.padPort p).mempak =
      loadInto mempakFormat (s.flushSaveFile false (.mpk p)) := congrArg Buffer.data hboot
  rw [hdata, flush_pak hs]
  exact hpak.reload (loadInto_self ((hs.fits.paks p).trans length_mempakFormat.symm))

/-- **The save memory and the paks survive the end of the emulator**, at every
    point of every session. -/
theorem saves_survive {tr} (hr : (sessions (M := M) t).Run tr s) (m : Si.Memory M) :
    (s.restart t false m).save.mem.eeprom = s.save.mem.eeprom ∧
      (s.restart t false m).save.saveRam = s.save.saveRam ∧
      ∀ p, Unloaded tr ∨ (s.save.mem.padPort p).mempakDirty = true →
        ((s.restart t false m).save.mem.padPort p).mempak = (s.save.mem.padPort p).mempak := by
  have hs := run_kept hr
  have hfits : Fits t (s.restart t false m).save := boot_fits
  have hback := restart_backing hs m
  unfold SaveMemory.backing at hback
  rw [hfits.saveType, hs.fits.saveType] at hback
  refine ⟨?_, ?_, fun p hp => restart_pak hs ?_ m⟩
  · have heep := hs.fits.eeprom
    have heep' := hfits.eeprom
    split_ifs at hback heep heep'
    · exact hback
    · rw [List.eq_nil_of_length_eq_zero heep, List.eq_nil_of_length_eq_zero heep']
  · have hram := hs.fits.saveRam
    have hram' := hfits.saveRam
    split_ifs at hback hram hram'
    · rw [List.eq_nil_of_length_eq_zero hram, List.eq_nil_of_length_eq_zero hram']
    · exact hback
  · rcases hp with hun | hdirty
    · exact run_pakKept hr hun p
    · intro hclean
      exact absurd (hdirty.symm.trans hclean) Bool.true_eq_false_eq_False

/-- A machine with nothing plugged in. -/
def bare : Si.Memory Unit where
  pifram := []
  padPort := fun _ => {}
  padRemote := fun _ => {}
  padPolls := 0
  eeprom := []
  saveType := .none
  saveDirty := false
  rtc := {}
  movie := ()

/-- A byte stored to SRAM. -/
theorem saves_survive_byte :
    let s : Console Unit := .boot .sram256k (fun _ => none) bare
    let s' : Console Unit := { s with save := s.save.cpuWrite 0x08000000 0x42 1 }
    (s'.restart .sram256k false bare).save.saveRam = s'.save.saveRam := by
  intro s s'
  have hr : (sessions .sram256k).Run [(s, .write 0x08000000 0x42 1)] s' :=
    .step (.init ⟨_, _, rfl⟩) rfl
  exact (saves_survive hr bare).2.1

end Cart
