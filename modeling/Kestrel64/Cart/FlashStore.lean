import Kestrel64.Cart.SaveFile

/-! # Cartridge: FlashRAM as a Store of Pages

    What a game that follows the protocol of the chip gets: an array of 1024
    pages that are erased by the sector or all at once, and programmed one at a
    time.

    The abstract model is `Chip`, and `Op` is what the driver of a game does to
    it. `Does` is the script of an operation on the emulator: the commands, and
    the transfer into the page buffer. Between two operations anything may
    happen that neither erases nor programs, the end of the emulator included.

    `flash_reads`: in every run a transfer in read mode finds the pages of the
    abstract chip, from the page that it asks for.
-/

namespace Cart

open LTS
open Si (SaveType)

/-! ## Section 1: The abstract chip -/

abbrev Chip := Fin 1024 → Fin 128 → Byte

/-- Byte `a` of the chip, and 0 behind the last page. -/
def Chip.at' (c : Chip) (a : Nat) : Byte :=
  if h : a < 1024 * 128 then c ⟨a / 128, by omega⟩ ⟨a % 128, by omega⟩ else 0

inductive Op (M : Type) where
  /-- The 128 pages around `page`. -/
  | eraseSector (page : BitVec 16)
  | eraseChip
  | program (page : BitVec 16) (data : Fin 128 → Byte)
  /-- A step that neither erases nor programs. -/
  | idle (l : Label M)

def Op.apply {M : Type} (c : Chip) : Op M → Chip
  | .eraseSector page => fun p k => if p.val / 128 = page.toNat / 128 then 0xFF else c p k
  | .eraseChip => fun _ _ => 0xFF
  | .program page data => fun p k => if p.val = page.toNat then data k else c p k
  | .idle _ => c

/-! ## Section 2: The driver -/

/-- The word that carries a command and a page. -/
def command (op : BitVec 8) (page : BitVec 16) : BitVec 32 :=
  BitVec.ofNat 32 (op.toNat * 0x1000000 + page.toNat)

/-- A word for the command register. -/
def isCommand (phys : Nat) : Prop := isSaveDomain phys = true ∧ 0x10000 ≤ phys % 0x20000

variable {M : Type}

/-- `cmd` is written to the command register. -/
def Commands (s : Console M) (cmd : BitVec 32) (s' : Console M) : Prop :=
  ∃ phys value nbytes, isCommand phys ∧ value.setWidth 32 = cmd ∧
    step .flash1m s (.write phys value nbytes) s'

/-- Neither `0x78` nor `0xA5`, nor a state of another moment; nor the end of a
    guest's game, whose files stay as they are. -/
def Idle : Label M → Prop
  | .write phys value _ =>
      isCommand phys → value.setWidth 32 >>> 24 ≠ (0x78 : BitVec 32) ∧
        value.setWidth 32 >>> 24 ≠ (0xA5 : BitVec 32)
  | .dma _ _ _ => True
  | .joybus _ _ _ => True
  | .load _ => False
  | .restart tainted _ => tainted = false

/-- The script of an operation. -/
def Does (s : Console M) (op : Op M) (s' : Console M) : Prop :=
  match op with
  | .eraseSector page =>
      ∃ s₁, Commands s (command 0x4B page) s₁ ∧ ∃ any, Commands s₁ (command 0x78 any) s'
  | .eraseChip =>
      ∃ any s₁, Commands s (command 0x3C any) s₁ ∧ ∃ any, Commands s₁ (command 0x78 any) s'
  | .program page data =>
      ∃ any s₁ s₂ r rdram, Commands s (command 0xB4 any) s₁ ∧
        r.cart = BASE_SAVE ∧ r.len true = 128 ∧
        (∀ k : Fin 128, rdram.getD (r.dram + k) 0 = data k) ∧
        step .flash1m s₁ (.dma true r rdram) s₂ ∧ Commands s₂ (command 0xA5 page) s'
  | .idle l => Idle l ∧ step .flash1m s l s'

/-- What the array holds. -/
def Console.chip (s : Console M) : Chip := fun p k => s.save.saveRam.getD (p * 128 + k) 0

/-- A game that follows the protocol, beside the abstract chip. -/
def driver (M : Type) : System (Console M × Chip) (Op M) where
  init := fun x => ∃ files m, x = (.boot .flash1m files m, (Console.boot .flash1m files m).chip)
  step := fun x op x' => Does x.1 op x'.1 ∧ x'.2 = op.apply x.2

/-! ## Section 3: Loops and words -/

theorem getD_storeAt (n base : Nat) (f : Nat → Byte) (a : Bytes) (j : Nat) :
    (storeAt n base f a).getD j 0 =
      if base ≤ j ∧ j < base + n ∧ j < a.length then f (j - base) else a.getD j 0 := by
  induction n with
  | zero =>
    rw [if_neg (by omega)]
    rfl
  | succ n ih =>
    have hlen := length_storeAt n base f a
    have hstep : storeAt (n + 1) base f a =
        if base + n < (storeAt n base f a).length then (storeAt n base f a).set (base + n) (f n)
        else storeAt n base f a := by
      unfold storeAt
      rw [List.range_succ, List.foldl_append, List.foldl_cons, List.foldl_nil]
    rw [hstep, hlen]
    by_cases hj : j = base + n
    · subst hj
      by_cases hin : base + n < a.length
      · rw [if_pos hin, if_pos (by omega), List.getD_eq_getElem _ _ (by
          rw [List.length_set, hlen]
          exact hin), List.getElem_set_self, Nat.add_sub_cancel_left]
      · rw [if_neg hin, if_neg (by omega), ih, if_neg (by omega)]
    · have hset : ((storeAt n base f a).set (base + n) (f n)).getD j 0 =
          (storeAt n base f a).getD j 0 := by
        rw [List.getD_eq_getElem?_getD, List.getElem?_set_ne (Ne.symm hj),
          ← List.getD_eq_getElem?_getD]
      have hcond : (base ≤ j ∧ j < base + (n + 1) ∧ j < a.length) ↔
          (base ≤ j ∧ j < base + n ∧ j < a.length) := by omega
      rw [if_congr hcond rfl rfl, ← ih]
      split_ifs
      · exact hset
      · rfl

theorem command_toNat (op : BitVec 8) (page : BitVec 16) :
    (command op page).toNat = op.toNat * 0x1000000 + page.toNat := by
  have hop := op.isLt
  have hpage := page.isLt
  unfold command
  rw [BitVec.toNat_ofNat]
  omega

theorem command_op (op : BitVec 8) (page : BitVec 16) :
    command op page >>> 24 = op.setWidth 32 := by
  have hpage := page.isLt
  apply BitVec.eq_of_toNat_eq
  rw [BitVec.toNat_ushiftRight, command_toNat, Nat.shiftRight_eq_div_pow,
    BitVec.toNat_setWidth_of_le (by decide)]
  omega

theorem and_ffff (x : BitVec 32) : (x &&& 0xffff).toNat = x.toNat % 0x10000 := by
  rw [BitVec.toNat_and]
  exact Nat.and_two_pow_sub_one_eq_mod x.toNat 16

theorem command_page (op : BitVec 8) (page : BitVec 16) :
    (command op page &&& 0xffff).toNat = page.toNat := by
  have hpage := page.isLt
  rw [and_ffff, command_toNat]
  omega

/-! ## Section 4: What every access keeps -/

/-- The silicon id and the size of the page buffer. -/
structure SaveMemory.Wired (s s' : SaveMemory M) : Prop where
  id : s'.flashStatus.setWidth 32 = s.flashStatus.setWidth 32
  buf : s'.flashPageBuf.length = s.flashPageBuf.length

namespace SaveMemory

variable {s s' s'' : SaveMemory M}

theorem Wired.refl (s : SaveMemory M) : s.Wired s := ⟨rfl, rfl⟩

theorem Wired.trans (h₁ : s.Wired s') (h₂ : s'.Wired s'') : s.Wired s'' :=
  ⟨h₂.id.trans h₁.id, h₂.buf.trans h₁.buf⟩

theorem withSr_id (sr : BitVec 64) :
    (s.withSr sr).flashStatus.setWidth 32 = s.flashStatus.setWidth 32 := by
  unfold withSr
  apply BitVec.eq_of_getLsbD_eq
  intro i hi
  have hmask : ((0xff : BitVec 64) <<< 32).getLsbD i = false := by
    rw [BitVec.getLsbD_shiftLeft]
    simp [hi]
  simp only [BitVec.getLsbD_setWidth, BitVec.getLsbD_or, BitVec.getLsbD_and, BitVec.getLsbD_not,
    hmask, BitVec.getLsbD_shiftLeft, hi, decide_true, Bool.not_true, Bool.and_false, Bool.false_and,
    Bool.or_false, Bool.true_and, Bool.not_false, Bool.and_true]
  have hi' : i < 64 := by omega
  simp [hi']

theorem flashCommand_wired (cmd : BitVec 32) : s.Wired (s.flashCommand cmd) := by
  unfold flashCommand
  split_ifs
  · exact ⟨withSr_id _, rfl⟩
  · exact ⟨rfl, rfl⟩
  · exact ⟨rfl, rfl⟩
  · exact ⟨rfl, rfl⟩
  · exact ⟨rfl, rfl⟩
  · exact ⟨withSr_id _, rfl⟩
  · exact ⟨rfl, rfl⟩
  · exact ⟨withSr_id _, rfl⟩
  · exact .refl s

theorem saveWrite_wired (phys : Nat) (value : BitVec 64) (nbytes : Nat) :
    s.Wired (s.saveWrite phys value nbytes) := by
  unfold saveWrite
  split_ifs
  · exact flashCommand_wired _
  · exact ⟨withSr_id _, rfl⟩
  · exact .refl s
  · exact ⟨rfl, length_storeAt _ _ _ _⟩
  · cases s.saveOffset phys <;> exact ⟨rfl, rfl⟩
  · exact .refl s

theorem cpuWrite_wired (phys : Nat) (value : BitVec 64) (nbytes : Nat) :
    s.Wired (s.cpuWrite phys value nbytes) := by
  unfold cpuWrite
  split_ifs
  · exact saveWrite_wired _ _ _
  · exact .refl s

theorem dmaIn_wired (rdram : Bytes) (cart dram len : Nat) :
    s.Wired (s.dmaIn rdram cart dram len) := by
  unfold dmaIn
  induction len with
  | zero => exact .refl s
  | succ len ih =>
    rw [List.range_succ, List.foldl_append, List.foldl_cons, List.foldl_nil]
    exact ih.trans (saveWrite_wired _ _ _)

/-! ### Nothing but the two commands changes the array -/

theorem flashCommand_saveRam {cmd : BitVec 32} (herase : cmd >>> 24 ≠ 0x78)
    (hprogram : cmd >>> 24 ≠ 0xA5) : (s.flashCommand cmd).saveRam = s.saveRam := by
  unfold flashCommand
  split_ifs <;> rfl

theorem saveWrite_saveRam {phys : Nat} {value : BitVec 64} (nbytes : Nat)
    (htype : s.mem.saveType = .flash1m)
    (hcmd : 0x10000 ≤ phys % 0x20000 → value.setWidth 32 >>> 24 ≠ (0x78 : BitVec 32) ∧
      value.setWidth 32 >>> 24 ≠ (0xA5 : BitVec 32)) :
    (s.saveWrite phys value nbytes).saveRam = s.saveRam := by
  have hflash : isFlash s.mem.saveType = true := by
    rw [htype]
    rfl
  unfold saveWrite
  split_ifs with hreg
  · obtain ⟨herase, hprogram⟩ := hcmd hreg.2
    exact flashCommand_saveRam herase hprogram
  · rfl
  · rfl
  · rfl

theorem dmaIn_saveRam (rdram : Bytes) (cart dram len : Nat) (htype : s.mem.saveType = .flash1m) :
    (s.dmaIn rdram cart dram len).saveRam = s.saveRam := by
  -- A transfer writes bytes, which are no commands.
  have hbyte (b : Byte) : (b.setWidth 64).setWidth 32 >>> 24 = (0 : BitVec 32) := by
    apply BitVec.eq_of_toNat_eq
    have hb := b.isLt
    rw [BitVec.toNat_ushiftRight, Nat.shiftRight_eq_div_pow, BitVec.toNat_setWidth,
      BitVec.toNat_setWidth]
    show _ = 0
    omega
  unfold dmaIn
  induction len with
  | zero => rfl
  | succ len ih =>
    rw [List.range_succ, List.foldl_append, List.foldl_cons, List.foldl_nil]
    have hst : s.Stores (s.dmaIn rdram cart dram len) := dmaIn_stores _ _ _ _
    refine (saveWrite_saveRam 1 (hst.mem.saveType.trans htype) fun _ => ?_).trans ih
    rw [hbyte]
    exact ⟨by decide, by decide⟩

end SaveMemory

/-- The invariant. -/
structure Ready (s : Console M) : Prop where
  kept : Kept .flash1m s
  id : s.save.flashStatus.setWidth 32 = 0x00C2001E
  buf : s.save.flashPageBuf.length = 128

variable {s s' : Console M} {cmd : BitVec 32}

theorem boot_ready (files : Files) (m : Si.Memory M) : Ready (.boot .flash1m files m) := by
  have hstatus : (Console.boot .flash1m files m).save.flashStatus = 0x1111800100C2001E := rfl
  refine ⟨boot_kept files m, ?_, rfl⟩
  rw [hstatus]
  decide

theorem Ready.wired (hs : Ready s) {save : SaveMemory M} (hst : s.save.Stores save)
    (hw : s.save.Wired save) : Ready { s with save := save } :=
  ⟨hs.kept.stores hst, hw.id.trans hs.id, hw.buf.trans hs.buf⟩

theorem Ready.commands (hs : Ready s) (h : Commands s cmd s') :
    s' = { s with save := s.save.flashCommand cmd } ∧ Ready s' := by
  obtain ⟨phys, value, nbytes, hreg, rfl, rfl⟩ := h
  have hwrite : s.save.cpuWrite phys value nbytes = s.save.flashCommand (value.setWidth 32) := by
    unfold SaveMemory.cpuWrite SaveMemory.saveWrite
    rw [hs.kept.fits.saveType, if_pos ⟨hreg.1, by decide⟩, if_pos ⟨rfl, hreg.2⟩]
  rw [hwrite]
  exact ⟨rfl, hs.wired (SaveMemory.flashCommand_stores _) (SaveMemory.flashCommand_wired _)⟩

/-- A step of the driver that neither erases nor programs. -/
theorem Ready.idle (hs : Ready s) {l : Label M} (hidle : Idle l) (h : step .flash1m s l s') :
    s'.chip = s.chip ∧ Ready s' := by
  have htype := hs.kept.fits.saveType
  cases l with
  | write phys value nbytes =>
    cases h
    refine ⟨?_, hs.wired (SaveMemory.cpuWrite_stores _ _ _) (SaveMemory.cpuWrite_wired _ _ _)⟩
    have hram : (s.save.cpuWrite phys value nbytes).saveRam = s.save.saveRam := by
      unfold SaveMemory.cpuWrite
      split_ifs with hdom
      · exact SaveMemory.saveWrite_saveRam nbytes htype fun hreg => hidle ⟨hdom.1, hreg⟩
      · rfl
    unfold Console.chip
    rw [hram]
  | dma toCart r rdram =>
    obtain ⟨out, hout, rfl⟩ := h
    have hst := SaveMemory.piDma_stores hout
    cases toCart with
    | true =>
      have hin := SaveMemory.piDma_toCart hout
      refine ⟨?_, hs.wired hst (hin ▸ SaveMemory.dmaIn_wired _ _ _ _)⟩
      unfold Console.chip
      dsimp only
      rw [hin, SaveMemory.dmaIn_saveRam _ _ _ _ htype]
    | false =>
      have hin := (SaveMemory.piDma_toRam hout).1
      refine ⟨?_, hs.wired hst (hin ▸ .refl _)⟩
      unfold Console.chip
      dsimp only
      rw [hin]
  | joybus H hardened pifram =>
    have hkept := step_kept h hs.kept
    obtain ⟨r, _, rfl⟩ := h
    exact ⟨rfl, hkept, hs.id, hs.buf⟩
  | load m => exact hidle.elim
  | restart tainted m =>
    cases hidle
    cases h
    refine ⟨?_, boot_ready _ _⟩
    have hback := restart_backing hs.kept m
    unfold SaveMemory.backing at hback
    unfold Console.restart at hback
    rw [htype, boot_saveType] at hback
    unfold Console.chip
    exact congrArg (fun a : Bytes => fun (p : Fin 1024) (k : Fin 128) => a.getD (p * 128 + k) 0) hback

/-! ## Section 5: Operations -/

theorem Ready.size (hs : Ready s) : s.save.saveRam.length = 1024 * 128 := hs.kept.fits.saveRam

theorem and_ff80 (page : BitVec 16) : page.toNat &&& 0xff80 = page.toNat / 128 * 128 := by
  have hbits : page &&& (0xff80 : BitVec 16) = page >>> 7 <<< 7 := by
    apply BitVec.eq_of_getLsbD_eq
    intro i hi
    interval_cases i <;> simp
  have hand : (page &&& (0xff80 : BitVec 16)).toNat = page.toNat &&& 0xff80 :=
    BitVec.toNat_and page 0xff80
  have hpage := page.isLt
  rw [← hand, hbits, BitVec.toNat_shiftLeft, BitVec.toNat_ushiftRight, Nat.shiftLeft_eq,
    Nat.shiftRight_eq_div_pow]
  omega

theorem eraseRange_sector {page : BitVec 16} {save : SaveMemory M}
    (h : save.flashErasePage = command 0x4B page &&& 0xffff) :
    save.eraseRange = (page.toNat / 128 * 128 * 128, 128 * 128) := by
  have hpage := page.isLt
  have hnat : save.flashErasePage.toNat = page.toNat := by rw [h, command_page]
  have hne : save.flashErasePage ≠ 0xffffffff := by
    intro hall
    have hmax : save.flashErasePage.toNat = 0xffffffff := by rw [hall]; rfl
    omega
  have hand : (save.flashErasePage &&& 0xff80).toNat = save.flashErasePage.toNat &&& 0xff80 :=
    BitVec.toNat_and _ 0xff80
  unfold SaveMemory.eraseRange
  rw [if_pos hne, hand, hnat, and_ff80]

theorem flashCommand_erase (save : SaveMemory M) (any : BitVec 16) :
    save.flashCommand (command 0x78 any) = save.flashErase := by
  unfold SaveMemory.flashCommand
  rw [command_op]
  rfl

theorem chip_erase (hs : Ready s) (hsave : s'.save = s.save.flashErase) {base len : Nat}
    (hrange : s.save.eraseRange = (base, len)) :
    s'.chip = fun p k =>
      if base ≤ p.val * 128 + k.val ∧ p.val * 128 + k.val < base + len then 0xFF
      else s.chip p k := by
  funext p k
  have hp := p.isLt
  have hk := k.isLt
  have hsize := hs.size
  unfold Console.chip
  rw [hsave, SaveMemory.flashErase_saveRam, hrange, getD_storeAt]
  refine if_congr ?_ rfl rfl
  omega

theorem Ready.eraseSector (hs : Ready s) {page : BitVec 16} (h : Does s (.eraseSector page) s') :
    s'.chip = Op.apply (M := M) s.chip (.eraseSector page) ∧ Ready s' := by
  obtain ⟨s₁, hselect, any, herase⟩ := h
  obtain ⟨rfl, hs₁⟩ := hs.commands hselect
  obtain ⟨rfl, hs'⟩ := hs₁.commands herase
  have hsel : s.save.flashCommand (command 0x4B page) =
      { s.save with flashErasePage := command 0x4B page &&& 0xffff } := by
    unfold SaveMemory.flashCommand
    rw [command_op]
    rfl
  have hrange := @eraseRange_sector _ _ (s.save.flashCommand (command 0x4B page)) (by rw [hsel])
  refine ⟨?_, hs'⟩
  rw [chip_erase hs₁ (flashCommand_erase _ any) hrange]
  funext p k
  have hram : (s.save.flashCommand (command 0x4B page)).saveRam = s.save.saveRam := by rw [hsel]
  have hp := p.isLt
  have hk := k.isLt
  unfold Console.chip Op.apply
  rw [hram]
  refine if_congr ?_ rfl rfl
  omega

theorem Ready.eraseChip (hs : Ready s) (h : Does s .eraseChip s') :
    s'.chip = Op.apply (M := M) s.chip .eraseChip ∧ Ready s' := by
  obtain ⟨any, s₁, hselect, any', herase⟩ := h
  obtain ⟨rfl, hs₁⟩ := hs.commands hselect
  obtain ⟨rfl, hs'⟩ := hs₁.commands herase
  have hsel : (s.save.flashCommand (command 0x3C any)).flashErasePage = 0xffffffff := by
    unfold SaveMemory.flashCommand
    rw [command_op]
    rfl
  have hrange : (s.save.flashCommand (command 0x3C any)).eraseRange = (0, 1024 * 128) := by
    unfold SaveMemory.eraseRange
    rw [if_neg (not_not.mpr hsel), hs₁.size]
  refine ⟨?_, hs'⟩
  rw [chip_erase hs₁ (flashCommand_erase _ any') hrange]
  funext p k
  have hp := p.isLt
  have hk := k.isLt
  exact if_pos (by omega)

/-- The transfer into the page buffer. -/
theorem dmaIn_buffer {save : SaveMemory M} (htype : save.mem.saveType = .flash1m)
    (hmode : save.flashMode = .write) (hbuf : save.flashPageBuf.length = 128) (rdram : Bytes)
    (dram : Nat) {n : Nat} (hn : n ≤ 128) :
    ∃ buf, save.dmaIn rdram BASE_SAVE dram n = { save with flashPageBuf := buf } ∧
      buf.length = 128 ∧ ∀ k < n, buf.getD k 0 = rdram.getD (dram + k) 0 := by
  induction n with
  | zero => exact ⟨save.flashPageBuf, rfl, hbuf, nofun⟩
  | succ n ih =>
    obtain ⟨buf, hdma, hlen, hbytes⟩ := ih (by omega)
    have hstep : save.dmaIn rdram BASE_SAVE dram (n + 1) =
        (save.dmaIn rdram BASE_SAVE dram n).saveWrite (BASE_SAVE + n)
          ((rdram.getD (dram + n) 0).setWidth 64) 1 := by
      unfold SaveMemory.dmaIn
      rw [List.range_succ, List.foldl_append, List.foldl_cons, List.foldl_nil]
    have hreg : ¬ 0x10000 ≤ (BASE_SAVE + n) % 0x20000 := by
      unfold BASE_SAVE
      omega
    have hoff : (BASE_SAVE + n - BASE_SAVE) % 0x80 = n := by omega
    have hbyte (b : Byte) : SaveMemory.valueByte (b.setWidth 64) 1 0 = b := by
      unfold SaveMemory.valueByte
      simp
    refine ⟨storeAt 1 n (SaveMemory.valueByte ((rdram.getD (dram + n) 0).setWidth 64) 1) buf,
      ?_, (length_storeAt _ _ _ _).trans hlen, fun k hk => ?_⟩
    · rw [hstep, hdma]
      unfold SaveMemory.saveWrite
      dsimp only
      rw [htype, hmode, hoff, if_neg (fun h => hreg h.2), if_pos (show isFlash .flash1m = true from rfl),
        if_neg (by decide)]
    · rw [getD_storeAt]
      by_cases hkn : k = n
      · subst hkn
        rw [if_pos (by omega), Nat.sub_self, hbyte]
      · rw [if_neg (by omega)]
        exact hbytes k (by omega)

theorem Ready.program (hs : Ready s) {page : BitVec 16} {data : Fin 128 → Byte}
    (h : Does s (.program page data) s') :
    s'.chip = Op.apply (M := M) s.chip (.program page data) ∧ Ready s' := by
  obtain ⟨any, s₁, s₂, r, rdram, hopen, hcart, hlen, hdata, hdma, hprogram⟩ := h
  obtain ⟨rfl, hs₁⟩ := hs.commands hopen
  have hready := hs₁.idle (l := .dma true r rdram) trivial hdma
  obtain ⟨rfl, hs'⟩ := hready.2.commands hprogram
  have hsel : s.save.flashCommand (command 0xB4 any) = { s.save with flashMode := .write } := by
    unfold SaveMemory.flashCommand
    rw [command_op]
    rfl
  obtain ⟨out, hout, rfl⟩ := hdma
  obtain ⟨buf, hbuf, hbuflen, hbytes⟩ :=
    @dmaIn_buffer _ (s.save.flashCommand (command 0xB4 any)) hs₁.kept.fits.saveType
      (by rw [hsel]) hs₁.buf rdram r.dram _ le_rfl
  have hsave : out.1 = { s.save with flashMode := .write, flashPageBuf := buf } := by
    rw [SaveMemory.piDma_toCart hout, hcart, hlen, hbuf, hsel]
  refine ⟨?_, hs'⟩
  have hcmd : out.1.flashCommand (command 0xA5 page) = out.1.flashProgram (command 0xA5 page) := by
    unfold SaveMemory.flashCommand
    rw [command_op]
    rfl
  funext p k
  have hp := p.isLt
  have hk := k.isLt
  have hsize := hs.size
  unfold Console.chip Op.apply
  dsimp only
  rw [hcmd, SaveMemory.flashProgram_saveRam, hsave]
  dsimp only
  rw [command_page, getD_storeAt]
  by_cases hpage : p.val = page.toNat
  · rw [if_pos (by omega), if_pos hpage]
    have hoff : p.val * 128 + k.val - page.toNat * 128 = k.val := by omega
    rw [hoff, hbytes k hk, hdata]
  · rw [if_neg (by omega), if_neg hpage]

theorem Ready.does (hs : Ready s) {op : Op M} (h : Does s op s') :
    s'.chip = op.apply s.chip ∧ Ready s' := by
  cases op with
  | eraseSector page => exact hs.eraseSector h
  | eraseChip => exact hs.eraseChip h
  | program page data => exact hs.program h
  | idle l => exact hs.idle h.1 h.2

/-! ## Section 6: Runs -/

theorem getD_eq_at (hs : Ready s) {a : Nat} : s.save.saveRam.getD a 0 = s.chip.at' a := by
  have hsize := hs.size
  unfold Chip.at'
  split_ifs with ha
  · unfold Console.chip
    have hsplit : a / 128 * 128 + a % 128 = a := by omega
    dsimp only
    rw [hsplit]
  · rw [List.getD_eq_default _ _ (by omega)]

theorem driver_ready {tr} {x : Console M × Chip} (hr : (driver M).Run tr x) :
    Ready x.1 ∧ x.2 = x.1.chip := by
  induction hr with
  | init h =>
    obtain ⟨files, m, rfl⟩ := h
    exact ⟨boot_ready files m, rfl⟩
  | step _ hs ih =>
    obtain ⟨hchip, hready⟩ := ih.1.does hs.1
    exact ⟨hready, by rw [hs.2, ih.2, hchip]⟩

/-- **FlashRAM is a store of pages.** A transfer from the page `p` finds the
    bytes of the abstract chip from there on, whatever the driver has done. -/
theorem flash_reads {tr} {x : Console M × Chip} (hr : (driver M).Run tr x) {any : BitVec 16}
    {s₁ : Console M} (hread : Commands x.1 (command 0xF0 any) s₁) {r : PiRegs} {rdram : Bytes}
    {out} (hdma : s₁.save.piDma false r rdram = some out) {p : Fin 1024}
    (hcart : r.cart = BASE_SAVE + 64 * p) :
    out.2.2 = storeAt (r.len false) r.dram (fun i => x.2.at' (p * 128 + i)) rdram := by
  obtain ⟨hready, hchip⟩ := driver_ready hr
  obtain ⟨rfl, hs₁⟩ := hready.commands hread
  have hsel : x.1.save.flashCommand (command 0xF0 any) = { x.1.save with flashMode := .read } := by
    unfold SaveMemory.flashCommand
    rw [command_op]
    rfl
  have hoff : (x.1.save.flashCommand (command 0xF0 any)).flashArrayOff r.cart = p * 128 := by
    have hp := p.isLt
    unfold SaveMemory.flashArrayOff
    dsimp only
    rw [hs₁.id, if_pos (.inr (.inr rfl)), hcart, Nat.add_sub_cancel_left]
    omega
  have hbyte : (x.1.save.flashCommand (command 0xF0 any)).dmaByte r.cart =
      fun i => x.2.at' (p * 128 + i) := by
    funext i
    unfold SaveMemory.dmaByte
    rw [hs₁.kept.fits.saveType, hoff, if_pos ⟨rfl, by rw [hsel]⟩, hsel, hchip]
    exact getD_eq_at hready
  rw [(SaveMemory.piDma_toRam hdma).2, ← hbyte]

/-- Page 3 is programmed and its first byte read. -/
theorem flash_reads_page :
    ∃ (x : Console Unit × Chip) (s₁ : Console Unit) (out : SaveMemory Unit × PiRegs × Bytes),
      (∃ tr, (driver Unit).Run tr x) ∧ Commands x.1 (command 0xF0 0) s₁ ∧
      s₁.save.piDma false ⟨0x080000C0, 0, 0, 0⟩ [0] = some out ∧ out.2.2 = [0x55] := by
  have hcommand (s : Console Unit) (op : BitVec 8) (page : BitVec 16) :
      ∃ s', Commands s (command op page) s' := by
    refine ⟨_, 0x08010000, (command op page).setWidth 64, 4, ⟨rfl, by decide⟩, ?_, rfl⟩
    rw [BitVec.setWidth_setWidth_of_le _ (by decide), BitVec.setWidth_eq]
  have hdma {s : Console Unit} (hs : Ready s) {r : PiRegs} (hdom : isSaveDomain r.cart)
      (toCart : Bool) (rdram : Bytes) : ∃ out, s.save.piDma toCart r rdram = some out :=
    SaveMemory.piDma_isSome (by rw [hs.kept.fits.saveType]; decide) hdom toCart rdram
  have hs₀ : Ready (Console.boot .flash1m (fun _ => none) bare) := boot_ready _ _
  obtain ⟨s₁, hopen⟩ := hcommand (.boot .flash1m (fun _ => none) bare) 0xB4 0
  obtain ⟨out, hout⟩ := hdma (hs₀.commands hopen).2 (r := ⟨0x08000000, 0, 127, 0⟩) rfl true
    (List.replicate 128 0x55)
  have hdata (k : Fin 128) : (List.replicate 128 (0x55 : Byte)).getD (0 + k) 0 = 0x55 := by
    rw [Nat.zero_add, List.getD_eq_getElem _ _ (by simp), List.getElem_replicate]
  obtain ⟨s₃, hprogram⟩ := hcommand { s₁ with save := out.1 } 0xA5 3
  have hdoes : Does (Console.boot .flash1m (fun _ => none) bare) (.program 3 fun _ => 0x55) s₃ :=
    ⟨0, s₁, _, _, _, hopen, rfl, rfl, hdata, ⟨out, hout, rfl⟩, hprogram⟩
  have hrun : (driver Unit).Run _ (s₃, _) := .step (.init ⟨_, _, rfl⟩) ⟨hdoes, rfl⟩
  obtain ⟨s₄, hread⟩ := hcommand s₃ 0xF0 0
  obtain ⟨out', hout'⟩ := hdma ((hs₀.does hdoes).2.commands hread).2 (r := ⟨0x080000C0, 0, 0, 0⟩)
    rfl false [0]
  refine ⟨_, s₄, out', ⟨_, hrun⟩, hread, hout', ?_⟩
  rw [flash_reads hrun hread hout' (p := 3) rfl]
  rfl

end Cart
