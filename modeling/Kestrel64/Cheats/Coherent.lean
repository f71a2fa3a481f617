import Kestrel64.Cheats.Engine
import Kestrel64.Cpu.BigEndian
import Kestrel64.Cpu.CacheHits

/-! # Cheats: The Coherent Window

    `peekPhysCoherent` and `pokePhysCoherent` of `cpu/cpu.cpp`, the window of
    the cheats and of telemetry on what the CPU sees. The peek lets only a
    dirty line stand in front of RDRAM, and a clean line can be stale. The
    poke is one store to the cache at any address, and a store that runs past
    its line ends in the padding of the line.

    `coherent_iff` says when the two are what cached loads and stores of
    single bytes would be.
-/

namespace Cheats

open Cpu

variable {Dev : Type}

/-! ## Section 1: What the CPU sees -/

section Defs

variable (D : Devices Dev) (pak : Pak)

/-- What a cached byte load at `a` returns. -/
def loadByte (s : State Dev) (a : Nat) : Cpu.Byte := (dcRead D pak a 1 s).1.setWidth 8

/-- The peek is the unit that byte loads return. -/
def PeekSees (phys size : Nat) (s : State Dev) : Prop :=
  peekPhysCoherent pak phys size s = (beRead (loadByte D pak s) phys size).toNat

/-- Whatever is poked is peeked. -/
def PokePeeks (phys size : Nat) (s : State Dev) : Prop :=
  ∀ val, peekPhysCoherent pak phys size (pokePhysCoherent D pak phys size val s) =
    val % 2 ^ (8 * size)

/-- And the CPU sees no other byte change. -/
def PokeSticks (phys size : Nat) (s : State Dev) : Prop :=
  PokePeeks D pak phys size s ∧
    ∀ val a, a < pak.size → ¬ (phys ≤ a ∧ a < phys + size) →
      loadByte D pak (pokePhysCoherent D pak phys size val s) a = loadByte D pak s a

/-- A line that hits at `a` is dirty or holds what RDRAM does; and where no
    line hits, the miss brings in what RDRAM holds already: no transfer that
    is due by then lands on the byte. -/
def Fresh (s : State Dev) (a : Nat) : Prop :=
  let l := s.dcache (a / 16 % 512)
  if s.dHits a then l.dirty = true ∨ l.data (a % 16) = s.mem.rdram a
  else (dcMiss D pak (a / 16 % 512) (a / 16 * 16) s).mem.rdram a = s.mem.rdram a

variable {D}

/-- The line in `idx` can go without the CPU seeing a byte change: a clean
    line holds what RDRAM does, and a dirty one that is out of place writes
    back nothing that RDRAM does not hold. -/
def Evictable (s : State Dev) (idx : Nat) : Prop :=
  let l := s.dcache idx
  l.valid = true → ∀ a < pak.size, a / 16 * 16 = l.ptag →
    l.data (a % 16) = s.mem.rdram a ∨
      if a / 16 % 512 = idx then l.dirty = true else l.dirty = false ∨ s.dHits a = true

/-- A tag is a line address and the valid bit. -/
def WellTagged (s : State Dev) : Prop := ∀ i, (s.dcache i).tagv / 2 % 8 = 0

end Defs

/-! ## Section 2: The peek -/

variable {D : Devices Dev} {pak : Pak}

theorem dcMiss_data (idx base i : Nat) (s : State Dev) :
    ((dcMiss D pak idx base s).dcache idx).data i =
      if base + i < pak.size then (dcMiss D pak idx base s).mem.rdram (base + i) else 0 := by
  unfold dcMiss
  dsimp only
  rw [if_pos rfl]

theorem loadByte_eq {s : State Dev} {a : Nat} (ha : a < pak.size) :
    loadByte D pak s a =
      if s.dHits a then (s.dcache (a / 16 % 512)).data (a % 16)
      else (dcMiss D pak (a / 16 % 512) (a / 16 * 16) s).mem.rdram a := by
  have hone : loadByte D pak s a = ((dcTouch D pak a s).dcache (a / 16 % 512)).data (a % 16) :=
    beByte_beRead (n := 1) (i := 0) (by decide) (by decide)
  rw [hone]
  unfold dcTouch State.dHits
  dsimp only
  by_cases hit : (s.dcache (a / 16 % 512)).tagv = a / 16 * 16 + 1
  · rw [if_neg (not_not.mpr hit), if_pos (beq_iff_eq.mpr hit)]
  · rw [if_pos hit, if_neg (mt beq_iff_eq.mp hit), dcMiss_data,
      show a / 16 * 16 + a % 16 = a by omega, if_pos ha]

theorem peekByte_eq {s : State Dev} {a : Nat} (ha : a < pak.size) :
    peekByte pak s a =
      if s.dHits a && (s.dcache (a / 16 % 512)).dirty then
        (s.dcache (a / 16 % 512)).data (a % 16)
      else s.mem.rdram a := by
  unfold peekByte State.dHits
  dsimp only
  rw [if_pos ha]
  refine if_congr ?_ rfl rfl
  rw [Bool.and_eq_true, beq_iff_eq]
  exact And.comm

theorem peekByte_eq_loadByte_iff {s : State Dev} {a : Nat} (ha : a < pak.size) :
    peekByte pak s a = loadByte D pak s a ↔ Fresh D pak s a := by
  rw [peekByte_eq ha, loadByte_eq ha]
  unfold Fresh
  dsimp only
  by_cases hit : s.dHits a = true
  · rw [if_pos hit, if_pos hit, hit, Bool.true_and]
    cases hd : (s.dcache (a / 16 % 512)).dirty
    · simp [eq_comm]
    · simp
  · rw [if_neg hit, if_neg hit, if_neg (by simp [hit])]
    exact eq_comm

theorem peekSees_iff {s : State Dev} {phys size : Nat} (hsize : size ≤ 8)
    (hin : phys + size ≤ pak.size) :
    PeekSees D pak phys size s ↔ ∀ i < size, Fresh D pak s (phys + i) := by
  unfold PeekSees peekPhysCoherent
  rw [← BitVec.toNat_eq, beRead_eq_iff hsize]
  exact forall₂_congr fun i hi => peekByte_eq_loadByte_iff (by omega)

/-! ## Section 3: The view when no transfer waits -/

theorem dcFlush_quiet {s : State Dev} (hq : s.mem.dpLog = []) (idx : Nat) :
    (dcFlush D pak idx s).mem.dpLog = [] := by
  obtain hf | ⟨hv, hd⟩ := (s.dcache idx).flushed_or
  · rw [dcFlush_of_flushed hf]
    exact hq
  · rw [dcFlush_dirty hq hv hd]
    exact hq

theorem dcMiss_mem {s : State Dev} (hq : s.mem.dpLog = []) (idx base : Nat) :
    (dcMiss D pak idx base s).mem = (dcFlush D pak idx s).mem := by
  rw [dcMiss_eq hq, dcFill_quiet (dcFlush_quiet hq idx)]
  rfl

theorem dcTouch_quiet {s : State Dev} (hq : s.mem.dpLog = []) (pe : Nat) :
    (dcTouch D pak pe s).mem.dpLog = [] := by
  unfold dcTouch
  dsimp only
  split_ifs
  · rw [dcMiss_mem hq]
    exact dcFlush_quiet hq _
  · exact hq

theorem WellTagged.touch {s : State Dev} (h : WellTagged s) (pe : Nat) :
    WellTagged (dcTouch D pak pe s) := by
  intro i
  by_cases hi : i = pe / 16 % 512
  · rw [hi, dcTouch_tagv]
    omega
  · rw [dcTouch_other hi]
    exact h i

theorem WellTagged.write {s : State Dev} (h : WellTagged s) (pe n : Nat) (x : BitVec 64) :
    WellTagged (dcWrite D pak pe x n s) := by
  intro i
  by_cases hi : i = pe / 16 % 512
  · rw [hi, dcWrite_line]
    dsimp only
    omega
  · have hother : (dcWrite D pak pe x n s).dcache i = (dcTouch D pak pe s).dcache i := if_neg hi
    rw [hother]
    exact h.touch pe i

theorem WellTagged.setLine {s : State Dev} (h : WellTagged s) {idx : Nat} {l : DCacheLine}
    (hl : l.tagv / 2 % 8 = 0) : WellTagged (s.setLine idx l) := by
  intro i
  by_cases hi : i = idx
  · rw [hi, setLine_same]
    exact hl
  · rw [setLine_other hi]
    exact h i

theorem WellTagged.flush {s : State Dev} (h : WellTagged s) (idx : Nat) :
    WellTagged (dcFlush D pak idx s) := by
  intro i
  by_cases hi : i = idx
  · rw [hi, dcFlush_tagv]
    exact h idx
  · rw [dcFlush_other hi]
    exact h i

/-- Every `CACHE` operation keeps the tags so. -/
theorem WellTagged.cacheOpD {s : State Dev} (h : WellTagged s) (fn : DCacheFn)
    (vaddr tagLo : Nat) : WellTagged (cacheOpD D pak fn vaddr tagLo s).2 := by
  have hinvalid : ∀ l : DCacheLine, l.tagv / 2 % 8 = 0 → l.invalidate.tagv / 2 % 8 = 0 := by
    intro l hl
    change l.tagv / 2 * 2 / 2 % 8 = 0
    omega
  unfold Cpu.cacheOpD
  dsimp only
  generalize vaddr % 2 ^ 29 = phys
  have hfl : WellTagged (dcFlush D pak (phys / 16 % 512) s) := h.flush _
  cases fn with
  | indexWritebackInvalidate => exact hfl.setLine (hinvalid _ (hfl _))
  | indexLoadTag => exact h
  | indexStoreTag =>
    refine h.setLine ?_
    dsimp only
    split_ifs <;> omega
  | createDirtyExclusive =>
    dsimp only
    split_ifs
    · exact hfl.setLine (by dsimp only; omega)
    · exact h.setLine (by dsimp only; omega)
  | hitInvalidate =>
    dsimp only
    split_ifs
    · exact h.setLine (hinvalid _ (h _))
    · exact h
  | hitWritebackInvalidate =>
    dsimp only
    split_ifs
    · exact hfl.setLine (hinvalid _ (hfl _))
    · exact h
  | hitWriteback =>
    dsimp only
    split_ifs
    · exact hfl
    · exact h
  | reserved => exact h

theorem cacheOpI_dcache (fn : ICacheFn) (vaddr : Nat) (m : Machine Dev) :
    (cacheOpI D pak fn vaddr m).cpu.dcache = m.cpu.dcache := by
  unfold cacheOpI
  dsimp only
  cases fn with
  | hitInvalidate | hitWriteback =>
    dsimp only
    split_ifs <;> rfl
  | indexInvalidate | indexLoadTag | indexStoreTag | fill | reserved => rfl

theorem WellTagged.use {m : Machine Dev} (h : WellTagged m.cpu) (u : CacheUse Dev) :
    WellTagged (m.use D pak u).1.cpu := by
  cases u with
  | load pe size =>
    unfold Machine.use
    dsimp only
    split_ifs
    · exact h.touch pe
    · exact h
  | store pe val size =>
    unfold Machine.use
    dsimp only
    split_ifs
    · exact h.write pe size val
    · exact h
  | fetch pe =>
    unfold Machine.use
    dsimp only
    rw [icFetch_eq]
    dsimp only
    split_ifs <;> exact h
  | cache op vaddr =>
    change WellTagged (cacheOp D pak op vaddr m).cpu
    unfold cacheOp
    split_ifs
    · exact h.cacheOpD _ _ _
    · intro i
      rw [cacheOpI_dcache]
      exact h i
  | flush idx => exact h.flush idx
  | mtc0TagLo v => exact h
  | aside f => exact h

/-- So out of reset the tags always are. -/
theorem wellTagged_after {m : Machine Dev} (h : WellTagged m.cpu) (us : List (CacheUse Dev)) :
    WellTagged (LTS.after (Machine.use D pak) m us).cpu := by
  induction us generalizing m with
  | nil => exact h
  | cons u us ih => exact ih (h.use u)

/-- A valid line whose address is that of `a` hits there if it is in place. -/
theorem WellTagged.hit_iff {s : State Dev} (h : WellTagged s) (a : Nat) :
    s.dHits a = true ↔ (s.dcache (a / 16 % 512)).valid = true ∧
      a / 16 * 16 = (s.dcache (a / 16 % 512)).ptag := by
  have htag := h (a / 16 % 512)
  unfold State.dHits DCacheLine.valid DCacheLine.ptag
  rw [beq_iff_eq, beq_iff_eq]
  omega

/-- What a miss leaves in RDRAM. -/
theorem dcMiss_rdram {s : State Dev} (hq : s.mem.dpLog = []) (idx base : Nat) {a : Nat}
    (ha : a < pak.size) :
    (dcMiss D pak idx base s).mem.rdram a =
      if (s.dcache idx).valid = true ∧ (s.dcache idx).dirty = true ∧
          a / 16 * 16 = (s.dcache idx).ptag then
        (s.dcache idx).data (a % 16)
      else s.mem.rdram a := by
  rw [dcMiss_mem hq]
  obtain hf | ⟨hv, hd⟩ := (s.dcache idx).flushed_or
  · rw [dcFlush_of_flushed hf, if_neg]
    rintro ⟨hv, hd, -⟩
    rw [hf hv] at hd
    cases hd
  · rw [dcFlush_dirty hq hv hd]
    have hptag : (s.dcache idx).ptag % 16 = 0 := by
      unfold DCacheLine.ptag
      omega
    dsimp only [setLine_mem]
    unfold DCacheLine.writeTo
    by_cases hcov : a / 16 * 16 = (s.dcache idx).ptag
    · rw [if_pos ⟨by omega, by omega, ha⟩, if_pos ⟨hv, hd, hcov⟩,
        show a - (s.dcache idx).ptag = a % 16 by omega]
    · rw [if_neg (by omega), if_neg (by tauto)]

theorem loadByte_quiet {s : State Dev} (hq : s.mem.dpLog = []) (hw : WellTagged s) {a : Nat}
    (ha : a < pak.size) :
    loadByte D pak s a =
      if s.dHits a then (s.dcache (a / 16 % 512)).data (a % 16) else s.mem.rdram a := by
  rw [loadByte_eq ha]
  split_ifs with hit
  · rfl
  · rw [dcMiss_rdram hq _ _ ha, if_neg]
    rintro ⟨hv, -, hcov⟩
    exact hit ((hw.hit_iff a).mpr ⟨hv, hcov⟩)

/-! ## Section 4: The poke -/

/-- The view after a miss: the line that was there is gone. -/
theorem loadByte_dcMiss {s : State Dev} (hq : s.mem.dpLog = []) (hw : WellTagged s) {pe a : Nat}
    (hmiss : ¬ s.dHits pe = true) (ha : a < pak.size) :
    loadByte D pak (dcTouch D pak pe s) a =
      if a / 16 % 512 ≠ pe / 16 % 512 ∧ s.dHits a = true then
        (s.dcache (a / 16 % 512)).data (a % 16)
      else (dcMiss D pak (pe / 16 % 512) (pe / 16 * 16) s).mem.rdram a := by
  have hT : dcTouch D pak pe s = dcMiss D pak (pe / 16 % 512) (pe / 16 * 16) s :=
    if_pos (mt beq_iff_eq.mpr hmiss)
  rw [loadByte_quiet (dcTouch_quiet hq pe) (hw.touch pe) ha]
  by_cases hidx : a / 16 % 512 = pe / 16 % 512
  · -- in the index of the miss, the new line holds what RDRAM does
    have hgone : ¬ (a / 16 % 512 ≠ pe / 16 % 512 ∧ s.dHits a = true) := fun h => h.1 hidx
    rw [if_neg hgone]
    split_ifs with hit
    · have hsame : a / 16 = pe / 16 := by
        unfold State.dHits at hit
        rw [beq_iff_eq, hidx, dcTouch_tagv] at hit
        omega
      rw [hidx, hT, dcMiss_data, ← hsame, show a / 16 * 16 + a % 16 = a by omega, if_pos ha]
    · rw [hT]
  · have hline : (dcTouch D pak pe s).dcache (a / 16 % 512) = s.dcache (a / 16 % 512) :=
      dcTouch_other hidx s
    have hhit : (dcTouch D pak pe s).dHits a = s.dHits a := by
      unfold State.dHits
      rw [hline]
    rw [hhit, hline, ← hT]
    exact if_congr (by tauto) rfl rfl

/-- A miss keeps the byte at `a` exactly when the line it throws out can go,
    as far as `a` is concerned. -/
theorem loadByte_miss_iff {s : State Dev} (hq : s.mem.dpLog = []) (hw : WellTagged s) {pe a : Nat}
    (hmiss : ¬ s.dHits pe = true) (ha : a < pak.size) :
    loadByte D pak (dcTouch D pak pe s) a = loadByte D pak s a ↔
      ((s.dcache (pe / 16 % 512)).valid = true →
        a / 16 * 16 = (s.dcache (pe / 16 % 512)).ptag →
        (s.dcache (pe / 16 % 512)).data (a % 16) = s.mem.rdram a ∨
          if a / 16 % 512 = pe / 16 % 512 then (s.dcache (pe / 16 % 512)).dirty = true
          else (s.dcache (pe / 16 % 512)).dirty = false ∨ s.dHits a = true) := by
  have hhit := hw.hit_iff a
  rw [loadByte_dcMiss hq hw hmiss ha, loadByte_quiet hq hw ha, dcMiss_rdram hq _ _ ha]
  by_cases hidx : a / 16 % 512 = pe / 16 % 512
  · rw [hidx] at hhit ⊢
    generalize s.dcache (pe / 16 % 512) = l at hhit ⊢
    rw [if_neg (fun h => h.1 rfl), if_pos rfl]
    by_cases hit : s.dHits a = true
    · obtain ⟨hv, hcov⟩ := hhit.mp hit
      rw [if_pos hit]
      cases hd : l.dirty
      · simp [hv, hcov, eq_comm]
      · simp [hv, hcov]
    · have hno : ¬ (l.valid = true ∧ a / 16 * 16 = l.ptag) := mt hhit.mpr hit
      rw [if_neg hit, if_neg (fun h => hno ⟨h.1, h.2.2⟩)]
      exact iff_of_true rfl fun hv hcov => absurd ⟨hv, hcov⟩ hno
  · rw [if_neg hidx]
    by_cases hit : s.dHits a = true
    · rw [if_pos ⟨hidx, hit⟩, if_pos hit]
      exact iff_of_true rfl fun _ _ => .inr (.inr hit)
    · rw [if_neg (fun h => hit h.2), if_neg hit]
      generalize s.dcache (pe / 16 % 512) = l
      by_cases hcov : l.valid = true ∧ a / 16 * 16 = l.ptag
      · cases hd : l.dirty
        · simp [hcov.1, hcov.2, hit]
        · simp [hcov.1, hcov.2, hit]
      · rw [if_neg (fun h => hcov ⟨h.1, h.2.2⟩)]
        exact iff_of_true rfl fun hv hc => absurd ⟨hv, hc⟩ hcov

section Poke

variable {s : State Dev} {phys size : Nat}

/-- Outside its unit a store leaves the view that the touch left. -/
theorem loadByte_dcWrite (hq : s.mem.dpLog = []) (hw : WellTagged s) (x : BitVec 64) {a : Nat}
    (ha : a < pak.size) (hout : ¬ (phys ≤ a ∧ a < phys + size)) :
    loadByte D pak (dcWrite D pak phys x size s) a = loadByte D pak (dcTouch D pak phys s) a := by
  have htq := @dcTouch_quiet _ D pak s hq phys
  have htw := @WellTagged.touch _ D pak s hw phys
  rw [loadByte_quiet (s := dcWrite D pak phys x size s) htq (hw.write phys size x) ha,
    loadByte_quiet htq htw ha]
  unfold State.dHits
  by_cases hidx : a / 16 % 512 = phys / 16 % 512
  · rw [hidx, dcWrite_line, dcTouch_tagv]
    dsimp only
    by_cases hit : phys / 16 * 16 + 1 = a / 16 * 16 + 1
    · -- the line of the unit: `a` is beside the unit in it
      rw [if_pos (beq_iff_eq.mpr hit), if_pos (beq_iff_eq.mpr hit), beWrite_out (by omega)]
    · rw [if_neg (mt beq_iff_eq.mp hit), if_neg (mt beq_iff_eq.mp hit)]
      rfl
  · have hother : (dcWrite D pak phys x size s).dcache (a / 16 % 512) =
        (dcTouch D pak phys s).dcache (a / 16 % 512) := if_neg hidx
    rw [hother]
    rfl

/-- The bytes of the unit that lie in the line are there; those past its end
    are not. -/
theorem peekByte_dcWrite (hin : phys + size ≤ pak.size) (hsize : size ≤ 8) (x : BitVec 64) {i : Nat}
    (hi : i < size) :
    peekByte pak (dcWrite D pak phys x size s) (phys + i) =
      if phys % 16 + i < 16 then beByte x size i
      else peekByte pak (dcTouch D pak phys s) (phys + i) := by
  split_ifs with hline
  · have hidx : (phys + i) / 16 = phys / 16 := by omega
    rw [peekByte_eq (by omega)]
    unfold State.dHits
    rw [hidx, dcWrite_line, if_pos (by simp), show (phys + i) % 16 = phys % 16 + i by omega]
    exact beWrite_at hi
  · have hidx : (phys + i) / 16 % 512 ≠ phys / 16 % 512 := by omega
    have hother : (dcWrite D pak phys x size s).dcache ((phys + i) / 16 % 512) =
        (dcTouch D pak phys s).dcache ((phys + i) / 16 % 512) := if_neg hidx
    unfold peekByte
    dsimp only
    rw [hother]
    rfl

theorem pokePhysCoherent_eq (hin : phys + size ≤ pak.size) (val : Nat) :
    pokePhysCoherent D pak phys size val s = dcWrite D pak phys (BitVec.ofNat 64 val) size s :=
  if_neg (by omega)

/-- The poked value is peeked exactly when the unit ends in its line. -/
theorem pokePeeks_iff (hin : phys + size ≤ pak.size) (hsize : size ≤ 8) :
    PokePeeks D pak phys size s ↔ phys % 16 + size ≤ 16 := by
  have hunit : ∀ val, peekPhysCoherent pak phys size (pokePhysCoherent D pak phys size val s) =
      val % 2 ^ (8 * size) ↔ ∀ i < size, (if phys % 16 + i < 16 then
        beByte (BitVec.ofNat 64 val) size i
      else peekByte pak (dcTouch D pak phys s) (phys + i)) = beByte (BitVec.ofNat 64 val) size i := by
    intro val
    have hval : val % 2 ^ (8 * size) = (BitVec.ofNat 64 val).toNat % 2 ^ (8 * size) := by
      rw [BitVec.toNat_ofNat, Nat.mod_mod_of_dvd _ (Nat.pow_dvd_pow 2 (by omega))]
    rw [hval, pokePhysCoherent_eq hin]
    unfold peekPhysCoherent
    rw [beRead_eq_zext_iff hsize]
    refine forall₂_congr fun i hi => ?_
    rw [peekByte_dcWrite hin hsize _ hi]
  constructor
  · intro h
    by_contra hpast
    -- the last byte is past the line, and cannot be both 0 and 0xff
    have hlast := fun val => (hunit val).mp (h val) (size - 1) (by omega)
    simp only [if_neg (show ¬ phys % 16 + (size - 1) < 16 by omega)] at hlast
    have hbad := (hlast 0).symm.trans (hlast (2 ^ 64 - 1))
    have hbit := congrArg (BitVec.getLsbD · 0) hbad
    rw [getLsbD_beByte _ _ _ (by decide), getLsbD_beByte _ _ _ (by decide),
      Nat.sub_self] at hbit
    revert hbit
    decide
  · intro hline val
    refine (hunit val).mpr fun i hi => if_pos ?_
    omega

theorem pokeSticks_iff (hq : s.mem.dpLog = []) (hw : WellTagged s) (hin : phys + size ≤ pak.size)
    (hsize : size ≤ 8) :
    PokeSticks D pak phys size s ↔
      phys % 16 + size ≤ 16 ∧ (s.dHits phys = true ∨ Evictable pak s (phys / 16 % 512)) := by
  have hkeep : ∀ val a, a < pak.size → ¬ (phys ≤ a ∧ a < phys + size) →
      (loadByte D pak (pokePhysCoherent D pak phys size val s) a = loadByte D pak s a ↔
        loadByte D pak (dcTouch D pak phys s) a = loadByte D pak s a) := by
    intro val a ha hout
    rw [pokePhysCoherent_eq hin, loadByte_dcWrite hq hw _ ha hout]
  constructor
  · intro h
    have hline := (pokePeeks_iff hin hsize).mp h.1
    refine ⟨hline, ?_⟩
    by_cases hmiss : s.dHits phys = true
    · exact .inl hmiss
    · right
      intro hv a ha hcov
      -- the line that goes is not the line of the unit
      have hout : ¬ (phys ≤ a ∧ a < phys + size) := by
        rintro ⟨hlo, hhi⟩
        have hsame : a / 16 = phys / 16 := by omega
        rw [hsame] at hcov
        exact hmiss ((hw.hit_iff phys).mpr ⟨hv, hcov⟩)
      have hsame := (hkeep 0 a ha hout).mp (h.2 0 a ha hout)
      exact (loadByte_miss_iff hq hw hmiss ha).mp hsame hv hcov
  · rintro ⟨hline, hgo⟩
    refine ⟨(pokePeeks_iff hin hsize).mpr hline, ?_⟩
    intro val a ha hout
    rw [hkeep val a ha hout]
    by_cases hmiss : s.dHits phys = true
    · have hT : dcTouch D pak phys s = s := if_neg (not_not.mpr (beq_iff_eq.mp hmiss))
      rw [hT]
    · rw [loadByte_miss_iff hq hw hmiss ha]
      intro hv hcov
      exact (hgo.resolve_left hmiss) hv a ha hcov

end Poke

/-- **The peek is the unit that cached byte loads return exactly when each of
    its bytes is fresh. A poke is peeked exactly when the unit ends in its
    line; and with no transfer waiting, it changes nothing else the CPU sees
    exactly when that line is cached already or the one it throws out can
    go.** -/
theorem coherent_iff (D : Devices Dev) (pak : Pak) {s : State Dev} {phys size : Nat}
    (hsize : size = 1 ∨ size = 2 ∨ size = 4 ∨ size = 8) (hin : phys + size ≤ pak.size) :
    (PeekSees D pak phys size s ↔ ∀ i < size, Fresh D pak s (phys + i)) ∧
      (PokePeeks D pak phys size s ↔ phys % 16 + size ≤ 16) ∧
      (s.mem.dpLog = [] → WellTagged s →
        (PokeSticks D pak phys size s ↔
          phys % 16 + size ≤ 16 ∧
            (s.dHits phys = true ∨ Evictable pak s (phys / 16 % 512)))) := by
  have h8 : size ≤ 8 := by omega
  exact ⟨peekSees_iff h8 hin, pokePeeks_iff hin h8, fun hq hw => pokeSticks_iff hq hw hin h8⟩

theorem coherent_cold : PokeSticks noDevices .base 0x12 4 coldState := by
  have hall := coherent_iff noDevices .base (s := coldState) (.inr (.inr (.inl rfl)))
    (show 0x12 + 4 ≤ Pak.base.size by decide)
  have htags : WellTagged coldState := fun _ => show 0 / 2 % 8 = 0 from rfl
  exact (hall.2.2 rfl htags).mpr ⟨by decide, .inr (by rintro ⟨⟩)⟩

/-- RDRAM changed under a clean line, as a transfer does. -/
def staleState : State Unit := dmaByte 0x10 0xff (dcRead noDevices .base 0x10 4 coldState).2

/-- A clean line that is stale is not peeked, and the second byte of a poke at
    the end of a line is lost. -/
theorem coherent_fails :
    ¬ (∀ (s : State Unit) (phys size : Nat), (size = 1 ∨ size = 2 ∨ size = 4 ∨ size = 8) →
        phys + size ≤ Pak.base.size → PeekSees noDevices .base phys size s) ∧
      ¬ (∀ (s : State Unit) (phys size : Nat), (size = 1 ∨ size = 2 ∨ size = 4 ∨ size = 8) →
        phys + size ≤ Pak.base.size → PokePeeks noDevices .base phys size s) := by
  constructor
  · intro h
    have hpeek := h staleState 0x10 1 (.inl rfl) (by decide)
    unfold PeekSees at hpeek
    revert hpeek
    with_unfolding_all decide
  · intro h
    have hpoke := h coldState 0x0f 2 (.inr (.inl rfl)) (by decide) 0xabcd
    revert hpoke
    with_unfolding_all decide

end Cheats
