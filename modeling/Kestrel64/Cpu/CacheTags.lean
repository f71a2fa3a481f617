import Kestrel64.Cpu.WriteCover
import Kestrel64.Cpu.Step

/-! # CPU: The Cache Tags

    `Index_Load_Tag` and `Index_Store_Tag` of the `CACHE` instruction. `TagLo`
    has room for the page frame of a tag, bits 31 to 12, and the tags kept
    here are whole line addresses. So the way there and back drops bits 11
    to 4 of a data tag, and 11 to 5 of an instruction tag.

    `use` is everything that can happen to the caches, with what comes out of
    them. `Like` says of two lines that no use tells them apart, and
    `tagRoundTrip_iff` says for which lines the round trip leaves such a line
    behind.
-/

namespace Cpu

variable {Dev : Type}

/-! ## Section 1: Uses of the caches -/

/-- The load or store at `pe` finds its line. -/
def State.dHits (s : State Dev) (pe : Nat) : Bool :=
  (s.dcache (pe / 16 % 512)).tagv == pe / 16 * 16 + 1

/-- The fetch at `pe` finds its line. -/
def Machine.iHits (m : Machine Dev) (pe : Nat) : Bool :=
  (m.icache (pe / 32 % 512)).valid && (m.icache (pe / 32 % 512)).ptag == pe / 32 * 32

/-- What is done to a machine with caches. Only RDRAM is cached. -/
inductive CacheUse (Dev : Type) where
  | load (pe size : Nat)
  | store (pe : Nat) (val : BitVec 64) (size : Nat)
  | fetch (pe : Nat)
  /-- Any `CACHE` instruction. -/
  | cache (op vaddr : Nat)
  | flush (idx : Nat)
  | mtc0TagLo (v : Nat)
  /-- Whatever else changes the machine: it does not look into the caches. -/
  | aside (f : State Dev → State Dev)

/-- What comes out of a use: whether it hit, and the value it read. -/
structure Seen where
  hit : Bool
  value : BitVec 64
  deriving DecidableEq, Repr

def emptyLines : Nat → DCacheLine := fun _ => { tagv := 0, dirty := false, data := fun _ => 0 }

section Use

variable (D : Devices Dev) (pak : Pak)

def Machine.use (m : Machine Dev) : CacheUse Dev → Machine Dev × Seen
  | .load pe size =>
    if pe < pak.size then
      let r := dcRead D pak pe size m.cpu
      ({ m with cpu := r.2 }, ⟨m.cpu.dHits pe, r.1⟩)
    else (m, ⟨false, 0⟩)
  | .store pe val size =>
    if pe < pak.size then
      ({ m with cpu := dcWrite D pak pe val size m.cpu }, ⟨m.cpu.dHits pe, 0⟩)
    else (m, ⟨false, 0⟩)
  | .fetch pe =>
    if pe < pak.size then
      let r := icFetch D pak pe m
      (r.2, ⟨m.iHits pe, zext r.1⟩)
    else (m, ⟨false, 0⟩)
  | .cache op vaddr =>
    let phys := vaddr % 2 ^ 29
    let hit := if op % 2 = 1 then m.cpu.dHits phys else m.iHits phys
    let m := cacheOp D pak op vaddr m
    (m, ⟨hit, BitVec.ofNat 64 m.tagLo⟩)
  | .flush idx => ({ m with cpu := dcFlush D pak idx m.cpu }, ⟨false, 0⟩)
  | .mtc0TagLo v => ({ m with tagLo := v }, ⟨false, 0⟩)
  | .aside f =>
    ({ m with cpu := { f { m.cpu with dcache := emptyLines } with dcache := m.cpu.dcache } },
      ⟨false, 0⟩)

/-! ## Section 2: The round trip -/

/-- `Index_Load_Tag` and `Index_Store_Tag` on the data cache. -/
def loadTagD (vaddr : Nat) (m : Machine Dev) : Machine Dev := cacheOp D pak 5 vaddr m
def storeTagD (vaddr : Nat) (m : Machine Dev) : Machine Dev := cacheOp D pak 9 vaddr m

/-- The same on the instruction cache. -/
def loadTagI (vaddr : Nat) (m : Machine Dev) : Machine Dev := cacheOp D pak 4 vaddr m
def storeTagI (vaddr : Nat) (m : Machine Dev) : Machine Dev := cacheOp D pak 8 vaddr m

/-- Nothing that happens later tells the two machines apart. -/
def Indistinct (m m' : Machine Dev) : Prop :=
  ∀ us, LTS.outputs (Machine.use D pak) m us = LTS.outputs (Machine.use D pak) m' us

end Use

/-- The indices that the index operations at `vaddr` name. -/
def dIndex (vaddr : Nat) : Nat := vaddr % 2 ^ 29 / 16 % 512
def iIndex (vaddr : Nat) : Nat := vaddr % 2 ^ 29 / 32 % 512

def Machine.dLine (m : Machine Dev) (vaddr : Nat) : DCacheLine := m.cpu.dcache (dIndex vaddr)
def Machine.iLine (m : Machine Dev) (vaddr : Nat) : ICacheLine := m.icache (iIndex vaddr)

/-- What is left of a tag: the page frame and the valid bit. -/
def frameTag (tagv : Nat) : Nat := tagv / 2 ^ 12 * 2 ^ 12 + tagv % 2

/-- Some address at this index hits a line with this tag. -/
def DReach (idx tagv : Nat) : Prop := tagv % 16 = 1 ∧ tagv / 16 % 512 = idx ∧ tagv < 2 ^ 29

def IReach (idx ptag : Nat) : Prop := ptag % 32 = 0 ∧ ptag / 32 % 512 = idx ∧ ptag < 2 ^ 29

/-- The tag has nothing between the frame and the valid bit, or it is no
    address of that index, with these bits and without. -/
def DKept (idx tagv : Nat) : Prop :=
  frameTag tagv = tagv ∨ ¬DReach idx tagv ∧ ¬DReach idx (frameTag tagv)

def IKept (idx : Nat) (l : ICacheLine) : Prop :=
  l.valid = false ∨ l.ptag % 2 ^ 12 = 0 ∨
    ¬IReach idx l.ptag ∧ ¬IReach idx (l.ptag / 2 ^ 12 * 2 ^ 12)

/-- The tags are 32-bit words. -/
structure TagsFit (m : Machine Dev) : Prop where
  d : ∀ i, (m.cpu.dcache i).tagv < 2 ^ 32
  i : ∀ i, (m.icache i).ptag < 2 ^ 32

/-! ## Section 3: Lines that no use tells apart -/

structure DCacheLine.Like (idx : Nat) (l l' : DCacheLine) : Prop where
  data : l'.data = l.data
  dirty : l'.dirty = l.dirty
  valid : l'.tagv % 2 = l.tagv % 2
  frame : l'.tagv / 2 ^ 12 = l.tagv / 2 ^ 12
  hits : ∀ pe < 2 ^ 29, pe / 16 % 512 = idx →
    (l'.tagv = pe / 16 * 16 + 1 ↔ l.tagv = pe / 16 * 16 + 1)
  /-- What is written back goes where it went. -/
  exact : l.dirty = true → l'.tagv = l.tagv

structure ICacheLine.Like (idx : Nat) (l l' : ICacheLine) : Prop where
  data : l'.data = l.data
  seq : l'.seq = l.seq
  valid : l'.valid = l.valid
  frame : l'.ptag / 2 ^ 12 = l.ptag / 2 ^ 12
  hits : l.valid = true → ∀ pe < 2 ^ 29, pe / 32 % 512 = idx →
    (l'.ptag = pe / 32 * 32 ↔ l.ptag = pe / 32 * 32)

theorem DCacheLine.Like.refl (idx : Nat) (l : DCacheLine) : l.Like idx l :=
  ⟨rfl, rfl, rfl, rfl, fun _ _ _ => Iff.rfl, fun _ => rfl⟩

theorem ICacheLine.Like.refl (idx : Nat) (l : ICacheLine) : l.Like idx l :=
  ⟨rfl, rfl, rfl, rfl, fun _ _ _ _ => Iff.rfl⟩

/-- The same CPU but for the tags of such lines. -/
structure SameD (s s' : State Dev) : Prop where
  rest : s' = { s with dcache := s'.dcache }
  lines : ∀ i, (s.dcache i).Like i (s'.dcache i)

structure SameI (m m' : Machine Dev) : Prop where
  cpu : SameD m.cpu m'.cpu
  rest : m' = { m with cpu := m'.cpu, icache := m'.icache }
  lines : ∀ i, (m.icache i).Like i (m'.icache i)

theorem SameD.refl (s : State Dev) : SameD s s := ⟨rfl, fun i => .refl i _⟩

theorem SameI.refl (m : Machine Dev) : SameI m m := ⟨.refl _, rfl, fun i => .refl i _⟩

theorem SameD.exists {s s' : State Dev} (h : SameD s s') :
    ∃ d, s' = { s with dcache := d } ∧ ∀ i, (s.dcache i).Like i (d i) := ⟨_, h.rest, h.lines⟩

theorem SameI.exists {m m' : Machine Dev} (h : SameI m m') :
    ∃ c ic, m' = { m with cpu := c, icache := ic } ∧ SameD m.cpu c ∧
      ∀ i, (m.icache i).Like i (ic i) := ⟨_, _, h.rest, h.cpu, h.lines⟩

namespace DCacheLine.Like

variable {idx : Nat} {l l' : DCacheLine} (h : l.Like idx l')
include h

theorem valid_eq : l'.valid = l.valid := by
  unfold DCacheLine.valid
  rw [h.valid]

theorem clean : ({ l with dirty := false } : DCacheLine).Like idx { l' with dirty := false } :=
  ⟨h.data, rfl, h.valid, h.frame, h.hits, nofun⟩

theorem invalidate : l.invalidate.Like idx l'.invalidate := by
  have hframe := h.frame
  refine ⟨h.data, h.dirty, ?_, ?_, ?_, ?_⟩
  · change l'.tagv / 2 * 2 % 2 = l.tagv / 2 * 2 % 2
    omega
  · change l'.tagv / 2 * 2 / 2 ^ 12 = l.tagv / 2 * 2 / 2 ^ 12
    omega
  · -- without the valid bit neither hits
    intro pe _ _
    change l'.tagv / 2 * 2 = _ ↔ l.tagv / 2 * 2 = _
    constructor <;> intro _ <;> omega
  · intro hd
    change l'.tagv / 2 * 2 = l.tagv / 2 * 2
    rw [h.exact hd]

/-- The same tag on both. -/
theorem retag (t : Nat) (b : Bool) :
    ({ l with tagv := t, dirty := b } : DCacheLine).Like idx { l' with tagv := t, dirty := b } :=
  ⟨h.data, rfl, rfl, rfl, fun _ _ _ => Iff.rfl, fun _ => rfl⟩

theorem writeTo_eq (hd : l.dirty = true) (size : Nat) (ram : Nat → Byte) :
    l'.writeTo size ram = l.writeTo size ram := by
  unfold DCacheLine.writeTo DCacheLine.ptag
  rw [h.exact hd, h.data]

end DCacheLine.Like

/-! ## Section 4: Every use keeps them alike -/

theorem setILine_same (m : Machine Dev) (idx : Nat) (l : ICacheLine) :
    (m.setILine idx l).icache idx = l := if_pos rfl

theorem setILine_other {i idx : Nat} (hi : i ≠ idx) (m : Machine Dev) (l : ICacheLine) :
    (m.setILine idx l).icache i = m.icache i := if_neg hi

theorem dcTouch_other {D : Devices Dev} {pak : Pak} {pe j : Nat} (hj : j ≠ pe / 16 % 512)
    (s : State Dev) : (dcTouch D pak pe s).dcache j = s.dcache j := by
  unfold dcTouch
  dsimp only
  split_ifs
  · unfold dcMiss
    dsimp only
    rw [if_neg hj]
    split_ifs <;> rfl
  · rfl

theorem SameD.setLine {s s' : State Dev} (h : SameD s s') {idx : Nat} {l l' : DCacheLine}
    (hl : l.Like idx l') : SameD (s.setLine idx l) (s'.setLine idx l') := by
  obtain ⟨d, rfl, hd⟩ := h.exists
  refine ⟨rfl, ?_⟩
  intro i
  by_cases hi : i = idx
  · subst hi
    rw [setLine_same, setLine_same]
    exact hl
  · rw [setLine_other hi, setLine_other hi]
    exact hd i

section Keep

variable {D : Devices Dev} {pak : Pak} {s s' : State Dev}

theorem SameD.settle (h : SameD s s') (lo hi : Nat) :
    SameD (s.settle D pak lo hi) (s'.settle D pak lo hi) := by
  obtain ⟨d, rfl, hd⟩ := h.exists
  exact ⟨rfl, hd⟩

theorem SameD.setRam (h : SameD s s') (ram : Nat → Byte) :
    SameD { s with mem := { s.mem with rdram := ram } }
      { s' with mem := { s'.mem with rdram := ram } } := by
  obtain ⟨d, rfl, hd⟩ := h.exists
  exact ⟨rfl, hd⟩

theorem SameD.rdram (h : SameD s s') : s'.mem.rdram = s.mem.rdram := by
  rw [h.rest]

theorem SameD.flush (h : SameD s s') (idx : Nat) :
    SameD (dcFlush D pak idx s) (dcFlush D pak idx s') := by
  have hl := h.lines idx
  unfold dcFlush
  dsimp only
  rw [hl.valid_eq, hl.dirty]
  split_ifs with hclean
  · exact h
  · -- a line that is written back has its own tag in both
    have hd : (s.dcache idx).dirty = true := by
      cases hd : (s.dcache idx).dirty
      · rw [hd] at hclean
        simp at hclean
      · rfl
    have htag : (s'.dcache idx).ptag = (s.dcache idx).ptag := by
      unfold DCacheLine.ptag
      rw [hl.exact hd]
    rw [htag, (h.settle _ _).rdram, hl.writeTo_eq hd]
    exact ((h.settle _ _).setRam _).setLine hl.clean

theorem SameD.miss (h : SameD s s') (idx base : Nat) :
    SameD (dcMiss D pak idx base s) (dcMiss D pak idx base s') := by
  obtain ⟨d, rfl, hd⟩ := h.exists
  have hl := hd idx
  unfold dcMiss
  dsimp only
  rw [hl.dirty, hl.valid]
  split_ifs with hback
  · rw [hl.exact (Bool.and_eq_true_iff.mp hback).1, hl.data]
    exact SameD.setLine ⟨rfl, hd⟩ (.refl idx _)
  · exact SameD.setLine ⟨rfl, hd⟩ (.refl idx _)

theorem SameD.touch (h : SameD s s') {pe : Nat} (hpe : pe < 2 ^ 29) :
    SameD (dcTouch D pak pe s) (dcTouch D pak pe s') := by
  have hhit := (h.lines (pe / 16 % 512)).hits pe hpe rfl
  unfold dcTouch
  dsimp only
  by_cases hm : (s.dcache (pe / 16 % 512)).tagv = pe / 16 * 16 + 1
  · rw [if_neg (not_not.mpr hm), if_neg (not_not.mpr (hhit.mpr hm))]
    exact h
  · rw [if_pos hm, if_pos (mt hhit.mp hm)]
    exact h.miss _ _

theorem SameD.dHits (h : SameD s s') {pe : Nat} (hpe : pe < 2 ^ 29) :
    s'.dHits pe = s.dHits pe := by
  unfold State.dHits
  rw [Bool.eq_iff_iff, beq_iff_eq, beq_iff_eq]
  exact (h.lines _).hits pe hpe rfl

theorem SameD.read (h : SameD s s') {pe : Nat} (hpe : pe < 2 ^ 29) (size : Nat) :
    (dcRead D pak pe size s').1 = (dcRead D pak pe size s).1 ∧
      SameD (dcRead D pak pe size s).2 (dcRead D pak pe size s').2 := by
  have ht : SameD (dcTouch D pak pe s) (dcTouch D pak pe s') := h.touch hpe
  refine ⟨?_, ht⟩
  unfold dcRead
  dsimp only
  rw [(ht.lines _).data]

theorem SameD.write (h : SameD s s') {pe : Nat} (hpe : pe < 2 ^ 29) (val : BitVec 64)
    (size : Nat) : SameD (dcWrite D pak pe val size s) (dcWrite D pak pe val size s') := by
  have ht : SameD (dcTouch D pak pe s) (dcTouch D pak pe s') := h.touch hpe
  refine ht.setLine ?_
  -- a store leaves its line dirty, and after the touch the tag is the address
  have hdata := (ht.lines (pe / 16 % 512)).data
  have htag : ((dcTouch D pak pe s').dcache (pe / 16 % 512)).tagv =
      ((dcTouch D pak pe s).dcache (pe / 16 % 512)).tagv := by
    rw [dcTouch_tagv, dcTouch_tagv]
  exact ⟨by dsimp only; rw [hdata], rfl, by dsimp only; rw [htag], by dsimp only; rw [htag],
    fun _ _ _ => by dsimp only; rw [htag], fun _ => htag⟩

theorem SameD.cacheOpD (h : SameD s s') (fn : DCacheFn) (vaddr tagLo : Nat) :
    (cacheOpD D pak fn vaddr tagLo s').1 = (cacheOpD D pak fn vaddr tagLo s).1 ∧
      SameD (cacheOpD D pak fn vaddr tagLo s).2 (cacheOpD D pak fn vaddr tagLo s').2 := by
  have hphys : vaddr % 2 ^ 29 < 2 ^ 29 := Nat.mod_lt _ (by decide)
  unfold Cpu.cacheOpD
  dsimp only
  generalize vaddr % 2 ^ 29 = phys at hphys ⊢
  have hl := h.lines (phys / 16 % 512)
  have hhit := hl.hits phys hphys rfl
  have hfl : SameD (dcFlush D pak (phys / 16 % 512) s) (dcFlush D pak (phys / 16 % 512) s') :=
    h.flush _
  cases fn with
  | indexWritebackInvalidate =>
    exact ⟨rfl, hfl.setLine (hfl.lines _).invalidate.clean⟩
  | indexLoadTag =>
    have hframe : (s'.dcache (phys / 16 % 512)).ptag / 2 ^ 12 =
        (s.dcache (phys / 16 % 512)).ptag / 2 ^ 12 := by
      have := hl.frame
      unfold DCacheLine.ptag
      omega
    refine ⟨?_, h⟩
    dsimp only
    rw [hl.valid_eq, hframe]
  | indexStoreTag => exact ⟨rfl, h.setLine (hl.retag _ _)⟩
  | createDirtyExclusive =>
    refine ⟨rfl, ?_⟩
    dsimp only
    -- only a dirty line is flushed, and a dirty line has its own tag in both
    have hcond : ((s'.dcache (phys / 16 % 512)).valid && (s'.dcache (phys / 16 % 512)).dirty &&
          decide ((s'.dcache (phys / 16 % 512)).ptag ≠ phys / 16 * 16)) =
        ((s.dcache (phys / 16 % 512)).valid && (s.dcache (phys / 16 % 512)).dirty &&
          decide ((s.dcache (phys / 16 % 512)).ptag ≠ phys / 16 * 16)) := by
      rw [hl.valid_eq, hl.dirty]
      cases hd : (s.dcache (phys / 16 % 512)).dirty
      · simp
      · unfold DCacheLine.ptag
        rw [hl.exact hd]
    rw [hcond]
    split_ifs
    · exact hfl.setLine ((hfl.lines _).retag _ _)
    · exact h.setLine (hl.retag _ _)
  | hitInvalidate =>
    dsimp only
    by_cases hm : (s.dcache (phys / 16 % 512)).tagv = phys / 16 * 16 + 1
    · rw [if_pos hm, if_pos (hhit.mpr hm)]
      exact ⟨rfl, h.setLine hl.invalidate.clean⟩
    · rw [if_neg hm, if_neg (mt hhit.mp hm)]
      exact ⟨rfl, h⟩
  | hitWritebackInvalidate =>
    dsimp only
    by_cases hm : (s.dcache (phys / 16 % 512)).tagv = phys / 16 * 16 + 1
    · rw [if_pos hm, if_pos (hhit.mpr hm)]
      exact ⟨rfl, hfl.setLine (hfl.lines _).invalidate⟩
    · rw [if_neg hm, if_neg (mt hhit.mp hm)]
      exact ⟨rfl, h⟩
  | hitWriteback =>
    dsimp only
    by_cases hm : (s.dcache (phys / 16 % 512)).tagv = phys / 16 * 16 + 1
    · rw [if_pos hm, if_pos (hhit.mpr hm)]
      exact ⟨rfl, hfl⟩
    · rw [if_neg hm, if_neg (mt hhit.mp hm)]
      exact ⟨rfl, h⟩
  | reserved => exact ⟨rfl, h⟩

/-! The instruction cache. -/

variable {m m' : Machine Dev}

theorem SameI.setCpu (h : SameI m m') (hs : SameD s s') :
    SameI { m with cpu := s } { m' with cpu := s' } := by
  obtain ⟨c, ic, rfl, -, hic⟩ := h.exists
  exact ⟨hs, rfl, hic⟩

theorem SameI.setILine (h : SameI m m') {idx : Nat} {l l' : ICacheLine} (hl : l.Like idx l') :
    SameI (m.setILine idx l) (m'.setILine idx l') := by
  obtain ⟨c, ic, rfl, hc, hic⟩ := h.exists
  refine ⟨hc, rfl, ?_⟩
  intro i
  by_cases hi : i = idx
  · subst hi
    rw [setILine_same, setILine_same]
    exact hl
  · rw [setILine_other hi, setILine_other hi]
    exact hic i

theorem SameI.fill (h : SameI m m') (idx base : Nat) :
    SameI (icFill D pak idx base m) (icFill D pak idx base m') := by
  obtain ⟨c, ic, rfl, hc, hic⟩ := h.exists
  obtain ⟨d, rfl, hd⟩ := hc.exists
  refine ⟨⟨rfl, hd⟩, rfl, ?_⟩
  intro i
  unfold icFill
  dsimp only
  by_cases hi : i = idx
  · subst hi
    rw [setILine_same, setILine_same]
    exact .refl i _
  · rw [setILine_other hi, setILine_other hi]
    exact hic i

theorem SameI.iHits (h : SameI m m') {pe : Nat} (hpe : pe < 2 ^ 29) : m'.iHits pe = m.iHits pe := by
  have hl := h.lines (pe / 32 % 512)
  unfold Machine.iHits
  rw [hl.valid]
  cases hv : (m.icache (pe / 32 % 512)).valid
  · rfl
  · rw [Bool.true_and, Bool.true_and, Bool.eq_iff_iff, beq_iff_eq, beq_iff_eq]
    exact hl.hits hv pe hpe rfl

/-- A fetch that does not hit fills the line. -/
theorem icFetch_eq (pe : Nat) (m : Machine Dev) :
    icFetch D pak pe m =
      let m := if m.iHits pe then m else icFill D pak (pe / 32 % 512) (pe / 32 * 32) m
      ((beRead (m.icache (pe / 32 % 512)).data (pe &&& 0x1c) 4).setWidth 32, m) := by
  have hmiss : (!(m.icache (pe / 32 % 512)).valid ||
      decide ((m.icache (pe / 32 % 512)).ptag ≠ pe / 32 * 32)) = !m.iHits pe := by
    unfold Machine.iHits
    by_cases htag : (m.icache (pe / 32 % 512)).ptag = pe / 32 * 32 <;> simp [htag]
  unfold icFetch
  dsimp only
  rw [hmiss]
  cases m.iHits pe <;> rfl

theorem SameI.fetch (h : SameI m m') {pe : Nat} (hpe : pe < 2 ^ 29) :
    (icFetch D pak pe m').1 = (icFetch D pak pe m).1 ∧
      SameI (icFetch D pak pe m).2 (icFetch D pak pe m').2 := by
  rw [icFetch_eq, icFetch_eq, h.iHits hpe]
  dsimp only
  split_ifs
  · exact ⟨by rw [(h.lines _).data], h⟩
  · have hf : SameI (icFill D pak (pe / 32 % 512) (pe / 32 * 32) m)
        (icFill D pak (pe / 32 % 512) (pe / 32 * 32) m') := h.fill _ _
    exact ⟨by rw [(hf.lines _).data], hf⟩

theorem SameI.tagLo (h : SameI m m') : m'.tagLo = m.tagLo := by
  rw [h.rest]

theorem SameI.setTagLo (h : SameI m m') (v : Nat) :
    SameI { m with tagLo := v } { m' with tagLo := v } := by
  obtain ⟨c, ic, rfl, hc, hic⟩ := h.exists
  exact ⟨hc, rfl, hic⟩

theorem SameI.cacheOpI (h : SameI m m') (fn : ICacheFn) (vaddr : Nat) :
    SameI (cacheOpI D pak fn vaddr m) (cacheOpI D pak fn vaddr m') := by
  have hphys : vaddr % 2 ^ 29 < 2 ^ 29 := Nat.mod_lt _ (by decide)
  unfold Cpu.cacheOpI
  dsimp only
  generalize vaddr % 2 ^ 29 = phys at hphys ⊢
  have hl := h.lines (phys / 32 % 512)
  have hhit : ((m'.icache (phys / 32 % 512)).valid &&
      (m'.icache (phys / 32 % 512)).ptag == phys / 32 * 32) = m.iHits phys := h.iHits hphys
  have hinvalid : ({ m.icache (phys / 32 % 512) with valid := false } : ICacheLine).Like
      (phys / 32 % 512) { m'.icache (phys / 32 % 512) with valid := false } :=
    ⟨hl.data, hl.seq, rfl, hl.frame, nofun⟩
  cases fn with
  | indexInvalidate => exact h.setILine hinvalid
  | indexLoadTag =>
    dsimp only
    rw [hl.valid, hl.frame]
    exact h.setTagLo _
  | indexStoreTag =>
    dsimp only
    rw [h.tagLo]
    exact h.setILine ⟨hl.data, hl.seq, rfl, rfl, fun _ _ _ _ => Iff.rfl⟩
  | hitInvalidate =>
    dsimp only
    rw [hhit]
    unfold Machine.iHits
    split_ifs
    · exact h.setILine hinvalid
    · exact h
  | fill => exact h.fill _ _
  | hitWriteback =>
    dsimp only
    rw [hhit]
    unfold Machine.iHits
    split_ifs with hm
    · -- on a hit the two lines have the same address
      obtain ⟨hv, htag⟩ := Bool.and_eq_true_iff.mp hm
      have htag' : (m'.icache (phys / 32 % 512)).ptag = (m.icache (phys / 32 % 512)).ptag := by
        rw [beq_iff_eq.mp htag]
        exact (hl.hits hv phys hphys rfl).mpr (beq_iff_eq.mp htag)
      have hram : ∀ size ram, (m'.icache (phys / 32 % 512)).writeTo size ram =
          (m.icache (phys / 32 % 512)).writeTo size ram := by
        intro size ram
        unfold ICacheLine.writeTo
        rw [htag', hl.data]
      rw [htag', hram, (h.cpu.settle _ _).rdram]
      exact h.setCpu ((h.cpu.settle _ _).setRam _)
    · exact h
  | reserved => exact h

theorem SameI.cacheOp (h : SameI m m') (op vaddr : Nat) :
    SameI (cacheOp D pak op vaddr m) (cacheOp D pak op vaddr m') := by
  unfold Cpu.cacheOp
  split_ifs
  · obtain ⟨hlo, hs⟩ := @SameD.cacheOpD _ D pak _ _ h.cpu (.decode (op / 4 % 8)) vaddr m.tagLo
    dsimp only
    rw [h.tagLo, hlo]
    exact (h.setCpu hs).setTagLo _
  · exact h.cacheOpI _ _

theorem Pak.size_lt (pak : Pak) : pak.size < 2 ^ 29 := by cases pak <;> decide

/-- The step: what comes out is the same, and the machines stay alike. -/
theorem SameI.use (h : SameI m m') (u : CacheUse Dev) :
    (m.use D pak u).2 = (m'.use D pak u).2 ∧ SameI (m.use D pak u).1 (m'.use D pak u).1 := by
  have hram : ∀ {pe}, pe < pak.size → pe < 2 ^ 29 := fun hpe => hpe.trans pak.size_lt
  cases u with
  | load pe size =>
    unfold Machine.use
    dsimp only
    split_ifs with hpe
    · obtain ⟨hv, hs⟩ := @SameD.read _ D pak _ _ h.cpu pe (hram hpe) size
      rw [hv, h.cpu.dHits (hram hpe)]
      exact ⟨rfl, h.setCpu hs⟩
    · exact ⟨rfl, h⟩
  | store pe val size =>
    unfold Machine.use
    dsimp only
    split_ifs with hpe
    · rw [h.cpu.dHits (hram hpe)]
      exact ⟨rfl, h.setCpu (h.cpu.write (hram hpe) val size)⟩
    · exact ⟨rfl, h⟩
  | fetch pe =>
    unfold Machine.use
    dsimp only
    split_ifs with hpe
    · obtain ⟨hv, hs⟩ := @SameI.fetch _ D pak _ _ h pe (hram hpe)
      rw [hv, h.iHits (hram hpe)]
      exact ⟨rfl, hs⟩
    · exact ⟨rfl, h⟩
  | cache op vaddr =>
    have hphys : vaddr % 2 ^ 29 < 2 ^ 29 := Nat.mod_lt _ (by decide)
    have hop : SameI (Cpu.cacheOp D pak op vaddr m) (Cpu.cacheOp D pak op vaddr m') :=
      h.cacheOp op vaddr
    unfold Machine.use
    dsimp only
    rw [h.cpu.dHits hphys, h.iHits hphys, hop.tagLo]
    exact ⟨rfl, hop⟩
  | flush idx => exact ⟨rfl, h.setCpu (h.cpu.flush idx)⟩
  | mtc0TagLo v => exact ⟨rfl, h.setTagLo v⟩
  | aside f =>
    obtain ⟨c, ic, rfl, hc, hic⟩ := h.exists
    obtain ⟨d, rfl, hd⟩ := hc.exists
    exact ⟨rfl, ⟨⟨rfl, hd⟩, rfl, hic⟩⟩

theorem SameI.indistinct (h : SameI m m') : Indistinct D pak m m' :=
  LTS.outputs_eq SameI (fun _ _ u hr => hr.use u) h

/-- `Hit_Writeback` and `Hit_Invalidate` show what hits. -/
theorem Indistinct.dHits (h : Indistinct D pak m m') {pe : Nat} (hpe : pe < 2 ^ 29) :
    m.cpu.dHits pe = m'.cpu.dHits pe := by
  have hout := h [.cache 25 pe]
  have hhit : m.cpu.dHits (pe % 2 ^ 29) = m'.cpu.dHits (pe % 2 ^ 29) :=
    congrArg Seen.hit (List.cons.inj hout).1
  rwa [Nat.mod_eq_of_lt hpe] at hhit

theorem Indistinct.iHits (h : Indistinct D pak m m') {pe : Nat} (hpe : pe < 2 ^ 29) :
    m.iHits pe = m'.iHits pe := by
  have hout := h [.cache 16 pe]
  have hhit : m.iHits (pe % 2 ^ 29) = m'.iHits (pe % 2 ^ 29) :=
    congrArg Seen.hit (List.cons.inj hout).1
  rwa [Nat.mod_eq_of_lt hpe] at hhit

end Keep

/-! ## Section 5: What the round trip leaves -/

theorem tagLo_parts {p : Nat} (hp : p < 4) (x : Nat) :
    p * 2 ^ 6 ||| x * 2 ^ 8 = x * 2 ^ 8 + p * 2 ^ 6 := by
  rw [Nat.or_comm, Nat.mul_comm x]
  exact (Nat.two_pow_add_eq_or_of_lt (i := 8) (by omega) x).symm

section RoundTrip

variable (D : Devices Dev) (pak : Pak) (m : Machine Dev) (v : Nat)

theorem loadTagD_eq : loadTagD D pak v m =
    { m with tagLo :=
      (if (m.dLine v).valid then 3 else 0) * 2 ^ 6 ||| (m.dLine v).ptag / 2 ^ 12 * 2 ^ 8 } := rfl

theorem loadTagI_eq : loadTagI D pak v m =
    { m with tagLo :=
      (if (m.iLine v).valid then 2 else 0) * 2 ^ 6 ||| (m.iLine v).ptag / 2 ^ 12 * 2 ^ 8 } := rfl

variable {m v}

theorem storeTagD_loadTagD (hfit : (m.dLine v).tagv < 2 ^ 32) :
    storeTagD D pak v (loadTagD D pak v m) =
      { loadTagD D pak v m with
        cpu := m.cpu.setLine (dIndex v)
          { m.dLine v with tagv := frameTag (m.dLine v).tagv, dirty := false } } := by
  have hstore : ∀ m' : Machine Dev, storeTagD D pak v m' =
      { m' with
        cpu := m'.cpu.setLine (dIndex v)
          { m'.dLine v with
            tagv := m'.tagLo / 2 ^ 8 % 2 ^ 20 * 2 ^ 12 + if m'.tagLo / 2 ^ 6 % 4 ≠ 0 then 1 else 0
            dirty := false } } := fun _ => rfl
  have htag : (loadTagD D pak v m).tagLo / 2 ^ 8 % 2 ^ 20 * 2 ^ 12 +
      (if (loadTagD D pak v m).tagLo / 2 ^ 6 % 4 ≠ 0 then 1 else 0) =
      frameTag (m.dLine v).tagv := by
    rw [loadTagD_eq]
    dsimp only
    rw [tagLo_parts (by split <;> decide)]
    unfold DCacheLine.ptag DCacheLine.valid frameTag
    rcases Nat.mod_two_eq_zero_or_one (m.dLine v).tagv with hv | hv
    · rw [hv, if_neg (by decide), if_neg (by omega)]
      omega
    · rw [hv, if_pos (by decide), if_pos (by omega)]
      omega
  rw [hstore, htag]
  rfl

theorem storeTagI_loadTagI (hfit : (m.iLine v).ptag < 2 ^ 32) :
    storeTagI D pak v (loadTagI D pak v m) =
      (loadTagI D pak v m).setILine (iIndex v)
        { m.iLine v with ptag := (m.iLine v).ptag / 2 ^ 12 * 2 ^ 12 } := by
  have hstore : ∀ m' : Machine Dev, storeTagI D pak v m' =
      m'.setILine (iIndex v)
        { m'.iLine v with
          valid := decide (m'.tagLo / 2 ^ 6 % 4 ≠ 0)
          ptag := m'.tagLo / 2 ^ 8 % 2 ^ 20 * 2 ^ 12 } := fun _ => rfl
  have htag : (loadTagI D pak v m).tagLo / 2 ^ 8 % 2 ^ 20 * 2 ^ 12 =
      (m.iLine v).ptag / 2 ^ 12 * 2 ^ 12 := by
    rw [loadTagI_eq]
    dsimp only
    rw [tagLo_parts (by split <;> decide)]
    split <;> omega
  have hvalid : decide ((loadTagI D pak v m).tagLo / 2 ^ 6 % 4 ≠ 0) = (m.iLine v).valid := by
    rw [loadTagI_eq]
    dsimp only
    rw [tagLo_parts (by split <;> decide)]
    cases (m.iLine v).valid
    · rw [if_neg (by decide)]
      exact decide_eq_false (by omega)
    · rw [if_pos rfl]
      exact decide_eq_true (by omega)
  rw [hstore, htag, hvalid]
  rfl

end RoundTrip

/-! ## Section 6: When the line is as it was -/

theorem like_frameTag {idx : Nat} {l : DCacheLine} (hclean : l.dirty = false)
    (h : DKept idx l.tagv) :
    l.Like idx { l with tagv := frameTag l.tagv, dirty := false } := by
  have hframe : frameTag l.tagv % 2 = l.tagv % 2 ∧
      frameTag l.tagv / 2 ^ 12 = l.tagv / 2 ^ 12 := by
    unfold frameTag
    omega
  refine ⟨rfl, hclean.symm, hframe.1, hframe.2, ?_, fun hd => absurd hd (by simp [hclean])⟩
  intro pe hpe hidx
  dsimp only
  rcases h with hsame | ⟨hno, hno'⟩
  · rw [hsame]
  · -- neither is the address of anything at this index
    have hreach : ∀ t, t = pe / 16 * 16 + 1 → DReach idx t := by
      intro t ht
      refine ⟨?_, ?_, ?_⟩ <;> omega
    exact ⟨fun ht => absurd (hreach _ ht) hno', fun ht => absurd (hreach _ ht) hno⟩

theorem dKept_of_hits {idx t : Nat}
    (h : ∀ pe < 2 ^ 29, pe / 16 % 512 = idx →
      (frameTag t = pe / 16 * 16 + 1 ↔ t = pe / 16 * 16 + 1)) : DKept idx t := by
  by_cases hr : DReach idx t
  · obtain ⟨h16, hidx, hlt⟩ := hr
    have hline : t = (t - 1) / 16 * 16 + 1 := by omega
    have hkept := (h (t - 1) (by omega) (by omega)).mpr hline
    exact .inl (hkept.trans hline.symm)
  · by_cases hr' : DReach idx (frameTag t)
    · obtain ⟨h16, hidx, hlt⟩ := hr'
      have hline : frameTag t = (frameTag t - 1) / 16 * 16 + 1 := by omega
      have hkept := (h (frameTag t - 1) (by omega) (by omega)).mp hline
      exact .inl (hline.trans hkept.symm)
    · exact .inr ⟨hr, hr'⟩

theorem like_framePtag {idx : Nat} {l : ICacheLine} (h : IKept idx l) :
    l.Like idx { l with ptag := l.ptag / 2 ^ 12 * 2 ^ 12 } := by
  refine ⟨rfl, rfl, rfl, by dsimp only; omega, ?_⟩
  intro hv pe hpe hidx
  dsimp only
  rcases h with hno | hsame | ⟨hno, hno'⟩
  · rw [hv] at hno
    cases hno
  · rw [show l.ptag / 2 ^ 12 * 2 ^ 12 = l.ptag by omega]
  · have hreach : ∀ t, t = pe / 32 * 32 → IReach idx t := by
      intro t ht
      refine ⟨?_, ?_, ?_⟩ <;> omega
    exact ⟨fun ht => absurd (hreach _ ht) hno', fun ht => absurd (hreach _ ht) hno⟩

theorem iKept_of_hits {idx : Nat} {l : ICacheLine}
    (h : l.valid = true → ∀ pe < 2 ^ 29, pe / 32 % 512 = idx →
      (l.ptag / 2 ^ 12 * 2 ^ 12 = pe / 32 * 32 ↔ l.ptag = pe / 32 * 32)) : IKept idx l := by
  cases hv : l.valid with
  | false => exact .inl hv
  | true =>
    right
    by_cases hr : IReach idx l.ptag
    · obtain ⟨h32, hidx, hlt⟩ := hr
      have hline : l.ptag = l.ptag / 32 * 32 := by omega
      have := (h hv l.ptag hlt hidx).mpr hline
      exact .inl (by omega)
    · by_cases hr' : IReach idx (l.ptag / 2 ^ 12 * 2 ^ 12)
      · obtain ⟨h32, hidx, hlt⟩ := hr'
        have := (h hv _ hlt hidx).mp (by omega)
        exact .inl (by omega)
      · exact .inr ⟨hr, hr'⟩

/-- A data line that was filled keeps its address where the low eight bits of
    its index are zero. -/
theorem dKept_fill {base : Nat} (hbase : base % 16 = 0) (hlt : base < 2 ^ 29) :
    DKept (base / 16 % 512) (base + 1) ↔ base / 16 % 256 = 0 := by
  have hreach : DReach (base / 16 % 512) (base + 1) := ⟨by omega, by omega, by omega⟩
  unfold DKept frameTag
  constructor
  · rintro (h | ⟨h, -⟩)
    · omega
    · exact absurd hreach h
  · intro h
    left
    omega

/-- An instruction line, where the low seven are. -/
theorem iKept_fill {l : ICacheLine} (hv : l.valid = true) (hbase : l.ptag % 32 = 0)
    (hlt : l.ptag < 2 ^ 29) : IKept (l.ptag / 32 % 512) l ↔ l.ptag / 32 % 128 = 0 := by
  have hreach : IReach (l.ptag / 32 % 512) l.ptag := ⟨hbase, rfl, hlt⟩
  unfold IKept
  constructor
  · rintro (h | h | ⟨h, -⟩)
    · rw [hv] at h
      cases h
    · omega
    · exact absurd hreach h
  · intro h
    right
    left
    omega

/-- **The round trip of a line that is not dirty leaves it as it was, for
    everything that can happen to the caches, exactly when its tag loses
    nothing in `TagLo` that an address at its index would be compared with.** -/
theorem tagRoundTrip_iff (D : Devices Dev) (pak : Pak) {m : Machine Dev} (hfit : TagsFit m)
    (v : Nat) :
    ((m.dLine v).dirty = false →
      (Indistinct D pak (loadTagD D pak v m) (storeTagD D pak v (loadTagD D pak v m)) ↔
        DKept (dIndex v) (m.dLine v).tagv)) ∧
      (Indistinct D pak (loadTagI D pak v m) (storeTagI D pak v (loadTagI D pak v m)) ↔
        IKept (iIndex v) (m.iLine v)) := by
  constructor
  · intro hclean
    rw [storeTagD_loadTagD D pak (hfit.d _)]
    constructor
    · intro h
      apply dKept_of_hits
      intro pe hpe hidx
      have hhit := h.dHits hpe
      unfold State.dHits at hhit
      rw [hidx, setLine_same, Bool.eq_iff_iff, beq_iff_eq, beq_iff_eq] at hhit
      exact hhit.symm
    · intro h
      have hsame : SameD m.cpu (m.cpu.setLine (dIndex v)
          { m.dLine v with tagv := frameTag (m.dLine v).tagv, dirty := false }) := by
        refine ⟨rfl, fun i => ?_⟩
        by_cases hi : i = dIndex v
        · subst hi
          rw [setLine_same]
          exact like_frameTag hclean h
        · rw [setLine_other hi]
          exact .refl i _
      exact ((SameI.refl (loadTagD D pak v m)).setCpu hsame).indistinct
  · rw [storeTagI_loadTagI D pak (hfit.i _)]
    constructor
    · intro h
      apply iKept_of_hits
      intro hv pe hpe hidx
      have hhit := h.iHits hpe
      unfold Machine.iHits at hhit
      rw [hidx, setILine_same] at hhit
      have hv' : ((loadTagI D pak v m).icache (iIndex v)).valid = true := hv
      rw [hv', hv, Bool.true_and, Bool.true_and, Bool.eq_iff_iff, beq_iff_eq, beq_iff_eq] at hhit
      exact hhit.symm
    · intro h
      have hsame : SameI (loadTagI D pak v m) ((loadTagI D pak v m).setILine (iIndex v)
          { m.iLine v with ptag := (m.iLine v).ptag / 2 ^ 12 * 2 ^ 12 }) := by
        refine ⟨.refl _, rfl, fun i => ?_⟩
        by_cases hi : i = iIndex v
        · subst hi
          rw [setILine_same]
          exact like_framePtag h
        · rw [setILine_other hi]
          exact .refl i _
      exact hsame.indistinct

/-- Out of reset, and the word at `pe` has been loaded. -/
def loadedMachine (pe : Nat) : Machine Unit :=
  { coldMachine with cpu := (dcRead noDevices .base pe 4 coldState).2 }

theorem loadedMachine_fit {pe : Nat} (hpe : pe < 2 ^ 29) : TagsFit (loadedMachine pe) := by
  refine ⟨fun i => ?_, fun i => show 0 < 2 ^ 32 by decide⟩
  have hline : ((loadedMachine pe).cpu.dcache i).tagv =
      if i = pe / 16 % 512 then pe / 16 * 16 + 1 else 0 := by
    change ((dcTouch noDevices .base pe coldState).dcache i).tagv = _
    split_ifs with hi
    · subst hi
      exact dcTouch_tagv pe coldState
    · rw [dcTouch_other hi]
      rfl
  rw [hline]
  split <;> omega

theorem tagRoundTrip_page :
    Indistinct noDevices .base (loadTagD noDevices .base 0x1000 (loadedMachine 0x1000))
      (storeTagD noDevices .base 0x1000 (loadTagD noDevices .base 0x1000 (loadedMachine 0x1000))) :=
  ((tagRoundTrip_iff noDevices .base (loadedMachine_fit (by decide)) 0x1000).1
    (by with_unfolding_all rfl)).mpr (.inl (by with_unfolding_all rfl))

/-- A transfer into RDRAM, past the caches. -/
def dmaByte (a : Nat) (b : Byte) (s : State Unit) : State Unit :=
  { s with mem := { s.mem with rdram := fun x => if x = a then b else s.mem.rdram x } }

/-- The line of `0x10` misses after its round trip, and the load that follows
    a transfer reads the new byte. -/
theorem tagRoundTrip_loses_line :
    ¬ ∀ (m : Machine Unit) (v : Nat), TagsFit m → (m.dLine v).dirty = false →
      Indistinct noDevices .base (loadTagD noDevices .base v m)
        (storeTagD noDevices .base v (loadTagD noDevices .base v m)) := by
  intro h
  have hout := h (loadedMachine 0x10) 0x10 (loadedMachine_fit (by decide))
    (by with_unfolding_all rfl) [.aside (dmaByte 0x10 0xff), .load 0x10 1]
  have hlast : (⟨true, 0x10⟩ : Seen) = ⟨false, 0xff⟩ :=
    (List.cons.inj (List.cons.inj hout).2).1
  cases hlast

end Cpu
