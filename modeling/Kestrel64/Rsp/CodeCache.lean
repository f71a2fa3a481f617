import Mathlib.Data.List.Basic
import Kestrel64.Lib.Transition
import Kestrel64.Rsp.Block

/-! # RSP Dynarec: the Code Cache

    The tables of compiled blocks and what keeps them in step with IMEM:
    `syncImem` compares IMEM with the shadow a table was last synchronised
    to, `jitSelectImage` picks the table that is closest to IMEM when a task
    starts, `jitInvalidate` is the hook of whoever writes IMEM by DMA.

    A compiled slot keeps the words it was compiled from. They are not in
    the source: they are what the machine code in the slot does, and they
    let a state say that a block is stale.

    The writers of IMEM are the events of a transition system. CPU stores
    have no hook. The hook of a DMA from another thread only leaves a request
    that `step` honours at the start of its next chunk of instructions.
    `entered_coherent` says that these two are the only ways to a stale
    block, `stale_entry` runs the first one.
-/

namespace Rsp

open LTS

/-! ## Section 1: One table -/

/-- An entry of the table: `compiled src` stands for machine code made from
    the words `src`. -/
inductive Slot where
  | unknown
  | noComp
  | compiled (src : List Word)

structure Cache where
  shadow : Imem
  slot : Nat → Slot

/-- A table just initialised. -/
def Cache.fresh : Cache where
  shadow := fun _ => 0
  slot := fun _ => .unknown

/-- `clear`: the table is dropped, the shadow stays. -/
def Cache.clear (c : Cache) : Cache := { c with slot := fun _ => .unknown }

def imemChunks : Nat := 512

/-- The 8-byte chunk `i` differs. -/
def dirty (imem shadow : Imem) (i : Nat) : Bool :=
  imem (2 * i) != shadow (2 * i) || imem (2 * i + 1) != shadow (2 * i + 1)

def diffChunks (imem : Imem) (c : Cache) : Nat :=
  (List.range imemChunks).countP (dirty imem c.shadow)

/-- Dirty words below `w`. -/
def dirtyBelow (imem shadow : Imem) (w : Nat) : Nat :=
  (List.range w).countP fun w => dirty imem shadow (w / 2)

/-- How many words a slot depends on; the scan behind a `noComp` may have
    looked at `kMaxOps`. -/
def Slot.reach : Slot → Nat
  | .compiled src => src.length
  | _ => kMaxOps

/-- A slot none of whose words changed survives. -/
def Slot.keep (imem shadow : Imem) (idx : Nat) : Slot → Slot
  | .unknown => .unknown
  | s =>
    let e := min (idx + s.reach) imemWords
    if dirtyBelow imem shadow e = dirtyBelow imem shadow idx then s else .unknown

def syncImem (imem : Imem) (c : Cache) : Cache :=
  if diffChunks imem c = 0 then c
  else { shadow := imem, slot := fun idx => (c.slot idx).keep imem c.shadow idx }

/-- What the emitter met: room in the code buffer, room once it is recycled,
    an overflow all the same, an emission that could not be completed. -/
structure Emit where
  ready : Bool
  room : Bool
  roomEmpty : Bool
  overflowed : Bool
  ok : Bool

def Cache.setSlot (c : Cache) (idx : Nat) (s : Slot) : Cache :=
  { c with slot := fun j => if j = idx then s else c.slot j }

/-- `compile`: the words are read from the live IMEM. -/
def compile (imem : Imem) (pc : Nat) (em : Emit) (c : Cache) : Cache :=
  let c := c.setSlot pc .noComp
  if !em.ready then c
  else if (form imem pc).nOps < kMinOps then c
  else
    let c := if em.room then c else c.clear
    if !em.room && !em.roomEmpty then c
    else if em.overflowed then c.clear
    else if !em.ok then c
    else c.setSlot pc (.compiled (blockWords imem pc))

/-! ## Section 2: All tables -/

def kJitWays : Nat := 16
def kJitNewWay : Nat := 8

/-- The dynarec and the state of the core it depends on. -/
structure Dyn where
  imem : Imem
  ways : List Cache
  cur : Nat
  running : Bool
  /-- `step` is inside a chunk of instructions. -/
  inChunk : Bool
  /-- `jitImemSyncReq` -/
  syncReq : Bool

/-- The table in use. -/
def Dyn.active (s : Dyn) : Cache := s.ways.getD s.cur Cache.fresh

def Dyn.setActive (s : Dyn) (c : Cache) : Dyn := { s with ways := s.ways.set s.cur c }

/-- The loop of `jitSelectImage` over the tables: the closest one so far and
    its distance. -/
def pick (imem : Imem) (cur : Nat) : List (Cache × Nat) → Nat × Nat → Nat × Nat
  | [], best => best
  | (c, i) :: rest, best =>
    if best.2 = 0 then best
    else if i ≠ cur ∧ diffChunks imem c < best.2 then
      pick imem cur rest (i, diffChunks imem c)
    else pick imem cur rest best

/-- `jitSelectImage`. `alloc` says whether a new code buffer could be had. -/
def jitSelectImage (alloc : Bool) (s : Dyn) : Dyn :=
  let best := pick s.imem s.cur s.ways.zipIdx (s.cur, diffChunks s.imem s.active)
  if best.2 = 0 then { s with cur := best.1 }
  else
    let s :=
      if kJitNewWay ≤ best.2 ∧ s.ways.length < kJitWays ∧ alloc then
        { s with ways := s.ways ++ [Cache.fresh], cur := s.ways.length }
      else { s with cur := best.1 }
    s.setActive (syncImem s.imem s.active)

/-- The hook of a writer of IMEM. `own`: on the thread that runs the core. -/
def jitInvalidate (own alloc : Bool) (s : Dyn) : Dyn :=
  if !s.running then s
  else if own then jitSelectImage alloc s
  else { s with syncReq := true }

/-! ## Section 3: Events -/

def writeWords (ws : List (Nat × Word)) (imem : Imem) : Imem :=
  ws.foldl (fun m p a => if a = p.1 then p.2 else m a) imem

inductive Event where
  /-- A CPU store to IMEM. -/
  | store (a : Nat) (w : Word)
  /-- SP DMA into IMEM. -/
  | dma (ws : List (Nat × Word)) (own alloc : Bool)
  /-- A task starts. -/
  | start (alloc : Bool)
  /-- `step` begins a chunk of instructions. -/
  | chunk
  | chunkEnd
  /-- The core stops. -/
  | halt
  | compile (pc : Nat) (em : Emit)
  /-- `step`, or the link at the end of a block, enters the block at `pc`. -/
  | enter (pc : Nat)
  /-- A savestate replaces IMEM and `running`. -/
  | load (imem : Imem) (running own alloc : Bool)

/-- When an event can happen: blocks are compiled and entered inside a chunk,
    tasks start and stop and states are loaded between chunks. -/
def Event.enabled (s : Dyn) : Event → Prop
  | .store _ _ => True
  | .dma _ _ _ => True
  | .start _ => s.inChunk = false
  | .chunk => s.running = true ∧ s.inChunk = false
  | .chunkEnd => s.inChunk = true
  | .halt => s.inChunk = false
  | .compile pc _ => s.inChunk = true ∧ pc < imemWords ∧ s.active.slot pc = .unknown
  | .enter pc => s.inChunk = true ∧ ∃ src, s.active.slot pc = .compiled src
  | .load _ _ _ _ => s.inChunk = false

def Event.apply (s : Dyn) : Event → Dyn
  | .store a w => { s with imem := fun j => if j = a then w else s.imem j }
  | .dma ws own alloc => jitInvalidate own alloc { s with imem := writeWords ws s.imem }
  | .start alloc => { jitSelectImage alloc s with running := true }
  | .chunk =>
    let s := if s.syncReq then { s.setActive (syncImem s.imem s.active) with syncReq := false }
      else s
    { s with inChunk := true }
  | .chunkEnd => { s with inChunk := false }
  | .halt => { s with running := false }
  | .compile pc em => s.setActive (Rsp.compile s.imem pc em s.active)
  | .enter _ => s
  | .load imem running own alloc =>
    jitInvalidate own alloc { s with imem := imem, running := running }

/-- The code cache from power-on: one empty table, the core stopped. -/
def cacheSystem : System Dyn Event where
  init := fun s => s.ways = [Cache.fresh] ∧ s.cur = 0 ∧ s.running = false ∧
    s.inChunk = false ∧ s.syncReq = false
  step := fun s ev s' => ev.enabled s ∧ s' = ev.apply s

/-- Every word the block at `pc` was compiled from is the word now there. -/
def Coherent (s : Dyn) (pc : Nat) : Prop :=
  ∀ src, s.active.slot pc = .compiled src → ∀ k w, src[k]? = some w → s.imem (pc + k) = w

/-! ## Section 4: Synchronising one table -/

/-- The two images agree on every word of IMEM. -/
def SameImage (a b : Imem) : Prop := ∀ w < imemWords, a w = b w

/-- The blocks of a table were compiled from its shadow. -/
structure Cache.Faithful (c : Cache) : Prop where
  noWrap : ∀ pc src, c.slot pc = .compiled src → pc + src.length ≤ imemWords
  words : ∀ pc src, c.slot pc = .compiled src → ∀ k w, src[k]? = some w → c.shadow (pc + k) = w

theorem Cache.Faithful.fresh : Cache.fresh.Faithful where
  noWrap := nofun
  words := nofun

theorem Cache.Faithful.clear (c : Cache) : c.clear.Faithful where
  noWrap := nofun
  words := nofun

theorem Cache.Faithful.setSlot {c : Cache} (h : c.Faithful) {idx : Nat} {s : Slot}
    (hs : ∀ src, s = .compiled src → idx + src.length ≤ imemWords ∧
      ∀ k w, src[k]? = some w → c.shadow (idx + k) = w) : (c.setSlot idx s).Faithful where
  noWrap := by
    intro pc src hpc
    simp only [Cache.setSlot] at hpc
    split_ifs at hpc with heq
    · rw [heq]
      exact (hs src hpc).1
    · exact h.noWrap pc src hpc
  words := by
    intro pc src hpc
    simp only [Cache.setSlot] at hpc
    split_ifs at hpc with heq
    · rw [heq]
      exact (hs src hpc).2
    · exact h.words pc src hpc

/-- A clean chunk has both its words equal. -/
theorem eq_of_not_dirty {imem shadow : Imem} {w : Nat} (h : dirty imem shadow (w / 2) = false) :
    imem w = shadow w := by
  simp only [dirty, Bool.or_eq_false_iff, bne_eq_false_iff_eq] at h
  obtain hw | hw : w = 2 * (w / 2) ∨ w = 2 * (w / 2) + 1 := by omega
  · rw [hw]
    exact h.1
  · rw [hw]
    exact h.2

theorem sameImage_of_diffChunks {imem : Imem} {c : Cache} (h : diffChunks imem c = 0) :
    SameImage imem c.shadow := by
  intro w hw
  unfold diffChunks at h
  rw [List.countP_eq_zero] at h
  refine eq_of_not_dirty (Bool.eq_false_iff.mpr (h (w / 2) ?_))
  rw [List.mem_range]
  unfold imemWords at hw
  unfold imemChunks
  omega

/-- Equal prefix sums leave no dirty word between. -/
theorem not_dirty_of_dirtyBelow {imem shadow : Imem} {i n : Nat}
    (h : dirtyBelow imem shadow (i + n) = dirtyBelow imem shadow i) {k : Nat} (hk : k < n) :
    dirty imem shadow ((i + k) / 2) = false := by
  unfold dirtyBelow at h
  rw [List.range_add, List.countP_append, List.countP_map] at h
  have hzero := Nat.add_eq_left.mp h
  rw [List.countP_eq_zero] at hzero
  exact Bool.eq_false_iff.mpr (hzero k (List.mem_range.mpr hk))

theorem keep_compiled {imem shadow : Imem} {idx : Nat} {s : Slot} {src : List Word}
    (h : s.keep imem shadow idx = .compiled src) :
    s = .compiled src ∧ dirtyBelow imem shadow (min (idx + src.length) imemWords) =
      dirtyBelow imem shadow idx := by
  cases s with
  | unknown => cases h
  | noComp =>
    unfold Slot.keep at h
    dsimp only at h
    split_ifs at h
  | compiled src' =>
    unfold Slot.keep at h
    dsimp only at h
    split_ifs at h with heq
    cases h
    exact ⟨rfl, heq⟩

/-- `syncImem` brings a table up to date: its shadow is IMEM, and what it
    keeps was compiled from words that did not change. -/
theorem syncImem_spec (imem : Imem) {c : Cache} (hc : c.Faithful) :
    (syncImem imem c).Faithful ∧ SameImage imem (syncImem imem c).shadow := by
  unfold syncImem
  by_cases hdiff : diffChunks imem c = 0
  · rw [if_pos hdiff]
    exact ⟨hc, sameImage_of_diffChunks hdiff⟩
  rw [if_neg hdiff]
  refine ⟨?_, fun _ _ => rfl⟩
  constructor
  · intro pc src hpc
    exact hc.noWrap pc src (keep_compiled hpc).1
  · intro pc src hpc k w hk
    obtain ⟨hslot, hpre⟩ := keep_compiled hpc
    have hlen : k < src.length := (List.getElem?_eq_some_iff.mp hk).1
    rw [Nat.min_eq_left (hc.noWrap pc src hslot)] at hpre
    exact (eq_of_not_dirty (not_dirty_of_dirtyBelow hpre hlen)).trans
      (hc.words pc src hslot k w hk)

theorem blockWords_length (imem : Imem) (pc : Nat) :
    (blockWords imem pc).length = (form imem pc).nOps := by
  simp [blockWords]

theorem blockWords_get {imem : Imem} {pc k : Nat} {w : Word}
    (h : (blockWords imem pc)[k]? = some w) : imem (pc + k) = w := by
  unfold blockWords at h
  rw [List.getElem?_map] at h
  obtain ⟨i, hi, rfl⟩ := Option.map_eq_some_iff.mp h
  obtain ⟨hlt, rfl⟩ := List.getElem?_eq_some_iff.mp hi
  rw [List.getElem_range]

/-- A block compiled while the shadow is up to date is faithful to it. -/
theorem compile_spec {imem : Imem} {pc : Nat} (em : Emit) {c : Cache} (hc : c.Faithful)
    (hpc : pc < imemWords) (hsame : SameImage imem c.shadow) :
    (compile imem pc em c).Faithful ∧ (compile imem pc em c).shadow = c.shadow := by
  have hno : (c.setSlot pc .noComp).Faithful := hc.setSlot nofun
  have hblock : ∀ src, Slot.compiled (blockWords imem pc) = .compiled src →
      pc + src.length ≤ imemWords ∧ ∀ k w, src[k]? = some w → c.shadow (pc + k) = w := by
    intro src hsrc
    cases hsrc
    have hwrap := (form_shape hpc imem).noWrap
    rw [blockWords_length]
    refine ⟨hwrap, fun k w hk => ?_⟩
    have hlt : k < (form imem pc).nOps := by
      rw [← blockWords_length]
      exact (List.getElem?_eq_some_iff.mp hk).1
    rw [← hsame (pc + k) (by omega)]
    exact blockWords_get hk
  -- the table the block is entered into: recycled if the buffer is full
  have hroom : (if em.room then c.setSlot pc .noComp else (c.setSlot pc .noComp).clear).Faithful ∧
      (if em.room then c.setSlot pc .noComp else (c.setSlot pc .noComp).clear).shadow =
        c.shadow := by
    cases em.room with
    | true => exact ⟨hno, rfl⟩
    | false => exact ⟨Cache.Faithful.clear _, rfl⟩
  unfold compile
  dsimp only
  generalize (if em.room then c.setSlot pc .noComp else (c.setSlot pc .noComp).clear) = c'
    at hroom ⊢
  obtain ⟨hfaith, hshadow⟩ := hroom
  split_ifs
  · exact ⟨hno, rfl⟩
  · exact ⟨hno, rfl⟩
  · exact ⟨hfaith, hshadow⟩
  · exact ⟨Cache.Faithful.clear _, hshadow⟩
  · exact ⟨hfaith, hshadow⟩
  · refine ⟨hfaith.setSlot ?_, hshadow⟩
    rw [hshadow]
    exact hblock

/-! ## Section 5: Selecting a table -/

/-- The closest table is one of the tables, and its distance is its own. -/
theorem pick_spec (imem : Imem) (cur : Nat) {ways : List Cache} {l : List (Cache × Nat)}
    (best : Nat × Nat) (hl : ∀ p ∈ l, ways[p.2]? = some p.1)
    (hbest : ∃ c, ways[best.1]? = some c ∧ best.2 = diffChunks imem c) :
    ∃ c, ways[(pick imem cur l best).1]? = some c ∧
      (pick imem cur l best).2 = diffChunks imem c := by
  induction l generalizing best with
  | nil => exact hbest
  | cons p rest ih =>
    obtain ⟨c, i⟩ := p
    have hrest : ∀ p ∈ rest, ways[p.2]? = some p.1 := fun p hp => hl p (List.mem_cons_of_mem _ hp)
    unfold pick
    split_ifs
    · exact hbest
    · exact ih (i, diffChunks imem c) hrest ⟨c, hl (c, i) (List.mem_cons_self ..), by simp only⟩
    · exact ih best hrest hbest

/-- The tables are faithful to their shadows and one of them is in use. -/
structure Dyn.Tables (s : Dyn) : Prop where
  faithful : ∀ c ∈ s.ways, c.Faithful
  cur_lt : s.cur < s.ways.length

theorem Dyn.Tables.active_mem {s : Dyn} (h : s.Tables) : s.ways[s.cur]? = some s.active := by
  unfold Dyn.active
  rw [List.getD_eq_getElem?_getD, List.getElem?_eq_getElem h.cur_lt]
  rfl

theorem Dyn.Tables.active_faithful {s : Dyn} (h : s.Tables) : s.active.Faithful :=
  h.faithful _ (List.mem_of_getElem? h.active_mem)

theorem Dyn.Tables.setActive {s : Dyn} (h : s.Tables) {c : Cache} (hc : c.Faithful) :
    (s.setActive c).Tables where
  faithful := by
    intro d hd
    obtain hd | rfl := List.mem_or_eq_of_mem_set hd
    · exact h.faithful d hd
    · exact hc
  cur_lt := by
    unfold Dyn.setActive
    rw [List.length_set]
    exact h.cur_lt

theorem Dyn.Tables.active_setActive {s : Dyn} (h : s.Tables) (c : Cache) :
    (s.setActive c).active = c := by
  unfold Dyn.active Dyn.setActive
  dsimp only
  rw [List.getD_eq_getElem?_getD, List.getElem?_set_self h.cur_lt]
  rfl

/-- Synchronising the table in use. -/
theorem Dyn.Tables.sync {s : Dyn} (h : s.Tables) :
    (s.setActive (syncImem s.imem s.active)).Tables ∧
      SameImage s.imem (s.setActive (syncImem s.imem s.active)).active.shadow := by
  obtain ⟨hfaith, hsame⟩ := syncImem_spec s.imem h.active_faithful
  refine ⟨h.setActive hfaith, ?_⟩
  rw [h.active_setActive]
  exact hsame

/-- Whatever table is selected, its shadow is the IMEM of now. -/
theorem jitSelectImage_spec (alloc : Bool) {s : Dyn} (h : s.Tables) :
    (jitSelectImage alloc s).Tables ∧
      SameImage s.imem (jitSelectImage alloc s).active.shadow := by
  have hzip : ∀ p ∈ s.ways.zipIdx, s.ways[p.2]? = some p.1 := by
    intro p hp
    exact (List.mem_zipIdx_iff_getElem?).mp hp
  obtain ⟨c, hget, hdist⟩ := pick_spec s.imem s.cur (s.cur, diffChunks s.imem s.active) hzip
    ⟨s.active, h.active_mem, by simp only⟩
  unfold jitSelectImage
  dsimp only
  generalize pick s.imem s.cur s.ways.zipIdx (s.cur, diffChunks s.imem s.active) = best
    at hget hdist ⊢
  have hlt : best.1 < s.ways.length := (List.getElem?_eq_some_iff.mp hget).1
  have hmoved : ({ s with cur := best.1 } : Dyn).Tables := ⟨h.faithful, hlt⟩
  split_ifs with hzero hnew
  · refine ⟨hmoved, ?_⟩
    have hactive : ({ s with cur := best.1 } : Dyn).active = c :=
      Option.some.inj (hmoved.active_mem.symm.trans hget)
    rw [hactive]
    exact sameImage_of_diffChunks (hdist.symm.trans hzero)
  · have hfresh : ({ s with ways := s.ways ++ [Cache.fresh], cur := s.ways.length } : Dyn).Tables :=
      { faithful := by
          intro d hd
          obtain hd | hd := List.mem_append.mp hd
          · exact h.faithful d hd
          · rw [List.mem_singleton.mp hd]
            exact Cache.Faithful.fresh
        cur_lt := by simp }
    exact hfresh.sync
  · exact hmoved.sync

/-- Selecting a table touches nothing but the tables. -/
theorem jitSelectImage_frame (alloc : Bool) (s : Dyn) :
    ∃ ways cur, jitSelectImage alloc s = { s with ways := ways, cur := cur } := by
  unfold jitSelectImage Dyn.setActive
  dsimp only
  split_ifs
  · exact ⟨_, _, rfl⟩
  · exact ⟨_, _, rfl⟩
  · exact ⟨_, _, rfl⟩

/-! ## Section 6: Runs -/

structure Inv (s : Dyn) : Prop where
  tables : s.Tables
  /-- With the core running and no request pending, the table is up to date. -/
  synced : s.running = true → s.syncReq = false → SameImage s.imem s.active.shadow
  chunk : s.inChunk = true → s.running = true ∧ SameImage s.imem s.active.shadow

/-- The writes that the cache can follow: a CPU store while the core runs
    changes nothing, and neither does a DMA from another thread inside a
    chunk. -/
def Event.Tracked (s : Dyn) : Event → Prop
  | .store a w => s.running = true → s.imem a = w
  | .dma ws own _ => own = false → s.inChunk = true → ∀ p ∈ ws, s.imem p.1 = p.2
  | _ => True

theorem writeWords_of_same {ws : List (Nat × Word)} {imem : Imem}
    (h : ∀ p ∈ ws, imem p.1 = p.2) : writeWords ws imem = imem := by
  induction ws with
  | nil => rfl
  | cons p ws ih =>
    have hp : (fun a => if a = p.1 then p.2 else imem a) = imem := by
      funext a
      split_ifs with ha
      · rw [ha, h p (List.mem_cons_self ..)]
      · rfl
    unfold writeWords at ih ⊢
    rw [List.foldl_cons, hp]
    exact ih fun q hq => h q (List.mem_cons_of_mem _ hq)

/-- Selecting a table re-establishes the invariant, whatever was written. -/
theorem Inv.select {s : Dyn} (ht : s.Tables) (hchunk : s.inChunk = true → s.running = true)
    (alloc : Bool) : Inv (jitSelectImage alloc s) := by
  obtain ⟨htables, hsame⟩ := jitSelectImage_spec alloc ht
  obtain ⟨ways, cur, hframe⟩ := jitSelectImage_frame alloc s
  rw [hframe] at htables hsame ⊢
  exact
    { tables := htables
      synced := fun _ _ => hsame
      chunk := fun hc => ⟨hchunk hc, hsame⟩ }

/-- From another thread the hook only leaves its request. -/
theorem jitInvalidate_foreign {s : Dyn} (h : s.running = true) (alloc : Bool) :
    jitInvalidate false alloc s = { s with syncReq := true } := by
  unfold jitInvalidate
  rw [h]
  rfl

/-- The hook, outside the case of another thread inside a chunk. -/
theorem Inv.hook {s : Dyn} (ht : s.Tables) (hchunk : s.inChunk = true → s.running = true)
    {own : Bool} (hown : own = false → s.inChunk = false) (alloc : Bool) :
    Inv (jitInvalidate own alloc s) := by
  cases hrun : s.running with
  | false =>
    have hnone : jitInvalidate own alloc s = s := by
      unfold jitInvalidate
      rw [hrun]
      rfl
    rw [hnone]
    refine ⟨ht, fun h => absurd (hrun.symm.trans h) (by decide), fun h => ?_⟩
    exact absurd (hrun.symm.trans (hchunk h)) (by decide)
  | true =>
    cases own with
    | true =>
      have hown : jitInvalidate true alloc s = jitSelectImage alloc s := by
        unfold jitInvalidate
        rw [hrun]
        rfl
      rw [hown]
      exact Inv.select ht hchunk alloc
    | false =>
      rw [jitInvalidate_foreign hrun]
      refine ⟨⟨ht.faithful, ht.cur_lt⟩, nofun, fun h => ?_⟩
      exact absurd ((hown rfl).symm.trans h) (by decide)

theorem inv_step {s : Dyn} {ev : Event} (h : Inv s) (hen : ev.enabled s) (hgood : ev.Tracked s) :
    Inv (ev.apply s) := by
  have hchunk : s.inChunk = true → s.running = true := fun hc => (h.chunk hc).1
  cases ev with
  | store a w =>
    cases hrun : s.running with
    | false =>
      refine ⟨⟨h.tables.faithful, h.tables.cur_lt⟩, fun hr => ?_, fun hc => ?_⟩
      · exact absurd (hrun.symm.trans hr) (by decide)
      · exact absurd (hrun.symm.trans (hchunk hc)) (by decide)
    | true =>
      have hsame : (Event.store a w).apply s = s := by
        have himem : (fun j => if j = a then w else s.imem j) = s.imem := by
          funext j
          split_ifs with hj
          · rw [hj, hgood hrun]
          · rfl
        unfold Event.apply
        dsimp only
        rw [himem]
      rw [hsame]
      exact h
  | dma ws own alloc =>
    have ht : ({ s with imem := writeWords ws s.imem } : Dyn).Tables :=
      ⟨h.tables.faithful, h.tables.cur_lt⟩
    by_cases hforeign : own = false ∧ s.inChunk = true
    · -- another thread inside a chunk: nothing was written, only the request
      have himem := writeWords_of_same (hgood hforeign.1 hforeign.2)
      unfold Event.apply
      dsimp only
      rw [himem, hforeign.1, jitInvalidate_foreign (hchunk hforeign.2)]
      exact ⟨⟨h.tables.faithful, h.tables.cur_lt⟩, nofun, h.chunk⟩
    · refine Inv.hook ht hchunk (fun hown => ?_) alloc
      exact Bool.eq_false_iff.mpr fun hc => hforeign ⟨hown, hc⟩
  | start alloc =>
    obtain ⟨htables, hsame⟩ := jitSelectImage_spec alloc h.tables
    obtain ⟨ways, cur, hframe⟩ := jitSelectImage_frame alloc s
    unfold Event.apply
    dsimp only
    rw [hframe] at htables hsame ⊢
    exact
      { tables := ⟨htables.faithful, htables.cur_lt⟩
        synced := fun _ _ => hsame
        chunk := fun _ => ⟨rfl, hsame⟩ }
  | chunk =>
    obtain ⟨hrun, -⟩ := hen
    unfold Event.apply
    dsimp only
    cases hreq : s.syncReq with
    | false =>
      exact ⟨⟨h.tables.faithful, h.tables.cur_lt⟩, h.synced, fun _ => ⟨hrun, h.synced hrun hreq⟩⟩
    | true =>
      obtain ⟨htables, hsame⟩ := h.tables.sync
      exact ⟨⟨htables.faithful, htables.cur_lt⟩, fun _ _ => hsame, fun _ => ⟨hrun, hsame⟩⟩
  | chunkEnd =>
    exact ⟨⟨h.tables.faithful, h.tables.cur_lt⟩, h.synced, nofun⟩
  | halt =>
    refine ⟨⟨h.tables.faithful, h.tables.cur_lt⟩, nofun, fun hc => ?_⟩
    exact absurd ((show s.inChunk = false from hen).symm.trans hc) (by decide)
  | compile pc em =>
    obtain ⟨hc, hpc, -⟩ := hen
    obtain ⟨hrun, hsame⟩ := h.chunk hc
    obtain ⟨hfaith, hshadow⟩ := compile_spec em h.tables.active_faithful hpc hsame
    have hactive := h.tables.active_setActive (compile s.imem pc em s.active)
    have hsame' : SameImage s.imem (s.setActive (compile s.imem pc em s.active)).active.shadow := by
      rw [hactive, hshadow]
      exact hsame
    exact ⟨h.tables.setActive hfaith, fun _ _ => hsame', fun _ => ⟨hrun, hsame'⟩⟩
  | enter pc => exact h
  | load imem running own alloc =>
    have hout : s.inChunk = false := hen
    refine Inv.hook (s := { s with imem := imem, running := running })
      ⟨h.tables.faithful, h.tables.cur_lt⟩ (fun hc => ?_) (fun _ => hout) alloc
    exact absurd (hout.symm.trans hc) (by decide)

theorem inv_init {s : Dyn} (h : cacheSystem.init s) : Inv s := by
  obtain ⟨hways, hcur, hrun, hchunk, -⟩ := h
  refine ⟨⟨?_, ?_⟩, fun hr => absurd (hrun.symm.trans hr) (by decide),
    fun hc => absurd (hchunk.symm.trans hc) (by decide)⟩
  · intro c hc
    rw [hways] at hc
    rw [List.mem_singleton.mp hc]
    exact Cache.Faithful.fresh
  · rw [hways, hcur]
    exact Nat.zero_lt_one

/-- In every run in which each CPU store to IMEM is made with the core
    stopped or rewrites the word that is there, and each DMA into IMEM from
    another thread falls between two chunks or rewrites what is there: at
    every state of the run, every block `step` can enter is made of the words
    that are in IMEM. -/
theorem entered_coherent {tr : List (Dyn × Event)} {s : Dyn} (hr : cacheSystem.Run tr s)
    (hgood : ∀ p ∈ tr, p.2.Tracked p.1) (pc : Nat) (hen : (Event.enter pc).enabled s) :
    Coherent s pc := by
  have hInv : Inv s := hr.invariant_of Inv (fun s ev => ev.Tracked s) (fun _ => inv_init)
    (fun s ev s' _ hi hg hstep => by
      obtain ⟨hen, rfl⟩ := hstep
      exact inv_step hi hen hg) hgood
  obtain ⟨hc, -⟩ := hen
  obtain ⟨-, hsame⟩ := hInv.chunk hc
  intro src hsrc k w hk
  have hlen : k < src.length := (List.getElem?_eq_some_iff.mp hk).1
  have hwrap := hInv.tables.active_faithful.noWrap pc src hsrc
  rw [hsame (pc + k) (by omega)]
  exact hInv.tables.active_faithful.words pc src hsrc k w hk

/-! ### A stale block -/

theorem run_fire {tr : List (Dyn × Event)} {s : Dyn} (hr : cacheSystem.Run tr s) (ev : Event)
    (hen : ev.enabled s) : cacheSystem.Run ((s, ev) :: tr) (ev.apply s) :=
  .step hr ⟨hen, rfl⟩

/-- IMEM full of `sll r0, r0, 0`. -/
def nops : Imem := fun _ => 0

def nopImage : Dyn where
  imem := nops
  ways := [Cache.fresh]
  cur := 0
  running := false
  inChunk := false
  syncReq := false

def emitted : Emit where
  ready := true
  room := true
  roomEmpty := true
  overflowed := false
  ok := true

/-- A task starts, compiles the block at 0, and is in the middle of a chunk. -/
def nopRunning : Dyn :=
  { nopImage with
    ways := [compile nops 0 emitted Cache.fresh]
    running := true
    inChunk := true }

theorem diffChunks_nop : diffChunks nopImage.imem nopImage.active = 0 :=
  List.countP_eq_zero.mpr fun _ _ => Bool.false_ne_true

theorem nopRunning_run :
    ∃ tr, cacheSystem.Run tr nopRunning ∧ ∀ p ∈ tr, p.2.Tracked p.1 := by
  have hselect : jitSelectImage false nopImage = nopImage := by
    unfold jitSelectImage
    rw [diffChunks_nop]
    rfl
  have hstart : (Event.start false).apply nopImage = { nopImage with running := true } := by
    unfold Event.apply
    dsimp only
    rw [hselect]
  have h0 : cacheSystem.Run [] nopImage := .init ⟨rfl, rfl, rfl, rfl, rfl⟩
  have h1 := run_fire h0 (.start false) rfl
  rw [hstart] at h1
  have h2 := run_fire h1 .chunk ⟨rfl, rfl⟩
  have h3 := run_fire h2 (.compile 0 emitted) ⟨rfl, by decide, rfl⟩
  refine ⟨_, h3, ?_⟩
  intro p hp
  simp only [List.mem_cons, List.not_mem_nil, or_false] at hp
  obtain rfl | rfl | rfl := hp <;> trivial

theorem nopRunning_slot : nopRunning.active.slot 0 = .compiled (blockWords nops 0) := by
  have hlen : ¬ (form nops 0).nOps < kMinOps := by decide
  show (compile nops 0 emitted Cache.fresh).slot 0 = .compiled (blockWords nops 0)
  unfold compile
  dsimp only
  rw [if_neg (by decide), if_neg hlen]
  rfl

/-- With the core running, the CPU stores `break` over the first word of a
    block. Nothing looks at the store, and the block is entered as it was. -/
theorem stale_entry :
    ∃ tr s, cacheSystem.Run tr s ∧ (Event.enter 0).enabled s ∧ ¬ Coherent s 0 := by
  obtain ⟨tr, hr, -⟩ := nopRunning_run
  refine ⟨_, _, run_fire hr (.store 0 0x0000000d) trivial,
    ⟨rfl, _, nopRunning_slot⟩, fun hcoh => ?_⟩
  have hfirst : (blockWords nops 0)[0]? = some 0 := by decide
  exact absurd (hcoh _ nopRunning_slot 0 0 hfirst) (by decide)

theorem entered_coherent_nop :
    (∃ tr, cacheSystem.Run tr nopRunning ∧ ∀ p ∈ tr, p.2.Tracked p.1) ∧
      Coherent nopRunning 0 := by
  refine ⟨nopRunning_run, ?_⟩
  obtain ⟨tr, hr, hgood⟩ := nopRunning_run
  exact entered_coherent hr hgood 0 ⟨rfl, _, nopRunning_slot⟩

end Rsp
