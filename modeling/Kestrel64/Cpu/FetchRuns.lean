import Kestrel64.Cpu.FetchMemo

/-! # CPU: The Fetch Memo over Runs

    `xlatEpoch` has to move with everything a translation reads: `Status`,
    the address space in `EntryHi`, the TLB. An instruction moves it once or
    leaves all three alone (`execute_moves`). There is one exception: `TLBR`
    loads `EntryHi` and does not move the epoch.

    The epoch has 32 bits, and the memo is only looked at between two steps.
    It is never more than two changes old (`Memo`): an exception leads to a
    vector, a vector always translates, and then the memo is new.

    `fetch_hit_fresh` is the result: as long as every `TLBR` reads an entry
    of the current address space, a fetch the memo answers is a fetch the
    translation would answer the same way.
-/

namespace Cpu

variable {Dev : Type}

/-! ## Section 1: Address spaces -/

/-- What a translation reads of a state. -/
def State.space (s : State Dev) : Nat × Nat × List TlbEntry := (s.status, s.entryHi % 0x100, s.tlb)

theorem freshFetch_space {s t : State Dev} (h : t.space = s.space) (pc : BitVec 64) :
    freshFetch pc t = freshFetch pc s := by
  obtain ⟨hst, hasid, htlb⟩ : t.status = s.status ∧ t.entryHi % 0x100 = s.entryHi % 0x100 ∧
      t.tlb = s.tlb := by
    simpa [State.space] using h
  rw [freshFetch_eq, freshFetch_eq, hst, htlb]
  unfold xlatResult
  rw [hasid]

theorem FetchLine.Right.space {m : FetchLine} {s t : State Dev} (h : m.Right s)
    (hst : t.space = s.space) : m.Right t :=
  fun pc ha hl => (freshFetch_space hst pc).trans (h pc ha hl)

/-- The address space and the epoch stay. -/
structure Stays (c c' : Core Dev) : Prop where
  space : c'.cpu.space = c.cpu.space
  epoch : c'.xlatEpoch = c.xlatEpoch

/-- The epoch has moved. -/
def Bumped (c c' : Core Dev) : Prop := c'.xlatEpoch = (c.xlatEpoch + 1) % 2 ^ 32

def Moves (c c' : Core Dev) : Prop := Stays c c' ∨ Bumped c c'

/-- The same of an access: it moves the epoch by faulting only. -/
def Accessed (c c' : Core Dev) : Prop := Stays c c' ∨ (Bumped c c' ∧ c'.memAbort = true)

theorem Stays.refl (c : Core Dev) : Stays c c := ⟨rfl, rfl⟩

theorem Stays.trans {a b c : Core Dev} (h : Stays a b) (h' : Stays b c) : Stays a c :=
  ⟨h'.space.trans h.space, h'.epoch.trans h.epoch⟩

theorem Stays.bumped {a b c : Core Dev} (h : Stays a b) (h' : Bumped b c) : Bumped a c := by
  unfold Bumped
  rw [h', h.epoch]

theorem Bumped.stays {a b c : Core Dev} (h : Bumped a b) (h' : Stays b c) : Bumped a c :=
  h'.epoch.trans h

theorem Stays.moves {a b c : Core Dev} (h : Stays a b) (h' : Moves b c) : Moves a c :=
  h'.imp h.trans h.bumped

theorem Moves.stays {a b c : Core Dev} (h : Moves a b) (h' : Stays b c) : Moves a c :=
  h.imp (·.trans h') (·.stays h')

theorem Stays.accessed {a b c : Core Dev} (h : Stays a b) (h' : Accessed b c) : Accessed a c :=
  h'.imp h.trans (And.imp_left h.bumped)

theorem Accessed.moves {a b : Core Dev} (h : Accessed a b) : Moves a b :=
  h.imp id And.left

theorem Stays.setCpu {c : Core Dev} {s : State Dev} (h : s.space = c.cpu.space) :
    Stays c (c.setCpu s) := ⟨h, rfl⟩

theorem raise_bumped (code : Nat) (c : Core Dev) : Bumped c (raise code c) := rfl

theorem fault_bumped (v : BitVec 64) (e : Exc) (c : Core Dev) :
    Bumped c (c.fault v e) ∧ (c.fault v e).memAbort = true := by
  unfold Core.fault
  dsimp only
  split_ifs <;> exact ⟨rfl, rfl⟩

/-! ## Section 2: Accesses -/

section Access

variable (D : Devices Dev) (pak : Pak)

@[simp] theorem set_space (s : State Dev) (i : Fin 32) (v : BitVec 64) :
    (s.set i v).space = s.space := by
  unfold State.set
  split_ifs <;> rfl

@[simp] theorem fprSet32_space (s : State Dev) (i : Fin 32) (v : BitVec 32) :
    (s.fprSet32 i v).space = s.space := by
  obtain ⟨f, hf⟩ := fprSet32_frame s i v
  rw [hf]
  rfl

@[simp] theorem fprSet64_space (s : State Dev) (i : Fin 32) (v : BitVec 64) :
    (s.fprSet64 i v).space = s.space := by
  obtain ⟨f, hf⟩ := fprSet64_frame s i v
  rw [hf]
  rfl

@[simp] theorem loadInto_space (op : Op) (rt : Fin 32) (x : BitVec 64) (s : State Dev) :
    (loadInto op rt x s).space = s.space := by
  cases op <;> simp [loadInto]

theorem QuietCpu.space {s t : State Dev} (h : QuietCpu s t) : t.space = s.space := by
  unfold State.space
  rw [h.status, h.entryHi, h.tlb]

@[simp] theorem dcWrite_space (pe : Nat) (x : BitVec 64) (size : Nat) (s : State Dev) :
    (dcWrite D pak pe x size s).space = s.space :=
  (dcTouch_quiet D pak pe s).space

@[simp] theorem ramSettle_space (pe size : Nat) (s : State Dev) :
    (ramSettle D pak pe size s).space = s.space := by
  unfold ramSettle
  split_ifs <;> rfl

@[simp] theorem busStore_space (size pe : Nat) (x : BitVec 64) (s : State Dev) :
    (busStore D pak size pe x s).space = s.space := by
  unfold busStore
  dsimp only
  split_ifs <;> rfl

theorem cacheOrBus_space (size a pe : Nat) (x : BitVec 64) {s s' : State Dev}
    (h : s'.space = s.space) : (cacheOrBus D pak size a pe x s s').space = s.space := by
  unfold cacheOrBus
  split_ifs
  · exact dcWrite_space D pak pe x size s
  · exact (busStore_space D pak size pe x s').trans h

/-- The rungs of a store above the last one only write memory. -/
theorem getD_space {s t : State Dev} {r : Option (State Dev)}
    (h : ∀ u, r = some u → u.space = s.space) (ht : t.space = s.space) :
    (r.getD t).space = s.space := by
  cases r with
  | none => exact ht
  | some u => exact h u rfl

theorem storeRepeat_space {pm size : Nat} {x : BitVec 64} {s u : State Dev}
    (h : storeRepeat D pak pm x size s = some u) : u.space = s.space := by
  unfold storeRepeat at h
  split_ifs at h
  cases h
  rfl

theorem storeCart_space {pm size : Nat} {x : BitVec 64} {s u : State Dev}
    (h : storeCart D pm x size s = some u) : u.space = s.space := by
  unfold storeCart at h
  split_ifs at h
  cases h
  rfl

theorem storeQuirk_space {pm size : Nat} {x : BitVec 64} {s u : State Dev}
    (h : storeQuirk D pak pm x size s = some u) : u.space = s.space := by
  obtain ⟨m, -, rfl⟩ := Option.map_eq_some_iff.mp h
  rfl

theorem storeAt_space (i : Instr) (a p : Nat) (s : State Dev) :
    (storeAt D pak i a p s).space = s.space := by
  have hlast := fun pe => cacheOrBus_space D pak i.op.size a pe (storeVal i s)
    (ramSettle_space D pak pe i.op.size s)
  unfold storeAt
  dsimp only
  split
  · exact getD_space (fun _ hu => storeRepeat_space D pak hu) (hlast _)
  · refine getD_space (fun _ hu => storeRepeat_space D pak hu) ?_
    refine getD_space (fun _ hu => storeQuirk_space D pak hu) ?_
    exact cacheOrBus_space D pak _ _ _ _ rfl
  · exact hlast _
  · exact hlast _
  · refine getD_space (fun _ hu => storeRepeat_space D pak hu) ?_
    refine getD_space (fun _ hu => storeCart_space D hu) ?_
    exact getD_space (fun _ hu => storeQuirk_space D pak hu) (hlast _)

theorem cacheOpD_space (fn : DCacheFn) (vaddr tagLo : Nat) (s : State Dev) :
    (cacheOpD D pak fn vaddr tagLo s).2.space = s.space := by
  have hflush : ∀ idx, (dcFlush D pak idx s).space = s.space := by
    intro idx
    unfold dcFlush
    dsimp only
    split_ifs <;> rfl
  unfold cacheOpD
  cases fn with
  | indexWritebackInvalidate => exact hflush _
  | indexLoadTag => rfl
  | indexStoreTag => rfl
  | createDirtyExclusive =>
    dsimp only
    split_ifs
    · exact hflush _
    · rfl
  | hitInvalidate =>
    dsimp only
    split_ifs <;> rfl
  | hitWritebackInvalidate =>
    dsimp only
    split_ifs
    · exact hflush _
    · rfl
  | hitWriteback =>
    dsimp only
    split_ifs
    · exact hflush _
    · rfl
  | reserved => rfl

theorem cacheOp_space (op vaddr : Nat) (m : Machine Dev) :
    (cacheOp D pak op vaddr m).cpu.space = m.cpu.space := by
  unfold cacheOp
  split_ifs
  · exact cacheOpD_space D pak _ vaddr m.tagLo m.cpu
  · generalize ICacheFn.decode (op / 4 % 8) = fn
    unfold cacheOpI
    cases fn <;> dsimp only
    all_goals first
      | rfl
      | split_ifs <;> rfl

/-- A translation that does not fault leaves the address space; one that
    does enters the handler. -/
theorem xlatTo_moves (v : BitVec 64) (acc : Access) (c : Core Dev) :
    (∃ c' p, c.xlatTo v acc = (c', some p) ∧ Stays c c') ∨
      ∃ c', c.xlatTo v acc = (c', none) ∧ Accessed c c' := by
  unfold Core.xlatTo
  split_ifs
  · right
    exact ⟨c, rfl, .inl (.refl c)⟩
  · rw [xlat_eq_translate]
    cases hx : translate false v.toNat acc c.cpu with
    | error e =>
      right
      exact ⟨_, rfl, .inr (fault_bumped v e c)⟩
    | ok r =>
      obtain ⟨p, s⟩ := r
      obtain ⟨-, b, rfl⟩ := translate_translated _ _ _ p s hx
      left
      exact ⟨_, p, rfl, rfl, rfl⟩

theorem reach_moves (v : BitVec 64) (size : Nat) (acc : Access) (c : Core Dev) :
    (∃ c' p, c.reach v size acc = (c', some p) ∧ Stays c c') ∨
      ∃ c', c.reach v size acc = (c', none) ∧ Accessed c c' := by
  unfold Core.reach
  split_ifs with halign
  · right
    exact ⟨_, rfl, .inr (fault_bumped v _ c)⟩
  · rcases xlatTo_moves v acc c with ⟨c', p, hx, hk⟩ | ⟨c', hx, ha⟩
    · rw [hx]
      dsimp only
      split_ifs with hw
      · right
        refine ⟨_, rfl, .inr ⟨?_, rfl⟩⟩
        exact hk.bumped rfl
      · left
        exact ⟨c', p, rfl, hk⟩
    · rw [hx]
      right
      exact ⟨c', rfl, ha⟩

theorem load_accessed (size : Nat) (v : BitVec 64) (c : Core Dev) :
    Accessed c (Core.load D pak size v c).2 := by
  unfold Core.load
  rcases reach_moves v size .read c with ⟨c', p, hr, hk⟩ | ⟨c', hr, ha⟩
  · rw [hr]
    left
    exact hk.trans (.setCpu (read_quiet D pak _ _ _ _).space)
  · rw [hr]
    exact ha

theorem loadNoWatch_accessed (size : Nat) (v : BitVec 64) (c : Core Dev) :
    Accessed c (Core.loadNoWatch D pak size v c).2 := by
  rcases load_accessed D pak size v { c with watchArmed := false } with hk | ⟨hb, habort⟩
  · left
    exact ⟨hk.space, hk.epoch⟩
  · right
    exact ⟨hb, habort⟩

theorem store_accessed (size : Nat) (v x : BitVec 64) (c : Core Dev) :
    Accessed c (Core.store D pak size v x c) := by
  unfold Core.store
  rcases reach_moves v size .write c with ⟨c', p, hr, hk⟩ | ⟨c', hr, ha⟩
  · rw [hr]
    left
    exact hk.trans (.setCpu (cacheOrBus_space D pak _ _ _ _ (ramSettle_space D pak _ _ _)))
  · rw [hr]
    exact ha

end Access

/-! ## Section 3: Instructions -/

theorem set_stays (c : Core Dev) (i : Fin 32) (v : BitVec 64) : Stays c (c.set i v) := by
  unfold Core.set
  split_ifs
  · exact .refl c
  · exact .setCpu (set_space c.cpu i v)

theorem perform_moves (c : Core Dev) (e : Eff) : Moves c (c.perform e) := by
  cases e with
  | nop => exact .inl (.refl c)
  | set i v => exact .inl (set_stays c i v)
  | hilo hi lo => exact .inl ⟨rfl, rfl⟩
  | mulDiv cost hi lo =>
    left
    unfold Core.perform Core.chargeMulDiv
    dsimp only
    split_ifs <;> exact ⟨rfl, rfl⟩
  | jump link target =>
    left
    cases link with
    | none => exact ⟨rfl, rfl⟩
    | some r => exact (set_stays c r _).trans ⟨rfl, rfl⟩
  | branch likely link taken target =>
    left
    unfold Core.perform
    cases likely <;> cases link <;> cases taken <;> first
      | exact ⟨rfl, rfl⟩
      | exact (set_stays c 31 _).trans ⟨rfl, rfl⟩
  | raise e => exact .inr rfl
  | raiseCe e ce => exact .inr rfl
  | fpr32 i v => exact .inl (.setCpu (fprSet32_space c.cpu i v))
  | fpr64 i v => exact .inl (.setCpu (fprSet64_space c.cpu i v))
  | cp2 v => exact .inl ⟨rfl, rfl⟩

theorem writeCop0_moves (r : Nat) (v : BitVec 64) (c : Core Dev) : Moves c (writeCop0 r v c) := by
  unfold writeCop0
  dsimp only
  split
  case h_9 => exact .inr rfl
  case h_11 => exact .inr rfl
  all_goals exact .inl ⟨rfl, rfl⟩

theorem tlbWrite_moves (i : Nat) (c : Core Dev) : Moves c (tlbWrite i c) := by
  unfold tlbWrite
  dsimp only
  split_ifs
  · exact .inl (.refl c)
  · exact .inr rfl

theorem tlbProbe_stays (c : Core Dev) : Stays c (tlbProbe c) := by
  unfold tlbProbe
  split <;> exact ⟨rfl, rfl⟩

/-- `TLBR` -/
def isTlbr (w : BitVec 32) : Bool := opOP w == 0x10 && w.getLsbD 25 && opFunct w == 0x01

/-- If the instruction is `TLBR`, the entry it reads is of the current address
    space. -/
def TlbrKeeps (w : BitVec 32) (c : Core Dev) : Prop :=
  isTlbr w = true →
    (tlbRead (c.cop0 c0Index).toNat c).cpu.entryHi % 0x100 = c.cpu.entryHi % 0x100

theorem tlbRead_stays {i : Nat} {c : Core Dev}
    (h : (tlbRead i c).cpu.entryHi % 0x100 = c.cpu.entryHi % 0x100) : Stays c (tlbRead i c) := by
  have hrest : (tlbRead i c).cpu.status = c.cpu.status ∧ (tlbRead i c).cpu.tlb = c.cpu.tlb ∧
      (tlbRead i c).xlatEpoch = c.xlatEpoch := by
    unfold tlbRead
    dsimp only
    split_ifs
    · exact ⟨rfl, rfl, rfl⟩
    · split <;> exact ⟨rfl, rfl, rfl⟩
  obtain ⟨hst, htlb, hep⟩ := hrest
  refine ⟨?_, hep⟩
  unfold State.space
  rw [hst, htlb, h]

section Execute

variable (D : Devices Dev) (pak : Pak)

/-- Only the first byte that faults moves the epoch. -/
theorem xlog_accessed (n : Nat) (ptr : BitVec 64) (c : Core Dev) :
    Accessed c (xlog D pak n ptr c) := by
  induction n generalizing ptr c with
  | zero => exact .inl (.refl c)
  | succ n ih =>
    unfold xlog
    rcases load_accessed D pak 1 ptr c with hk | ⟨hb, habort⟩
    · exact hk.accessed (ih _ _)
    · rw [xlog_abort D pak n _ habort]
      exact .inr ⟨hb, habort⟩

theorem emuxOp_moves (w : BitVec 32) (c : Core Dev) : Moves c (emuxOp D pak w c) := by
  unfold emuxOp
  dsimp only
  split
  · exact .inl (set_stays c _ _)
  · exact (xlog_accessed D pak _ _ c).moves
  · split_ifs <;> exact .inl ⟨rfl, rfl⟩
  · exact .inl (.refl c)

theorem cop0op_moves {w : BitVec 32} {c : Core Dev} (hop : opOP w = 0x10) (h : TlbrKeeps w c) :
    Moves c (cop0op D pak w c) := by
  unfold cop0op
  split
  · exact perform_moves c _
  split
  · exact .inl (set_stays c _ _)
  · exact writeCop0_moves _ _ c
  · exact .inl (set_stays c _ _)
  · exact writeCop0_moves _ _ c
  split_ifs with hco
  · unfold cop0Co
    split
    · exact .inr rfl
    · rename_i hfn
      refine .inl (tlbRead_stays (h ?_))
      unfold isTlbr
      rw [hop, hco, hfn]
      rfl
    · exact tlbWrite_moves _ c
    · exact tlbWrite_moves _ c
    · exact .inl (tlbProbe_stays c)
    · exact emuxOp_moves D pak w c
  · exact perform_moves c _

theorem execUnaligned_moves (op : UnOp) (rt : Fin 32) (a : BitVec 64) (c : Core Dev) :
    Moves c (Core.execUnaligned D pak op rt a c) := by
  unfold Core.execUnaligned
  dsimp only
  split_ifs
  · rcases xlatTo_moves a .write c with ⟨c', p, hx, hk⟩ | ⟨c', hx, ha⟩
    · rw [hx]
      dsimp only
      refine hk.moves ?_
      rcases loadNoWatch_accessed D pak op.width (alignDown a op.width) c' with hl | ⟨hb, habort⟩
      · exact hl.moves (store_accessed D pak _ _ _ _).moves
      -- the read half has faulted: the write half does nothing
      · rw [store_abort D pak (alignDown_mod a op.width) _ habort]
        exact .inr hb
    · rw [hx]
      exact ha.moves
  · exact (load_accessed D pak _ _ c).moves.stays (set_stays _ _ _)

theorem execMem_moves (k : MemKind) (w : BitVec 32) (c : Core Dev) :
    Moves c (execMem D pak k w c) := by
  unfold execMem
  dsimp only
  cases k with
  | load op =>
    dsimp only
    split_ifs
    · exact perform_moves c _
    · unfold Core.execLoad
      dsimp only
      have hload := (load_accessed D pak op.size (c.cpu.gpr (opRs w) + opSimm w) c).moves
      split_ifs
      · exact hload
      · exact hload.stays (.setCpu (loadInto_space op _ _ _))
  | store op =>
    dsimp only
    split_ifs
    · exact perform_moves c _
    · unfold Core.execStore
      rcases reach_moves (c.cpu.gpr (opRs w) + opSimm w) op.size .write c with
        ⟨c', p, hr, hk⟩ | ⟨c', hr, ha⟩
      · rw [hr]
        exact .inl (hk.trans (.setCpu (storeAt_space D pak _ _ _ _)))
      · rw [hr]
        exact ha.moves
  | unaligned op => exact execUnaligned_moves D pak op _ _ c
  | linked width =>
    dsimp only
    unfold Core.execLinked
    rcases reach_moves (c.cpu.gpr (opRs w) + opSimm w) width .read c with
      ⟨c', p, hr, hk⟩ | ⟨c', hr, ha⟩
    · rw [hr]
      have hread := hk.trans (.setCpu (read_quiet D pak
        (inRdram pak (c.cpu.gpr (opRs w) + opSimm w).toNat (busAddr c'.cpu.status p width) c'.cpu)
        (busAddr c'.cpu.status p width) width c'.cpu).space)
      exact .inl ((hread.trans (set_stays _ _ _)).trans ⟨rfl, rfl⟩)
    · rw [hr]
      exact ha.moves
  | conditional width =>
    dsimp only
    unfold Core.execConditional
    dsimp only
    split
    · exact .inr (fault_bumped _ _ c).1
    · cases c.mach.llbit with
      | false => exact .inl (set_stays c _ _)
      | true => exact (store_accessed D pak _ _ _ c).moves.stays (set_stays _ _ _)
  | cache =>
    dsimp only
    unfold Core.execCache
    split_ifs
    · exact .inr rfl
    · rcases xlatTo_moves (c.cpu.gpr (opRs w) + opSimm w) .read c with
        ⟨c', p, hx, hk⟩ | ⟨c', hx, ha⟩
      · rw [hx]
        exact .inl (hk.trans ⟨cacheOp_space D pak _ _ _, rfl⟩)
      · rw [hx]
        exact ha.moves

variable (fpu : Fpu)

theorem cop1op_moves (w : BitVec 32) (c : Core Dev) : Moves c (cop1op D pak fpu w c) := by
  unfold cop1op
  dsimp only
  split
  · exact perform_moves c _
  split
  · exact perform_moves c _
  · exact perform_moves c _
  · exact perform_moves c _
  · exact perform_moves c _
  · exact perform_moves c _
  · unfold ctc1
    dsimp only
    split_ifs
    · exact .inl (.refl c)
    · exact .inr rfl
    · exact .inr rfl
    · exact .inl ⟨rfl, rfl⟩
  · exact perform_moves c _
  · unfold fpuOp
    dsimp only
    split_ifs
    · exact .inr rfl
    · exact .inl ⟨rfl, rfl⟩

/-- An instruction leaves what a translation reads or moves the epoch. -/
theorem execute_moves {w : BitVec 32} {c : Core Dev} (h : TlbrKeeps w c) :
    Moves c (c.execute D pak fpu w) := by
  unfold Core.execute
  split
  · exact perform_moves c _
  split
  · exact execMem_moves D pak _ w c
  split
  · exact perform_moves c _
  · exact perform_moves c _
  · exact cop0op_moves D pak ‹_› h
  · exact cop1op_moves D pak fpu w c
  · exact perform_moves c _
  · exact perform_moves c _

end Execute

/-! ## Section 4: Vectors -/

/-- The core has just entered an exception handler. -/
structure Vectored (c : Core Dev) : Prop where
  exl : c.exl = true
  pc : ∃ st refill xtlb, c.pc = vectorOf st refill xtlb

theorem takeException_vectored (code : Nat) (refill xtlb : Bool) (c : Core Dev) :
    Vectored (takeException code refill xtlb c) := by
  refine ⟨?_, _, _, _, rfl⟩
  show (sext32 (c.status % 2 ^ 32 ||| 2)).testBit 1 = true
  have hlow : sext32 (c.status % 2 ^ 32 ||| 2) % 2 ^ 2 = (c.status % 2 ^ 32 ||| 2) % 2 ^ 2 := by
    unfold sext32
    split_ifs <;> omega
  have hbit : ∀ n : Nat, n.testBit 1 = (n % 2 ^ 2).testBit 1 := by
    intro n
    rw [Nat.testBit_mod_two_pow]
    rfl
  have h2 : Nat.testBit 2 1 = true := by decide
  rw [hbit, hlow, ← hbit, Nat.testBit_or, h2, Bool.or_true]

theorem fault_vectored (v : BitVec 64) (e : Exc) (c : Core Dev) : Vectored (c.fault v e) :=
  takeException_vectored _ _ _ _

/-- The vectors are in KSEG0 and KSEG1. -/
theorem vectorOf_range (st : Nat) (refill xtlb : Bool) :
    (vectorOf st refill xtlb).toNat % 4 = 0 ∧
      0xFFFFFFFF80000000 ≤ (vectorOf st refill xtlb).toNat ∧
      (vectorOf st refill xtlb).toNat ≤ 0xFFFFFFFFBFFFFFFF := by
  unfold vectorOf
  dsimp only
  split_ifs <;> decide

theorem route_kseg {st v : Nat} (hmode : cpuMode st = 0) (hlo : 0xFFFFFFFF80000000 ≤ v)
    (hhi : v ≤ 0xFFFFFFFFBFFFFFFF) : ∃ p, route st v = .direct p := by
  have hwide : (if cpuMode st = 2 then st.testBit 5 else if cpuMode st = 1 then st.testBit 6
      else st.testBit 7) = st.testBit 7 := by
    rw [hmode]
    rfl
  unfold route
  dsimp only
  rw [hwide]
  split_ifs
  · unfold route64 route64Kernel
    rw [hmode, if_neg (by decide), if_neg (by decide), if_neg (by omega), if_neg (by omega),
      if_neg (by omega), if_neg (by omega), if_neg (by omega)]
    split_ifs
    · exact ⟨_, rfl⟩
    · exact ⟨_, rfl⟩
    all_goals omega
  · unfold route32
    dsimp only
    have hsext : v = sext32 (v % 2 ^ 32) := by
      unfold sext32
      split_ifs <;> omega
    rw [hmode, if_neg (not_not.mpr hsext), if_neg (by omega), if_neg (by omega),
      if_neg (by omega), if_neg (by omega), if_neg (by decide)]
    exact ⟨_, rfl⟩

/-- The first fetch of a handler is aligned and translates. -/
theorem Vectored.translates {c : Core Dev} (h : Vectored c) :
    c.pc.toNat % 4 = 0 ∧ ∃ r, translate false c.pc.toNat .fetch c.cpu = .ok r := by
  obtain ⟨st, refill, xtlb, hpc⟩ := h.pc
  obtain ⟨halign, hlo, hhi⟩ := vectorOf_range st refill xtlb
  have hmode : cpuMode c.status = 0 := by
    unfold cpuMode excLevel
    rw [show c.status.testBit 1 = true from h.exl]
    rfl
  obtain ⟨p, hp⟩ := route_kseg hmode hlo hhi
  rw [hpc]
  refine ⟨halign, (p, c.cpu), ?_⟩
  unfold translate
  rw [hp]

theorem exl_masks {st : Nat} (h : st.testBit 1 = true) : st % 8 ≠ 1 := by
  intro h8
  have hbit : st.testBit 1 = (st % 2 ^ 3).testBit 1 := by
    rw [Nat.testBit_mod_two_pow]
    rfl
  rw [hbit, show st % 2 ^ 3 = 1 from h8] at h
  exact absurd h (by decide)

/-- An interrupt enters the handler, and never from inside of one. -/
theorem deliver_cases (l : Pins Dev) (c : Core Dev) :
    (Stays c (c.deliver l) ∧ (c.deliver l).pc = c.pc ∧ (c.deliver l).exl = c.exl) ∨
      (c.exl = false ∧ Bumped c (c.deliver l) ∧ Vectored (c.deliver l)) := by
  unfold Core.deliver
  dsimp only
  split_ifs with hint
  · right
    have hexl : c.exl = false := by
      rw [← Bool.not_eq_true]
      exact fun h => exl_masks h hint.1
    obtain ⟨he, hp⟩ := takeException_vectored 0 false false
      (({ c.setCpu { c.cpu with mem := l.mem } with curPc := c.pc } : Core Dev).setCop0 c0Cause
        (sext (sampledCause ((c.cop0 c0Cause).setWidth 32) l.intr c.timerIntr)))
    exact ⟨hexl, rfl, he, hp⟩
  · left
    exact ⟨⟨rfl, rfl⟩, rfl, rfl⟩

/-! ## Section 5: Steps -/

/-- The memo was filled `k` changes of the address space ago. -/
def FetchLine.Behind (m : FetchLine) (k : Nat) (c : Core Dev) : Prop :=
  c.xlatEpoch = (m.epoch + k) % 2 ^ 32

/-- What the fetch may find in front of it. -/
inductive Memo (m : FetchLine) (c : Core Dev) : Prop where
  | empty (h : m.vbase = 1)
  | fresh (he : c.xlatEpoch = m.epoch) (hr : m.Right c.cpu)
  | behind (h : m.Behind 1 c)
  /-- Two exceptions without a fetch between them. -/
  | vectored (h : m.Behind 2 c) (hv : Vectored c)

theorem FetchLine.Behind.stays {m : FetchLine} {k : Nat} {c c' : Core Dev} (h : m.Behind k c)
    (h' : Stays c c') : m.Behind k c' := h'.epoch.trans h

theorem FetchLine.Behind.bumped {m : FetchLine} {k : Nat} {c c' : Core Dev} (h : m.Behind k c)
    (h' : Bumped c c') : m.Behind (k + 1) c' := by
  unfold FetchLine.Behind Bumped at *
  omega

/-- Two changes do not wrap the epoch around. -/
theorem FetchLine.Behind.no_hit {m : FetchLine} {k : Nat} {c : Core Dev} (h : m.Behind k c)
    (hk : 0 < k) (hk' : k < 2 ^ 32) : m.hit c = false := by
  unfold FetchLine.Behind at h
  unfold FetchLine.hit
  rw [Bool.and_eq_false_iff]
  right
  rw [beq_eq_false_iff_ne]
  omega

theorem Memo.stays {m : FetchLine} {c c' : Core Dev} (h : Memo m c) (hk : Stays c c')
    (hv : Vectored c → Vectored c') : Memo m c' := by
  cases h with
  | empty h => exact .empty h
  | fresh he hr => exact .fresh (hk.epoch.trans he) (hr.space hk.space)
  | behind h => exact .behind (h.stays hk)
  | vectored h hv' => exact .vectored (h.stays hk) (hv hv')

/-- An exception in front of the fetch. -/
theorem Memo.trapped {m : FetchLine} {c c' : Core Dev} (h : Memo m c) (hn : ¬ Vectored c)
    (hb : Bumped c c') (hv : Vectored c') : Memo m c' := by
  cases h with
  | empty h => exact .empty h
  | fresh he hr =>
    refine .behind ?_
    unfold FetchLine.Behind
    rw [hb, he]
  | behind h => exact .vectored (h.bumped hb) hv
  | vectored h hv' => exact absurd hv' hn

theorem Memo.deliver {m : FetchLine} {c : Core Dev} (h : Memo m c) (l : Pins Dev) :
    Memo m (c.deliver l) := by
  rcases deliver_cases l c with ⟨hk, hpc, hexl⟩ | ⟨hexl, hb, hv⟩
  · refine h.stays hk fun hv => ⟨hexl.trans hv.exl, ?_⟩
    rw [hpc]
    exact hv.pc
  · refine h.trapped (fun hv' => ?_) hb hv
    rw [hv'.exl] at hexl
    cases hexl

/-- A hit is a hit of a memo that is right. -/
theorem Memo.right_of_hit {m : FetchLine} {c : Core Dev} (h : Memo m c) (hhit : m.hit c = true) :
    m.Right c.cpu ∧ lineBase c.pc = m.vbase ∧ c.xlatEpoch = m.epoch := by
  have hboth := hhit
  unfold FetchLine.hit at hboth
  rw [Bool.and_eq_true, beq_iff_eq, beq_iff_eq] at hboth
  obtain ⟨hline, hep⟩ := hboth
  cases h with
  | empty h =>
    unfold lineBase at hline
    omega
  | fresh he hr => exact ⟨hr, hline, he⟩
  | behind h => rw [h.no_hit (by decide) (by decide)] at hhit; cases hhit
  | vectored h _ => rw [h.no_hit (by decide) (by decide)] at hhit; cases hhit

/-- Behind the fetch. -/
theorem Memo.of_moves {m : FetchLine} {c c' : Core Dev} (hr : m.Right c.cpu)
    (he : c.xlatEpoch = m.epoch) (h : Moves c c') : Memo m c' := by
  rcases h with hk | hb
  · exact .fresh (hk.epoch.trans he) (hr.space hk.space)
  · refine .behind ?_
    unfold FetchLine.Behind
    rw [hb, he]

section Step

variable (D : Devices Dev) (pak : Pak) (fpu : Fpu)

theorem fetchWord_stays (fpe : Nat) (cache : Bool) (c : Core Dev) :
    Stays c (fetchWord D pak fpe cache c).2 := by
  unfold fetchWord icFetch
  dsimp only
  split_ifs <;> exact ⟨rfl, rfl⟩

theorem commit_stays (c : Core Dev) : Stays c c.commit := by
  unfold Core.commit
  dsimp only
  split_ifs <;> exact ⟨rfl, rfl⟩

theorem tickRandom_stays (c : Core Dev) : Stays c c.tickRandom := by
  unfold Core.tickRandom
  dsimp only
  split_ifs <;> exact ⟨rfl, rfl⟩

/-- The word at `fpe` and the core it is executed on. -/
def Core.fetched (fpe : Nat) (cache : Bool) (c : Core Dev) : BitVec 32 × Core Dev :=
  let r := fetchWord D pak fpe cache c
  (r.1, r.2.advance)

/-- The instruction a step comes to execute. -/
def Fetcher.issued (f : Fetcher Dev) (l : Pins Dev) : Option (BitVec 32 × Core Dev) :=
  let c := f.core.deliver l
  if f.core.halted || c.pc.toNat % 4 != 0 then none
  else if f.line.hit c then some (c.fetched D pak (f.line.addr c.pc) f.line.cache)
  else
    match translate false c.pc.toNat .fetch c.cpu with
    | .error _ => none
    | .ok (p, s) =>
      some ((c.setCpu s).fetched D pak (reXor s.status p 4 % 2 ^ 32) (cacheable c.pc.toNat s))

/-- The step does not load another address space with `TLBR`. -/
def KeepsSpace (f : Fetcher Dev) (l : Pins Dev) : Prop :=
  ∀ w c, f.issued D pak l = some (w, c) → TlbrKeeps w c

theorem exec_moves {fpe : Nat} {cache : Bool} {c : Core Dev}
    (h : TlbrKeeps (c.fetched D pak fpe cache).1 (c.fetched D pak fpe cache).2) :
    Moves c (c.exec D pak fpu fpe cache) := by
  have hfetch : Stays c (c.fetched D pak fpe cache).2 :=
    (fetchWord_stays D pak fpe cache c).trans ⟨rfl, rfl⟩
  have hexec := hfetch.moves (execute_moves D pak fpu h)
  have hretire := hexec.stays (c := (Core.retire _)) ⟨rfl, rfl⟩
  exact (hretire.stays (commit_stays _)).stays (tickRandom_stays _)

theorem Memo.step {f : Fetcher Dev} {l : Pins Dev} (h : Memo f.line f.core)
    (hgood : KeepsSpace D pak f l) :
    Memo (f.step D pak fpu l).line (f.step D pak fpu l).core := by
  have hd := h.deliver l
  unfold KeepsSpace Fetcher.issued at hgood
  unfold Fetcher.step
  dsimp only at hgood ⊢
  generalize f.core.deliver l = c at hd hgood
  cases hhalt : f.core.halted with
  | true => exact h
  | false =>
    rw [hhalt] at hgood
    rw [if_neg Bool.false_ne_true]
    by_cases halign : c.pc.toNat % 4 = 0
    · rw [if_neg (not_not.mpr halign)]
      rw [halign, if_neg (by decide)] at hgood
      cases hhit : f.line.hit c with
      | true =>
        rw [hhit, if_pos rfl] at hgood
        obtain ⟨hr, -, he⟩ := hd.right_of_hit hhit
        exact .of_moves hr he (exec_moves D pak fpu (hgood _ _ rfl))
      | false =>
        rw [hhit, if_neg Bool.false_ne_true] at hgood
        rw [if_neg Bool.false_ne_true]
        cases hx : translate false c.pc.toNat .fetch c.cpu with
        | error e =>
          refine hd.trapped (fun hv => ?_) (fault_bumped _ e c).1 (fault_vectored _ e c)
          obtain ⟨-, r, hr⟩ := hv.translates
          rw [hr] at hx
          cases hx
        | ok r =>
          obtain ⟨p, s⟩ := r
          rw [hx] at hgood
          obtain ⟨hr, -⟩ := fill_right hx c.xlatEpoch
          dsimp only
          exact .of_moves (c := c.setCpu s) hr rfl (exec_moves D pak fpu (hgood _ _ rfl))
    · rw [if_pos halign]
      refine hd.trapped (fun hv => halign hv.translates.1) rfl ?_
      exact takeException_vectored _ _ _ _

/-! ## Section 6: Runs -/

theorem Memo.run {tr : List (Fetcher Dev × Pins Dev)} {f : Fetcher Dev}
    (hr : (fetchSystem D pak fpu).Run tr f) (hgood : ∀ p ∈ tr, KeepsSpace D pak p.1 p.2) :
    Memo f.line f.core := by
  refine hr.invariant_of (fun f => Memo f.line f.core) (KeepsSpace D pak) ?_ ?_ hgood
  · exact fun f h => .empty h
  · rintro f l f' - hm hg rfl
    exact hm.step D pak fpu hg

/-- The fast path of the fetch gives what the slow path would. -/
theorem fetch_hit_fresh {tr : List (Fetcher Dev × Pins Dev)} {f : Fetcher Dev}
    (hr : (fetchSystem D pak fpu).Run tr f) (hgood : ∀ p ∈ tr, KeepsSpace D pak p.1 p.2)
    (l : Pins Dev) (halign : (f.core.deliver l).pc.toNat % 4 = 0)
    (hhit : f.line.hit (f.core.deliver l) = true) :
    freshFetch (f.core.deliver l).pc (f.core.deliver l).cpu =
      .ok (f.line.addr (f.core.deliver l).pc, f.line.cache) := by
  obtain ⟨hright, hline, -⟩ := ((Memo.run D pak fpu hr hgood).deliver l).right_of_hit hhit
  exact hright _ halign hline

end Step

/-- `restCore` with nothing memoised. -/
def restFetcher : Fetcher Unit where
  core := restCore 0
  line := { vbase := 1, phys := 0, reXor := 0, epoch := 0, cache := false }

def restPins : Pins Unit := { mem := coldState.mem, intr := false }

/-- A `NOP` at `0xffffffff80001000` has filled the memo. The one behind it
    hits. -/
theorem fetch_hit_fresh_nop :
    let f := restFetcher.step noDevices .base noFpu restPins
    freshFetch (f.core.deliver restPins).pc (f.core.deliver restPins).cpu =
      .ok (f.line.addr (f.core.deliver restPins).pc, f.line.cache) := by
  have hrun : (fetchSystem noDevices .base noFpu).Run [(restFetcher, restPins)]
      (restFetcher.step noDevices .base noFpu restPins) := .step (.init rfl) rfl
  refine fetch_hit_fresh noDevices .base noFpu hrun ?_ restPins ?_ ?_
  · intro p hp
    rw [List.mem_singleton] at hp
    subst hp
    intro w c hw ht
    have hall : (restFetcher.issued noDevices .base restPins).all (fun r => !isTlbr r.1) = true := by
      decide +kernel
    rw [hw] at hall
    exact absurd ht (by simpa using hall)
  · decide +kernel
  · decide +kernel

end Cpu
