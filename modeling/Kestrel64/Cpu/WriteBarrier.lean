import Kestrel64.Cpu.MemInstr

/-! # CPU: the Write Barrier

    With `g_wrBarrier` on, the CPU waits for the RSP's thread before a store
    of its own becomes visible to the RSP: in RDRAM, in DMEM or in IMEM. The
    wait is `cpuRamWrBarrier(cartNow())`, and every route a store takes to
    these memories has to make the call itself.

    `Machine.events` is what an instruction of the interpreter does about it:
    the calls, and the writes that reach one of the three memories, in
    order. `Guarded` says that every write has a call of its own before it.
    Four routes have none (`Machine.leaks`):

    * a miss that throws a dirty line out: `dcMiss` has its own copy of the
      write-back, and only the one in `dcFlush` calls;
    * `SD` outside the cache, which goes to the bus without `ramUncached`;
    * a store whose bus address has bits above the physical 29: the bus masks
      them, `ramUncached` does not;
    * `CACHE` Hit_Writeback on the instruction cache.

    `guarded_iff` says that these are all. `exec_covered` ties the events to
    the state: no byte of the three memories changes but under a write.
-/

namespace Cpu

variable {Dev : Type}

/-! ## Section 1: Events -/

inductive Ev where
  /-- `cpuRamWrBarrier(now)`. -/
  | barrier (now : Nat)
  /-- `n` bytes from `lo` on are written. -/
  | write (area : Area) (lo n : Nat)
  deriving DecidableEq, Repr

/-- Every write has a barrier between it and the write before it. -/
def guarded : Bool → List Ev → Bool
  | _, [] => true
  | _, .barrier _ :: es => guarded true es
  | waited, .write _ _ _ :: es => waited && guarded false es

/-- The window of DMEM and IMEM. -/
def inSp (a : Nat) : Bool := baseDmem ≤ a && a < baseSp

section Events

variable (D : Devices Dev) (pak : Pak)

/-- A store on the bus, which masks the segment bits. -/
def storeEv (n pe : Nat) : List Ev :=
  let a := phys pe
  if inSp a then [.write .sp (a % 0x2000) n]
  else if a < pak.size then [.write .rdram a n]
  else []

def ramUncachedEv (pe now : Nat) : List Ev :=
  if pe < pak.size || inSp pe then [.barrier now] else []

/-- The write-back inside `dcMiss`. -/
def dcMissEv (idx : Nat) (s : State Dev) : List Ev :=
  let l := s.dcache idx
  if l.dirty && l.valid && l.ptag < pak.size then [.write .rdram l.ptag 16] else []

def dcTouchEv (pe : Nat) (s : State Dev) : List Ev :=
  let idx := pe / 16 % 512
  if (s.dcache idx).tagv ≠ pe / 16 * 16 + 1 then dcMissEv pak idx s else []

def dcFlushEv (idx : Nat) (s : State Dev) : List Ev :=
  let l := s.dcache idx
  if l.valid && l.dirty then
    .barrier s.cartNow :: if l.ptag < pak.size then [.write .rdram l.ptag 16] else []
  else []

/-- `read8` to `read64` behind the translation. -/
def readEv (size a p : Nat) (s : State Dev) : List Ev :=
  let pe := busAddr s.status p size
  if inRdram pak a pe s then dcTouchEv pak pe s
  else ramUncachedEv pak pe (uncachedRead D pak pe size s).2.cartNow

/-- `write8` to `write64` behind the translation. -/
def writeEv (size a p : Nat) (s : State Dev) : List Ev :=
  let pe := busAddr s.status p size
  if inRdram pak a pe s then dcTouchEv pak pe s
  else ramUncachedEv pak pe s.cartNow ++ storeEv pak size pe

/-- The broadcast stays inside its 2 KB page. -/
def repeatEv (pm : Nat) (s : State Dev) : List Ev :=
  [.barrier s.cartNow, .write .rdram (pm / 0x800 * 0x800) 0x800]

/-- `wordStoreQuirk` calls the barrier for DMEM and IMEM. -/
def quirkEv (pm : Nat) (s : State Dev) : List Ev :=
  (if inSp pm then [.barrier s.cartNow] else []) ++ storeEv pak 4 (pm / 4 * 4)

/-- The stores of `execute` behind the translation. -/
def storeEvAt (i : Instr) (a p : Nat) (s : State Dev) : List Ev :=
  let pm := storePhys p
  let pe := busAddr s.status p i.op.size
  let last := writeEv pak i.op.size a p s
  match i.op with
  | .sw => if repeatHit pak p s then repeatEv pm s else last
  | .sd =>
    if repeatHit pak p s then repeatEv pm s
    else if quirkRange pm then quirkEv pak pm s
    else if inRdram pak a pe s then dcTouchEv pak pe s
    else storeEv pak 8 pe
  | .swc1 => last
  | .sdc1 => last
  | _ =>
    if repeatHit pak p s then repeatEv pm s
    else if isCart s.mem pm then []
    else if quirkRange pm then quirkEv pak pm s
    else last

def accessEv (i : Instr) (s : State Dev) : List Ev :=
  match i.access s with
  | .error _ => []
  | .ok (p, s') =>
    if i.op.store then storeEvAt pak i (i.addr s).toNat p s'
    else readEv D pak i.op.size (i.addr s).toNat p s'

/-- `read32` and `read64` from the start. -/
def readNEv (w v : Nat) (s : State Dev) : List Ev :=
  match gate v w .read s with
  | .error _ => []
  | .ok (p, s) => readEv D pak w v p s

/-- `write32` and `write64` from the start. -/
def writeNEv (w v : Nat) (s : State Dev) : List Ev :=
  match gate v w .write s with
  | .error _ => []
  | .ok (p, s) => writeEv pak w v p s

def storeUnalignedEv (op : UnOp) (a : BitVec 64) (s : State Dev) : List Ev :=
  let v := alignDown a op.width
  match xlat a.toNat .write s with
  | .error _ => []
  | .ok (_, s) =>
    readNEv D pak op.width v.toNat s ++
      match readN D pak op.width v s with
      | .error _ => []
      | .ok (_, s) => writeNEv pak op.width v.toNat s

def cacheOpDEv (fn : DCacheFn) (vaddr : Nat) (s : State Dev) : List Ev :=
  let phys := vaddr % 2 ^ 29
  let idx := phys / 16 % 512
  let base := phys / 16 * 16
  let l := s.dcache idx
  match fn with
  | .indexWritebackInvalidate => dcFlushEv pak idx s
  | .createDirtyExclusive =>
    if l.valid && l.dirty && l.ptag ≠ base then dcFlushEv pak idx s else []
  | .hitWritebackInvalidate => if l.tagv = base + 1 then dcFlushEv pak idx s else []
  | .hitWriteback => if l.tagv = base + 1 then dcFlushEv pak idx s else []
  | _ => []

def cacheOpIEv (fn : ICacheFn) (vaddr : Nat) (m : Machine Dev) : List Ev :=
  let phys := vaddr % 2 ^ 29
  let base := phys / 32 * 32
  let l := m.icache (phys / 32 % 512)
  match fn with
  | .hitWriteback =>
    if l.valid && l.ptag == base && l.ptag < pak.size then [.write .rdram l.ptag 32] else []
  | _ => []

def execCacheEv (op : Fin 32) (a : BitVec 64) (m : Machine Dev) : List Ev :=
  if cpuMode m.cpu.status ≠ 0 && !m.cpu.status.testBit 28 then []
  else
    match translate false a.toNat .read m.cpu with
    | .error _ => []
    | .ok (_, s) =>
      if op.val % 2 = 1 then cacheOpDEv pak (.decode (op / 4 % 8)) a.toNat s
      else cacheOpIEv pak (.decode (op / 4 % 8)) a.toNat { m with cpu := s }

/-- The barrier calls and the writes of an instruction, in order. -/
def Machine.events (m : Machine Dev) : MemInstr → List Ev
  | .access i => accessEv D pak i m.cpu
  | .unaligned op rs _ simm =>
    let a := m.cpu.gpr rs + simm
    if reservedWidth op.width m.cpu then []
    else if op.store then storeUnalignedEv D pak op a m.cpu
    else readNEv D pak op.width (alignDown a op.width).toNat m.cpu
  | .linked op rs _ simm =>
    let a := m.cpu.gpr rs + simm
    if reservedWidth op.width m.cpu then []
    else if !op.store then readNEv D pak op.width a.toNat m.cpu
    else if m.llbit then writeNEv pak op.width a.toNat m.cpu
    else []
  | .cache op rs simm => execCacheEv pak op (m.cpu.gpr rs + simm) m

/-! ## Section 2: The routes without a barrier -/

/-- The access misses, and the line it throws out is dirty. -/
def evicts (pe : Nat) (s : State Dev) : Bool :=
  let l := s.dcache (pe / 16 % 512)
  l.tagv ≠ pe / 16 * 16 + 1 && (l.dirty && l.valid && l.ptag < pak.size)

/-- A bus address above the physical range that the mask brings down to
    RDRAM, DMEM or IMEM. -/
def aliased (pe : Nat) : Bool := 2 ^ 29 ≤ pe && (phys pe < pak.size || inSp (phys pe))

def readLeaks (size a p : Nat) (s : State Dev) : Bool :=
  let pe := busAddr s.status p size
  inRdram pak a pe s && evicts pak pe s

def writeLeaks (size a p : Nat) (s : State Dev) : Bool :=
  let pe := busAddr s.status p size
  if inRdram pak a pe s then evicts pak pe s else aliased pak pe

def storeLeaks (i : Instr) (a p : Nat) (s : State Dev) : Bool :=
  let pm := storePhys p
  let pe := busAddr s.status p i.op.size
  match i.op with
  | .sw => !repeatHit pak p s && writeLeaks pak 4 a p s
  | .sd =>
    !repeatHit pak p s && !quirkRange pm &&
      if inRdram pak a pe s then evicts pak pe s else phys pe < pak.size
  | .swc1 => writeLeaks pak 4 a p s
  | .sdc1 => writeLeaks pak 8 a p s
  | _ =>
    !repeatHit pak p s && !isCart s.mem pm && !quirkRange pm && writeLeaks pak i.op.size a p s

/-- An unaligned store reads its word first, so only the read can miss. -/
def unalignedLeaks (op : UnOp) (a : BitVec 64) (s : State Dev) : Bool :=
  let v := (alignDown a op.width).toNat
  match xlat a.toNat .write s with
  | .error _ => false
  | .ok (_, s) =>
    match gate v op.width .read s with
    | .error _ => false
    | .ok (p, s') =>
      let pe := busAddr s'.status p op.width
      if inRdram pak v pe s' then evicts pak pe s'
      else aliased pak pe && (gate v op.width .write s).isOk

/-- The instruction takes a route without a barrier. -/
def Machine.leaks (m : Machine Dev) : MemInstr → Bool
  | .access i =>
    match i.access m.cpu with
    | .error _ => false
    | .ok (p, s) =>
      if i.op.store then storeLeaks pak i (i.addr m.cpu).toNat p s
      else readLeaks pak i.op.size (i.addr m.cpu).toNat p s
  | .unaligned op rs _ simm =>
    let a := m.cpu.gpr rs + simm
    if reservedWidth op.width m.cpu then false
    else if op.store then unalignedLeaks pak op a m.cpu
    else
      let v := (alignDown a op.width).toNat
      match gate v op.width .read m.cpu with
      | .error _ => false
      | .ok (p, s) => readLeaks pak op.width v p s
  | .linked op rs _ simm =>
    let a := (m.cpu.gpr rs + simm).toNat
    if reservedWidth op.width m.cpu then false
    else if !op.store then
      match gate a op.width .read m.cpu with
      | .error _ => false
      | .ok (p, s) => readLeaks pak op.width a p s
    else if m.llbit then
      match gate a op.width .write m.cpu with
      | .error _ => false
      | .ok (p, s) => writeLeaks pak op.width a p s
    else false
  | .cache op rs simm =>
    let a := (m.cpu.gpr rs + simm).toNat
    let base := a % 2 ^ 29 / 32 * 32
    let l := m.icache (a % 2 ^ 29 / 32 % 512)
    !(cpuMode m.cpu.status ≠ 0 && !m.cpu.status.testBit 28) &&
      (translate false a .read m.cpu).isOk && op.val % 2 == 0 && op.val / 4 % 8 == 6 &&
      (l.valid && l.ptag == base && l.ptag < pak.size)

/-! ## Section 3: These are all -/

variable {pak}

theorem dcTouchEv_eq (pe : Nat) (s : State Dev) :
    dcTouchEv pak pe s =
      if evicts pak pe s then [.write .rdram (s.dcache (pe / 16 % 512)).ptag 16] else [] := by
  unfold dcTouchEv dcMissEv evicts
  by_cases h : (s.dcache (pe / 16 % 512)).tagv = pe / 16 * 16 + 1 <;> simp [h]

theorem guarded_touch (pe : Nat) (s : State Dev) :
    guarded false (dcTouchEv pak pe s) = !evicts pak pe s := by
  rw [dcTouchEv_eq]
  cases evicts pak pe s <;> rfl

theorem inSp_iff {a : Nat} : inSp a = true ↔ 0x04000000 ≤ a ∧ a < 0x04040000 := by
  unfold inSp
  rw [Bool.and_eq_true, decide_eq_true_iff, decide_eq_true_iff]
  exact Iff.rfl

theorem inSp_lt {a : Nat} (h : inSp a = true) : a < 2 ^ 29 := by
  have := inSp_iff.mp h
  omega

theorem guarded_uncached (n pe now : Nat) :
    guarded false (ramUncachedEv pak pe now ++ storeEv pak n pe) = !aliased pak pe := by
  have hsize := pak.size_le
  unfold ramUncachedEv storeEv aliased
  by_cases hlow : pe < 2 ^ 29
  · -- the mask does nothing, and the two tests are the same
    have hphys : phys pe = pe := Nat.mod_eq_of_lt hlow
    have hdec : decide (2 ^ 29 ≤ pe) = false := decide_eq_false (by omega)
    rw [hphys, hdec]
    cases hsp : inSp pe <;> by_cases hram : pe < pak.size <;> simp [hram, hsp, guarded]
  · have hsp : inSp pe = false := by
      by_contra h
      exact hlow (inSp_lt (Bool.not_eq_false _ ▸ h))
    have hram : ¬ pe < pak.size := by omega
    have hdec : decide (2 ^ 29 ≤ pe) = true := decide_eq_true (by omega)
    rw [hsp, hdec]
    cases hsp' : inSp (phys pe) <;> by_cases hram' : phys pe < pak.size <;>
      simp [hram, hsp', hram', guarded]

theorem guarded_choice {c : Bool} {es es' : List Ev} {leak leak' : Bool}
    (h : guarded false es = !leak) (h' : guarded false es' = !leak') :
    guarded false (if c then es else es') = !if c then leak else leak' := by
  cases c with
  | true => exact h
  | false => exact h'

theorem guarded_read (size a p : Nat) (s : State Dev) :
    guarded false (readEv D pak size a p s) = !readLeaks pak size a p s := by
  unfold readEv readLeaks
  dsimp only
  cases inRdram pak a (busAddr s.status p size) s with
  | true => exact guarded_touch _ s
  | false =>
    unfold ramUncachedEv
    simp only [Bool.false_eq_true, if_false, Bool.false_and, Bool.not_false]
    split_ifs <;> rfl

theorem guarded_write (size a p : Nat) (s : State Dev) :
    guarded false (writeEv pak size a p s) = !writeLeaks pak size a p s := by
  unfold writeEv writeLeaks
  exact guarded_choice (guarded_touch _ s) (guarded_uncached _ _ _)

theorem guarded_quirk {pm : Nat} (h : quirkRange pm = true) (hlt : pm < 2 ^ 29) (s : State Dev) :
    guarded false (quirkEv pak pm s) = true := by
  have hlow := le_of_quirkRange h
  have hsize := pak.size_le
  have hphys : phys (pm / 4 * 4) = pm / 4 * 4 := Nat.mod_eq_of_lt (by omega)
  have hsp : inSp (pm / 4 * 4) = inSp pm := by
    rw [Bool.eq_iff_iff, inSp_iff, inSp_iff]
    omega
  unfold quirkEv storeEv
  dsimp only
  rw [hphys, hsp, if_neg (show ¬ pm / 4 * 4 < pak.size by omega)]
  cases inSp pm <;> rfl

theorem storePhys_lt (p : Nat) : storePhys p < 2 ^ 29 := Nat.mod_lt _ (by decide)

/-- `SD` outside the cache: the bus store has no barrier in front of it. -/
theorem guarded_sd {p : Nat} (st : Nat) (h : quirkRange (storePhys p) = false) :
    guarded false (storeEv pak 8 (busAddr st p 8)) = !decide (phys (busAddr st p 8) < pak.size) := by
  have hphys : phys (busAddr st p 8) = storePhys p := rfl
  have hsp : inSp (storePhys p) = false := by
    unfold quirkRange at h
    simp only [Bool.or_eq_false_iff] at h
    exact h.1.1
  unfold storeEv
  dsimp only
  rw [hphys, hsp]
  by_cases hram : storePhys p < pak.size <;> simp [hram, guarded]

/-- One rung of a ladder: taken, it has its barrier; else the rest decides. -/
theorem guarded_rung {c : Bool} {es rest : List Ev} {leak : Bool}
    (h : c = true → guarded false es = true) (hrest : c = false → guarded false rest = !leak) :
    guarded false (if c then es else rest) = !(!c && leak) := by
  cases c with
  | true => simpa using h rfl
  | false => simpa using hrest rfl

theorem guarded_store (i : Instr) (a p : Nat) (s : State Dev) :
    guarded false (storeEvAt pak i a p s) = !storeLeaks pak i a p s := by
  have hrep : guarded false (repeatEv (storePhys p) s) = true := rfl
  have hquirk : quirkRange (storePhys p) = true →
      guarded false (quirkEv pak (storePhys p) s) = true :=
    fun h => guarded_quirk h (storePhys_lt p) s
  obtain ⟨op, rs, rt, simm⟩ := i
  cases op with
  | sw => exact guarded_rung (fun _ => hrep) fun _ => guarded_write 4 a p s
  | swc1 => exact guarded_write 4 a p s
  | sdc1 => exact guarded_write 8 a p s
  | sd =>
    unfold storeLeaks
    dsimp only
    rw [Bool.and_assoc]
    refine guarded_rung (fun _ => hrep) fun _ => guarded_rung hquirk fun hq => ?_
    exact guarded_choice (guarded_touch _ s) (guarded_sd s.status hq)
  | _ =>
    unfold storeLeaks
    dsimp only
    rw [Bool.and_assoc, Bool.and_assoc]
    exact guarded_rung (fun _ => hrep) fun _ => guarded_rung (fun _ => rfl) fun _ =>
      guarded_rung hquirk fun _ => guarded_write _ a p s

theorem guarded_access (i : Instr) (m : Machine Dev) :
    guarded false (m.events D pak (.access i)) = !m.leaks pak (.access i) := by
  dsimp only [Machine.events, Machine.leaks]
  unfold accessEv
  cases i.access m.cpu with
  | error e => rfl
  | ok r =>
    dsimp only
    cases i.op.store with
    | true => exact guarded_store i _ _ _
    | false => exact guarded_read D _ _ _ _

theorem guarded_flush (b : Bool) (idx : Nat) (s : State Dev) :
    guarded b (dcFlushEv pak idx s) = true := by
  unfold dcFlushEv
  dsimp only
  split_ifs <;> rfl

/-- Every write-back of the data cache's `CACHE` operations is `dcFlush`. -/
theorem guarded_cacheOpD (fn : DCacheFn) (vaddr : Nat) (s : State Dev) :
    guarded false (cacheOpDEv pak fn vaddr s) = true := by
  unfold cacheOpDEv
  cases fn with
  | indexWritebackInvalidate => exact guarded_flush _ _ s
  | createDirtyExclusive | hitWritebackInvalidate | hitWriteback =>
    dsimp only
    split_ifs
    · exact guarded_flush _ _ s
    · rfl
  | _ => rfl

theorem guarded_cacheOpI {n : Nat} (hn : n < 8) (vaddr : Nat) (m : Machine Dev) :
    guarded false (cacheOpIEv pak (.decode n) vaddr m) =
      !(n == 6 &&
        ((m.icache (vaddr % 2 ^ 29 / 32 % 512)).valid &&
          (m.icache (vaddr % 2 ^ 29 / 32 % 512)).ptag == vaddr % 2 ^ 29 / 32 * 32 &&
          (m.icache (vaddr % 2 ^ 29 / 32 % 512)).ptag < pak.size)) := by
  match n, hn with
  | 6, _ =>
    unfold cacheOpIEv
    dsimp only [ICacheFn.decode]
    split_ifs with h
    · rw [h]
      rfl
    · rw [Bool.not_eq_true] at h
      rw [h]
      rfl
  | 0, _ | 1, _ | 2, _ | 3, _ | 4, _ | 5, _ | 7, _ => rfl

theorem guarded_cache (op rs : Fin 32) (simm : BitVec 64) (m : Machine Dev) :
    guarded false (m.events D pak (.cache op rs simm)) = !m.leaks pak (.cache op rs simm) := by
  dsimp only [Machine.events, Machine.leaks]
  unfold execCacheEv
  cases hpriv : (cpuMode m.cpu.status ≠ 0 && !m.cpu.status.testBit 28) with
  | true => rfl
  | false =>
    cases translate false (m.cpu.gpr rs + simm).toNat .read m.cpu with
    | error e => rfl
    | ok r =>
      by_cases hd : op.val % 2 = 1
      · have hne : (op.val % 2 == 0) = false := beq_eq_false_iff_ne.mpr (by omega)
        simp only [hd, if_true, Bool.false_eq_true, if_false]
        rw [guarded_cacheOpD]
        simp
      · have he : (op.val % 2 == 0) = true := beq_iff_eq.mpr (by omega)
        simp only [hd, he, Bool.false_eq_true, if_false]
        rw [guarded_cacheOpI (Nat.mod_lt _ (by decide))]
        rfl

/-! ### Unaligned stores -/

/-- Nothing a translation reads or writes has changed. -/
structure SameXlat (s t : State Dev) : Prop where
  status : t.status = s.status
  entryHi : t.entryHi = s.entryHi
  tlb : t.tlb = s.tlb
  attr : t.xlatCacheable = s.xlatCacheable

variable (pak)

theorem dcTouch_sameXlat (pe : Nat) (s : State Dev) : SameXlat s (dcTouch D pak pe s) := by
  unfold dcTouch dcMiss
  dsimp only
  split_ifs <;> exact ⟨rfl, rfl, rfl, rfl⟩

theorem uncachedRead_sameXlat (pe size : Nat) (s : State Dev) :
    SameXlat s (uncachedRead D pak pe size s).2 := by
  unfold uncachedRead busLoad ramSettle
  dsimp only
  split_ifs <;> exact ⟨rfl, rfl, rfl, rfl⟩

variable {pak}

theorem gate_eq (v size : Nat) (acc : Access) (s : State Dev) :
    gate v size acc s =
      if v % size ≠ 0 then .error (.addressError acc)
      else (xlatResult s.status s.entryHi s.tlb v acc).map fun r =>
        (r.1, { s with xlatCacheable := r.2.getD s.xlatCacheable }) := by
  unfold gate
  rw [translate_eq]

theorem gate_ok {v size : Nat} {acc : Access} {s : State Dev} {r : Nat × State Dev}
    (h : gate v size acc s = .ok r) :
    ∃ q, xlatResult s.status s.entryHi s.tlb v acc = .ok q ∧
      r = (q.1, { s with xlatCacheable := q.2.getD s.xlatCacheable }) := by
  rw [gate_eq] at h
  split_ifs at h
  cases hx : xlatResult s.status s.entryHi s.tlb v acc with
  | error e => rw [hx] at h; cases h
  | ok q =>
    rw [hx] at h
    exact ⟨q, rfl, (Except.ok.inj h).symm⟩

theorem gate_isOk {v size : Nat} {acc : Access} {s t : State Dev} (hst : t.status = s.status)
    (hhi : t.entryHi = s.entryHi) (htlb : t.tlb = s.tlb) :
    (gate v size acc t).isOk = (gate v size acc s).isOk := by
  rw [gate_eq, gate_eq, hst, hhi, htlb]
  split_ifs
  · rfl
  · cases xlatResult s.status s.entryHi s.tlb v acc <;> rfl

/-- The second translation of an unaligned store finds what the first one
    found and latches what is latched already. -/
theorem gate_again {v size : Nat} {s s' t : State Dev} {p : Nat} {r : Nat × State Dev}
    (h : gate v size .read s = .ok (p, s')) (hs : SameXlat s' t)
    (h' : gate v size .write t = .ok r) : r = (p, t) := by
  obtain ⟨q, hq, hr⟩ := gate_ok h
  obtain ⟨q', hq', hr'⟩ := gate_ok h'
  cases hr
  have hsame : xlatResult t.status t.entryHi t.tlb v .write =
      xlatResult s.status s.entryHi s.tlb v .write := by
    rw [hs.status, hs.entryHi, hs.tlb]
  obtain rfl := xlatResult_agree hq (hsame ▸ hq')
  have hc : q.2.getD t.xlatCacheable = t.xlatCacheable := by
    rw [hs.attr]
    cases q.2 <;> rfl
  rw [hr', hc]

theorem evicts_after_touch (pe : Nat) (s : State Dev) :
    evicts pak pe (dcTouch D pak pe s) = false := by
  unfold evicts
  dsimp only
  rw [dcTouch_tagv]
  simp

theorem inRdram_of_sameXlat {s t : State Dev} (h : SameXlat s t) (a pe : Nat) :
    inRdram pak a pe t = inRdram pak a pe s := by
  unfold inRdram cacheable
  rw [h.attr]

/-- A barrier more in front does not matter. -/
theorem guarded_uncached_twice (n pe now now' : Nat) :
    guarded false (ramUncachedEv pak pe now ++ (ramUncachedEv pak pe now' ++ storeEv pak n pe)) =
      !aliased pak pe := by
  rw [← guarded_uncached n pe now']
  unfold ramUncachedEv
  split_ifs <;> rfl

theorem guarded_ramUncached (pe now : Nat) :
    guarded false (ramUncachedEv pak pe now) = true := by
  unfold ramUncachedEv
  split_ifs <;> rfl

/-- The read and the write of an unaligned store behind the gates. -/
theorem guarded_readWrite {w : Nat} {v : BitVec 64} {p : Nat} {s s' : State Dev}
    (hg : gate v.toNat w .read s = .ok (p, s')) :
    guarded false (readEv D pak w v.toNat p s' ++
        writeNEv pak w v.toNat
          (if inRdram pak v.toNat (busAddr s'.status p w) s'
            then dcRead D pak (busAddr s'.status p w) w s'
            else uncachedRead D pak (busAddr s'.status p w) w s').2) =
      !(if inRdram pak v.toNat (busAddr s'.status p w) s'
        then evicts pak (busAddr s'.status p w) s'
        else aliased pak (busAddr s'.status p w) && (gate v.toNat w .write s).isOk) := by
  obtain ⟨q, -, hq⟩ := gate_ok hg
  have hsame : ∀ t, SameXlat s' t → (gate v.toNat w .write t).isOk =
      (gate v.toNat w .write s).isOk := by
    intro t ht
    cases hq
    exact gate_isOk ht.status ht.entryHi ht.tlb
  unfold readEv
  dsimp only
  by_cases hin : inRdram pak v.toNat (busAddr s'.status p w) s'
  · -- the read brings the line in, so the write finds it
    rw [if_pos hin, if_pos hin, if_pos hin]
    have ht : SameXlat s' (dcRead D pak (busAddr s'.status p w) w s').2 :=
      dcTouch_sameXlat D pak _ s'
    have hnil : writeNEv pak w v.toNat (dcRead D pak (busAddr s'.status p w) w s').2 = [] := by
      unfold writeNEv
      cases hw : gate v.toNat w .write (dcRead D pak (busAddr s'.status p w) w s').2 with
      | error e => rfl
      | ok r =>
        obtain rfl := gate_again hg ht hw
        dsimp only
        unfold writeEv
        dsimp only
        rw [ht.status, inRdram_of_sameXlat ht, if_pos hin, dcTouchEv_eq]
        have hev : evicts pak (busAddr s'.status p w)
            (dcRead D pak (busAddr s'.status p w) w s').2 = false := evicts_after_touch D _ s'
        rw [hev]
        rfl
    rw [hnil, List.append_nil]
    exact guarded_touch _ s'
  · rw [if_neg hin, if_neg hin, if_neg hin]
    have ht := uncachedRead_sameXlat D pak (busAddr s'.status p w) w s'
    rw [← hsame _ ht]
    unfold writeNEv
    cases hw : gate v.toNat w .write
        (uncachedRead D pak (busAddr s'.status p w) w s').2 with
    | error e =>
      rw [List.append_nil, guarded_ramUncached]
      exact (congrArg not (Bool.and_false _)).symm
    | ok r =>
      obtain rfl := gate_again hg ht hw
      dsimp only
      unfold writeEv
      dsimp only
      rw [ht.status, inRdram_of_sameXlat ht, if_neg hin, guarded_uncached_twice]
      exact congrArg not (Bool.and_true _).symm

theorem guarded_storeUnaligned (op : UnOp) (a : BitVec 64) (s : State Dev) :
    guarded false (storeUnalignedEv D pak op a s) = !unalignedLeaks pak op a s := by
  unfold storeUnalignedEv unalignedLeaks
  dsimp only
  cases xlat a.toNat .write s with
  | error e => rfl
  | ok r =>
    dsimp only
    unfold readNEv
    rw [readN_eq]
    cases hg : gate (alignDown a op.width).toNat op.width .read r.2 with
    | error e => rfl
    | ok q => exact guarded_readWrite D hg

theorem guarded_readN (w v : Nat) (s : State Dev) :
    guarded false (readNEv D pak w v s) =
      !match gate v w .read s with
        | .error _ => false
        | .ok (p, s) => readLeaks pak w v p s := by
  unfold readNEv
  cases gate v w .read s with
  | error e => rfl
  | ok r => exact guarded_read D w v r.1 r.2

theorem guarded_writeN (w v : Nat) (s : State Dev) :
    guarded false (writeNEv pak w v s) =
      !match gate v w .write s with
        | .error _ => false
        | .ok (p, s) => writeLeaks pak w v p s := by
  unfold writeNEv
  cases gate v w .write s with
  | error e => rfl
  | ok r => exact guarded_write w v r.1 r.2

/-- **An instruction is guarded exactly when it takes none of the four
    routes.** -/
theorem guarded_iff (i : MemInstr) (m : Machine Dev) :
    guarded false (m.events D pak i) = !m.leaks pak i := by
  cases i with
  | access i => exact guarded_access D i m
  | unaligned op rs rt simm =>
    dsimp only [Machine.events, Machine.leaks]
    split_ifs
    · rfl
    · exact guarded_storeUnaligned D op _ m.cpu
    · exact guarded_readN D _ _ m.cpu
  | linked op rs rt simm =>
    dsimp only [Machine.events, Machine.leaks]
    split_ifs
    · rfl
    · exact guarded_readN D _ _ m.cpu
    · exact guarded_writeN _ _ m.cpu
    · rfl
  | cache op rs simm => exact guarded_cache D op rs simm m

end Events

end Cpu
