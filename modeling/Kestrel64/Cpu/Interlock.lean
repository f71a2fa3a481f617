import Kestrel64.Cpu.Step

/-! # CPU: Interlocks and Latencies

    What `Core` leaves out of an instruction's time: the latencies of the
    floating-point unit, and three stalls of one cycle that an instruction
    owes to the one before it. A loaded register that is used at once, a
    floating-point result that is read at once, and an access to the data
    cache right behind a store.

    `Piped` is the core with these. Without interlocks it is the core
    (`PipedFetcher.step_core`).

    The arithmetic stays a parameter; what an operation costs is the source's
    table.
-/

namespace Cpu

variable {Dev : Type}

/-! ## Section 1: The floating-point unit -/

/-- Cycles of an operation. -/
def fpuTable (fmt fn : Nat) : Nat :=
  let dbl := fmt = 0x11
  let intSrc := fmt = 0x14 ∨ fmt = 0x15
  if 0x30 ≤ fn then 1
  else
    match fn with
    | 0x00 | 0x01 => 3
    | 0x02 => if dbl then 8 else 5
    | 0x03 | 0x04 => if dbl then 58 else 29
    | 0x05 | 0x06 | 0x07 => 1
    | 0x08 | 0x09 | 0x0a | 0x0b | 0x0c | 0x0d | 0x0e | 0x0f => 5
    | 0x20 => if intSrc then 5 else 2
    | 0x21 => if intSrc then 5 else 1
    | 0x24 | 0x25 => 5
    | _ => 1

/-- `special` is a NaN or a subnormal. -/
structure FpClass where
  zero : Bool
  inf : Bool
  special : Bool
  pow2 : Bool
  deriving DecidableEq, Repr

/-- The class of an exponent of which the highest is `top`, and a mantissa. -/
def fpClass (top e m : Nat) : FpClass where
  zero := e == 0 && m == 0
  inf := e == top && m == 0
  special := e == top && m != 0 || e == 0 && m != 0
  pow2 := e != 0 && e != top && m == 0

def fpClassS (b : BitVec 32) : FpClass :=
  fpClass 0xff (b.toNat / 2 ^ 23 % 2 ^ 8) (b.toNat % 2 ^ 23)

def fpClassD (b : BitVec 64) : FpClass :=
  fpClass 0x7ff (b.toNat / 2 ^ 52 % 2 ^ 11) (b.toNat % 2 ^ 52)

/-- An operand in the format of the operation. Integers are only zero or
    not. -/
def fpClassOf (fmt : Nat) (v : BitVec 64) : FpClass :=
  if fmt = 0x10 then fpClassS (v.setWidth 32)
  else if fmt = 0x11 then fpClassD v
  else ⟨if fmt = 0x14 then v.setWidth 32 == (0 : BitVec 32) else v == 0, false, false, false⟩

/-- The cases that end in the second cycle. `fr` is `Status.FR`. -/
def fpuTrivial (fmt : Nat) (w : BitVec 32) (fr : Bool) (fpr : Fin 32 → BitVec 64) : Bool :=
  let fs := if fr then opRd w else evenReg (opRd w)
  let a := fpClassOf fmt (fpr fs)
  let b := fpClassOf fmt (fpr (opRt w))
  match opFunct w with
  | 0x00 | 0x01 | 0x03 => a.special || b.special || a.inf || b.inf || a.zero || b.zero
  | 0x02 => a.special || b.special || a.inf || b.inf || a.zero || b.zero || a.pow2 || b.pow2
  | 0x04 => a.special || a.inf || a.zero || (fpr fs).getLsbD (if fmt = 0x10 then 31 else 63)
  | _ => a.special || a.inf || a.zero

/-- `chargeFpu`: the cycles behind the first. -/
def chargeFpu (fpuMode : Nat) (w : BitVec 32) (fr : Bool) (fpr : Fin 32 → BitVec 64) : Nat :=
  let fmt := (opRs w).val
  let total := fpuTable fmt (opFunct w)
  if fmt < 0x10 then 0
  else if fpuMode < 2 ∨ total < 2 then 0
  else if 2 < total && fpuTrivial fmt w fr fpr then 1
  else total - 1

/-- The floating-point unit at the table's prices. -/
def chargedFpu (fpuMode : Nat) (fpu : Fpu) : Fpu := fun w fr fcr31 fpr =>
  { fpu w fr fcr31 fpr with cycles := chargeFpu fpuMode w fr fpr }

/-! ## Section 2: The pipeline -/

/-- `ilk` has a bit for every register that the instruction before has
    loaded (general ones first) or computed. Bit 0 of `dcbR` says that this
    instruction has written the data cache, bit 1 that the one before has and
    the cache was not touched since. -/
structure Piped (Dev : Type) where
  core : Core Dev
  fpuMode : Nat
  ilkMode : Nat
  ilk : BitVec 64
  dcbR : Byte

def regBit (i : Nat) : BitVec 64 := 1 <<< i

/-- What an instruction uses and what it produces. -/
def ilkMasks (w : BitVec 32) : BitVec 64 × BitVec 64 :=
  let OP := opOP w
  let rs := (opRs w).val
  let rt := (opRt w).val
  let fn := opFunct w
  if OP = 0x11 then
    if 0x10 ≤ rs then
      let prod := fn ≤ 0x05 ∨ fn = 0x07 ∨ (0x08 ≤ fn ∧ fn ≤ 0x0f) ∨ (0x20 ≤ fn ∧ fn ≤ 0x25)
      (regBit (32 + (opRd w).val) ||| regBit (32 + rt), if prod then regBit (32 + opSa w) else 0)
    else (if rs = 0 ∨ rs = 1 then regBit (32 + (opRd w).val) else 0, 0)
  else if OP = 0x31 ∨ OP = 0x35 then (0, regBit (32 + rt))
  else if OP = 0x39 ∨ OP = 0x3d then (regBit (32 + rt), 0)
  else
    let load := (0x20 ≤ OP ∧ OP ≤ 0x27) ∨ OP = 0x37 ∨ OP = 0x1a ∨ OP = 0x1b
    ((regBit rs ||| regBit rt) &&& ~~~1, if load ∧ rt ≠ 0 then regBit rt else 0)

def Piped.setCpu (p : Piped Dev) (s : State Dev) : Piped Dev := { p with core := p.core.setCpu s }

def Piped.stall (p : Piped Dev) : Piped Dev :=
  p.setCpu { p.core.cpu with stallCycles := p.core.cpu.stallCycles + 1 }

/-- The boundary in front of an instruction: the pair is charged. -/
def Piped.ilkStep (w : BitVec 32) (p : Piped Dev) : Piped Dev :=
  let m := ilkMasks w
  let q := { p with ilk := m.2, dcbR := p.dcbR <<< 1 }
  if p.ilk &&& m.1 ≠ 0 ∧ 2 ≤ p.ilkMode then q.stall else q

/-- The first access behind a store. A miss stalls anyway. -/
def Piped.dcbTouch (hit : Bool) (p : Piped Dev) : Piped Dev :=
  let q := { p with dcbR := p.dcbR &&& ~~~2 }
  if hit = true ∧ 2 ≤ p.ilkMode then q.stall else q

/-- The line of `pe` is in the data cache. -/
def State.resident (pe : Nat) (s : State Dev) : Bool :=
  (s.dcache (pe / 16 % 512)).tagv == pe / 16 * 16 + 1

/-- An access to the data cache comes. -/
def Piped.touch (write : Bool) (pe : Nat) (p : Piped Dev) : Piped Dev :=
  let p := if p.dcbR.getLsbD 1 then p.dcbTouch (p.core.cpu.resident pe) else p
  if write = true ∧ p.ilkMode ≠ 0 then { p with dcbR := p.dcbR ||| 1 } else p

/-- The core goes on to `c`. An exception empties the pipeline. -/
def Piped.on (p : Piped Dev) (c : Core Dev) : Piped Dev :=
  if c.exceptions = p.core.exceptions then { p with core := c }
  else { p with core := c, ilk := 0, dcbR := 0 }

/-! ## Section 3: Accesses -/

section Exec

variable (D : Devices Dev) (pak : Pak) (fpu : Fpu)

/-- `dcRead` or the bus, with the touch in front. -/
def Piped.readAt (size : Nat) (v : BitVec 64) (pe : Nat) (p : Piped Dev) :
    BitVec 64 × Piped Dev :=
  let p := if inRdram pak v.toNat pe p.core.cpu then p.touch false pe else p
  let s := p.core.cpu
  let r := if inRdram pak v.toNat pe s then dcRead D pak pe size s else uncachedRead D pak pe size s
  (r.1, p.setCpu r.2)

def Piped.load (size : Nat) (v : BitVec 64) (p : Piped Dev) : BitVec 64 × Piped Dev :=
  match p.core.reach v size .read with
  | (c, none) => (0, p.on c)
  | (c, some a) => (p.on c).readAt D pak size v (busAddr c.cpu.status a size)

def Piped.setWatch (b : Bool) (p : Piped Dev) : Piped Dev :=
  { p with core := { p.core with watchArmed := b } }

def Piped.loadNoWatch (size : Nat) (v : BitVec 64) (p : Piped Dev) : BitVec 64 × Piped Dev :=
  let r := (p.setWatch false).load D pak size v
  (r.1, r.2.setWatch p.core.watchArmed)

def Piped.store (size : Nat) (v x : BitVec 64) (p : Piped Dev) : Piped Dev :=
  match p.core.reach v size .write with
  | (c, none) => p.on c
  | (c, some a) =>
    let pe := busAddr c.cpu.status a size
    let p := p.on c
    let p := if inRdram pak v.toNat pe p.core.cpu then p.touch true pe else p
    let s := p.core.cpu
    p.setCpu (cacheOrBus D pak size v.toNat pe x s (ramSettle D pak pe size s))

/-- No rung above the cache takes the store. -/
def storeReaches (i : Instr) (a q : Nat) (s : State Dev) : Bool :=
  let sz := i.op.size
  let pm := storePhys q
  let reg := storeVal i s
  inRdram pak a (busAddr s.status q sz) s &&
    match i.op with
    | .swc1 | .sdc1 => true
    | .sw => (storeRepeat D pak pm reg sz s).isNone
    | .sd => (storeRepeat D pak pm reg sz s).isNone && (storeQuirk D pak pm reg sz s).isNone
    | _ => (storeRepeat D pak pm reg sz s).isNone && (storeCart D pm reg sz s).isNone &&
        (storeQuirk D pak pm reg sz s).isNone

/-! ## Section 4: Instructions -/

def Piped.execLoad (op : Op) (rt : Fin 32) (a : BitVec 64) (p : Piped Dev) : Piped Dev :=
  let r := p.load D pak op.size a
  if !op.isFp && r.2.core.memAbort then r.2
  else r.2.setCpu (loadInto op rt r.1 r.2.core.cpu)

def Piped.execStore (i : Instr) (a : BitVec 64) (p : Piped Dev) : Piped Dev :=
  match p.core.reach a i.op.size .write with
  | (c, none) => p.on c
  | (c, some q) =>
    let p := p.on c
    let p := if storeReaches D pak i a.toNat q p.core.cpu then
        p.touch true (busAddr c.cpu.status q i.op.size)
      else p
    p.setCpu (storeAt D pak i a.toNat q p.core.cpu)

def Piped.execUnaligned (op : UnOp) (rt : Fin 32) (a : BitVec 64) (p : Piped Dev) : Piped Dev :=
  let v := alignDown a op.width
  let sh := op.shift p.core.status a.toNat
  if op.store then
    match p.core.xlatTo a .write with
    | (c, none) => p.on c
    | (c, some _) =>
      let r := (p.on c).loadNoWatch D pak op.width v
      r.2.store D pak op.width v (op.stored sh (r.2.core.cpu.gpr rt) r.1)
  else
    let r := p.load D pak op.width v
    r.2.on (r.2.core.set rt (op.loaded sh (r.2.core.cpu.gpr rt) r.1))

def Piped.execLinked (w : Nat) (rt : Fin 32) (a : BitVec 64) (p : Piped Dev) : Piped Dev :=
  match p.core.reach a w .read with
  | (c, none) => p.on c
  | (c, some pa) =>
    let r := (p.on c).readAt D pak w a (busAddr c.cpu.status pa w)
    let c := r.2.core.set rt (if w = 8 then r.1 else sext (r.1.setWidth 32))
    r.2.on { c with mach := { c.mach with llAddr := pa / 2 ^ 4 % 2 ^ 32, llbit := true } }

def Piped.execConditional (w : Nat) (rt : Fin 32) (a : BitVec 64) (p : Piped Dev) : Piped Dev :=
  if a.toNat % w ≠ 0 then p.on (p.core.fault a (.addressError .write))
  else
    let llbit := p.core.mach.llbit
    let x := if w = 8 then p.core.cpu.gpr rt else zext ((p.core.cpu.gpr rt).setWidth 32)
    let q := if llbit then p.store D pak w a x else p
    q.on (q.core.set rt (if llbit then 1 else 0))

def Piped.execMem (k : MemKind) (w : BitVec 32) (p : Piped Dev) : Piped Dev :=
  let rt := opRt w
  let a := p.core.cpu.gpr (opRs w) + opSimm w
  match k with
  | .load op =>
    if op.isFp && !p.core.status.testBit 29 then p.on (p.core.perform (.raiseCe .copUnusable 1))
    else p.execLoad D pak op rt a
  | .store op =>
    if op.isFp && !p.core.status.testBit 29 then p.on (p.core.perform (.raiseCe .copUnusable 1))
    else p.execStore D pak ⟨op, opRs w, rt, opSimm w⟩ a
  | .unaligned op => p.execUnaligned D pak op rt a
  | .linked width => p.execLinked D pak width rt a
  | .conditional width => p.execConditional D pak width rt a
  | .cache => p.on (p.core.execCache D pak rt a)

/-- The bytes `XLOG` logs. -/
def Piped.xlog : Nat → BitVec 64 → Piped Dev → Piped Dev
  | 0, _, p => p
  | n + 1, ptr, p => Piped.xlog n (ptr + 1) (p.load D pak 1 ptr).2

/-- The word is `XLOG`, and coprocessor 0 usable. -/
def isXlog (w : BitVec 32) (c : Core Dev) : Bool :=
  opOP w == 0x10 && !(cpuMode c.status ≠ 0 && !c.status.testBit 28) && w.getLsbD 25 &&
    opFunct w == 0x25

def Piped.execXlog (w : BitVec 32) (p : Piped Dev) : Piped Dev :=
  p.xlog D pak (xlogLen (p.core.cpu.gpr (emuxRt w)))
    (p.core.cpu.gpr (emuxRd w))

/-- The memory instructions and `XLOG` touch the data cache. -/
def Piped.execute (w : BitVec 32) (p : Piped Dev) : Piped Dev :=
  if isOp64 (opOP w) && reserved64 p.core.status then
    p.on (p.core.perform (.raise .reservedInstruction))
  else
    match MemKind.decode (opOP w) with
    | some k => p.execMem D pak k w
    | none =>
      if isXlog w p.core then p.execXlog D pak w
      else p.on (p.core.execute D pak (chargedFpu p.fpuMode fpu) w)

/-- From the word on, to the commit. -/
def Piped.exec (fpe : Nat) (cache : Bool) (p : Piped Dev) : Piped Dev :=
  let r := fetchWord D pak fpe cache p.core
  let p := p.on r.2.advance
  let p := if p.ilkMode ≠ 0 then p.ilkStep r.1 else p
  p.execute D pak fpu r.1

end Exec

/-! ## Section 5: step -/

structure PipedFetcher (Dev : Type) where
  pipe : Piped Dev
  line : FetchLine

section Step

variable (D : Devices Dev) (pak : Pak) (fpu : Fpu)

/-- A step up to the commit, and whether it executed an instruction. -/
def PipedFetcher.issue (f : PipedFetcher Dev) (l : Pins Dev) : PipedFetcher Dev × Bool :=
  if f.pipe.core.halted then (f, false)
  else
    let p := f.pipe.on (f.pipe.core.deliver l)
    let c := p.core
    if c.pc.toNat % 4 ≠ 0 then ({ f with pipe := p.on (raise 4 (setBadVAddr c.pc c)) }, false)
    else if f.line.hit c then
      ({ f with pipe := p.exec D pak fpu (f.line.addr c.pc) f.line.cache }, true)
    else
      match translate false c.pc.toNat .fetch c.cpu with
      | .error e => ({ f with pipe := p.on (c.fault c.pc e) }, false)
      | .ok (q, s) =>
        let fpe := reXor s.status q 4 % 2 ^ 32
        let cache := cacheable c.pc.toNat s
        ({ pipe := (p.setCpu s).exec D pak fpu fpe cache
           line := .fill c.pc fpe q c.xlatEpoch cache }, true)

def PipedFetcher.step (f : PipedFetcher Dev) (l : Pins Dev) : PipedFetcher Dev :=
  let r := f.issue D pak fpu l
  if r.2 then { r.1 with pipe := r.1.pipe.on r.1.pipe.core.retire.commit.tickRandom } else r.1

/-! ## Section 6: Without interlocks -/

/-- `p` is the core `c` with the interlocks off. -/
structure Plain (mode : Nat) (p : Piped Dev) (c : Core Dev) : Prop where
  core : p.core = c
  fpuMode : p.fpuMode = mode
  ilkMode : p.ilkMode = 0
  dcbR : p.dcbR = 0

variable {mode : Nat} {p : Piped Dev} {c : Core Dev} (h : Plain mode p c)

theorem Piped.on_core (p : Piped Dev) (c : Core Dev) : (p.on c).core = c := by
  unfold Piped.on
  split_ifs
  · rfl
  · rfl

include h

theorem Plain.on (c' : Core Dev) : Plain mode (p.on c') c' := by
  refine ⟨p.on_core c', ?_, ?_, ?_⟩
  all_goals
    unfold Piped.on
    split_ifs
  · exact h.fpuMode
  · exact h.fpuMode
  · exact h.ilkMode
  · exact h.ilkMode
  · exact h.dcbR
  · rfl

theorem Plain.setCpu (s : State Dev) : Plain mode (p.setCpu s) (c.setCpu s) :=
  ⟨congrArg (·.setCpu s) h.core, h.fpuMode, h.ilkMode, h.dcbR⟩

theorem Plain.touch (write : Bool) (pe : Nat) : p.touch write pe = p := by
  unfold Piped.touch
  dsimp only
  rw [h.dcbR, if_neg (show ¬ (0 : Byte).getLsbD 1 = true by decide)]
  exact if_neg fun hw => hw.2 h.ilkMode

theorem Plain.readAt (size : Nat) (v : BitVec 64) (pe : Nat) :
    let r := if inRdram pak v.toNat pe c.cpu then dcRead D pak pe size c.cpu
      else uncachedRead D pak pe size c.cpu
    (p.readAt D pak size v pe).1 = r.1 ∧
      Plain mode (p.readAt D pak size v pe).2 (c.setCpu r.2) := by
  have hcore := h.core
  subst hcore
  unfold Piped.readAt
  rw [h.touch, ite_self]
  exact ⟨rfl, h.setCpu _⟩

theorem Plain.load (size : Nat) (v : BitVec 64) :
    (p.load D pak size v).1 = (c.load D pak size v).1 ∧
      Plain mode (p.load D pak size v).2 (c.load D pak size v).2 := by
  have hcore := h.core
  subst hcore
  unfold Piped.load Core.load
  rcases p.core.reach v size .read with ⟨c, none | a⟩
  · exact ⟨rfl, h.on c⟩
  · exact (h.on c).readAt D pak size v _

theorem Plain.loadNoWatch (size : Nat) (v : BitVec 64) :
    (p.loadNoWatch D pak size v).1 = (c.loadNoWatch D pak size v).1 ∧
      Plain mode (p.loadNoWatch D pak size v).2 (c.loadNoWatch D pak size v).2 := by
  have hcore := h.core
  subst hcore
  have hoff : Plain mode (p.setWatch false) { p.core with watchArmed := false } :=
    ⟨rfl, h.fpuMode, h.ilkMode, h.dcbR⟩
  obtain ⟨hval, hload⟩ := hoff.load D pak size v
  refine ⟨hval, ?_, hload.fpuMode, hload.ilkMode, hload.dcbR⟩
  unfold Piped.loadNoWatch Core.loadNoWatch Piped.setWatch
  dsimp only
  rw [← hload.core]
  rfl

theorem Plain.store (size : Nat) (v x : BitVec 64) :
    Plain mode (p.store D pak size v x) (c.store D pak size v x) := by
  have hcore := h.core
  subst hcore
  unfold Piped.store Core.store
  rcases p.core.reach v size .write with ⟨c, none | a⟩
  · exact h.on c
  · dsimp only
    rw [(h.on c).touch, ite_self, p.on_core]
    exact (h.on c).setCpu _

theorem Plain.execLoad (op : Op) (rt : Fin 32) (a : BitVec 64) :
    Plain mode (p.execLoad D pak op rt a) (c.execLoad D pak op rt a) := by
  obtain ⟨hval, hload⟩ := h.load D pak op.size a
  unfold Piped.execLoad Core.execLoad
  dsimp only
  rw [hval, hload.core]
  split_ifs
  · exact hload
  · exact hload.setCpu _

theorem Plain.execStore (i : Instr) (a : BitVec 64) :
    Plain mode (p.execStore D pak i a) (c.execStore D pak i a) := by
  have hcore := h.core
  subst hcore
  unfold Piped.execStore Core.execStore
  rcases p.core.reach a i.op.size .write with ⟨c, none | q⟩
  · exact h.on c
  · dsimp only
    rw [(h.on c).touch, ite_self, p.on_core]
    exact (h.on c).setCpu _

theorem Plain.execUnaligned (op : UnOp) (rt : Fin 32) (a : BitVec 64) :
    Plain mode (p.execUnaligned D pak op rt a) (c.execUnaligned D pak op rt a) := by
  have hcore := h.core
  subst hcore
  unfold Piped.execUnaligned Core.execUnaligned
  dsimp only
  split_ifs
  · rcases p.core.xlatTo a .write with ⟨c, none | q⟩
    · exact h.on c
    · obtain ⟨hval, hload⟩ := (h.on c).loadNoWatch D pak op.width (alignDown a op.width)
      dsimp only
      rw [hval, hload.core]
      exact hload.store D pak _ _ _
  · obtain ⟨hval, hload⟩ := h.load D pak op.width (alignDown a op.width)
    rw [hval, hload.core]
    exact hload.on _

theorem Plain.execLinked (w : Nat) (rt : Fin 32) (a : BitVec 64) :
    Plain mode (p.execLinked D pak w rt a) (c.execLinked D pak w rt a) := by
  have hcore := h.core
  subst hcore
  unfold Piped.execLinked Core.execLinked
  rcases p.core.reach a w .read with ⟨c, none | q⟩
  · exact h.on c
  · obtain ⟨hval, hread⟩ := (h.on c).readAt D pak w a (busAddr c.cpu.status q w)
    dsimp only at hval hread ⊢
    rw [hval, hread.core]
    exact hread.on _

theorem Plain.execConditional (w : Nat) (rt : Fin 32) (a : BitVec 64) :
    Plain mode (p.execConditional D pak w rt a) (c.execConditional D pak w rt a) := by
  have hcore := h.core
  subst hcore
  unfold Piped.execConditional Core.execConditional
  dsimp only
  split_ifs
  · exact h.on _
  · have hstore := h.store D pak w a (p.core.cpu.gpr rt)
    rw [hstore.core]
    exact hstore.on _
  · have hstore := h.store D pak w a (zext ((p.core.cpu.gpr rt).setWidth 32))
    rw [hstore.core]
    exact hstore.on _
  · exact h.on _

theorem Plain.execMem (k : MemKind) (w : BitVec 32) :
    Plain mode (p.execMem D pak k w) (Cpu.execMem D pak k w c) := by
  have hcore := h.core
  subst hcore
  cases k with
  | load op =>
    unfold Piped.execMem Cpu.execMem
    dsimp only
    split_ifs
    · exact h.on _
    · exact h.execLoad D pak op _ _
  | store op =>
    unfold Piped.execMem Cpu.execMem
    dsimp only
    split_ifs
    · exact h.on _
    · exact h.execStore D pak _ _
  | unaligned op => exact h.execUnaligned D pak op _ _
  | linked width => exact h.execLinked D pak width _ _
  | conditional width => exact h.execConditional D pak width _ _
  | cache => exact h.on _

theorem Plain.xlog (n : Nat) (ptr : BitVec 64) :
    Plain mode (p.xlog D pak n ptr) (Cpu.xlog D pak n ptr c) := by
  induction n generalizing p c ptr with
  | zero => exact h
  | succ n ih => exact ih (h.load D pak 1 ptr).2 (ptr + 1)

omit h in
/-- Bit 25 makes it a function of the CO space. -/
theorem co_opRs {w : BitVec 32} (hco : w.getLsbD 25 = true) : 16 ≤ (opRs w).val := by
  have hbit : (opRs w).val.testBit 4 = true := by
    show (w.toNat / 2 ^ 21 % 2 ^ 5).testBit 4 = true
    rw [Nat.testBit_mod_two_pow, Nat.testBit_div_two_pow]
    exact hco
  exact Nat.ge_two_pow_of_testBit hbit

omit h in
theorem execute_xlog {w : BitVec 32} {c : Core Dev} (hx : isXlog w c = true) :
    c.execute D pak fpu w =
      Cpu.xlog D pak (xlogLen (c.cpu.gpr (emuxRt w)))
        (c.cpu.gpr (emuxRd w)) c := by
  unfold isXlog at hx
  rw [Bool.and_eq_true, Bool.and_eq_true, Bool.and_eq_true, beq_iff_eq, beq_iff_eq,
    Bool.not_eq_true'] at hx
  obtain ⟨⟨⟨hOP, husable⟩, hco⟩, hfn⟩ := hx
  have hrs := co_opRs hco
  unfold Core.execute
  rw [hOP]
  show cop0op D pak w c = _
  unfold cop0op
  rw [husable, if_neg Bool.false_ne_true]
  split
  · omega
  · omega
  · omega
  · omega
  · unfold cop0Co emuxOp
    rw [if_pos hco, hfn]
    rfl

theorem Plain.execute (w : BitVec 32) :
    Plain mode (p.execute D pak fpu w) (c.execute D pak (chargedFpu mode fpu) w) := by
  have hcore := h.core
  subst hcore
  unfold Piped.execute
  by_cases hres : isOp64 (opOP w) && reserved64 p.core.status
  · unfold Core.execute
    rw [if_pos hres, if_pos hres]
    exact h.on _
  · rw [if_neg hres]
    cases hk : MemKind.decode (opOP w) with
    | some k =>
      have hmem : p.core.execute D pak (chargedFpu mode fpu) w = Cpu.execMem D pak k w p.core := by
        unfold Core.execute
        rw [if_neg hres, hk]
      rw [hmem]
      exact h.execMem D pak k w
    | none =>
      dsimp only
      split_ifs with hx
      · rw [execute_xlog D pak _ hx]
        exact h.xlog D pak _ _
      · rw [h.fpuMode]
        exact h.on _

theorem Plain.exec (fpe : Nat) (cache : Bool) :
    Plain mode ((p.exec D pak fpu fpe cache).on
        (p.exec D pak fpu fpe cache).core.retire.commit.tickRandom)
      (c.exec D pak (chargedFpu mode fpu) fpe cache) := by
  have hcore := h.core
  subst hcore
  have hword : Plain mode (p.on (fetchWord D pak fpe cache p.core).2.advance)
      (fetchWord D pak fpe cache p.core).2.advance := h.on _
  have hexec := hword.execute D pak fpu (fetchWord D pak fpe cache p.core).1
  have heq : p.exec D pak fpu fpe cache =
      (p.on (fetchWord D pak fpe cache p.core).2.advance).execute D pak fpu
        (fetchWord D pak fpe cache p.core).1 := by
    unfold Piped.exec
    dsimp only
    rw [if_neg (not_not.mpr hword.ilkMode)]
  unfold Core.exec
  rw [heq, hexec.core]
  exact hexec.on _

omit h in
/-- Without interlocks a step is the core's step. -/
theorem PipedFetcher.step_core {f : PipedFetcher Dev} (hf : Plain mode f.pipe f.pipe.core)
    (l : Pins Dev) :
    let g := Fetcher.step D pak (chargedFpu mode fpu) ⟨f.pipe.core, f.line⟩ l
    Plain mode (f.step D pak fpu l).pipe g.core ∧ (f.step D pak fpu l).line = g.line := by
  have hdel := hf.on (f.pipe.core.deliver l)
  unfold PipedFetcher.step PipedFetcher.issue Fetcher.step
  dsimp only
  rw [hdel.core]
  by_cases hh : f.pipe.core.halted
  · rw [if_pos hh, if_pos hh]
    exact ⟨hf, rfl⟩
  rw [if_neg hh, if_neg hh]
  by_cases hpc : (f.pipe.core.deliver l).pc.toNat % 4 ≠ 0
  · rw [if_pos hpc, if_pos hpc]
    exact ⟨hdel.on _, rfl⟩
  rw [if_neg hpc, if_neg hpc]
  by_cases hline : f.line.hit (f.pipe.core.deliver l)
  · rw [if_pos hline, if_pos hline]
    exact ⟨hdel.exec D pak fpu _ _, rfl⟩
  rw [if_neg hline, if_neg hline]
  cases translate false (f.pipe.core.deliver l).pc.toNat .fetch (f.pipe.core.deliver l).cpu with
  | error e => exact ⟨hdel.on _, rfl⟩
  | ok r => exact ⟨(hdel.setCpu r.2).exec D pak fpu _ _, rfl⟩

end Step

end Cpu
