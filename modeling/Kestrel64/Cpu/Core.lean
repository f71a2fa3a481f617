import Kestrel64.Cpu.HelperEquiv
import Kestrel64.Cpu.MemInstr

/-! # CPU: The Interpreter's State and its Faults

    What `execute` in `cpu/cpu.cpp` reads and writes, `takeException`, and the
    accesses in the form the instructions use them: a fault enters the
    handler at once, leaves `memAbort` set and returns 0, and the rest of the
    instruction still runs.

    `Translate` and `LoadStore` have the accesses themselves, with a fault as
    an `error`. Here the fault is vectored, and the Watch registers look at
    every address first.

    Left out: the host's watch point, the interlocks (`ilkMode`), traces.
-/

namespace Cpu

variable {Dev : Type}

/-! ## Section 1: State -/

/-- The registers of coprocessor 0 that the code names. -/
abbrev c0Index : Nat := 0
abbrev c0Random : Nat := 1
abbrev c0EntryLo0 : Nat := 2
abbrev c0EntryLo1 : Nat := 3
abbrev c0Context : Nat := 4
abbrev c0PageMask : Nat := 5
abbrev c0Wired : Nat := 6
abbrev c0BadVAddr : Nat := 8
abbrev c0Count : Nat := 9
abbrev c0Compare : Nat := 11
abbrev c0Cause : Nat := 13
abbrev c0EPC : Nat := 14
abbrev c0Config : Nat := 16
abbrev c0WatchLo : Nat := 18
abbrev c0WatchHi : Nat := 19
abbrev c0XContext : Nat := 20
abbrev c0ErrorEPC : Nat := 30

structure Core (Dev : Type) where
  mach : Machine Dev
  hi : BitVec 64
  lo : BitVec 64
  fcr31 : BitVec 32
  cp2latch : BitVec 64
  /-- Coprocessor 0, without `EntryHi`, `Status`, `LLAddr` and `TagLo`:
      `mach` has those. -/
  cop0 : Nat → BitVec 64
  /-- The latch behind the registers that do not exist. -/
  cop0Unused : BitVec 64
  randomReload : Nat
  timerIntr : Bool
  countFrac : Nat
  mulDivMode : Nat
  pc : BitVec 64
  nextPc : BitVec 64
  /-- The instruction in execution. -/
  curPc : BitVec 64
  /-- The instruction at `pc` is in a delay slot. -/
  inDelay : Bool
  justBranched : Bool
  /-- An access of this instruction has faulted. -/
  memAbort : Bool
  watchArmed : Bool
  exceptions : Nat
  xlatEpoch : Nat
  halted : Bool

abbrev Core.cpu (c : Core Dev) : State Dev := c.mach.cpu

abbrev Core.status (c : Core Dev) : Nat := c.mach.cpu.status

def Core.setCpu (c : Core Dev) (s : State Dev) : Core Dev := { c with mach := { c.mach with cpu := s } }

def Core.setCop0 (c : Core Dev) (r : Nat) (v : BitVec 64) : Core Dev :=
  { c with cop0 := fun i => if i = r then v else c.cop0 i }

/-- Every change of a mapping or of the mode invalidates memoised
    translations. -/
def Core.bumpXlat (c : Core Dev) : Core Dev := { c with xlatEpoch := (c.xlatEpoch + 1) % 2 ^ 32 }

/-- `r0` is hardwired, and an instruction whose access faulted does not
    complete. -/
def Core.set (c : Core Dev) (i : Fin 32) (v : BitVec 64) : Core Dev :=
  if c.memAbort then c else c.setCpu (c.cpu.set i v)

/-! ## Section 2: Exceptions -/

def setBadVAddr (v : BitVec 64) (c : Core Dev) : Core Dev :=
  let ctx := c.cop0 c0Context &&& ~~~(0x7FFFF0 : BitVec 64) ||| ((v >>> 13) &&& 0x7FFFF) <<< 4
  let xctx := c.cop0 c0XContext &&& ~~~(0x1FFFFFFF0 : BitVec 64)
    ||| ((v >>> 13) &&& 0x7FFFFFF) <<< 4 ||| ((v >>> 62) &&& 3) <<< 31
  let c := ((c.setCop0 c0BadVAddr v).setCop0 c0Context ctx).setCop0 c0XContext xctx
  c.setCpu { c.cpu with entryHi := c.cpu.entryHi % 0x100 ||| v.toNat &&& 0xC00000FFFFFFE000 }

/-- The instruction in execution, or the word in front of it when it is in a
    delay slot. -/
def Core.epc (c : Core Dev) : BitVec 64 := if c.inDelay then c.curPc - 4 else c.curPc

/-- `Cause` after an exception. A nested one keeps `BD`. -/
def nextCause (cause : BitVec 32) (code : Nat) (exl bd : Bool) : BitVec 32 :=
  let cause := cause &&& ~~~0x7c ||| BitVec.ofNat 32 (code % 0x20 * 4)
  let cause := cause &&& ~~~0x30000000
  if exl then cause
  else if bd then cause ||| 0x80000000 else cause &&& ~~~0x80000000

/-- The first miss has vectors of its own. -/
def vectorOf (st : Nat) (refill xtlb : Bool) : BitVec 64 :=
  let base : BitVec 64 := if st.testBit 22 then 0xffffffffbfc00200 else 0xffffffff80000000
  base + if refill && !st.testBit 1 then (if xtlb then 0x080 else 0x000) else 0x180

def takeException (code : Nat) (refill xtlb : Bool) (c : Core Dev) : Core Dev :=
  let st := c.status
  let exl := st.testBit 1
  -- EPC is frozen while EXL is set
  let epc := if exl then c.cop0 c0EPC else sext (c.epc.setWidth 32)
  let cause := nextCause ((c.cop0 c0Cause).setWidth 32) code exl c.inDelay
  let vec := vectorOf st refill xtlb
  let c := (c.bumpXlat.setCop0 c0EPC epc).setCop0 c0Cause (sext cause)
  { c.setCpu { c.cpu with status := sext32 (st % 2 ^ 32 ||| 2) } with
    pc := vec
    nextPc := vec + 4
    inDelay := false
    exceptions := c.exceptions + 1 }

/-- The coprocessor an unusable one was. -/
def Core.setCe (c : Core Dev) (ce : Nat) : Core Dev :=
  c.setCop0 c0Cause (sext ((c.cop0 c0Cause).setWidth 32 &&& ~~~0x30000000 |||
    BitVec.ofNat 32 (ce % 4 * 2 ^ 28)))

def raise (code : Nat) (c : Core Dev) : Core Dev := takeException code false false c

/-- The code of an exception in `Cause`. -/
def Exc.code : Exc → Nat
  | .addressError acc => if acc = .write then 5 else 4
  | .tlbInvalid acc => if acc = .write then 3 else 2
  | .tlbModified => 1
  | .tlbRefill acc _ => if acc = .write then 3 else 2
  | .reservedInstruction => 10
  | .copUnusable => 11

/-- The refill of a TLB exception: is there one, and is it the wide one? -/
def Exc.refill : Exc → Bool × Bool
  | .tlbRefill _ xtlb => (true, xtlb)
  | _ => (false, false)

def Exc.isTlb : Exc → Bool
  | .tlbInvalid _ | .tlbModified | .tlbRefill _ _ => true
  | _ => false

/-- `EntryHi` after a TLB exception: the page, and the region in 64-bit
    addressing. -/
def ehFill (st : Nat) (v : BitVec 64) : Nat :=
  match route st v.toNat with
  | .mapped true => v.toNat &&& 0xC00000FFFFFFE000
  | _ => v.toNat % 2 ^ 32 &&& 0xFFFFE000

/-- An access faults. -/
def Core.fault (v : BitVec 64) (e : Exc) (c : Core Dev) : Core Dev :=
  let c' := setBadVAddr v c
  let c' := if e.isTlb then
      c'.setCpu { c'.cpu with entryHi := c'.cpu.entryHi % 0x100 ||| ehFill c.status v }
    else c'
  takeException e.code e.refill.1 e.refill.2 { c' with memAbort := true }

/-! ## Section 3: Accesses -/

/-- Does the guest's watch point stop an access at `p`? -/
def watchTrips (p : Nat) (acc : Access) (c : Core Dev) : Bool :=
  let lo := (c.cop0 c0WatchLo).setWidth 32
  c.watchArmed && lo.getLsbD (if acc = .write then 0 else 1) &&
    (c.cop0 c0WatchHi).toNat % 0x10 == 0 &&
    p % 2 ^ 32 / 8 == lo.toNat / 8 &&
    !(c.status.testBit 1 || c.status.testBit 2)

/-- `xlat`: nothing happens once an access has faulted. -/
def Core.xlatTo (v : BitVec 64) (acc : Access) (c : Core Dev) : Core Dev × Option Nat :=
  if c.memAbort then (c, none)
  else
    match xlat v.toNat acc c.cpu with
    | .error e => (c.fault v e, none)
    | .ok (p, s) => (c.setCpu s, some p)

/-- The gates of an access: alignment, translation, watch point. `none` when
    one of them has stopped it. -/
def Core.reach (v : BitVec 64) (size : Nat) (acc : Access) (c : Core Dev) :
    Core Dev × Option Nat :=
  if v.toNat % size ≠ 0 then (c.fault v (.addressError acc), none)
  else
    match c.xlatTo v acc with
    | (c, none) => (c, none)
    | (c, some p) =>
      if watchTrips p acc c then (raise 23 { c with memAbort := true }, none)
      else (c, some p)

section Access

variable (D : Devices Dev) (pak : Pak)

/-- `read8` to `read64`. -/
def Core.load (size : Nat) (v : BitVec 64) (c : Core Dev) : BitVec 64 × Core Dev :=
  match c.reach v size .read with
  | (c, none) => (0, c)
  | (c, some p) =>
    let s := c.cpu
    let pe := busAddr s.status p size
    let r := if inRdram pak v.toNat pe s then dcRead D pak pe size s
      else uncachedRead D pak pe size s
    (r.1, c.setCpu r.2)

/-- The read half of an unaligned store: on the bus it is only a store. -/
def Core.loadNoWatch (size : Nat) (v : BitVec 64) (c : Core Dev) : BitVec 64 × Core Dev :=
  let r := Core.load D pak size v { c with watchArmed := false }
  (r.1, { r.2 with watchArmed := c.watchArmed })

/-- `write32` and `write64`. -/
def Core.store (size : Nat) (v x : BitVec 64) (c : Core Dev) : Core Dev :=
  match c.reach v size .write with
  | (c, none) => c
  | (c, some p) =>
    let s := c.cpu
    let pe := busAddr s.status p size
    c.setCpu (cacheOrBus D pak size v.toNat pe x s (ramSettle D pak pe size s))

/-! ## Section 4: Memory instructions -/

/-- The loads. `set` drops its value when the access has faulted; `fprSet32`
    and `fprSet64` do not. -/
def Core.execLoad (op : Op) (rt : Fin 32) (a : BitVec 64) (c : Core Dev) : Core Dev :=
  let r := Core.load D pak op.size a c
  if !op.isFp && r.2.memAbort then r.2
  else r.2.setCpu (loadInto op rt r.1 r.2.cpu)

/-- The stores. -/
def Core.execStore (i : Instr) (a : BitVec 64) (c : Core Dev) : Core Dev :=
  match c.reach a i.op.size .write with
  | (c, none) => c
  | (c, some p) => c.setCpu (storeAt D pak i a.toNat p c.cpu)

def Core.execUnaligned (op : UnOp) (rt : Fin 32) (a : BitVec 64) (c : Core Dev) : Core Dev :=
  let v := alignDown a op.width
  let sh := op.shift c.status a.toNat
  if op.store then
    -- a fault here is the store's
    match c.xlatTo a .write with
    | (c, none) => c
    | (c, some _) =>
      let r := Core.loadNoWatch D pak op.width v c
      Core.store D pak op.width v (op.stored sh (r.2.cpu.gpr rt) r.1) r.2
  else
    let r := Core.load D pak op.width v c
    r.2.set rt (op.loaded sh (r.2.cpu.gpr rt) r.1)

/-- `LL` and `LLD`. -/
def Core.execLinked (w : Nat) (rt : Fin 32) (a : BitVec 64) (c : Core Dev) : Core Dev :=
  match c.reach a w .read with
  | (c, none) => c
  | (c, some pa) =>
    let s := c.cpu
    let pe := busAddr s.status pa w
    let r := if inRdram pak a.toNat pe s then dcRead D pak pe w s else uncachedRead D pak pe w s
    let c := (c.setCpu r.2).set rt (if w = 8 then r.1 else sext (r.1.setWidth 32))
    { c with mach := { c.mach with llAddr := pa / 2 ^ 4 % 2 ^ 32, llbit := true } }

/-- `SC` and `SCD`. -/
def Core.execConditional (w : Nat) (rt : Fin 32) (a : BitVec 64) (c : Core Dev) : Core Dev :=
  if a.toNat % w ≠ 0 then c.fault a (.addressError .write)
  else
    let llbit := c.mach.llbit
    let x := if w = 8 then c.cpu.gpr rt else zext ((c.cpu.gpr rt).setWidth 32)
    let c := if llbit then Core.store D pak w a x c else c
    c.set rt (if llbit then 1 else 0)

/-- `CACHE` is privileged. -/
def Core.execCache (op : Fin 32) (a : BitVec 64) (c : Core Dev) : Core Dev :=
  if cpuMode c.status ≠ 0 && !c.status.testBit 28 then raise 11 c
  else
    match c.xlatTo a .read with
    | (c, none) => c
    | (c, some _) => { c with mach := cacheOp D pak op a.toNat c.mach }

end Access

end Cpu
