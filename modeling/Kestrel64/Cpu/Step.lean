import Kestrel64.Cpu.Counters
import Kestrel64.Cpu.Interp
import Kestrel64.Lib.Transition

/-! # CPU: step

    `CPU::step`: the interrupt sample, the fetch with its memoised
    translation, `execute`, and the clocks behind it.

    The memo holds the translation of the 32-byte line the last fetch came
    from. It is used again while `pc` stays in the line and `xlatEpoch` has
    not moved.

    The other parts of the machine run between two steps. `Pins` is what
    they have made of the memory side and of the interrupt line.
-/

namespace Cpu

variable {Dev : Type}

/-! ## Section 1: State -/

/-- `fetchLine*`. The address 1 is no line. -/
structure FetchLine where
  vbase : Nat
  phys : Nat
  reXor : Nat
  epoch : Nat
  cache : Bool

structure Fetcher (Dev : Type) where
  core : Core Dev
  line : FetchLine

structure Pins (Dev : Type) where
  mem : Mem Dev
  /-- `mi_intr & mi_mask` -/
  intr : Bool

/-! ## Section 2: Interrupts -/

/-- `Cause` with the two lines of the outside in it. -/
def sampledCause (cause : BitVec 32) (intr timer : Bool) : BitVec 32 :=
  let cause := if intr then cause ||| 0x400 else cause &&& ~~~0x400
  if timer then cause ||| 0x8000 else cause &&& ~~~0x8000

/-- The instruction boundary: sample the lines, deliver an interrupt. -/
def Core.deliver (l : Pins Dev) (c : Core Dev) : Core Dev :=
  let c := { c.setCpu { c.cpu with mem := l.mem } with curPc := c.pc }
  let cause := sampledCause ((c.cop0 c0Cause).setWidth 32) l.intr c.timerIntr
  let c := c.setCop0 c0Cause (sext cause)
  let c := if c.status % 8 = 1 ∧ cause.toNat &&& c.status &&& 0xff00 ≠ 0 then raise 0 c else c
  { c with memAbort := false }

/-! ## Section 3: Fetch -/

def lineBase (pc : BitVec 64) : Nat := pc.toNat / 32 * 32

/-- The fast path: same line, same epoch. -/
def FetchLine.hit (m : FetchLine) (c : Core Dev) : Bool :=
  lineBase c.pc == m.vbase && m.epoch == c.xlatEpoch

/-- The fetch address the memo gives. -/
def FetchLine.addr (m : FetchLine) (pc : BitVec 64) : Nat :=
  m.phys ||| (pc.toNat &&& 0x1c) ^^^ m.reXor

/-- What a translation makes of the memo. -/
def FetchLine.fill (pc : BitVec 64) (fpe p epoch : Nat) (cache : Bool) : FetchLine :=
  { vbase := lineBase pc
    phys := fpe / 32 * 32
    reXor := (fpe ^^^ p % 2 ^ 32) &&& 0x1c
    epoch := epoch
    cache := cache }

/-- The address of the fetch at `pc` and whether it goes through the cache,
    translated afresh. -/
def freshFetch (pc : BitVec 64) (s : State Dev) : Except Exc (Nat × Bool) :=
  (translate false pc.toNat .fetch s).map fun r =>
    (reXor r.2.status r.1 4 % 2 ^ 32, cacheable pc.toNat r.2)

section Step

variable (D : Devices Dev) (pak : Pak) (fpu : Fpu)

def icFetch (pe : Nat) (m : Machine Dev) : BitVec 32 × Machine Dev :=
  let idx := pe / 32 % 512
  let base := pe / 32 * 32
  let m := if !(m.icache idx).valid || (m.icache idx).ptag ≠ base then icFill D pak idx base m
    else m
  ((beRead (m.icache idx).data (pe &&& 0x1c) 4).setWidth 32, m)

def fetchWord (fpe : Nat) (cache : Bool) (c : Core Dev) : BitVec 32 × Core Dev :=
  if cache && fpe < pak.size then
    let r := icFetch D pak fpe c.mach
    (r.1, { c with mach := r.2 })
  else
    let r := read32 D pak c.cpu.cartNow fpe c.cpu.mem
    (r.1, c.setCpu { c.cpu with mem := r.2 })

/-! ## Section 4: The clocks -/

/-- `retired`, `countTicks(1)` and `countAdd`. -/
def Core.commit (c : Core Dev) : Core Dev :=
  let k := c.cpu.clock
  let st := c.cpu.stallCycles
  let a := c.countFrac + k.cpi256 + st * 128
  let plain := k.cpi256 = 256 ∧ st = 0
  let ct : BitVec 32 := if plain then 1 else BitVec.ofNat 32 (a / 256)
  let old : BitVec 32 := (c.cop0 c0Count).setWidth 32
  let compare : BitVec 32 := (c.cop0 c0Compare).setWidth 32
  let clock := { k with
    retired := k.retired + 1
    stall := if st = 0 then k.stall else k.stall + (k.stallRem + st * 128) / k.cpi256
    stallRem := if st = 0 then k.stallRem else (k.stallRem + st * 128) % k.cpi256 }
  let c := c.setCpu { c.cpu with clock := clock, stallCycles := 0 }
  let c := { c with countFrac := if plain then c.countFrac else a % 256 }
  if ct = 0 then c
  else
    { c.setCop0 c0Count (zext (old + ct)) with
      timerIntr := c.timerIntr || (compare - old - 1).ult ct }

/-- `Random` counts down to `Wired`; a write to `Wired` reloads it one
    instruction late. -/
def Core.tickRandom (c : Core Dev) : Core Dev :=
  let reload := c.randomReload - 1
  if c.randomReload ≠ 0 ∧ reload = 0 then { c.setCop0 c0Random 31 with randomReload := reload }
  else
    let r := (c.cop0 c0Random).toNat % 64
    let w := (c.cop0 c0Wired).toNat % 64
    { c.setCop0 c0Random (if r = w then 31 else BitVec.ofNat 64 ((r + 63) % 64)) with
      randomReload := reload }

/-! ## Section 5: step -/

/-- From the word on. -/
def Core.exec (fpe : Nat) (cache : Bool) (c : Core Dev) : Core Dev :=
  let r := fetchWord D pak fpe cache c
  (r.2.advance.execute D pak fpu r.1).retire.commit.tickRandom

def Fetcher.step (f : Fetcher Dev) (l : Pins Dev) : Fetcher Dev :=
  if f.core.halted then f
  else
    let c := f.core.deliver l
    if c.pc.toNat % 4 ≠ 0 then { f with core := raise 4 (setBadVAddr c.pc c) }
    else if f.line.hit c then
      { f with core := c.exec D pak fpu (f.line.addr c.pc) f.line.cache }
    else
      match translate false c.pc.toNat .fetch c.cpu with
      | .error e => { f with core := c.fault c.pc e }
      | .ok (p, s) =>
        let c := c.setCpu s
        let fpe := reXor s.status p 4 % 2 ^ 32
        let cache := cacheable c.pc.toNat s
        { core := c.exec D pak fpu fpe cache
          line := .fill c.pc fpe p c.xlatEpoch cache }

/-- The stepping CPU as a system: any core, with no line memoised. -/
def fetchSystem : LTS.System (Fetcher Dev) (Pins Dev) where
  init := fun f => f.line.vbase = 1
  step := fun f l f' => f' = f.step D pak fpu l

end Step

/-! ## Section 6: The clocks of the core are the guest's -/

/-- The core's clock fields are these counters. -/
structure Clocked (c : Core Dev) (k : Counters) : Prop where
  cpi256 : k.cpi256 = c.cpu.clock.cpi256
  retired : k.retired = c.cpu.clock.retired
  stallCycles : k.stallCycles = c.cpu.stallCycles
  stallOps : k.stallOps = c.cpu.clock.stall
  stallOpsRem : k.stallOpsRem = c.cpu.clock.stallRem
  countFrac : k.countFrac = c.countFrac
  count : k.count = (c.cop0 c0Count).setWidth 32
  compare : k.compare = (c.cop0 c0Compare).setWidth 32

/-- One step commits what the counters do for one instruction, and latches
    the timer when they say so. -/
theorem Clocked.commit {c : Core Dev} {k : Counters} (h : Clocked c k) :
    Clocked c.commit (k.commit 1).1 ∧ c.commit.timerIntr = (c.timerIntr || (k.commit 1).2) := by
  obtain ⟨cpi256, on, cart, retired, pending, stall, ops, rem, frac, count, compare, hp, hl, hr,
    hf⟩ := k
  obtain ⟨h1, h2, h3, h4, h5, h6, h7, h8⟩ := h
  dsimp only at h1 h2 h3 h4 h5 h6 h7 h8
  subst h1 h2 h3 h4 h5 h6 h7 h8
  have hzext : ∀ x : BitVec 32, (zext x).setWidth 32 = x := by
    intro x
    unfold zext
    rw [BitVec.setWidth_setWidth_of_le _ (by decide), BitVec.setWidth_eq]
  unfold Core.commit Counters.commit Counters.countTicks Counters.countAdd Counters.drain
  dsimp only
  by_cases hst : c.cpu.stallCycles = 0
  · by_cases hcpi : c.cpu.clock.cpi256 = 256
    · constructor
      · constructor <;> simp [hcpi, hst, hzext, Core.setCop0, Core.setCpu]
      · simp [hcpi, hst, Core.setCpu, BitVec.ult]
    · by_cases hct : BitVec.ofNat 32 ((c.countFrac + c.cpu.clock.cpi256) / 256) = 0
      · constructor
        · constructor <;> simp_all [Core.setCpu]
        · simp_all [Core.setCpu]
      · constructor
        · constructor <;> simp_all [Core.setCop0, Core.setCpu]
        · simp_all [Core.setCpu, BitVec.ult]
  · by_cases hct : BitVec.ofNat 32
        ((c.countFrac + c.cpu.clock.cpi256 + c.cpu.stallCycles * 128) / 256) = 0
    · constructor
      · constructor <;> simp_all [Core.setCpu]
      · simp_all [Core.setCpu]
    · constructor
      · constructor <;> simp_all [Core.setCop0, Core.setCpu]
      · simp_all [Core.setCpu, BitVec.ult]

end Cpu
