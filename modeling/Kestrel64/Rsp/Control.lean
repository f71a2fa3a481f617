import Kestrel64.Rsp.Block

/-! # RSP: Control Flow, Interpreted and Compiled

    `Rsp::step` twice: the interpreter loop with its delay-slot latch, and
    the loop that runs compiled blocks, with the block bodies, their exits
    and the links between blocks.

    What one instruction does to the registers, DMEM and the RCP is a
    parameter, `Exec`, shared by both: blocks call the interpreter's own
    functions or are taken to be equivalent to them. Only instructions of
    COP0, and those the compiler never takes, can stop the core or write
    IMEM, so only their part of `Exec` can say so. Branches are modelled
    twice, as `exec` and as `emitBranch` compute them.

    A block is formed from the IMEM it is entered under (see
    `Rsp.entered_coherent` for when that is so). Which blocks the table
    holds at a given moment is an arbitrary predicate `live` of the state,
    the trace of executed instructions included.
-/

namespace Rsp

/-! ## Section 1: State -/

/-- A PC: the index of a word of IMEM. -/
abbrev Pc := Fin 1024

def Pc.ofNat (n : Nat) : Pc := ⟨n % 1024, Nat.mod_lt _ (by decide)⟩

/-- `(pc + 4) & 0xfff` -/
def Pc.next (p : Pc) : Pc := Pc.ofNat (p.val + 1)

abbrev Regs := Fin 32 → Word

/-- `r0` is hardwired. -/
def setR (r : Regs) (n : Nat) (v : Word) : Regs :=
  fun j => if j.val = n ∧ n ≠ 0 then v else r j

def getR (r : Regs) (n : Nat) : Word := r ⟨n % 32, Nat.mod_lt _ (by decide)⟩

/-- What an instruction that can stop the core or write IMEM did. -/
structure Effect (X : Type) where
  r : Regs
  x : X
  halt : Bool
  imem : Option Imem

/-- Instruction semantics, branches apart. `X` is the state of the core and
    the RCP besides the scalar registers. `special` is for COP0 and for what
    the compiler leaves alone (`BREAK` among them); it sees how many
    instructions are left in the chunk, which is the exact clock. -/
structure Exec (X : Type) where
  plain : Word → Regs × X → Regs × X
  special : Nat → Word → Regs × X → Effect X

structure Core (X : Type) where
  r : Regs
  x : X
  imem : Imem
  halt : Bool

/-- The core with its control state. `trace` is the sequence of executed
    instructions, newest first. -/
structure St (X : Type) where
  core : Core X
  pc : Pc
  inDelay : Bool
  pendingTarget : Pc
  trace : List (Pc × Word)

variable {X : Type}

def St.visit (s : St X) (a : Pc) (op : Word) : St X := { s with trace := (a, op) :: s.trace }

/-! ## Section 2: Branches -/

def Word.simm (op : Word) : Word := (op.setWidth 16).signExtend 32

/-- `target & 0xffc` -/
def takeIdx (target : Word) : Pc := Pc.ofNat (target.toNat / 4)

def Pc.addr (p : Pc) : Word := BitVec.ofNat 32 (4 * p.val)

def relTarget (op : Word) (pc : Pc) : Word := pc.addr + 4 + Word.simm op <<< 2

def absTarget (op : Word) : Word := (op &&& 0x3ffffff) <<< 2

/-- The link value `(pc + 8) & 0xfff`. -/
def linkVal (pc : Pc) : Word := (pc.addr + 8) &&& 0xfff

def negative (v : Word) : Bool := v.toInt < 0

/-- The branches of `exec`: the registers, and the target if it is taken. -/
def execBranch (op : Word) (pc : Pc) (r : Regs) : Regs × Option Pc :=
  let rs := getR r (Word.rs op)
  let rt := getR r (Word.rt op)
  let rel (taken : Bool) : Option Pc := if taken then some (takeIdx (relTarget op pc)) else none
  let maj := Word.maj op
  if maj = 0x00 then
    if Word.funct op = 0x08 then (r, some (takeIdx rs))
    else (setR r (Word.rd op) (linkVal pc), some (takeIdx rs))
  else if maj = 0x01 then
    if Word.rt op = 0x00 then (r, rel (negative rs))
    else if Word.rt op = 0x01 then (r, rel (!negative rs))
    else if Word.rt op = 0x10 then (setR r 31 (linkVal pc), rel (negative rs))
    else (setR r 31 (linkVal pc), rel (!negative rs))
  else if maj = 0x02 then (r, some (takeIdx (absTarget op)))
  else if maj = 0x03 then (setR r 31 (linkVal pc), some (takeIdx (absTarget op)))
  else if maj = 0x04 then (r, rel (rs == rt))
  else if maj = 0x05 then (r, rel (rs != rt))
  else if maj = 0x06 then (r, rel (negative rs || rs == 0))
  else (r, rel (!(negative rs || rs == 0)))

/-- The emitted select: the flag widened to a mask, no jump. -/
def selPc (cc : Bool) (fall tgt : Word) : Word :=
  (if cc then 0xffffffff else 0) &&& (fall ^^^ tgt) ^^^ fall

/-- `emitBranch`: the registers and the PC the block leaves. -/
def emitBranch (op : Word) (bpc : Pc) (r : Regs) : Regs × Pc :=
  let fall := linkVal bpc
  let tgt := relTarget op bpc &&& 0xffc
  let maj := Word.maj op
  let rs := getR r (Word.rs op)
  let link (n : Nat) (r : Regs) : Regs := setR r n fall
  if maj = 0x00 then
    (if Word.funct op = 0x09 then link (Word.rd op) r else r, takeIdx (rs &&& 0xffc))
  else if maj = 0x02 ∨ maj = 0x03 then
    (if maj = 0x03 then link 31 r else r, takeIdx (absTarget op &&& 0xffc))
  else if maj = 0x01 then
    let cc := if Word.rt op % 2 = 1 then !negative rs else negative rs
    (if Word.rt op / 16 % 2 = 1 then link 31 r else r, takeIdx (selPc cc fall tgt))
  else if maj = 0x04 ∨ maj = 0x05 then
    let cc := rs == getR r (Word.rt op)
    (r, takeIdx (selPc (if maj = 0x04 then cc else !cc) fall tgt))
  else
    let cc := negative rs || rs == 0
    (r, takeIdx (selPc (if maj = 0x06 then cc else !cc) fall tgt))

/-! ## Section 3: The interpreter -/

/-- `exec` of an instruction that is not a branch. -/
def exec (E : Exec X) (left : Nat) (op : Word) (c : Core X) : Core X :=
  match classify op with
  | .cop0 | .stop =>
    let o := E.special left op (c.r, c.x)
    { r := o.r, x := o.x, imem := o.imem.getD c.imem, halt := c.halt || o.halt }
  | _ =>
    let o := E.plain op (c.r, c.x)
    { c with r := o.1, x := o.2 }

/-- One turn of the interpreter loop. -/
def interpStep (E : Exec X) (left : Nat) (s : St X) : St X :=
  let op := s.core.imem s.pc.val
  let nextpc := s.pc.next
  let b := if classify op = .branch then execBranch op s.pc s.core.r else (s.core.r, none)
  let core := if classify op = .branch then { s.core with r := b.1 } else exec E left op s.core
  let s := { s.visit s.pc op with core := core }
  if s.inDelay then
    { s with pc := s.pendingTarget, inDelay := false }
  else
    match b.2 with
    | some t => { s with pendingTarget := t, inDelay := true, pc := nextpc }
    | none => { s with pc := nextpc }

/-- The interpreter over a chunk of `c` instructions: the state and what is
    left of the chunk. -/
def interpLoop (E : Exec X) : Nat → St X → St X × Nat
  | 0, s => (s, 0)
  | c + 1, s => if s.core.halt then (s, c + 1) else interpLoop E c (interpStep E c s)

/-! ## Section 4: Compiled blocks -/

/-- The body of a block from the word at `a` on. `budget` is what is left of
    the chunk after the block. The result says whether COP0 cut the block. -/
def runOps (E : Exec X) (endsBranch : Bool) : Pc → List Word → Int → St X → Bool × Int × St X
  | a, [], budget, s => (false, budget, if endsBranch then s else { s with pc := a })
  | a, op :: rest, budget, s =>
    match classify op with
    | .branch =>
      let b := emitBranch op a s.core.r
      runOps E endsBranch a.next rest budget
        { s.visit a op with core := { s.core with r := b.1 }, pc := b.2 }
    | .cop0 =>
      -- `jitCop0`, with the rest of the block as `rem`
      let left := (budget + rest.length).toNat
      let wrote := (E.special left op (s.core.r, s.core.x)).imem.isSome
      let s := { s.visit a op with core := exec E left op s.core }
      if s.core.halt || wrote then
        -- in the delay slot the branch has written the PC already
        let slot := endsBranch && rest.isEmpty
        (true, budget + rest.length, if slot then s else { s with pc := a.next })
      else runOps E endsBranch a.next rest budget s
    | .stop => runOps E endsBranch a.next rest budget s
    | _ =>
      runOps E endsBranch a.next rest budget
        { s.visit a op with core := exec E 0 op s.core }

/-- Where the table is asked for a block. -/
inductive Site where
  | lookup
  | link

def runBlock (E : Exec X) (budget : Int) (s : St X) : Bool × Int × St X :=
  runOps E (form s.core.imem s.pc.val).endsBranch s.pc (blockWords s.core.imem s.pc.val) budget s

/-- A block, and the blocks it links to while they fit; at most `k` links. -/
def runChain (E : Exec X) (live : Site → St X → Bool) : Nat → Int → St X → Int × St X
  | k, budget, s =>
    let r := runBlock E budget s
    if r.1 then r.2
    else
      let s' := r.2.2
      let n := (form s'.core.imem s'.pc.val).nOps
      match k with
      | 0 => r.2
      | k + 1 =>
        if live .link s' && kMinOps ≤ n && (n : Int) ≤ r.2.1 then
          runChain E live k (r.2.1 - n) s'
        else r.2

/-- The loop of `step` with the dynarec on. Every turn uses up at least one
    instruction of the chunk, so `c` turns are enough. -/
def jitLoop (E : Exec X) (live : Site → St X → Bool) : Nat → Nat → St X → St X × Nat
  | 0, c, s => (s, c)
  | k + 1, c, s =>
    if c = 0 ∨ s.core.halt then (s, c)
    else
      let n := (form s.core.imem s.pc.val).nOps
      if !s.inDelay && kMinOps ≤ c && live .lookup s && kMinOps ≤ n && n ≤ c then
        let r := runChain E live c ((c : Int) - n) s
        jitLoop E live k r.1.toNat r.2
      else jitLoop E live k (c - 1) (interpStep E (c - 1) s)

/-! ## Section 5: `Rsp::step` -/

def kWatchdogQuantum : Nat := 40000000

/-- What the user can set from the environment; 0 stands for unset. -/
structure Env where
  rspTanda : Nat
  rspBudget : Nat

def Env.kRspTanda (env : Env) : Nat := if env.rspTanda = 0 then 4096 else env.rspTanda

/-- The watchdog's new balance at its `hangTicks`-th call. Without a hard
    cap it only warns. -/
def Env.watchdog (env : Env) (hangTicks : Nat) : Nat :=
  if env.rspBudget ≠ 0 ∧ env.rspBudget ≤ hangTicks * kWatchdogQuantum then 0
  else kWatchdogQuantum

/-- The counters of `step` that outlive a call. -/
structure Watch where
  budget : Nat
  hangTicks : Nat

/-- The balance after a chunk that ran `done` instructions. -/
def Watch.spend (env : Env) (w : Watch) (done : Nat) (halt : Bool) : Watch :=
  if w.budget - done = 0 ∧ halt = false then
    { budget := env.watchdog (w.hangTicks + 1), hangTicks := w.hangTicks + 1 }
  else { w with budget := w.budget - done }

/-- What `step` leaves: the core, the watchdog and the number of retired
    instructions. -/
structure Stepped (X : Type) where
  st : St X
  watch : Watch
  ran : Nat

/-- The outer loop of `step`, over either inner loop. Every turn retires an
    instruction, so `maxInsns` turns are enough. -/
def stepLoop (env : Env) (loop : Nat → St X → St X × Nat) :
    Nat → Nat → Watch → St X → Stepped X
  | 0, _, w, s => { st := s, watch := w, ran := 0 }
  | k + 1, maxInsns, w, s =>
    if s.core.halt ∨ maxInsns = 0 ∨ w.budget = 0 then { st := s, watch := w, ran := 0 }
    else
      let chunk := min (min maxInsns w.budget) env.kRspTanda
      let r := loop chunk s
      let done := chunk - r.2
      let rest := stepLoop env loop k (maxInsns - done) (w.spend env done r.1.core.halt) r.1
      { rest with ran := done + rest.ran }

def stepInterp (env : Env) (E : Exec X) (maxInsns : Nat) (w : Watch) (s : St X) : Stepped X :=
  stepLoop env (interpLoop E) maxInsns maxInsns w s

def stepJit (env : Env) (E : Exec X) (live : Site → St X → Bool) (maxInsns : Nat) (w : Watch)
    (s : St X) : Stepped X :=
  stepLoop env (fun c s => jitLoop E live c c s) maxInsns maxInsns w s

end Rsp
