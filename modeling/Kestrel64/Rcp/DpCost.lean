import Kestrel64.Lib.Transition
import Kestrel64.Rcp.DpSchedule

/-! # RCP: What a Span Costs, and What a State Restores of It

    `dpScheduleSpan` whole: the walk of the cost decoder `softCost` over the
    commands of the span, the resume pointers for a command split between
    two spans, the window of `PIPE_BUSY`, and the entry in the ring.

    The decoder keeps its own registers from span to span, apart from those
    of the decoder that paints. A savestate has the latter and neither the
    former nor the pointers nor the window (`DpMachine.restore`): two
    machines that restore the same bytes agree on all later spans if they
    agreed on these (`restore_determines_timing`), and need not otherwise
    (`history_shows`).

    How a command of the decoder changes its registers and what it charges is
    a parameter, `Draw`: any function of the registers, the words of the
    command and what the machine holds (RDRAM and the registers of the VI).
    How commands are found, their lengths, the stalls of the syncs and
    `SYNC_FULL` are the source's.
-/

namespace Rcp

/-! ## Section 1: The walk of the cost decoder -/

/-- What is added to the counters: `dpc_pipebusy`, `dpc_bufbusy`, `dpc_tmem`
    and `rdpGclk`. -/
structure Charge where
  pipe : Nat
  buf : Nat
  tmem : Nat
  gclk : Nat
  deriving DecidableEq, Repr

def Charge.add (a b : Charge) : Charge :=
  ⟨a.pipe + b.pipe, a.buf + b.buf, a.tmem + b.tmem, a.gclk + b.gclk⟩

/-- `accountStall` -/
def Charge.stall (gclk : Nat) : Charge := ⟨gclk, gclk, 0, gclk⟩

/-- The commands of the decoder: registers `D`, and `M` what they read of
    the machine. -/
structure Draw (D M : Type) where
  exec : M → List (BitVec 64) → D → D × Charge

/-- Where a span's commands are read: the copy of RDRAM, or DMEM. -/
structure CmdSource where
  rdram : Nat → BitVec 8
  size : Nat
  dmem : Nat → BitVec 8

/-- `rd32p` -/
def CmdSource.rd32 (s : CmdSource) (p : Nat) : BitVec 32 :=
  if s.size ≤ p + 3 then 0
  else s.rdram p ++ s.rdram (p + 1) ++ s.rdram (p + 2) ++ s.rdram (p + 3)

def CmdSource.fetch (s : CmdSource) (xbus : Bool) (a : Nat) : BitVec 64 :=
  if xbus then
    (List.range 8).foldl
      (fun v i => v <<< 8 ||| (s.dmem ((a + i) % 4096)).setWidth 64) 0
  else s.rd32 a ++ s.rd32 (a + 4)

/-- The decoder in the middle of a span. -/
structure Walk (D : Type) where
  cur : Nat
  reg : D
  charge : Charge
  sawSyncFull : Bool
  cmdTail : Nat

variable {D M : Type}

def Walk.draw (W : Draw D M) (m : M) (words : List (BitVec 64)) (w : Walk D) : Walk D :=
  let r := W.exec m words w.reg
  { w with reg := r.1, charge := w.charge.add r.2, cur := w.cur + 8 * words.length }

def Walk.skip (c : Charge) (w : Walk D) : Walk D :=
  { w with charge := w.charge.add c, cur := w.cur + 8 }

/-- The words of a triangle: edges, and shade, texture and depth. -/
def triWords (op : Nat) : Nat :=
  4 + (if op / 4 % 2 = 1 then 8 else 0) + (if op / 2 % 2 = 1 then 8 else 0) +
    (if op % 2 = 1 then 2 else 0)

/-- The loop of `run`. A command that does not fit is left for later. -/
def walk (W : Draw D M) (m : M) (fetch : Nat → BitVec 64) (stop : Nat) : Nat → Walk D → Walk D
  | 0, w => w
  | guard + 1, w =>
    if stop ≤ w.cur then w
    else
      let cmd := fetch w.cur
      let op := cmd.toNat / 2 ^ 56 % 64
      let w := { w with cmdTail := if op = 0x29 then 1 else 2 }
      let words (n : Nat) := (List.range n).map fun i => fetch (w.cur + 8 * i)
      if 0x08 ≤ op ∧ op ≤ 0x0f then
        if stop < w.cur + 8 * triWords op then w
        else walk W m fetch stop guard (w.draw W m (words (triWords op)))
      else if op = 0x24 ∨ op = 0x25 then
        if stop < w.cur + 16 then w else walk W m fetch stop guard (w.draw W m (words 2))
      else if op = 0x00 then walk W m fetch stop guard (w.skip (.stall 0))
      else if op = 0x26 then walk W m fetch stop guard (w.skip (.stall 25))
      else if op = 0x27 then walk W m fetch stop guard (w.skip (.stall 50))
      else if op = 0x28 then walk W m fetch stop guard (w.skip (.stall 33))
      else if op = 0x29 then
        walk W m fetch stop guard { w.skip (.stall 0) with sawSyncFull := true }
      else walk W m fetch stop guard (w.draw W m [cmd])

/-- The mask of a FIFO address. -/
def fifoMask (xbus : Bool) (a : Nat) : Nat := a % (if xbus then 2 ^ 28 else 2 ^ 24)

/-- `softCost.run`; `stopAt` is where it ends. -/
def costRun (W : Draw D M) (m : M) (s : CmdSource) (xbus : Bool) (start stop : Nat) (reg : D) :
    Walk D :=
  walk W m (s.fetch xbus) (fifoMask xbus stop) 200000
    { cur := fifoMask xbus start, reg := reg, charge := ⟨0, 0, 0, 0⟩, sawSyncFull := false
      cmdTail := 0 }

/-! ## Section 2: Filing a span -/

/-- Settings. -/
structure DpConfig where
  pace : Pace
  viFieldInsns : Nat
  viFieldHzMilli : Nat
  rdpCostOn : Bool
  rcpDeadlineOn : Bool

def DpConfig.insnsToRcpCycles (c : DpConfig) (insns : Nat) : Nat :=
  let d := c.viFieldInsns * c.viFieldHzMilli
  if d = 0 then 0 else insns * 62500000000 / d

/-- What no state has: the registers of the cost decoder, its resume
    pointers and the window of `PIPE_BUSY`. -/
structure Hidden (D : Type) where
  softCost : D
  rdpCostResume : Nat
  rdpCostLastEnd : Nat
  rdpCostHasResume : Bool
  dpPipeFrom : Nat
  dpPipeBusy0 : BitVec 32

structure DpMachine (D : Type) where
  dp : Dp
  dpc_clock : BitVec 32
  dpc_bufbusy : BitVec 32
  dpc_pipebusy : BitVec 32
  dpc_tmem : BitVec 32
  rdpGclk : Nat
  dpLastSpanSync : Bool
  hidden : Hidden D

/-- A call of `dpScheduleSpan`, with the bytes and the rest of the machine it
    finds. -/
structure SpanCall (M : Type) where
  current : Nat
  stop : Nat
  xbus : Bool
  src : CmdSource
  mem : M
  kick : Nat
  rsp : Bool

/-- What the guest can see of a call: the dates, the counters and the marks
    of `SYNC_FULL`. -/
structure SpanOut where
  job : DpJob
  dpc_clock : BitVec 32
  dpc_bufbusy : BitVec 32
  dpc_pipebusy : BitVec 32
  dpc_tmem : BitVec 32
  dpLastSpanSync : Bool
  endArmed : Option Nat
  deriving DecidableEq, Repr

/-- Where the cost walk starts: at the command left over, if the span goes on
    where the last one ended. -/
def Hidden.costCur (h : Hidden D) (current : Nat) : Nat :=
  if h.rdpCostHasResume = true ∧ current = h.rdpCostLastEnd then h.rdpCostResume else current

/-- `rdpCostPass` -/
def rdpCostPass (c : DpConfig) (W : Draw D M) (k : SpanCall M) (h : Hidden D) : Option (Walk D) :=
  let cur := h.costCur k.current
  if !c.rdpCostOn || k.stop == cur then none
  else some (costRun W k.mem k.src k.xbus cur k.stop h.softCost)

/-- The registers and resume pointers after the cost pass. -/
def Hidden.costed (h : Hidden D) (k : SpanCall M) : Option (Walk D) → Hidden D
  | none => { h with rdpCostHasResume := false, rdpCostLastEnd := k.stop }
  | some w =>
    let h := { h with softCost := w.reg, rdpCostHasResume := false, rdpCostLastEnd := k.stop }
    if w.cur = fifoMask k.xbus k.stop then h
    else { h with rdpCostResume := w.cur, rdpCostHasResume := true }

/-- The window of `PIPE_BUSY`: the new window, and what is added to the
    counter at the end of it. `pipe0` is the counter before the span. -/
def pipeWindow (c : DpConfig) (h : Hidden D) (t0 t1 : Nat) (pipe0 pbNow : BitVec 32)
    (sync : Bool) : Hidden D × BitVec 32 :=
  let h := if h.dpPipeFrom = 0 then
      { h with dpPipeFrom := if t0 = 0 then 1 else t0, dpPipeBusy0 := pipe0 }
    else h
  if sync then
    let span := (c.insnsToRcpCycles t1 + 2 ^ 64 - c.insnsToRcpCycles h.dpPipeFrom % 2 ^ 64) % 2 ^ 64
    let worked := (pbNow - h.dpPipeBusy0).toNat
    ({ h with dpPipeFrom := 0 },
      if worked < span then BitVec.ofNat 32 (span - worked) else 0)
  else (h, 0)

def DpMachine.dpScheduleSpan (c : DpConfig) (W : Draw D M) (m : DpMachine D) (k : SpanCall M) :
    DpMachine D × SpanOut :=
  let pass := rdpCostPass c W k m.hidden
  let charge := (pass.map (·.charge)).getD ⟨0, 0, 0, 0⟩
  let saw := (pass.map (·.sawSyncFull)).getD false
  let h := m.hidden.costed k pass
  let job := m.dp.spanJob c.pace k.rsp k.current k.stop
    (pass.isSome && (pass.map (·.cmdTail)).getD 0 == 1) charge.gclk k.kick
  let pb := m.dpc_pipebusy + BitVec.ofNat 32 charge.pipe
  let win := if pass.isSome && k.current != k.stop then
      pipeWindow c h job.startG job.endG m.dpc_pipebusy pb saw
    else (h, 0)
  let m' : DpMachine D :=
    { dp := m.dp.file job
      dpc_clock := m.dpc_clock
      dpc_bufbusy := m.dpc_bufbusy + BitVec.ofNat 32 charge.buf
      dpc_pipebusy := pb + win.2
      dpc_tmem := m.dpc_tmem + BitVec.ofNat 32 charge.tmem
      rdpGclk := m.rdpGclk + charge.gclk
      dpLastSpanSync :=
        if pass.isSome then saw else (k.current != k.stop && c.rdpCostOn) || !c.rdpCostOn
      hidden := win.1 }
  (m',
    { job := job, dpc_clock := m'.dpc_clock, dpc_bufbusy := m'.dpc_bufbusy
      dpc_pipebusy := m'.dpc_pipebusy, dpc_tmem := m'.dpc_tmem
      dpLastSpanSync := m'.dpLastSpanSync
      endArmed := if pass.isSome && saw && c.rcpDeadlineOn then some job.endG else none })

/-- What the state's bytes hold of this part of the machine. -/
structure SavedDpc where
  dpc_current : Nat
  dpc_clock : BitVec 32
  dpc_bufbusy : BitVec 32
  dpc_pipebusy : BitVec 32
  dpc_tmem : BitVec 32

/-- `restoreState` and `rcpSchedReset`. -/
def DpMachine.restore (b : SavedDpc) (m : DpMachine D) : DpMachine D :=
  { m with
    dp := { m.dp.rcpSchedReset with dpc_current := b.dpc_current }
    dpc_clock := b.dpc_clock
    dpc_bufbusy := b.dpc_bufbusy
    dpc_pipebusy := b.dpc_pipebusy
    dpc_tmem := b.dpc_tmem }

/-- What the call does to the ring is filing a span, at the cost charged. -/
theorem DpMachine.dpScheduleSpan_dp (c : DpConfig) (W : Draw D M) (m : DpMachine D)
    (k : SpanCall M) : ∃ sync cost, (m.dpScheduleSpan c W k).1.dp =
      m.dp.dpScheduleSpan c.pace k.rsp k.current k.stop sync cost k.kick :=
  ⟨_, _, rfl⟩

/-! ## Section 3: Two machines -/

/-- The command left over, and the end of its span. -/
def Hidden.resume (h : Hidden D) : Option (Nat × Nat) :=
  if h.rdpCostHasResume then some (h.rdpCostResume, h.rdpCostLastEnd) else none

def Hidden.window (h : Hidden D) : Option (Nat × BitVec 32) :=
  if h.dpPipeFrom = 0 then none else some (h.dpPipeFrom, h.dpPipeBusy0)

/-- The same as far as it is used. -/
structure Hidden.Same (a b : Hidden D) : Prop where
  softCost : a.softCost = b.softCost
  resume : a.resume = b.resume
  window : a.window = b.window

structure DpMachine.Same (a b : DpMachine D) : Prop where
  sub : a.dp.dpSubSeq = b.dp.dpSubSeq
  schedEnd : a.dp.dpSchedEnd = b.dp.dpSchedEnd
  clock : a.dpc_clock = b.dpc_clock
  bufbusy : a.dpc_bufbusy = b.dpc_bufbusy
  pipebusy : a.dpc_pipebusy = b.dpc_pipebusy
  tmem : a.dpc_tmem = b.dpc_tmem
  hidden : a.hidden.Same b.hidden

variable {a b : Hidden D}

theorem Hidden.costCur_eq (h : Hidden D) (current : Nat) :
    h.costCur current = match h.resume with
      | some (at_, last) => if current = last then at_ else current
      | none => current := by
  unfold Hidden.costCur Hidden.resume
  cases h.rdpCostHasResume with
  | false => rw [if_neg (fun h => absurd h.1 Bool.false_ne_true), if_neg Bool.false_ne_true]
  | true => simp only [true_and, if_true]

theorem Hidden.Same.pass (h : a.Same b) (c : DpConfig) (W : Draw D M) (k : SpanCall M) :
    rdpCostPass c W k a = rdpCostPass c W k b := by
  unfold rdpCostPass
  rw [Hidden.costCur_eq, Hidden.costCur_eq, h.resume, h.softCost]

theorem Hidden.Same.costed (h : a.Same b) (k : SpanCall M) (pass : Option (Walk D)) :
    (a.costed k pass).Same (b.costed k pass) := by
  unfold Hidden.costed
  cases pass with
  | none => exact ⟨h.softCost, rfl, h.window⟩
  | some w =>
    dsimp only
    split_ifs
    · exact ⟨rfl, rfl, h.window⟩
    · exact ⟨rfl, rfl, h.window⟩

/-- An open window is the same window; a closed one is opened alike. -/
theorem Hidden.window_cases (h : a.window = b.window) :
    (a.dpPipeFrom = 0 ∧ b.dpPipeFrom = 0) ∨
      (a.dpPipeFrom ≠ 0 ∧ a.dpPipeFrom = b.dpPipeFrom ∧ a.dpPipeBusy0 = b.dpPipeBusy0) := by
  unfold Hidden.window at h
  split_ifs at h with ha hb hb
  · exact .inl ⟨ha, hb⟩
  · exact .inr ⟨ha, (Prod.mk.inj (Option.some.inj h)).1, (Prod.mk.inj (Option.some.inj h)).2⟩

theorem Hidden.Same.pipeWindow (h : a.Same b) (c : DpConfig) (t0 t1 : Nat)
    (pipe0 pbNow : BitVec 32) (sync : Bool) :
    (pipeWindow c a t0 t1 pipe0 pbNow sync).2 = (pipeWindow c b t0 t1 pipe0 pbNow sync).2 ∧
      (pipeWindow c a t0 t1 pipe0 pbNow sync).1.Same (pipeWindow c b t0 t1 pipe0 pbNow sync).1 := by
  unfold Rcp.pipeWindow
  obtain ⟨ha, hb⟩ | ⟨ha, hfrom, hbusy⟩ := Hidden.window_cases h.window
  · rw [if_pos ha, if_pos hb]
    cases sync with
    | false => exact ⟨rfl, h.softCost, h.resume, rfl⟩
    | true => exact ⟨rfl, h.softCost, h.resume, rfl⟩
  · have hb : b.dpPipeFrom ≠ 0 := hfrom ▸ ha
    simp only [if_neg ha, if_neg hb]
    cases sync with
    | false => exact ⟨rfl, h⟩
    | true =>
      simp only [if_true, hfrom, hbusy]
      exact ⟨trivial, h.softCost, h.resume, rfl⟩

/-- One call on two machines. -/
theorem DpMachine.Same.step {m n : DpMachine D} (h : m.Same n) (c : DpConfig) (W : Draw D M)
    (k : SpanCall M) : (m.dpScheduleSpan c W k).2 = (n.dpScheduleSpan c W k).2 ∧
      (m.dpScheduleSpan c W k).1.Same (n.dpScheduleSpan c W k).1 := by
  have hjob (sync : Bool) (cost : Nat) :
      m.dp.spanJob c.pace k.rsp k.current k.stop sync cost k.kick =
        n.dp.spanJob c.pace k.rsp k.current k.stop sync cost k.kick := by
    unfold Dp.spanJob
    rw [h.schedEnd]
  have hcosted := h.hidden.costed k (rdpCostPass c W k n.hidden)
  unfold DpMachine.dpScheduleSpan
  rw [h.hidden.pass c W k]
  generalize rdpCostPass c W k n.hidden = pass at hcosted ⊢
  dsimp only
  rw [hjob, h.pipebusy, h.clock, h.bufbusy, h.tmem]
  generalize n.dp.spanJob c.pace k.rsp k.current k.stop _ _ k.kick = job
  by_cases hwin : (pass.isSome && k.current != k.stop) = true
  · obtain ⟨hadd, hsame⟩ := hcosted.pipeWindow c job.startG job.endG n.dpc_pipebusy
      (n.dpc_pipebusy + BitVec.ofNat 32 ((pass.map Walk.charge).getD ⟨0, 0, 0, 0⟩).pipe)
      ((pass.map Walk.sawSyncFull).getD false)
    rw [if_pos hwin, if_pos hwin, hadd]
    exact ⟨rfl, congrArg (· + 1) h.sub, rfl, rfl, rfl, rfl, rfl, hsame⟩
  · rw [if_neg hwin, if_neg hwin]
    exact ⟨rfl, congrArg (· + 1) h.sub, rfl, rfl, rfl, rfl, rfl, hcosted⟩

/-- **A state determines the timing of the RDP for machines with the same
    hidden part.** Whatever else their histories left, the same calls give
    the same dates, counters and marks. -/
theorem restore_determines_timing (c : DpConfig) (W : Draw D M) (b : SavedDpc) (m n : DpMachine D)
    (h : m.hidden.Same n.hidden) (calls : List (SpanCall M)) :
    LTS.outputs (·.dpScheduleSpan c W ·) (m.restore b) calls =
      LTS.outputs (·.dpScheduleSpan c W ·) (n.restore b) calls := by
  have hrestored : (m.restore b).Same (n.restore b) := ⟨rfl, rfl, rfl, rfl, rfl, rfl, h⟩
  exact LTS.outputs_eq DpMachine.Same (fun _ _ k hmn => hmn.step c W k) hrestored calls

/-! ## Section 4: What a history leaves -/

/-- A decoder that is never asked to draw. -/
def noDraw : Draw Unit Unit := ⟨fun _ _ d => (d, ⟨0, 0, 0, 0⟩)⟩

def restoreConfig : DpConfig := ⟨⟨3, 2⟩, 1562500, 60000, true, true⟩

def powerOn : DpMachine Unit where
  dp := ⟨0, 0, fun _ => ⟨0, 0, 0, 0, 0, false⟩, 0⟩
  dpc_clock := 0
  dpc_bufbusy := 0
  dpc_pipebusy := 0
  dpc_tmem := 0
  rdpGclk := 0
  dpLastSpanSync := true
  hidden := ⟨(), 0, 0, false, 0, 0⟩

/-- RDRAM with the two given opcodes at 0x100 and 0x108. -/
def twoCommands (first second : BitVec 8) : CmdSource where
  rdram := fun a => if a = 0x100 then first else if a = 0x108 then second else 0
  size := 0x800000
  dmem := fun _ => 0

/-- A `TEXTURE_RECTANGLE` at 0x100 of which the span has only the first
    word. -/
def splitCall : SpanCall Unit := ⟨0x100, 0x108, false, twoCommands 0x24 0, (), 10, true⟩

/-- `SYNC_FULL` at 0x108, with `SYNC_PIPE` before it at 0x100. -/
def syncCall : SpanCall Unit := ⟨0x108, 0x110, false, twoCommands 0x27 0x29, (), 1000, true⟩

/-- Two machines with a split command behind them, one of which has also
    filed and restored something else before. -/
theorem restore_determines_timing_sample :
    LTS.outputs (·.dpScheduleSpan restoreConfig noDraw ·)
        ((powerOn.dpScheduleSpan restoreConfig noDraw splitCall).1.restore ⟨0, 0, 0, 0, 0⟩)
        [syncCall, splitCall] =
      LTS.outputs (·.dpScheduleSpan restoreConfig noDraw ·)
        ((powerOn.dpScheduleSpan restoreConfig noDraw splitCall).1.restore ⟨8, 5, 6, 7, 8⟩ |>.restore
          ⟨0, 0, 0, 0, 0⟩) [syncCall, splitCall] :=
  restore_determines_timing restoreConfig noDraw ⟨0, 0, 0, 0, 0⟩ _
    ((powerOn.dpScheduleSpan restoreConfig noDraw splitCall).1.restore ⟨8, 5, 6, 7, 8⟩)
    ⟨rfl, rfl, rfl⟩ [syncCall, splitCall]

/-- A machine fresh from power-on and one that was left with a split command
    restore the same state; the span after it starts at 1000 on both and
    ends at 1000 on one, at 1075 on the other, which has other counters. -/
theorem history_shows :
    (((powerOn.restore ⟨0, 0, 0, 0, 0⟩).dpScheduleSpan restoreConfig noDraw syncCall).2.job.endG =
        1000 ∧
      (((powerOn.dpScheduleSpan restoreConfig noDraw splitCall).1.restore
        ⟨0, 0, 0, 0, 0⟩).dpScheduleSpan restoreConfig noDraw syncCall).2.job.endG = 1075) ∧
    ((powerOn.restore ⟨0, 0, 0, 0, 0⟩).dpScheduleSpan restoreConfig noDraw syncCall).2.dpc_bufbusy ≠
      (((powerOn.dpScheduleSpan restoreConfig noDraw splitCall).1.restore
        ⟨0, 0, 0, 0, 0⟩).dpScheduleSpan restoreConfig noDraw syncCall).2.dpc_bufbusy := by
  decide

end Rcp
