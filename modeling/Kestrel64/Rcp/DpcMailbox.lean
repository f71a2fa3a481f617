import Kestrel64.Lib.Transition
import Kestrel64.Rcp.SpSignals
import Mathlib.Data.List.TakeWhile

/-! # RCP: The Mailbox of DPC Writes

    While a task runs, the RSP is ahead of the CPU in guest time, so a write
    of the CPU to a DPC register is not made at once: `dpcMbPost` puts it in
    a mailbox with the edge of the grain from which it counts. The RSP takes
    out what is due at its next access to DPC (`dpcMbRsp`), the CPU at a
    retirement if the task is over (`dpcMbCpu`). Both take an entry out under
    the mutex and make the write outside of it. With no task and nothing in
    the mailbox the CPU writes directly.

    A label is a critical section of one of the two threads, or what it does
    between two of them. The invariant `MbInv` is that the writes made, those
    taken out, those in the mailbox and the one in the CPU's hands, read in
    this order, are the CPU's program.

    Two steps break it (`Overtakes`). A write that finds the mailbox full is
    made directly, before the 64 that wait. And a CPU that halts the RSP in
    the middle of `dpcMbRsp` consumes next to it.
-/

namespace Rcp.Mailbox

/-! ## Section 1: Model -/

/-- `DpcMbEnt`, with the place of the write in the CPU's program. -/
structure Ent where
  seq : Nat
  eff : Nat
  phys : Nat
  v : Reg
  deriving DecidableEq

/-- A write that has been made. -/
structure Effect where
  ent : Ent
  /-- The instant it is stamped with. -/
  at' : Nat
  /-- A task was running, as the CPU sees it. -/
  running : Bool

def kDpcMbN : Nat := 64

/-- Where the CPU stands. -/
inductive Cpu where
  | idle
  /-- In `dpcMbPost`, before the mutex. -/
  | posting (e : Ent)
  /-- `dpcMbPost` returned false: the write is made directly. -/
  | writing (e : Ent)
  /-- In the loop of `dpcMbCpu`. -/
  | retiring (now : Nat)
  /-- In the loop of `dpcMbCpu` with an entry taken out. -/
  | applying (now : Nat) (e : Ent)

inductive Task where
  | idle
  | running
  /-- Past its BREAK, the worker not free yet. -/
  | ended

structure State where
  cpuNow : Nat
  /-- HALT of SP_STATUS, which the CPU's thread owns. -/
  halt : Bool
  task : Task
  /-- The ring as a list, oldest entry first. -/
  box : List Ent
  /-- `dpcMbN`: entries whose write has not been made. -/
  n : Nat
  /-- Bit 5 of `rcpPend`: the CPU has to look at its retirements. -/
  pend : Bool
  cpu : Cpu
  /-- What the RSP has taken out in `dpcMbRsp`, and the instant of its access. -/
  rsp : List Ent
  rspNow : Nat
  issued : Nat
  effects : List Effect

inductive Label where
  | tick (t : Nat)
  /-- CLEAR_HALT by the CPU with the worker free. -/
  | start
  /-- SET_HALT by the CPU: the RSP notices later. -/
  | setHalt
  /-- BREAK, or the CPU's SET_HALT noticed. -/
  | taskEnd
  /-- SET_HALT by the RSP itself. -/
  | rspHalt
  | workerFree
  /-- The end of the task becomes visible. -/
  | haltSeen
  /-- A write of the CPU to a DPC register, up to the mutex. -/
  | cpuWrite (phys : Nat) (v : Reg)
  | post
  | direct
  | rspTake (now : Nat)
  | rspApply
  | retire
  | cpuTake
  | cpuApply

def State.effect (s : State) (e : Ent) (t : Nat) : State :=
  { s with effects := s.effects ++ [⟨e, t, !s.halt⟩] }

/-- The end of `dpcMbCpu`: with nothing left there is nothing to look at. -/
def State.leaveRetire (s : State) : State :=
  { s with cpu := .idle, pend := if s.n = 0 then false else s.pend }

variable (l : Nat)

def step (s : State) : Label → Option State
  | .tick t =>
    match s.cpu with
    | .idle => if s.cpuNow ≤ t then some { s with cpuNow := t } else none
    | _ => none
  | .start =>
    match s.cpu, s.task with
    | .idle, .idle => some { s with halt := false, task := .running }
    | _, _ => none
  | .setHalt =>
    match s.cpu with
    | .idle => some { s with halt := true }
    | _ => none
  | .taskEnd =>
    match s.task, s.rsp with
    | .running, [] => some { s with task := .ended }
    | _, _ => none
  | .rspHalt =>
    match s.task, s.rsp with
    | .running, [] => some { s with halt := true, task := .ended }
    | _, _ => none
  | .workerFree =>
    match s.task with
    | .ended => some { s with task := .idle }
    | _ => none
  | .haltSeen =>
    match s.cpu, s.task with
    | .idle, .running => none
    | .idle, _ => some { s with halt := true }
    | _, _ => none
  | .cpuWrite phys v =>
    match s.cpu with
    | .idle =>
      let e : Ent := ⟨s.issued, edge l (s.cpuNow + 1), phys, v⟩
      -- no task and nothing old in the mailbox
      some { s with
        issued := s.issued + 1
        cpu := if s.halt ∧ s.n = 0 then .writing e else .posting e }
    | _ => none
  | .post =>
    match s.cpu with
    | .posting e =>
      if s.box.length = kDpcMbN then some { s with cpu := .writing e }
      else some { s with cpu := .idle, box := s.box ++ [e], n := s.n + 1, pend := true }
    | _ => none
  | .direct =>
    match s.cpu with
    | .writing e => some { s.effect e s.cpuNow with cpu := .idle }
    | _ => none
  | .rspTake now =>
    match s.task, s.rsp with
    | .running, [] =>
      if s.n = 0 then some s
      else some { s with
        rsp := s.box.takeWhile (·.eff ≤ now)
        box := s.box.dropWhile (·.eff ≤ now)
        rspNow := now }
    | _, _ => none
  | .rspApply =>
    match s.rsp with
    | e :: rest => some { s.effect e s.rspNow with rsp := rest, n := s.n - 1 }
    | [] => none
  | .retire =>
    match s.cpu with
    | .idle => if s.pend ∧ s.halt then some { s with cpu := .retiring s.cpuNow } else none
    | _ => none
  | .cpuTake =>
    match s.cpu, s.box with
    | .retiring now, e :: rest =>
      if e.eff ≤ now then some { s with cpu := .applying now e, box := rest }
      else some s.leaveRetire
    | .retiring _, [] => some s.leaveRetire
    | _, _ => none
  | .cpuApply =>
    match s.cpu with
    | .applying now e => some { s.effect e e.eff with cpu := .retiring now, n := s.n - 1 }
    | _ => none

def init : State where
  cpuNow := 0
  halt := true
  task := .idle
  box := []
  n := 0
  pend := false
  cpu := .idle
  rsp := []
  rspNow := 0
  issued := 0
  effects := []

/-- Every interleaving of the two threads. -/
def mailbox : LTS.System State Label where
  init := fun s => s = init
  step := fun s a s' => step l s a = some s'

/-! ## Section 2: What is asked -/

/-- An entry the CPU has taken out and not written yet. -/
def Cpu.taken : Cpu → List Ent
  | .applying _ e => [e]
  | _ => []

/-- A write of the CPU that is in no queue yet. -/
def Cpu.held : Cpu → List Ent
  | .posting e => [e]
  | .writing e => [e]
  | _ => []

/-- The writes not made yet, oldest first. -/
def State.waiting (s : State) : List Ent := s.rsp ++ s.cpu.taken ++ s.box ++ s.cpu.held

/-- The writes made, in the order they were made, and then those that wait are
    the CPU's program: each is in one place, none is lost, none overtakes. -/
def InOrder (s : State) : Prop :=
  s.effects.map (·.ent.seq) ++ s.waiting.map (·.seq) = List.range s.issued

/-- With a task running no write counts before its edge of the grain. -/
def OnEdge (s : State) : Prop := ∀ x ∈ s.effects, x.running = true → x.ent.eff ≤ x.at'

/-- The steps that let a write overtake another: a post to a full mailbox, and
    a consumer that takes an entry out while the other has one in its hands. -/
def Overtakes (s : State) : Label → Prop
  | .post => s.box.length = kDpcMbN
  | .rspTake _ => s.cpu.taken ≠ []
  | .cpuTake => s.rsp ≠ []
  | _ => False

/-! ## Section 3: The invariant -/

structure MbInv (s : State) : Prop where
  order : InOrder s
  count : s.n = s.rsp.length + s.cpu.taken.length + s.box.length
  /-- Only one thread at a time has entries in its hands. -/
  one : s.rsp = [] ∨ s.cpu.taken = []
  /-- A direct write has nothing to overtake. -/
  alone : ∀ e, s.cpu = .writing e → s.n = 0 ∧ s.halt = true
  due : ∀ e ∈ s.rsp, e.eff ≤ s.rspNow
  onEdge : OnEdge s
  /-- The CPU knows that something waits. -/
  seen : 0 < s.n → s.pend = true

theorem MbInv.init : MbInv init where
  order := rfl
  count := rfl
  one := .inl rfl
  alone := by simp [Mailbox.init]
  due := by simp [Mailbox.init]
  onEdge := by simp [OnEdge, Mailbox.init]
  seen := by simp [Mailbox.init]

/-- Steps that leave the queues, the writes and the CPU's place alone. -/
theorem MbInv.frame {s s' : State} (h : MbInv s) (heff : s'.effects = s.effects)
    (hrsp : s'.rsp = s.rsp) (hbox : s'.box = s.box) (hcpu : s'.cpu = s.cpu)
    (hissued : s'.issued = s.issued) (hn : s'.n = s.n) (hpend : s'.pend = s.pend)
    (hnow : s'.rspNow = s.rspNow) (hhalt : (∃ e, s.cpu = .writing e) → s.halt = true →
      s'.halt = true) : MbInv s' where
  order := by
    have := h.order
    unfold InOrder State.waiting at this ⊢
    rw [heff, hrsp, hbox, hcpu, hissued]
    exact this
  count := by rw [hn, hrsp, hcpu, hbox, h.count]
  one := by rw [hrsp, hcpu]; exact h.one
  alone := by
    intro e he
    rw [hcpu] at he
    obtain ⟨h0, hh⟩ := h.alone e he
    exact ⟨hn.trans h0, hhalt ⟨e, he⟩ hh⟩
  due := by rw [hrsp, hnow]; exact h.due
  onEdge := by
    intro x hx
    rw [heff] at hx
    exact h.onEdge x hx
  seen := by rw [hn, hpend]; exact h.seen

/-- The CPU takes a write into its hands. -/
theorem MbInv.hold {s : State} (h : MbInv s) (hidle : s.cpu = .idle) (phys : Nat) (v : Reg) :
    let e : Ent := ⟨s.issued, edge l (s.cpuNow + 1), phys, v⟩
    MbInv { s with
      issued := s.issued + 1
      cpu := if s.halt ∧ s.n = 0 then .writing e else .posting e } := by
  intro e
  have htaken : (if s.halt = true ∧ s.n = 0 then Cpu.writing e else .posting e).taken = [] := by
    split <;> rfl
  have hheld : (if s.halt = true ∧ s.n = 0 then Cpu.writing e else .posting e).held = [e] := by
    split <;> rfl
  refine ⟨?_, ?_, .inr htaken, ?_, h.due, h.onEdge, h.seen⟩
  · -- it is the next one of the program, behind everything that waits
    have hord := h.order
    simp only [InOrder, State.waiting, hidle, Cpu.taken, Cpu.held, List.append_nil] at hord
    simp only [InOrder, State.waiting, htaken, hheld, List.append_nil, List.map_append,
      List.map_cons, List.map_nil, List.range_succ] at hord ⊢
    rw [← hord]
    simp [e]
  · have := h.count
    rw [hidle] at this
    dsimp only
    rw [htaken]
    exact this
  · intro e' he'
    by_cases hc : s.halt = true ∧ s.n = 0
    · exact ⟨hc.2, hc.1⟩
    · simp [hc] at he'

/-- The oldest write that waits is made. -/
theorem order_apply {s s' : State} {e : Ent} {t : Nat} (h : InOrder s)
    (hhead : s.waiting = e :: s'.waiting) (heff : s'.effects = s.effects ++ [⟨e, t, !s.halt⟩])
    (hissued : s'.issued = s.issued) : InOrder s' := by
  unfold InOrder at h ⊢
  rw [heff, hissued, ← h, hhead]
  simp

theorem edge_apply {s s' : State} {e : Ent} {t : Nat} (h : OnEdge s)
    (heff : s'.effects = s.effects ++ [⟨e, t, !s.halt⟩])
    (hdue : s.halt = false → e.eff ≤ t) : OnEdge s' := by
  intro x hx hrun
  rw [heff] at hx
  rcases List.mem_append.mp hx with hx | hx
  · exact h x hx hrun
  · obtain rfl := List.mem_singleton.mp hx
    exact hdue (by simpa using hrun)

/-- **Step lemma.** A step that overtakes nothing keeps the invariant. -/
theorem MbInv.step {s s' : State} {a : Label} (h : MbInv s) (hgood : ¬ Overtakes s a)
    (hs : step l s a = some s') : MbInv s' := by
  cases a with
  | tick t =>
    simp only [Mailbox.step] at hs
    split at hs <;> simp at hs
    obtain ⟨-, rfl⟩ := hs
    exact h.frame rfl rfl rfl rfl rfl rfl rfl rfl (fun _ hh => hh)
  | start =>
    simp only [Mailbox.step] at hs
    split at hs <;> simp at hs
    next hcpu _ =>
    obtain rfl := hs
    exact h.frame rfl rfl rfl rfl rfl rfl rfl rfl (by simp [hcpu])
  | setHalt =>
    simp only [Mailbox.step] at hs
    split at hs <;> simp at hs
    obtain rfl := hs
    exact h.frame rfl rfl rfl rfl rfl rfl rfl rfl (fun _ _ => rfl)
  | taskEnd =>
    simp only [Mailbox.step] at hs
    split at hs <;> simp at hs
    obtain rfl := hs
    exact h.frame rfl rfl rfl rfl rfl rfl rfl rfl (fun _ hh => hh)
  | rspHalt =>
    simp only [Mailbox.step] at hs
    split at hs <;> simp at hs
    obtain rfl := hs
    exact h.frame rfl rfl rfl rfl rfl rfl rfl rfl (fun _ _ => rfl)
  | workerFree =>
    simp only [Mailbox.step] at hs
    split at hs <;> simp at hs
    obtain rfl := hs
    exact h.frame rfl rfl rfl rfl rfl rfl rfl rfl (fun _ hh => hh)
  | haltSeen =>
    simp only [Mailbox.step] at hs
    split at hs <;> simp at hs
    obtain rfl := hs
    exact h.frame rfl rfl rfl rfl rfl rfl rfl rfl (fun _ _ => rfl)
  | cpuWrite phys v =>
    simp only [Mailbox.step] at hs
    split at hs <;> simp only [Option.some.injEq, reduceCtorEq] at hs
    next hcpu =>
    obtain rfl := hs
    exact MbInv.hold l h hcpu phys v
  | post =>
    simp only [Mailbox.step] at hs
    split at hs
    case h_2 => simp at hs
    next e hcpu =>
    rw [if_neg (show ¬ s.box.length = kDpcMbN from hgood)] at hs
    obtain rfl := Option.some.inj hs
    have hcount := h.count
    have hord := h.order
    simp only [InOrder, State.waiting, hcpu, Cpu.taken, Cpu.held, List.append_nil] at hord hcount
    refine ⟨?_, ?_, .inr rfl, by simp, h.due, h.onEdge, fun _ => rfl⟩
    · simpa [InOrder, State.waiting, Cpu.taken, Cpu.held] using hord
    · simp only [Cpu.taken, List.length_append, List.length_singleton, List.length_nil] at hcount ⊢
      omega
  | direct =>
    simp only [Mailbox.step] at hs
    split at hs <;> simp only [Option.some.injEq, reduceCtorEq] at hs
    next e hcpu =>
    obtain rfl := hs
    obtain ⟨h0, hhalt⟩ := h.alone e hcpu
    have hcount := h.count
    rw [h0] at hcount
    -- all queues are empty, so this write is the oldest one
    have hrsp : s.rsp = [] := List.length_eq_zero_iff.mp (by omega)
    have hbox : s.box = [] := List.length_eq_zero_iff.mp (by omega)
    refine ⟨order_apply h.order ?_ rfl rfl, ?_, .inl hrsp, by simp, h.due,
      edge_apply h.onEdge rfl (by simp [hhalt]), h.seen⟩
    · simp [State.waiting, State.effect, hrsp, hbox, hcpu, Cpu.taken, Cpu.held]
    · simp [State.effect, h0, hrsp, hbox, Cpu.taken]
  | rspTake now =>
    simp only [Mailbox.step] at hs
    split at hs
    case h_2 => simp at hs
    next hrsp =>
    split at hs
    · obtain rfl := Option.some.inj hs
      exact h
    · obtain rfl := Option.some.inj hs
      have htaken : s.cpu.taken = [] := not_not.mp hgood
      have hcount := h.count
      have hord := h.order
      have hsplit := List.takeWhile_append_dropWhile (p := fun e : Ent => e.eff ≤ now) (l := s.box)
      have hlen := congrArg List.length hsplit
      rw [List.length_append] at hlen
      rw [hrsp, htaken] at hcount
      refine ⟨?_, ?_, .inr htaken, h.alone, ?_, h.onEdge, h.seen⟩
      · rw [InOrder, State.waiting, hrsp, htaken] at hord
        rw [InOrder, State.waiting, htaken]
        simp only [List.append_nil, List.nil_append] at hord ⊢
        rw [hsplit]
        exact hord
      · simp only [htaken, List.length_nil] at hcount ⊢
        omega
      · intro e he
        simpa using List.mem_takeWhile_imp he
  | rspApply =>
    simp only [Mailbox.step] at hs
    split at hs <;> simp only [Option.some.injEq, reduceCtorEq] at hs
    next e rest hrsp =>
    obtain rfl := hs
    have hcount := h.count
    rw [hrsp, List.length_cons] at hcount
    have htaken : s.cpu.taken = [] := by
      rcases h.one with h1 | h1
      · simp [hrsp] at h1
      · exact h1
    refine ⟨order_apply h.order ?_ rfl rfl, ?_, .inr htaken, ?_, ?_,
      edge_apply h.onEdge rfl (fun _ => h.due e (by simp [hrsp])), ?_⟩
    · simp [State.waiting, State.effect, hrsp]
    · show s.n - 1 = rest.length + s.cpu.taken.length + s.box.length
      omega
    · intro e' he'
      obtain ⟨h0, hh⟩ := h.alone e' he'
      exact ⟨by show s.n - 1 = 0; omega, hh⟩
    · intro e' he'
      exact h.due e' (by simp [hrsp, show e' ∈ rest from he'])
    · intro _
      exact h.seen (by omega)
  | retire =>
    simp only [Mailbox.step] at hs
    split at hs <;> simp at hs
    next hcpu =>
    obtain ⟨-, rfl⟩ := hs
    have hcount := h.count
    have hord := h.order
    simp only [InOrder, State.waiting, hcpu, Cpu.taken, Cpu.held] at hord hcount
    refine ⟨?_, ?_, .inr rfl, by simp, h.due, h.onEdge, h.seen⟩
    · simpa [InOrder, State.waiting, Cpu.taken, Cpu.held] using hord
    · simpa [Cpu.taken] using hcount
  | cpuTake =>
    simp only [Mailbox.step] at hs
    -- the loop of `dpcMbCpu` ends
    have hleave : ∀ now, s.cpu = .retiring now → MbInv s.leaveRetire := by
      intro now hcpu
      have hcount := h.count
      have hord := h.order
      simp only [InOrder, State.waiting, hcpu, Cpu.taken, Cpu.held] at hord hcount
      refine ⟨?_, ?_, .inr rfl, by simp [State.leaveRetire], h.due, h.onEdge, ?_⟩
      · simpa [InOrder, State.waiting, State.leaveRetire, Cpu.taken, Cpu.held] using hord
      · simpa [State.leaveRetire, Cpu.taken] using hcount
      · intro (hpos : 0 < s.n)
        show (if s.n = 0 then false else s.pend) = true
        rw [if_neg (by omega)]
        exact h.seen hpos
    split at hs
    · next now e rest hcpu hbox =>
      split at hs
      · obtain rfl := Option.some.inj hs
        have hrsp : s.rsp = [] := not_not.mp hgood
        have hcount := h.count
        have hord := h.order
        simp only [InOrder, State.waiting, hcpu, hbox, Cpu.taken, Cpu.held] at hord
        simp only [hcpu, hbox, Cpu.taken, List.length_cons, List.length_nil] at hcount
        refine ⟨?_, ?_, .inl hrsp, by simp, h.due, h.onEdge, h.seen⟩
        · simpa [InOrder, State.waiting, Cpu.taken, Cpu.held] using hord
        · simp only [Cpu.taken, List.length_singleton]
          omega
      · obtain rfl := Option.some.inj hs
        exact hleave now hcpu
    · next now hcpu _ =>
      obtain rfl := Option.some.inj hs
      exact hleave now hcpu
    · simp at hs
  | cpuApply =>
    simp only [Mailbox.step] at hs
    split at hs <;> simp only [Option.some.injEq, reduceCtorEq] at hs
    next now e hcpu =>
    obtain rfl := hs
    have hcount := h.count
    simp only [hcpu, Cpu.taken, List.length_singleton] at hcount
    have hrsp : s.rsp = [] := by
      rcases h.one with h1 | h1
      · exact h1
      · simp [hcpu, Cpu.taken] at h1
    refine ⟨order_apply h.order ?_ rfl rfl, ?_, .inr rfl, by simp, h.due,
      edge_apply h.onEdge rfl (fun _ => Nat.le_refl _), ?_⟩
    · simp [State.waiting, State.effect, hrsp, hcpu, Cpu.taken, Cpu.held]
    · show s.n - 1 = s.rsp.length + 0 + s.box.length
      omega
    · intro _
      exact h.seen (by omega)

/-- **The mailbox.** In every run in which no step overtakes: the writes made
    and those that wait are the CPU's program, in order and without a gap; with
    a task running none counts before its edge; with the CPU between two
    instructions and nothing counted in `dpcMbN`, every write has been made;
    and the CPU is told of what waits. -/
theorem mailbox_keeps_order {tr : List (State × Label)} {s : State} (hr : (mailbox l).Run tr s)
    (hgood : ∀ p ∈ tr, ¬ Overtakes p.1 p.2) :
    InOrder s ∧ OnEdge s ∧ (s.cpu = .idle → s.n = 0 → s.effects.length = s.issued) ∧
      (0 < s.n → s.pend = true) := by
  have h : MbInv s := hr.invariant_of MbInv (fun s a => ¬ Overtakes s a)
    (by rintro s rfl; exact .init) (fun _ _ _ _ hInv hg hs => hInv.step l hg hs) hgood
  refine ⟨h.order, h.onEdge, fun hidle h0 => ?_, h.seen⟩
  have hcount := h.count
  have hlen := congrArg List.length h.order
  rw [h0] at hcount
  simp only [State.waiting, hidle, Cpu.taken, Cpu.held, List.append_nil, List.length_append,
    List.length_map, List.length_range] at hlen
  omega

instance (s : State) (a : Label) : Decidable (Overtakes s a) := by
  cases a <;> unfold Overtakes <;> infer_instance

instance (s : State) : Decidable (InOrder s) := inferInstanceAs (Decidable (_ = _))

instance (s : State) : Decidable (OnEdge s) :=
  inferInstanceAs (Decidable (∀ x ∈ s.effects, x.running = true → x.ent.eff ≤ x.at'))

theorem exists_run (ls : List Label) (p : List (State × Label) × State → Bool)
    (h : (LTS.trace (step l) [] init ls).any p = true) :
    ∃ tr s, (mailbox l).Run tr s ∧ p (tr, s) = true :=
  LTS.System.exists_run (mailbox l) (fun _ _ _ h => h) rfl h

/-- A write while a task runs, one more after the task has ended, and the
    retirement that makes the second. -/
def quiet : List Label :=
  [.start, .tick 5, .cpuWrite 0x410000c 1, .post, .tick 16384, .rspTake 16400, .cpuWrite 0x410000c 2,
    .post, .rspApply, .taskEnd, .haltSeen, .tick 32768, .retire, .cpuTake, .cpuApply, .cpuTake]

theorem mailbox_keeps_order_quiet :
    ∃ tr s, (mailbox 14).Run tr s ∧ s.issued = 2 ∧ InOrder s ∧ s.effects.length = s.issued := by
  obtain ⟨tr, s, hr, hp⟩ := exists_run 14 quiet (fun r =>
    r.1.all (fun p => ¬ Overtakes p.1 p.2) && r.2.issued == 2 && r.2.n == 0 &&
      match r.2.cpu with | .idle => true | _ => false) (by decide +kernel)
  simp only [Bool.and_eq_true, List.all_eq_true, decide_eq_true_eq, beq_iff_eq] at hp
  obtain ⟨⟨⟨hgood, hissued⟩, h0⟩, hcpu⟩ := hp
  have hidle : s.cpu = .idle := by
    cases hc : s.cpu with
    | idle => rfl
    | _ => simp [hc] at hcpu
  obtain ⟨hord, -, hall, -⟩ := mailbox_keeps_order 14 hr hgood
  exact ⟨tr, s, hr, hissued, hord, hall hidle h0⟩

/-! ## Section 4: The two ways to overtake -/

/-- One task and 65 writes to DPC before the first edge. -/
def flood : List Label :=
  .start :: (List.replicate 65 [Label.cpuWrite 0x410000c 1, .post]).flatten ++ [.direct]

/-- The write that finds the mailbox full is made while the task runs, before
    its edge and before the 64 that were made to wait. -/
theorem full_mailbox_overtakes :
    ∃ tr s, (mailbox 14).Run tr s ∧ s.effects.map (·.ent.seq) = [64] ∧ ¬ InOrder s ∧
      ¬ OnEdge s := by
  obtain ⟨tr, s, hr, hp⟩ := exists_run 14 flood (fun r =>
    (r.2.effects.map (·.ent.seq) == [64]) && !decide (InOrder r.2) && !decide (OnEdge r.2))
    (by decide +kernel)
  simp only [Bool.and_eq_true, beq_iff_eq, Bool.not_eq_true', decide_eq_false_iff_not] at hp
  exact ⟨tr, s, hr, hp.1.1, hp.1.2, hp.2⟩

/-- The CPU halts the RSP between the two halves of `dpcMbRsp` and retires past
    the edge of a second write. -/
def halted : List Label :=
  [.start, .cpuWrite 0x410000c 1, .post, .tick 16384, .rspTake 16384, .setHalt,
    .cpuWrite 0x410000c 2, .post, .tick 32768, .retire, .cpuTake, .cpuApply, .rspApply]

/-- The mailbox is far from full, and the second write is made first. -/
theorem halted_task_overtakes :
    ∃ tr s, (mailbox 14).Run tr s ∧ s.effects.map (·.ent.seq) = [1, 0] := by
  obtain ⟨tr, s, hr, hp⟩ := exists_run 14 halted
    (fun r => r.2.effects.map (·.ent.seq) == [1, 0]) (by decide +kernel)
  exact ⟨tr, s, hr, by simpa using hp⟩

end Rcp.Mailbox
