import Mathlib.Data.Nat.Basic
import Mathlib.Algebra.Order.Floor.Div
import Mathlib.Tactic.Linarith
import Mathlib.Tactic.Ring

/-! # RCP: The Audio DAC

    `Memory::aiTick`, `aiNextEvent` and the writes to `AI_LEN` and
    `AI_DACRATE`. The DAC plays a queue of at most two buffers at a rate of
    so many bytes a second; every tick turns the guest time since the last
    one into bytes, carries the fraction of a byte in `aiAcc`, and pops the
    buffers that are done, with `MI_AI` for each.

    When it is looked at does not matter, as long as it is looked at when a
    buffer ends. What two runs have in common is the *credit* still missing,
    `playRemaining * den - aiAcc`, less what time alone has paid since the
    last tick; `Agree` says so, and all ticks before a deadline keep it.

    * `Ai.Wf.run` — the queue's own invariant, for every run.
    * `Agree.early`, `Agree.due` — a tick before the deadline, and at it.
    * `dac_schedule_independent` — two runs over the same writes.

    Instants are natural numbers, and an instant that never comes (`~0ull`)
    is `none`.
-/

namespace Rcp

/-! ## Section 1: The DAC -/

/-- What `System` fixes at power-on. -/
structure AiConfig where
  viFieldInsns : Nat
  viFieldHzMilli : Nat
  aiVidClock : Nat

/-- A DMA buffer: address and length. -/
structure AiBuf where
  addr : Nat
  len : Nat
  deriving DecidableEq, Repr

structure Ai where
  ai_dacrate : Nat
  ai_len : Nat
  ai_fifo0 : AiBuf
  ai_fifo1 : AiBuf
  ai_fifo_count : Nat
  ai_play_remaining : Nat
  aiLastRetired : Nat
  aiAcc : Nat
  aiNextAt : Option Nat
  deriving DecidableEq, Repr

def Ai.init : Ai :=
  { ai_dacrate := 0, ai_len := 0, ai_fifo0 := ⟨0, 0⟩, ai_fifo1 := ⟨0, 0⟩, ai_fifo_count := 0
    ai_play_remaining := 0, aiLastRetired := 0, aiAcc := 0, aiNextAt := none }

/-- Guest operations per second, times 1000. -/
def AiConfig.den (c : AiConfig) : Nat := c.viFieldInsns * c.viFieldHzMilli

/-- Bytes times 1000 per operation, times `den`. -/
def Ai.slope (c : AiConfig) (s : Ai) : Nat :=
  let rate := if s.ai_dacrate ≠ 0 then c.aiVidClock / (s.ai_dacrate + 1) else 32000
  rate * 4 * 1000

def Ai.aiNextEvent (c : AiConfig) (s : Ai) : Option Nat :=
  if s.ai_fifo_count = 0 then none
  else if c.den = 0 then none
  else
    let R := s.slope c
    if R = 0 then none
    else
      let need := s.ai_play_remaining * c.den
      if need ≤ s.aiAcc then some s.aiLastRetired
      else some (s.aiLastRetired + (need - s.aiAcc + R - 1) / R)

/-- The playing buffer is done: the other one starts, if there is one. -/
def Ai.pop (s : Ai) : Ai :=
  { s with
    ai_fifo0 := s.ai_fifo1
    ai_fifo_count := s.ai_fifo_count - 1
    ai_play_remaining := if s.ai_fifo_count - 1 ≠ 0 then s.ai_fifo1.len else 0 }

/-- The loop of `aiTick`, which pops a buffer each turn: the state and the
    buffers popped. -/
def Ai.drain : Nat → Nat → Ai → Ai × List AiBuf
  | 0, _, s => (s, [])
  | n + 1, bytes, s =>
    if bytes = 0 ∨ s.ai_fifo_count = 0 then (s, [])
    else if bytes < s.ai_play_remaining then
      ({ s with ai_play_remaining := s.ai_play_remaining - bytes }, [])
    else
      let r := Ai.drain n (bytes - s.ai_play_remaining) s.pop
      (r.1, s.ai_fifo0 :: r.2)

def Ai.aiTick (c : AiConfig) (s : Ai) (retiredNow : Nat) : Ai × List AiBuf :=
  let delta := retiredNow - s.aiLastRetired
  let s := { s with aiLastRetired := retiredNow }
  if s.ai_fifo_count = 0 then ({ s with aiAcc := 0, aiNextAt := none }, [])
  else
    -- a huge jump must not empty the queue at one go
    let delta := if c.viFieldInsns * 4 < delta then c.viFieldInsns * 4 else delta
    if c.den = 0 then ({ s with aiNextAt := none }, [])
    else
      let acc := s.aiAcc + delta * s.slope c
      let bytes := acc / c.den
      let r := Ai.drain s.ai_fifo_count bytes { s with aiAcc := acc - bytes * c.den }
      ({ r.1 with aiNextAt := r.1.aiNextEvent c }, r.2)

/-- A buffer joins the queue, if there is room. -/
def Ai.enqueue (c : AiConfig) (s : Ai) (dram v : Nat) : Ai :=
  let len := v % 0x40000
  let s : Ai := { s with ai_len := len }
  if len ≠ 0 ∧ s.ai_fifo_count < 2 then
    let s : Ai :=
      if s.ai_fifo_count = 0 then { s with ai_fifo0 := ⟨dram, len⟩, ai_play_remaining := len }
      else { s with ai_fifo1 := ⟨dram, len⟩ }
    let s : Ai := { s with ai_fifo_count := s.ai_fifo_count + 1 }
    { s with aiNextAt := s.aiNextEvent c }
  else s

def Ai.setDacrate (c : AiConfig) (s : Ai) (v : Nat) : Ai :=
  let s : Ai := { s with ai_dacrate := v % 0x4000 }
  { s with aiNextAt := s.aiNextEvent c }

/-- `AI_LEN`: the DAC catches up before the queue is touched. -/
def Ai.writeLen (c : AiConfig) (s : Ai) (now dram v : Nat) : Ai × List AiBuf :=
  let r := s.aiTick c now
  (r.1.enqueue c dram v, r.2)

/-- `AI_DACRATE` -/
def Ai.writeDacrate (c : AiConfig) (s : Ai) (now v : Nat) : Ai × List AiBuf :=
  let r := s.aiTick c now
  (r.1.setDacrate c v, r.2)

/-! ## Section 2: Runs -/

inductive AiWrite where
  | len (dram v : Nat)
  | dacrate (v : Nat)
  deriving DecidableEq, Repr

/-- What happens to the DAC at an instant: a tick, or a register write. -/
structure AiOp where
  now : Nat
  write : Option AiWrite
  deriving DecidableEq, Repr

def Ai.step (c : AiConfig) (s : Ai) (o : AiOp) : Ai × List AiBuf :=
  match o.write with
  | none => s.aiTick c o.now
  | some (.len dram v) => s.writeLen c o.now dram v
  | some (.dacrate v) => s.writeDacrate c o.now v

/-- A buffer that ended, with the instant of its `MI_AI`. -/
structure AiEnd where
  now : Nat
  buf : AiBuf
  deriving DecidableEq, Repr

/-- The state after a run, and the buffers it popped. -/
def Ai.run (c : AiConfig) : Ai → List AiOp → Ai × List AiEnd
  | s, [] => (s, [])
  | s, o :: os =>
    let r := s.step c o
    let rest := r.1.run c os
    (rest.1, r.2.map (⟨o.now, ·⟩) ++ rest.2)

/-- The instants a run was told to look at the DAC, and did. -/
def Ai.kept (c : AiConfig) : Ai → List AiOp → List Nat
  | _, [] => []
  | s, o :: os =>
    (if s.aiNextEvent c = some o.now then [o.now] else []) ++ (s.step c o).1.kept c os

/-- The register writes of a run. -/
def writes (os : List AiOp) : List AiOp := os.filter fun o => o.write.isSome

/-- The run ticks at every deadline up to `fin`, before any write at that
    instant, and leaves no gap over four fields. -/
def Ai.Timely (c : AiConfig) (fin : Nat) : Ai → List AiOp → Prop
  | s, [] => ∀ d ∈ s.aiNextEvent c, fin < d
  | s, o :: os =>
    s.aiLastRetired ≤ o.now ∧ o.now ≤ fin ∧ o.now - s.aiLastRetired ≤ c.viFieldInsns * 4 ∧
    (∀ d ∈ s.aiNextEvent c, o.now ≤ d) ∧ (o.write.isSome → ∀ d ∈ s.aiNextEvent c, o.now < d) ∧
    (s.step c o).1.Timely c fin os

instance Ai.decidableTimely (c : AiConfig) (fin : Nat) :
    (s : Ai) → (os : List AiOp) → Decidable (s.Timely c fin os)
  | s, [] => inferInstanceAs (Decidable (∀ d ∈ s.aiNextEvent c, fin < d))
  | s, o :: os =>
    have := Ai.decidableTimely c fin (s.step c o).1 os
    inferInstanceAs (Decidable (_ ∧ _ ∧ _ ∧ _ ∧ _ ∧ _))

/-! ## Section 3: The queue's invariant -/

/-- The queue: at most two buffers, and a remainder that belongs to the
    playing one. -/
structure Ai.Queue (s : Ai) : Prop where
  count_le : s.ai_fifo_count ≤ 2
  playing : s.ai_fifo_count ≠ 0 → 1 ≤ s.ai_play_remaining ∧ s.ai_play_remaining ≤ s.ai_fifo0.len
  waiting : s.ai_fifo_count = 2 → 1 ≤ s.ai_fifo1.len
  silent : s.ai_fifo_count = 0 → s.ai_play_remaining = 0

structure Ai.Wf (c : AiConfig) (s : Ai) : Prop where
  queue : s.Queue
  fraction : c.den ≠ 0 → s.aiAcc < c.den
  armed : s.aiNextAt = s.aiNextEvent c

theorem Ai.Queue.pop {s : Ai} (h : s.Queue) : s.pop.Queue := by
  have hle := h.count_le
  refine ⟨?_, ?_, ?_, ?_⟩
  · exact (Nat.sub_le _ _).trans hle
  · intro hne
    -- something is left, so there were two
    change s.ai_fifo_count - 1 ≠ 0 at hne
    have htwo : s.ai_fifo_count = 2 := by omega
    change 1 ≤ ite _ _ _ ∧ ite _ _ _ ≤ s.ai_fifo1.len
    rw [if_pos hne]
    exact ⟨h.waiting htwo, Nat.le_refl _⟩
  · intro htwo
    change s.ai_fifo_count - 1 = 2 at htwo
    omega
  · intro hzero
    exact if_neg (not_not.mpr hzero)

/-- What a drain leaves alone. -/
theorem Ai.drain_frame (n bytes : Nat) (s : Ai) :
    (Ai.drain n bytes s).1.aiAcc = s.aiAcc ∧
      (Ai.drain n bytes s).1.aiLastRetired = s.aiLastRetired := by
  induction n generalizing bytes s with
  | zero => exact ⟨rfl, rfl⟩
  | succ n ih =>
    unfold Ai.drain
    split_ifs
    · exact ⟨rfl, rfl⟩
    · exact ⟨rfl, rfl⟩
    · exact ih _ s.pop

theorem Ai.Queue.drain {s : Ai} (h : s.Queue) (n bytes : Nat) : (Ai.drain n bytes s).1.Queue := by
  induction n generalizing bytes s with
  | zero => exact h
  | succ n ih =>
    unfold Ai.drain
    split_ifs with hstop hpart
    · exact h
    · -- part of the playing buffer
      refine ⟨h.count_le, fun hne => ?_, h.waiting, fun hzero => absurd (.inr hzero) hstop⟩
      have := h.playing hne
      dsimp only
      omega
    · exact ih h.pop _

theorem Ai.Wf.init (c : AiConfig) : Ai.init.Wf c where
  queue := ⟨by decide, by decide, by decide, fun _ => rfl⟩
  fraction := fun h => Nat.pos_of_ne_zero h
  armed := rfl

/-- A tick of an empty queue. -/
theorem Ai.aiTick_silent (c : AiConfig) {s : Ai} (h : s.ai_fifo_count = 0) (now : Nat) :
    s.aiTick c now = ({ s with aiLastRetired := now, aiAcc := 0, aiNextAt := none }, []) := by
  unfold Ai.aiTick
  exact if_pos h

theorem Ai.aiTick_stopped (c : AiConfig) {s : Ai} (h : s.ai_fifo_count ≠ 0) (hden : c.den = 0)
    (now : Nat) :
    s.aiTick c now = ({ s with aiLastRetired := now, aiNextAt := none }, []) := by
  unfold Ai.aiTick
  dsimp only
  rw [if_neg h, if_pos hden]

/-- What a tick at `now` has to share out, in bytes times `den`. -/
def Ai.credit (c : AiConfig) (s : Ai) (now : Nat) : Nat :=
  s.aiAcc + min (now - s.aiLastRetired) (c.viFieldInsns * 4) * s.slope c

/-- The state a tick drains. -/
def Ai.seen (c : AiConfig) (s : Ai) (now : Nat) : Ai :=
  { s with aiLastRetired := now, aiAcc := s.credit c now % c.den }

theorem Ai.aiTick_playing (c : AiConfig) {s : Ai} (h : s.ai_fifo_count ≠ 0) (hden : c.den ≠ 0)
    (now : Nat) :
    s.aiTick c now =
      let r := Ai.drain s.ai_fifo_count (s.credit c now / c.den) (s.seen c now)
      ({ r.1 with aiNextAt := r.1.aiNextEvent c }, r.2) := by
  have hclamp : (if c.viFieldInsns * 4 < now - s.aiLastRetired then c.viFieldInsns * 4
      else now - s.aiLastRetired) = min (now - s.aiLastRetired) (c.viFieldInsns * 4) := by
    split_ifs <;> omega
  have hmod (x : Nat) : x - x / c.den * c.den = x % c.den := by
    rw [Nat.mul_comm]
    exact (Nat.mod_eq_sub_mul_div).symm
  unfold Ai.aiTick Ai.credit
  dsimp only
  rw [if_neg h, if_neg hden, hclamp, hmod]
  rfl

theorem Ai.Wf.aiTick {c : AiConfig} {s : Ai} (h : s.Wf c) (now : Nat) : (s.aiTick c now).1.Wf c := by
  have hq : (s.seen c now).Queue :=
    ⟨h.queue.count_le, h.queue.playing, h.queue.waiting, h.queue.silent⟩
  by_cases hzero : s.ai_fifo_count = 0
  · rw [Ai.aiTick_silent c hzero]
    exact ⟨⟨h.queue.count_le, h.queue.playing, h.queue.waiting, h.queue.silent⟩,
      fun hd => Nat.pos_of_ne_zero hd, (if_pos hzero).symm⟩
  by_cases hden : c.den = 0
  · rw [Ai.aiTick_stopped c hzero hden]
    refine ⟨⟨h.queue.count_le, h.queue.playing, h.queue.waiting, h.queue.silent⟩,
      fun hd => absurd hden hd, ?_⟩
    unfold Ai.aiNextEvent
    dsimp only
    rw [if_neg hzero, if_pos hden]
  · rw [Ai.aiTick_playing c hzero hden]
    have hd := hq.drain s.ai_fifo_count (s.credit c now / c.den)
    refine ⟨⟨hd.count_le, hd.playing, hd.waiting, hd.silent⟩, fun hd' => ?_, rfl⟩
    dsimp only
    rw [(Ai.drain_frame _ _ _).1]
    exact Nat.mod_lt _ (Nat.pos_of_ne_zero hd')

theorem Ai.Wf.enqueue {c : AiConfig} {s : Ai} (h : s.Wf c) (dram v : Nat) :
    (s.enqueue c dram v).Wf c := by
  unfold Ai.enqueue
  dsimp only
  split_ifs with hroom hzero
  · -- it starts playing now
    refine ⟨⟨?_, fun _ => ⟨Nat.pos_of_ne_zero hroom.1, Nat.le_refl _⟩, fun htwo => ?_, nofun⟩,
      h.fraction, rfl⟩
    · exact Nat.succ_le_of_lt hroom.2
    · change s.ai_fifo_count + 1 = 2 at htwo
      omega
  · exact ⟨⟨Nat.succ_le_of_lt hroom.2, fun _ => h.queue.playing hzero,
      fun _ => Nat.pos_of_ne_zero hroom.1, nofun⟩, h.fraction, rfl⟩
  · exact ⟨⟨h.queue.count_le, h.queue.playing, h.queue.waiting, h.queue.silent⟩,
      h.fraction, h.armed⟩

theorem Ai.Wf.setDacrate {c : AiConfig} {s : Ai} (h : s.Wf c) (v : Nat) :
    (s.setDacrate c v).Wf c :=
  ⟨⟨h.queue.count_le, h.queue.playing, h.queue.waiting, h.queue.silent⟩, h.fraction, rfl⟩

theorem Ai.Wf.step {c : AiConfig} {s : Ai} (h : s.Wf c) (o : AiOp) : (s.step c o).1.Wf c := by
  have ht := h.aiTick o.now
  unfold Ai.step
  split
  · exact ht
  · exact ht.enqueue _ _
  · exact ht.setDacrate _

theorem Ai.Wf.run {c : AiConfig} {s : Ai} (h : s.Wf c) (os : List AiOp) : (s.run c os).1.Wf c := by
  induction os generalizing s with
  | nil => exact h
  | cons o os ih => exact ih (h.step o)

/-! ## Section 4: Deadlines -/

/-- A fraction of a byte never covers a buffer. -/
theorem Ai.Wf.acc_lt {c : AiConfig} {s : Ai} (h : s.Wf c) (hne : s.ai_fifo_count ≠ 0)
    (hden : c.den ≠ 0) : s.aiAcc < s.ai_play_remaining * c.den :=
  (h.fraction hden).trans_le (Nat.le_mul_of_pos_left _ (h.queue.playing hne).1)

/-- The deadline of a playing buffer, from the credit that was missing at
    instant 0. -/
theorem Ai.Wf.aiNextEvent_eq {c : AiConfig} {s : Ai} (h : s.Wf c) (hne : s.ai_fifo_count ≠ 0)
    (hden : c.den ≠ 0) (hR : s.slope c ≠ 0) :
    s.aiNextEvent c =
      some ((s.ai_play_remaining * c.den - s.aiAcc + s.slope c * s.aiLastRetired + (s.slope c - 1)) /
        s.slope c) := by
  unfold Ai.aiNextEvent
  dsimp only
  rw [if_neg hne, if_neg hden, if_neg hR, if_neg (Nat.not_le.mpr (h.acc_lt hne hden))]
  congr 1
  rw [Nat.add_right_comm, Nat.add_mul_div_left _ _ (Nat.pos_of_ne_zero hR), Nat.add_comm,
    Nat.add_sub_assoc (Nat.pos_of_ne_zero hR)]

/-- A playing buffer is due at `now` once the credit covers it. -/
theorem Ai.Wf.due_iff {c : AiConfig} {s : Ai} (h : s.Wf c) (hne : s.ai_fifo_count ≠ 0)
    (hden : c.den ≠ 0) {now : Nat} (hle : s.aiLastRetired ≤ now)
    (hgap : now - s.aiLastRetired ≤ c.viFieldInsns * 4) :
    (∃ d ∈ s.aiNextEvent c, d ≤ now) ↔ s.ai_play_remaining * c.den ≤ s.credit c now := by
  have hlt := h.acc_lt hne hden
  unfold Ai.credit
  rw [Nat.min_eq_left hgap]
  by_cases hR : s.slope c = 0
  · -- the DAC stands still: no deadline, and no credit either
    have hnone : s.aiNextEvent c = none := by
      unfold Ai.aiNextEvent
      dsimp only
      rw [if_neg hne, if_neg hden, if_pos hR]
    rw [hnone, hR]
    simp only [Option.mem_def, reduceCtorEq, false_and, exists_false, Nat.mul_zero, Nat.add_zero,
      false_iff, Nat.not_le]
    exact hlt
  · rw [h.aiNextEvent_eq hne hden hR]
    simp only [Option.mem_def, Option.some.injEq, exists_eq_left']
    rw [Nat.div_le_iff_le_mul_add_pred (Nat.pos_of_ne_zero hR), Nat.add_le_add_iff_right,
      Nat.sub_mul, Nat.mul_comm now, Nat.mul_comm s.aiLastRetired]
    have := Nat.mul_le_mul_left (s.slope c) hle
    omega

/-! ## Section 5: Two runs -/

/-- Two states of the DAC that differ only in when they were last looked at.
    The credit still missing is the same once both are taken to one instant;
    an empty queue has none. -/
structure Agree (c : AiConfig) (s t : Ai) : Prop where
  dacrate : s.ai_dacrate = t.ai_dacrate
  len : s.ai_len = t.ai_len
  fifo0 : s.ai_fifo0 = t.ai_fifo0
  fifo1 : s.ai_fifo1 = t.ai_fifo1
  count : s.ai_fifo_count = t.ai_fifo_count
  missing : s.ai_fifo_count ≠ 0 → c.den ≠ 0 →
    s.ai_play_remaining * c.den + s.slope c * s.aiLastRetired + t.aiAcc =
      t.ai_play_remaining * c.den + s.slope c * t.aiLastRetired + s.aiAcc

variable {c : AiConfig} {s t : Ai}

theorem Agree.refl (c : AiConfig) (s : Ai) : Agree c s s := ⟨rfl, rfl, rfl, rfl, rfl, fun _ _ => rfl⟩

theorem Agree.symm (h : Agree c s t) : Agree c t s where
  dacrate := h.dacrate.symm
  len := h.len.symm
  fifo0 := h.fifo0.symm
  fifo1 := h.fifo1.symm
  count := h.count.symm
  missing := fun hne hden => by
    have := h.missing (h.count ▸ hne) hden
    unfold Ai.slope at *
    rw [← h.dacrate]
    exact this.symm

theorem Agree.slope (h : Agree c s t) : s.slope c = t.slope c := by
  unfold Ai.slope
  rw [h.dacrate]

theorem Agree.aiNextEvent (h : Agree c s t) (hs : s.Wf c) (ht : t.Wf c) :
    s.aiNextEvent c = t.aiNextEvent c := by
  by_cases hne : s.ai_fifo_count = 0
  · unfold Ai.aiNextEvent
    rw [if_pos hne, if_pos (h.count ▸ hne)]
  by_cases hden : c.den = 0
  · unfold Ai.aiNextEvent
    rw [if_pos hden, if_pos hden, h.count]
  have hne' : t.ai_fifo_count ≠ 0 := h.count ▸ hne
  by_cases hR : s.slope c = 0
  · unfold Ai.aiNextEvent
    dsimp only
    rw [if_neg hne, if_neg hden, if_pos hR, if_neg hne', if_neg hden, if_pos (h.slope ▸ hR)]
  · rw [hs.aiNextEvent_eq hne hden hR, ht.aiNextEvent_eq hne' hden (h.slope ▸ hR), ← h.slope]
    have hmiss := h.missing hne hden
    have hs' := hs.acc_lt hne hden
    have ht' := ht.acc_lt hne' hden
    congr 3
    omega

/-- A tick that does not come to the end of the playing buffer. -/
theorem Ai.drain_part {n bytes : Nat} (hn : n ≠ 0) (hne : s.ai_fifo_count ≠ 0)
    (hb : bytes < s.ai_play_remaining) :
    Ai.drain n bytes s = ({ s with ai_play_remaining := s.ai_play_remaining - bytes }, []) := by
  obtain ⟨n, rfl⟩ := Nat.exists_eq_succ_of_ne_zero hn
  unfold Ai.drain
  split_ifs with hstop
  · obtain rfl := hstop.resolve_right hne
    rfl
  · rfl

/-- A tick that does: the playing buffer goes, and the rest is shared out. -/
theorem Ai.drain_whole {n rem extra : Nat} (hn : n ≠ 0) (hne : s.ai_fifo_count ≠ 0)
    (hrem : s.ai_play_remaining = rem) (hpos : rem ≠ 0) :
    Ai.drain n (rem + extra) s =
      ((Ai.drain (n - 1) extra s.pop).1, s.ai_fifo0 :: (Ai.drain (n - 1) extra s.pop).2) := by
  obtain ⟨n, rfl⟩ := Nat.exists_eq_succ_of_ne_zero hn
  have hstop : ¬ (rem + extra = 0 ∨ s.ai_fifo_count = 0) := by omega
  have hpart : ¬ rem + extra < s.ai_play_remaining := by omega
  rw [Ai.drain, if_neg hstop, if_neg hpart, hrem, Nat.add_sub_cancel_left]
  rfl

/-- An instant at which the DAC can be looked at without missing anything,
    and before its next deadline. -/
structure Early (c : AiConfig) (s : Ai) (now : Nat) : Prop where
  le : s.aiLastRetired ≤ now
  gap : now - s.aiLastRetired ≤ c.viFieldInsns * 4
  early : ∀ d ∈ s.aiNextEvent c, now < d

theorem Early.not_due {now : Nat} (h : Early c s now) (hs : s.Wf c) (hne : s.ai_fifo_count ≠ 0)
    (hden : c.den ≠ 0) : s.credit c now / c.den < s.ai_play_remaining := by
  rw [Nat.div_lt_iff_lt_mul (Nat.pos_of_ne_zero hden), ← Nat.not_le, ← hs.due_iff hne hden h.le h.gap]
  rintro ⟨d, hd, hle⟩
  exact absurd (h.early d hd) (Nat.not_lt.mpr hle)

/-- What an early tick leaves. -/
theorem Early.aiTick_eq {now : Nat} (h : Early c s now) (hs : s.Wf c) :
    (s.aiTick c now).2 = [] ∧ Agree c (s.aiTick c now).1 s ∧
      (s.aiTick c now).1.aiLastRetired = now ∧
      (s.ai_fifo_count = 0 → (s.aiTick c now).1.aiAcc = 0) := by
  by_cases hne : s.ai_fifo_count = 0
  · rw [Ai.aiTick_silent c hne]
    exact ⟨rfl, ⟨rfl, rfl, rfl, rfl, rfl, fun h => absurd hne h⟩, rfl, fun _ => rfl⟩
  by_cases hden : c.den = 0
  · rw [Ai.aiTick_stopped c hne hden]
    exact ⟨rfl, ⟨rfl, rfl, rfl, rfl, rfl, fun _ h => absurd hden h⟩, rfl, fun h => absurd h hne⟩
  rw [Ai.aiTick_playing c hne hden]
  have hpart := h.not_due hs hne hden
  dsimp only
  rw [Ai.drain_part (s := s.seen c now) hne hne hpart]
  refine ⟨rfl, ⟨rfl, rfl, rfl, rfl, rfl, fun _ _ => ?_⟩, rfl, fun h => absurd h hne⟩
  -- what time has paid is what the remainder and the fraction have moved by
  change (s.ai_play_remaining - s.credit c now / c.den) * c.den + s.slope c * now + s.aiAcc =
    s.ai_play_remaining * c.den + s.slope c * s.aiLastRetired + s.credit c now % c.den
  have hsplit := Nat.div_add_mod' (s.credit c now) c.den
  have hle := Nat.mul_le_mul_right c.den hpart.le
  have hcredit : s.credit c now + s.slope c * s.aiLastRetired = s.aiAcc + s.slope c * now := by
    unfold Ai.credit
    rw [Nat.min_eq_left h.gap, Nat.sub_mul, Nat.mul_comm now, Nat.mul_comm s.aiLastRetired]
    have := Nat.mul_le_mul_left (s.slope c) h.le
    omega
  rw [Nat.sub_mul]
  omega

theorem Agree.early (h : Agree c s t) (hs : s.Wf c) {now : Nat} (he : Early c s now) :
    Agree c (s.aiTick c now).1 t := by
  obtain ⟨-, ha, hlast, -⟩ := he.aiTick_eq hs
  have hslope := ha.slope
  refine ⟨ha.dacrate.trans h.dacrate, ha.len.trans h.len, ha.fifo0.trans h.fifo0,
    ha.fifo1.trans h.fifo1, ha.count.trans h.count, fun hne hden => ?_⟩
  have h1 := ha.missing hne hden
  have h2 := h.missing (ha.count ▸ hne) hden
  rw [hslope] at h1 ⊢
  omega

/-- A tick that covers the playing buffer, with `extra` to spare. -/
theorem Ai.aiTick_whole (hs : s.Wf c) (hne : s.ai_fifo_count ≠ 0) (hden : c.den ≠ 0)
    {now extra : Nat} (h : s.credit c now = s.ai_play_remaining * c.den + extra) :
    s.aiTick c now =
      let r := Ai.drain (s.ai_fifo_count - 1) (extra / c.den)
        { s with aiLastRetired := now, aiAcc := extra % c.den }.pop
      ({ r.1 with aiNextAt := r.1.aiNextEvent c }, s.ai_fifo0 :: r.2) := by
  have hrem : s.ai_play_remaining ≠ 0 := Nat.ne_of_gt (hs.queue.playing hne).1
  have hseen : s.seen c now = { s with aiLastRetired := now, aiAcc := extra % c.den } := by
    unfold Ai.seen
    rw [h, Nat.mul_add_mod_self_right]
  have hbytes : s.credit c now / c.den = s.ai_play_remaining + extra / c.den := by
    rw [h, Nat.mul_comm, Nat.mul_add_div (Nat.pos_of_ne_zero hden)]
  have hplay : (s.seen c now).ai_play_remaining = s.ai_play_remaining := rfl
  rw [Ai.aiTick_playing c hne hden, hbytes,
    Ai.drain_whole (s := s.seen c now) hne hne hplay hrem, hseen]

/-- At a deadline the two states become one. -/
theorem Agree.due (h : Agree c s t) (hs : s.Wf c) (ht : t.Wf c) {now : Nat}
    (hles : s.aiLastRetired ≤ now) (hgaps : now - s.aiLastRetired ≤ c.viFieldInsns * 4)
    (hlet : t.aiLastRetired ≤ now) (hgapt : now - t.aiLastRetired ≤ c.viFieldInsns * 4)
    (hdue : s.aiNextEvent c = some now) :
    s.aiTick c now = t.aiTick c now ∧ (s.aiTick c now).2 ≠ [] := by
  have hnext := h.aiNextEvent hs ht
  have hne : s.ai_fifo_count ≠ 0 := by
    intro hzero
    unfold Ai.aiNextEvent at hdue
    rw [if_pos hzero] at hdue
    exact absurd hdue nofun
  have hden : c.den ≠ 0 := by
    intro hzero
    unfold Ai.aiNextEvent at hdue
    rw [if_neg hne, if_pos hzero] at hdue
    exact absurd hdue nofun
  have hne' : t.ai_fifo_count ≠ 0 := h.count ▸ hne
  have hcov := (hs.due_iff hne hden hles hgaps).mp ⟨now, hdue, Nat.le_refl _⟩
  have hcov' := (ht.due_iff hne' hden hlet hgapt).mp ⟨now, hnext ▸ hdue, Nat.le_refl _⟩
  -- both have the same credit left over
  obtain ⟨extra, hextra⟩ := Nat.exists_eq_add_of_le hcov
  have hextra' : t.credit c now = t.ai_play_remaining * c.den + extra := by
    have hmiss := h.missing hne hden
    have := Nat.mul_le_mul_left (s.slope c) hles
    have := Nat.mul_le_mul_left (s.slope c) hlet
    unfold Ai.credit at hextra hcov' ⊢
    rw [← h.slope] at hcov' ⊢
    rw [Nat.min_eq_left hgaps, Nat.sub_mul, Nat.mul_comm now, Nat.mul_comm s.aiLastRetired] at hextra
    rw [Nat.min_eq_left hgapt, Nat.sub_mul, Nat.mul_comm now, Nat.mul_comm t.aiLastRetired] at hcov' ⊢
    omega
  have hpop : Ai.pop { s with aiLastRetired := now, aiAcc := extra % c.den } =
      Ai.pop { t with aiLastRetired := now, aiAcc := extra % c.den } := by
    unfold Ai.pop
    dsimp only
    rw [h.dacrate, h.len, h.fifo1, h.count, hs.armed, ht.armed, hnext]
  rw [Ai.aiTick_whole hs hne hden hextra, Ai.aiTick_whole ht hne' hden hextra', hpop, h.count, h.fifo0]
  exact ⟨rfl, nofun⟩

/-- A write changes two agreeing states alike, once both have caught up. -/
theorem Agree.enqueue (h : Agree c s t) (hlast : s.aiLastRetired = t.aiLastRetired)
    (hacc : s.ai_fifo_count = 0 → s.aiAcc = t.aiAcc) (dram v : Nat) :
    Agree c (s.enqueue c dram v) (t.enqueue c dram v) := by
  unfold Ai.enqueue
  dsimp only
  rw [← h.count]
  split_ifs with hroom hzero
  · refine ⟨h.dacrate, rfl, rfl, h.fifo1, rfl, fun _ _ => ?_⟩
    change _ * _ + _ * s.aiLastRetired + t.aiAcc = _ * _ + _ * t.aiLastRetired + s.aiAcc
    rw [hlast, hacc hzero]
  · exact ⟨h.dacrate, rfl, h.fifo0, rfl, rfl, fun _ => h.missing hzero⟩
  · exact ⟨h.dacrate, rfl, h.fifo0, h.fifo1, rfl, h.missing⟩

theorem Agree.setDacrate (h : Agree c s t) (hlast : s.aiLastRetired = t.aiLastRetired) (v : Nat) :
    Agree c (s.setDacrate c v) (t.setDacrate c v) := by
  refine ⟨rfl, h.len, h.fifo0, h.fifo1, h.count, fun hne hden => ?_⟩
  have hmiss := h.missing hne hden
  change s.ai_play_remaining * c.den + _ * s.aiLastRetired + t.aiAcc =
    t.ai_play_remaining * c.den + _ * t.aiLastRetired + s.aiAcc
  rw [hlast] at hmiss ⊢
  omega

/-- The same write to two agreeing states, before a deadline of either. -/
theorem Agree.write (h : Agree c s t) (hs : s.Wf c) (ht : t.Wf c) {o : AiOp} (hw : o.write.isSome)
    (hes : Early c s o.now) (het : Early c t o.now) :
    (s.step c o).2 = [] ∧ (t.step c o).2 = [] ∧ Agree c (s.step c o).1 (t.step c o).1 := by
  obtain ⟨hps, has, hls, hzs⟩ := hes.aiTick_eq hs
  obtain ⟨hpt, hat, hlt, hzt⟩ := het.aiTick_eq ht
  have hboth : Agree c (s.aiTick c o.now).1 (t.aiTick c o.now).1 :=
    ((h.early hs hes).symm.early ht het).symm
  have hlast := hls.trans hlt.symm
  unfold Ai.step
  split
  · next hnone => exact absurd hw (by rw [hnone]; decide)
  · refine ⟨hps, hpt, hboth.enqueue hlast (fun hzero => ?_) _ _⟩
    have hcount : s.ai_fifo_count = 0 := has.count ▸ hzero
    rw [hzs hcount, hzt (h.count ▸ hcount)]
  · exact ⟨hps, hpt, hboth.setDacrate hlast _⟩

/-- One look of a timely run: early, or a tick at the deadline. -/
theorem Ai.Timely.head {fin : Nat} {o : AiOp} {os : List AiOp} (h : s.Timely c fin (o :: os)) :
    Early c s o.now ∨ (o.write = none ∧ s.aiNextEvent c = some o.now) := by
  obtain ⟨hle, -, hgap, hnext, hwrite, -⟩ := h
  by_cases hdue : s.aiNextEvent c = some o.now
  · right
    refine ⟨Option.not_isSome_iff_eq_none.mp fun hw => ?_, hdue⟩
    exact absurd (hwrite hw _ hdue) (Nat.lt_irrefl _)
  · left
    refine ⟨hle, hgap, fun d hd => lt_of_le_of_ne (hnext d hd) ?_⟩
    rintro rfl
    exact hdue hd

theorem Ai.step_tick {o : AiOp} (h : o.write = none) : s.step c o = s.aiTick c o.now := by
  unfold Ai.step
  rw [h]

theorem writes_tick {o : AiOp} (h : o.write = none) (os : List AiOp) :
    writes (o :: os) = writes os :=
  List.filter_cons_of_neg (by rw [h]; decide)

theorem writes_write {o : AiOp} (h : o.write.isSome) (os : List AiOp) :
    writes (o :: os) = o :: writes os :=
  List.filter_cons_of_pos h

theorem Ai.aiTick_last (now : Nat) : (s.aiTick c now).1.aiLastRetired = now := by
  by_cases hne : s.ai_fifo_count = 0
  · rw [Ai.aiTick_silent c hne]
  by_cases hden : c.den = 0
  · rw [Ai.aiTick_stopped c hne hden]
  · rw [Ai.aiTick_playing c hne hden]
    exact (Ai.drain_frame _ _ _).2

theorem Ai.enqueue_last (dram v : Nat) :
    (s.enqueue c dram v).aiLastRetired = s.aiLastRetired := by
  unfold Ai.enqueue
  dsimp only
  split_ifs <;> rfl

theorem Ai.step_last (o : AiOp) : (s.step c o).1.aiLastRetired = o.now := by
  unfold Ai.step
  split
  · exact Ai.aiTick_last o.now
  · exact (Ai.enqueue_last _ _).trans (Ai.aiTick_last o.now)
  · exact Ai.aiTick_last o.now

theorem Ai.Timely.mem_ge {fin : Nat} {os : List AiOp} (h : s.Timely c fin os) {o : AiOp}
    (ho : o ∈ os) : s.aiLastRetired ≤ o.now := by
  induction os generalizing s with
  | nil => exact absurd ho List.not_mem_nil
  | cons p os ih =>
    obtain ⟨hle, -, -, -, -, hrest⟩ := h
    obtain rfl | ho := List.mem_cons.mp ho
    · exact hle
    · exact hle.trans (Ai.step_last (s := s) (c := c) p ▸ ih hrest ho)

/-- A run that comes to a write while the other one comes to a deadline: the
    deadline was before the write, so the first run has missed it. -/
theorem Agree.no_cross (h : Agree c s t) (hs : s.Wf c) (ht : t.Wf c) {fin : Nat} {o p : AiOp}
    {os ps : List AiOp} (hes : Early c s o.now) (how : o.write.isSome)
    (hps : t.Timely c fin (p :: ps)) (hpt : p.write = none) (hdue : t.aiNextEvent c = some p.now)
    (hw : writes (o :: os) = writes (p :: ps)) : False := by
  rw [writes_write how, writes_tick hpt] at hw
  have hmem : o ∈ ps := List.mem_of_mem_filter (hw ▸ List.mem_cons_self)
  have hge := Ai.Timely.mem_ge hps.2.2.2.2.2 hmem
  rw [Ai.step_last] at hge
  exact absurd (hes.early _ (h.aiNextEvent hs ht ▸ hdue)) (Nat.not_lt.mpr hge)

/-- A run that is over has no deadline left that the other could tick at. -/
theorem Agree.no_end (h : Agree c s t) (hs : s.Wf c) (ht : t.Wf c) {fin : Nat} {p : AiOp}
    {ps : List AiOp} (hos : s.Timely c fin []) (hps : t.Timely c fin (p :: ps))
    (hdue : t.aiNextEvent c = some p.now) : False :=
  absurd (hos p.now (h.aiNextEvent hs ht ▸ hdue)) (Nat.not_lt.mpr hps.2.1)

/-- A look that changes nothing: an early tick. -/
def Idle (c : AiConfig) (s : Ai) (o : AiOp) : Prop := o.write = none ∧ Early c s o.now

theorem Ai.Timely.cases {fin : Nat} {o : AiOp} {os : List AiOp} (h : s.Timely c fin (o :: os)) :
    Idle c s o ∨ (o.write.isSome ∧ Early c s o.now) ∨
      (o.write = none ∧ s.aiNextEvent c = some o.now) := by
  obtain he | hd := h.head
  · cases hw : o.write with
    | none => exact .inl ⟨hw, he⟩
    | some w => exact .inr (.inl ⟨rfl, he⟩)
  · exact .inr (.inr hd)

theorem Idle.run_cons {o : AiOp} (h : Idle c s o) (hs : s.Wf c) (os : List AiOp) :
    (s.run c (o :: os)).2 = ((s.step c o).1.run c os).2 := by
  rw [Ai.run, Ai.step_tick h.1, (h.2.aiTick_eq hs).1]
  rfl

theorem Agree.idle (h : Agree c s t) (hs : s.Wf c) {o : AiOp} (hi : Idle c s o) :
    Agree c (s.step c o).1 t := by
  rw [Ai.step_tick hi.1]
  exact h.early hs hi.2

theorem Agree.run_eq {fin : Nat} (n : Nat) {os ps : List AiOp} (hn : os.length + ps.length ≤ n)
    (h : Agree c s t) (hs : s.Wf c) (ht : t.Wf c) (hos : s.Timely c fin os)
    (hps : t.Timely c fin ps) (hw : writes os = writes ps) :
    (s.run c os).2 = (t.run c ps).2 := by
  induction n generalizing s t os ps with
  | zero =>
    obtain rfl : os = [] := List.eq_nil_of_length_eq_zero (by omega)
    obtain rfl : ps = [] := List.eq_nil_of_length_eq_zero (by omega)
    rfl
  | succ n ih =>
    cases os with
    | nil =>
      cases ps with
      | nil => rfl
      | cons p ps =>
        simp only [List.length_cons] at hn
        obtain hi | ⟨hpw, -⟩ | ⟨hpt, hdue⟩ := hps.cases
        · rw [writes_tick hi.1] at hw
          rw [hi.run_cons ht]
          exact ih (by omega) (h.symm.idle ht hi).symm hs (ht.step p) hos hps.2.2.2.2.2 hw
        · rw [writes_write hpw] at hw
          exact absurd hw nofun
        · exact (h.no_end hs ht hos hps hdue).elim
    | cons o os =>
      simp only [List.length_cons] at hn
      obtain hi | ho := hos.cases
      · rw [writes_tick hi.1] at hw
        rw [hi.run_cons hs]
        exact ih (by omega) (h.idle hs hi) (hs.step o) ht hos.2.2.2.2.2 hps hw
      cases ps with
      | nil =>
        obtain ⟨how, -⟩ | ⟨-, hdue⟩ := ho
        · rw [writes_write how] at hw
          exact absurd hw nofun
        · exact (h.symm.no_end ht hs hps hos hdue).elim
      | cons p ps =>
        simp only [List.length_cons] at hn
        obtain hi | hp := hps.cases
        · rw [writes_tick hi.1] at hw
          rw [hi.run_cons ht]
          exact ih (by simp only [List.length_cons]; omega) (h.symm.idle ht hi).symm hs (ht.step p) hos
            hps.2.2.2.2.2 hw
        obtain ⟨how, hes⟩ | ⟨hot, hdues⟩ := ho
        · obtain ⟨hpw, het⟩ | ⟨hpt, hdue⟩ := hp
          · -- both runs make their next write
            rw [writes_write how, writes_write hpw] at hw
            obtain ⟨rfl, hrest⟩ := List.cons.inj hw
            obtain ⟨hpops, hpopt, ha⟩ := h.write hs ht how hes het
            rw [Ai.run, Ai.run, hpops, hpopt]
            exact ih (by omega) ha (hs.step o) (ht.step o) hos.2.2.2.2.2 hps.2.2.2.2.2 hrest
          · exact (h.no_cross hs ht hes how hps hpt hdue hw).elim
        · obtain ⟨hpw, het⟩ | ⟨hpt, hduet⟩ := hp
          · exact (h.symm.no_cross ht hs het hpw hos hot hdues hw.symm).elim
          · -- both runs tick at the deadline
            have hnow : o.now = p.now :=
              Option.some.inj (hdues.symm.trans ((h.aiNextEvent hs ht).trans hduet))
            rw [writes_tick hot, writes_tick hpt] at hw
            have heq := (h.due hs ht hos.1 hos.2.2.1 (hnow ▸ hps.1) (hnow ▸ hps.2.2.1) hdues).1
            rw [← Ai.step_tick hot, hnow, ← Ai.step_tick hpt] at heq
            have hos' := hos.2.2.2.2.2
            rw [heq] at hos'
            rw [Ai.run, Ai.run, heq, hnow]
            dsimp only
            rw [ih (by omega) (Agree.refl c _) (ht.step p) (ht.step p) hos' hps.2.2.2.2.2 hw]

/-- A timely run pops at deadlines, and only there. -/
theorem Ai.Timely.step_pops {fin : Nat} {o : AiOp} {os : List AiOp} (h : s.Timely c fin (o :: os))
    (hs : s.Wf c) : (s.step c o).2 ≠ [] ↔ s.aiNextEvent c = some o.now := by
  obtain ⟨hnone, he⟩ | ⟨hw, he⟩ | ⟨hnone, hdue⟩ := h.cases
  · rw [Ai.step_tick hnone, (he.aiTick_eq hs).1]
    exact ⟨fun hne => absurd rfl hne, fun hd => absurd (he.early _ hd) (Nat.lt_irrefl _)⟩
  · rw [((Agree.refl c s).write hs hs hw he he).1]
    exact ⟨fun hne => absurd rfl hne, fun hd => absurd (he.early _ hd) (Nat.lt_irrefl _)⟩
  · rw [Ai.step_tick hnone]
    exact ⟨fun _ => hdue,
      fun _ => ((Agree.refl c s).due hs hs h.1 h.2.2.1 h.1 h.2.2.1 hdue).2⟩

theorem Ai.Timely.ends_iff {fin : Nat} {os : List AiOp} (h : s.Timely c fin os) (hs : s.Wf c)
    (d : Nat) : (∃ e ∈ (s.run c os).2, e.now = d) ↔ d ∈ s.kept c os := by
  induction os generalizing s with
  | nil => simp [Ai.run, Ai.kept]
  | cons o os ih =>
    have hpops := h.step_pops hs
    have hrest := ih h.2.2.2.2.2 (hs.step o)
    rw [Ai.run, Ai.kept]
    simp only [List.mem_append, List.mem_map, or_and_right, exists_or]
    rw [hrest]
    refine or_congr ?_ Iff.rfl
    constructor
    · rintro ⟨_, ⟨b, hb, rfl⟩, rfl⟩
      rw [if_pos (hpops.mp (List.ne_nil_of_mem hb))]
      exact List.mem_singleton_self _
    · intro hd
      split_ifs at hd with hdue
      · obtain rfl := List.mem_singleton.mp hd
        obtain ⟨b, hb⟩ := List.exists_mem_of_ne_nil _ (hpops.mpr hdue)
        exact ⟨_, ⟨b, hb, rfl⟩, rfl⟩
      · exact absurd hd List.not_mem_nil

/-- When the DAC is looked at does not matter: two timely runs over the same
    register writes pop the same buffers, with `MI_AI` at the same instants,
    which are the deadlines announced. And in every run whatever, the queue
    keeps its invariant. -/
theorem dac_schedule_independent (c : AiConfig) (fin : Nat) (os ps : List AiOp)
    (hos : Ai.init.Timely c fin os) (hps : Ai.init.Timely c fin ps) (hw : writes os = writes ps) :
    (Ai.init.run c os).2 = (Ai.init.run c ps).2 ∧
    (∀ d, (∃ e ∈ (Ai.init.run c os).2, e.now = d) ↔ d ∈ Ai.init.kept c os) ∧
    ∀ qs, let s := (Ai.init.run c qs).1
      s.ai_fifo_count ≤ 2 ∧
      (s.ai_fifo_count ≠ 0 → 1 ≤ s.ai_play_remaining ∧ s.ai_play_remaining ≤ s.ai_fifo0.len) ∧
      (s.ai_fifo_count = 0 → s.ai_play_remaining = 0) := by
  have hinit := Ai.Wf.init c
  refine ⟨?_, hos.ends_iff hinit, fun qs => ?_⟩
  · exact (Agree.refl c _).run_eq _ (Nat.le_refl _) hinit hinit hos hps hw
  · have hq := (hinit.run qs).queue
    exact ⟨hq.count_le, hq.playing, hq.silent⟩

def sampleConfig : AiConfig :=
  { viFieldInsns := 1000, viFieldHzMilli := 60000, aiVidClock := 48681812 }

/-- Eight bytes queued at 10 and looked at again when they end. -/
def sparseLooks : List AiOp := [⟨10, some (.len 0 8)⟩, ⟨14, none⟩]

def denseLooks : List AiOp :=
  [⟨5, none⟩, ⟨10, some (.len 0 8)⟩, ⟨11, none⟩, ⟨13, none⟩, ⟨14, none⟩]

theorem dac_schedule_sample :
    (Ai.init.run sampleConfig sparseLooks).2 = (Ai.init.run sampleConfig denseLooks).2 ∧
      (Ai.init.run sampleConfig sparseLooks).2 = [⟨14, ⟨0, 8⟩⟩] :=
  ⟨(dac_schedule_independent sampleConfig 14 sparseLooks denseLooks (by decide) (by decide)
    (by decide)).1, by decide⟩

end Rcp
