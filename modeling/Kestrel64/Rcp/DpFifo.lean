import Kestrel64.Lib.Units
import Kestrel64.Rcp.DpCost

/-! # RCP: The Commands of the RDP, from DPC_END to the Rasteriser

    A write to `DPC_END` gives the RDP the commands up to it. They are copied
    there and then (`rdpSnapshot`), walked by the cost decoder
    (`dpScheduleSpan`) and put in a queue, as a span of their own or as the end
    of the one before (`rdpSubmit`). The worker takes the spans out and draws
    them, some time later. A command may begin in one span and end in the next:
    both decoders stop before it and resume there.

    A buffer that `DPC_START` begins has its commands copied elsewhere, to one
    of eight generations of the shadow that has no span left to be drawn.

    A label is what the thread that writes the registers does under the mutex,
    a command of the worker, or a change of RDRAM by anyone. The commands that
    have been given are those of each buffer, cut from its first word on, with
    the words that RDRAM had at the write of `DPC_END`. The worker draws these,
    in order and each once (`draws_what_is_given`), whatever is written to the
    buffer in the meantime, as long as

    * `DPC_END` does not go back within a buffer;
    * a buffer has fewer words than one round of the decoders takes commands;
    * a buffer does not begin where the last one ended in the middle of a command.

    Commands are read from RDRAM, and drawn by the decoder of `SoftRdp`. The
    commands of a span are those that the walk of `DpCost` takes (`walk_eq`).
-/

namespace Rcp.Fifo

open Units

/-! ## Section 1: Decoding -/

/-- The words of a command. -/
abbrev Command := List (BitVec 64)

/-- How many words a command has, by its first. -/
def cmdWords (cmd : BitVec 64) : Nat :=
  let op := cmd.toNat / 2 ^ 56 % 64
  if 0x08 ≤ op ∧ op ≤ 0x0f then triWords op
  else if op = 0x24 ∨ op = 0x25 then 2
  else 1

/-- The command at `cur`, unless the end of the span cuts it. -/
def nextCmd (fetch : Nat → BitVec 64) (stop cur : Nat) : Option Command :=
  if stop ≤ cur then none
  else
    let n := cmdWords (fetch cur)
    if 1 < n ∧ stop < cur + n * 8 then none
    else some ((List.range n).map fun i => fetch (cur + 8 * i))

/-- The loop of `run`: the commands, and `stopAt`. -/
def decode (fetch : Nat → BitVec 64) (stop : Nat) : Nat → Nat → List Command × Nat
  | 0, cur => ([], cur)
  | guard + 1, cur =>
    match nextCmd fetch stop cur with
    | none => ([], cur)
    | some ws =>
      let r := decode fetch stop guard (cur + 8 * ws.length)
      (ws :: r.1, r.2)

/-- The limit of `guard`. -/
def maxCmds : Nat := 200000

/-- Where a decoder stands between two spans: the place of a command that was
    cut, and the end of the last span. -/
structure Resume where
  resume : Option Nat
  lastEnd : Nat
  deriving DecidableEq

/-- Where a span is begun. -/
def Resume.start (r : Resume) (current : Nat) : Nat :=
  match r.resume with
  | some a => if current = r.lastEnd then a else current
  | none => current

def Resume.after (stopAt stop : Nat) : Resume := ⟨if stopAt = stop then none else some stopAt, stop⟩

/-- A span decoded at once. -/
def runSpan (fetch : Nat → BitVec 64) (r : Resume) (current stop : Nat) : List Command × Resume :=
  let d := decode fetch stop maxCmds (r.start current)
  (d.1, .after d.2 stop)

/-- `rdpCostPass`, with the pointers that `dpScheduleSpan` keeps for it. -/
def costSpan (fetch : Nat → BitVec 64) (r : Resume) (current stop : Nat) : List Command × Resume :=
  if stop = r.start current then ([], ⟨none, stop⟩) else runSpan fetch r current stop

/-! ## Section 2: Model -/

/-- `RdpJob` -/
structure Job where
  current : Nat
  stop : Nat
  gen : Nat
  deriving DecidableEq

/-- The worker in the middle of a span. -/
structure Active where
  cur : Nat
  stop : Nat
  gen : Nat
  guard : Nat

def rdpGenCount : Nat := 8

structure State where
  rdram : Nat → BitVec 8
  /-- The copies of RDRAM, by generation. -/
  rdpShadow : Nat → Nat → BitVec 8
  rdpGen : Nat
  /-- The spans of a generation not drawn yet. -/
  rdpGenBusy : Nat → Nat
  rdpQueue : List Job
  worker : Option Active
  /-- The pointers of the two decoders. -/
  draw : Resume
  cost : Resume
  dpc_start : Nat
  dpc_end : Nat
  dpc_submitted : Nat
  /-- START_VALID and FREEZE of `DPC_STATUS`. -/
  startValid : Bool
  frozen : Bool
  /-- A write of `DPC_END` waits for the queue (`rdpDrain`). -/
  draining : Bool
  /-- The commands charged, and those drawn. -/
  costed : List Command
  drawn : List Command
  /-- The words given: the buffers before this one, and this one so far. -/
  buffers : List (List (BitVec 64))
  words : List (BitVec 64)

inductive Label where
  /-- A byte of RDRAM changes. -/
  | poke (a : Nat) (v : BitVec 8)
  | dpcStart (v : BitVec 32)
  | dpcEnd (v : BitVec 32)
  /-- The queue is empty, and the write of `DPC_END` goes on. -/
  | drained
  | freeze
  | unfreeze
  /-- The worker takes a span out of the queue. -/
  | take
  /-- It draws a command. -/
  | draw
  /-- It is done with the span. -/
  | finish

/-- `v & 0xfffff8` -/
def dpcAddr (v : BitVec 32) : Nat := v.toNat % 2 ^ 24 / 8 * 8

section Step

variable (size : Nat)

/-- Words of RDRAM, or of a copy of it. -/
def fetchFrom (bytes : Nat → BitVec 8) : Nat → BitVec 64 :=
  CmdSource.fetch ⟨bytes, size, fun _ => 0⟩ false

def State.fetch (s : State) (gen : Nat) : Nat → BitVec 64 := fetchFrom size (s.rdpShadow gen)

/-- The lowest generation with no span left to be drawn. -/
def State.freeGen (s : State) : Option Nat :=
  (List.range rdpGenCount).find? fun g => g != s.rdpGen && s.rdpGenBusy g == 0

def State.rdpSnapshot (s : State) (current stop : Nat) : State :=
  { s with
    rdpShadow := fun g a =>
      if g = s.rdpGen ∧ current ≤ a ∧ a < min stop size then s.rdram a else s.rdpShadow g a }

def State.dpScheduleSpan (s : State) (current stop : Nat) : State :=
  let r := costSpan (s.fetch size s.rdpGen) s.cost current stop
  { s with costed := s.costed ++ r.1, cost := r.2 }

/-- The queue: a span goes on where the last one ends, or stands for itself. -/
def State.enqueue (s : State) (current stop : Nat) : State :=
  match s.rdpQueue.getLast? with
  | some j =>
    if j.stop = current ∧ j.gen = s.rdpGen then
      { s with rdpQueue := s.rdpQueue.dropLast ++ [{ j with stop := stop }] }
    else
      { s with
        rdpQueue := s.rdpQueue ++ [⟨current, stop, s.rdpGen⟩]
        rdpGenBusy := Function.update s.rdpGenBusy s.rdpGen (s.rdpGenBusy s.rdpGen + 1) }
  | none =>
    { s with
      rdpQueue := [⟨current, stop, s.rdpGen⟩]
      rdpGenBusy := Function.update s.rdpGenBusy s.rdpGen (s.rdpGenBusy s.rdpGen + 1) }

def State.rdpSubmit (s : State) (current stop : Nat) : State :=
  (((s.rdpSnapshot size current stop).dpScheduleSpan size current stop).enqueue current stop)

def State.dpcAdvance (s : State) : State :=
  if s.frozen then s
  else
    { s.rdpSubmit size s.dpc_submitted s.dpc_end with
      dpc_submitted := s.dpc_end
      words := s.words ++ span (fetchFrom size s.rdram) s.dpc_submitted s.dpc_end }

/-- A fresh START: another generation, and another buffer. -/
def State.reload (s : State) (gen : Nat) : State :=
  { s with
    rdpGen := gen
    dpc_submitted := s.dpc_start
    startValid := false
    buffers := s.buffers ++ [s.words]
    words := [] }

def step (s : State) : Label → Option State
  | .poke a v => some { s with rdram := Function.update s.rdram a v }
  | .dpcStart v =>
    if s.draining then none
    else if s.startValid then some s
    else some { s with dpc_start := dpcAddr v, startValid := true }
  | .dpcEnd v =>
    if s.draining then none
    else
      let s := { s with dpc_end := dpcAddr v }
      if s.startValid then
        match s.freeGen with
        | some g => some ((s.reload g).dpcAdvance size)
        | none => some { s with draining := true }
      else some (s.dpcAdvance size)
  | .drained =>
    if s.draining && s.rdpQueue.isEmpty && s.worker.isNone then
      some (({ s with draining := false }.reload ((s.rdpGen + 1) % rdpGenCount)).dpcAdvance size)
    else none
  | .freeze => if s.draining then none else some { s with frozen := true }
  | .unfreeze =>
    if s.draining then none
    else
      let s := { s with frozen := false }
      if s.dpc_submitted = s.dpc_end then some s else some (s.dpcAdvance size)
  | .take =>
    match s.worker, s.rdpQueue with
    | none, j :: js =>
      some { s with
        rdpQueue := js
        worker := some ⟨s.draw.start j.current, j.stop, j.gen, maxCmds⟩
        draw := ⟨none, j.stop⟩ }
    | _, _ => none
  | .draw =>
    match s.worker with
    | some ⟨cur, stop, gen, guard + 1⟩ =>
      (nextCmd (s.fetch size gen) stop cur).map fun ws =>
        { s with
          drawn := s.drawn ++ [ws]
          worker := some ⟨cur + 8 * ws.length, stop, gen, guard⟩ }
    | _ => none
  | .finish =>
    match s.worker with
    | some ⟨cur, stop, gen, guard⟩ =>
      if guard = 0 ∨ nextCmd (s.fetch size gen) stop cur = none then
        some { s with
          worker := none
          draw := .after cur stop
          rdpGenBusy := Function.update s.rdpGenBusy gen (s.rdpGenBusy gen - 1) }
      else none
    | none => none

/-- Power-on, with anything in RDRAM. -/
structure Init (s : State) : Prop where
  rdpGen : s.rdpGen = 0
  busy : ∀ g, s.rdpGenBusy g = 0
  queue : s.rdpQueue = []
  worker : s.worker = none
  draw : s.draw = ⟨none, 0⟩
  cost : s.cost = ⟨none, 0⟩
  submitted : s.dpc_submitted = 0
  start : s.dpc_start = 0
  stop : s.dpc_end = 0
  draining : s.draining = false
  costed : s.costed = []
  drawn : s.drawn = []
  buffers : s.buffers = []
  words : s.words = []

def fifo : LTS.System State Label where
  init := Init
  step := fun s l s' => step size s l = some s'

end Step

/-! ## Section 3: What is given -/

/-- The commands of a buffer. -/
def commands (ws : List (BitVec 64)) : List Command := (cut cmdWords ws.length ws).1

def State.given (s : State) : List Command :=
  s.buffers.flatMap commands ++ commands s.words

/-- Where the buffer of the next END begins to be given, and how many of its
    words have been. -/
def State.from (s : State) : Nat := if s.startValid then s.dpc_start else s.dpc_submitted

def State.kept (s : State) : Nat := if s.startValid then 0 else s.words.length

/-- The span does not go back, and its buffer stays short. -/
def Room (kept lo hi : Nat) : Prop := lo ≤ hi ∧ kept + (hi - lo) / 8 + 22 ≤ maxCmds

/-- A fresh START does not go on with a command that was cut. -/
def State.Fresh (s : State) : Prop :=
  s.startValid = true → s.cost.resume ≠ none → s.dpc_start ≠ s.cost.lastEnd

/-- How the registers are used. -/
def Orderly (s : State) : Label → Prop
  | .dpcEnd v => s.Fresh ∧ (s.frozen = false → Room s.kept s.from (dpcAddr v))
  | .drained => s.Fresh ∧ (s.frozen = false → Room s.kept s.from s.dpc_end)
  | .unfreeze => s.dpc_submitted ≠ s.dpc_end → Room s.words.length s.dpc_submitted s.dpc_end
  | _ => True

/-! ## Section 4: Decoding a list -/

theorem cmdWords_pos (cmd : BitVec 64) : 0 < cmdWords cmd := by
  unfold cmdWords triWords
  dsimp only
  split_ifs <;> omega

theorem cmdWords_le (cmd : BitVec 64) : cmdWords cmd ≤ 22 := by
  unfold cmdWords triWords
  dsimp only
  split_ifs <;> omega

section Decode

variable {fetch fetch' : Nat → BitVec 64} {r : Resume} {current mid stop cur : Nat}

theorem span_cons (hcur : cur % 8 = 0) (hstop : stop % 8 = 0) (h : cur < stop) :
    span fetch cur stop = fetch cur :: span fetch (cur + 8) stop := by
  have hone : span fetch cur (cur + 8) = [fetch cur] := by
    unfold span
    rw [Nat.add_sub_cancel_left]
    rfl
  rw [span_append hcur (by omega) (by omega : cur ≤ cur + 8) (by omega), hone]
  rfl

theorem nextCmd_eq (hcur : cur % 8 = 0) (hstop : stop % 8 = 0) (h : cur < stop) :
    nextCmd fetch stop cur =
      if cmdWords (fetch cur) ≤ (span fetch cur stop).length then
        some ((span fetch cur stop).take (cmdWords (fetch cur)))
      else none := by
  have hpos := cmdWords_pos (fetch cur)
  unfold nextCmd
  rw [if_neg (by omega), length_span]
  dsimp only
  by_cases hfit : cmdWords (fetch cur) ≤ (stop - cur) / 8
  · rw [if_neg (by omega), if_pos hfit, take_span hfit]
  · rw [if_pos (by omega), if_neg hfit]

theorem nextCmd_length {ws : Command} (h : nextCmd fetch stop cur = some ws) :
    0 < ws.length ∧ (cur % 8 = 0 → stop % 8 = 0 → cur + 8 * ws.length ≤ stop) := by
  have hpos := cmdWords_pos (fetch cur)
  unfold nextCmd at h
  dsimp only at h
  split_ifs at h with hend hcut
  obtain rfl := Option.some.inj h
  rw [List.length_map, List.length_range]
  refine ⟨hpos, fun h8 h8' => ?_⟩
  omega

/-- What a decoder does is to cut the words of the span. -/
theorem decode_eq {guard : Nat} (hcur : cur % 8 = 0) (hstop : stop % 8 = 0) (h : cur ≤ stop) :
    decode fetch stop guard cur =
      ((cut cmdWords guard (span fetch cur stop)).1,
        stop - 8 * (cut cmdWords guard (span fetch cur stop)).2.length) := by
  induction guard generalizing cur with
  | zero =>
    show ([], cur) = ([], stop - 8 * (span fetch cur stop).length)
    rw [length_span, show stop - 8 * ((stop - cur) / 8) = cur by omega]
  | succ guard ih =>
    unfold decode
    by_cases hend : cur < stop
    · have hlen := @length_span _ fetch cur stop
      have hcons := @span_cons fetch _ _ hcur hstop hend
      rw [nextCmd_eq hcur hstop hend]
      split_ifs with hfit
      · have htake : ((span fetch cur stop).take (cmdWords (fetch cur))).length =
            cmdWords (fetch cur) := by
          rw [List.length_take, Nat.min_eq_left hfit]
        dsimp only
        rw [htake, ih (by omega) (by omega), ← drop_span]
        rw [hcons] at hfit ⊢
        rw [cut_cons_le hfit]
      · rw [hcons] at hfit hlen ⊢
        rw [cut_cons_lt (by omega), hlen, show stop - 8 * ((stop - cur) / 8) = cur by omega]
    · have hnil : span fetch cur stop = [] := span_nil (by omega)
      have hnone : nextCmd fetch stop cur = none := if_pos (by omega)
      rw [hnone, hnil, cut_nil]
      show ([], cur) = ([], stop - 0)
      rw [show cur = stop by omega, Nat.sub_zero]

/-- The operation of a command. -/
def Command.op (ws : Command) : Nat := (ws.headD 0).toNat / 2 ^ 56 % 64

/-- What a command does to the registers of the cost decoder: nothing, if it is a
    sync or no operation. -/
def Command.apply {D M : Type} (W : Draw D M) (m : M) (reg : D) (ws : Command) : D :=
  if ws.op = 0x00 ∨ (0x26 ≤ ws.op ∧ ws.op ≤ 0x29) then reg else (W.exec m ws reg).1

theorem op_words {n : Nat} (hn : 0 < n) :
    Command.op ((List.range n).map fun i => fetch (cur + 8 * i)) =
      (fetch cur).toNat / 2 ^ 56 % 64 := by
  obtain ⟨n, rfl⟩ := Nat.exists_eq_succ_of_ne_zero hn.ne'
  unfold Command.op
  rw [List.range_succ_eq_map]
  rfl

/-- One round of the walk. -/
theorem walk_next {D M : Type} (W : Draw D M) (m : M) (guard : Nat) (w : Walk D) {ws : Command}
    (h : nextCmd fetch stop w.cur = some ws) :
    ∃ w', walk W m fetch stop (guard + 1) w = walk W m fetch stop guard w' ∧
      w'.cur = w.cur + 8 * ws.length ∧ w'.reg = Command.apply W m w.reg ws ∧
      w'.sawSyncFull = (w.sawSyncFull || ws.op == 0x29) := by
  have hop := @op_words fetch w.cur _ (cmdWords_pos (fetch w.cur))
  unfold nextCmd at h
  dsimp only at h
  split_ifs at h with hend hcut
  obtain rfl := Option.some.inj h
  unfold Command.apply
  rw [hop, List.length_map, List.length_range, walk, if_neg hend]
  unfold cmdWords at hcut ⊢
  dsimp only at hcut ⊢
  generalize (fetch w.cur).toNat / 2 ^ 56 % 64 = op at hcut ⊢
  by_cases htri : 0x08 ≤ op ∧ op ≤ 0x0f
  · have hpos : 1 < triWords op := by
      unfold triWords
      omega
    rw [if_pos htri] at hcut ⊢
    rw [if_pos htri, if_neg (by omega), if_neg (by omega), beq_eq_false_iff_ne.mpr (by omega)]
    refine ⟨_, rfl, ?_, (if_neg (by omega)).symm, (Bool.or_false _).symm⟩
    unfold Walk.draw
    dsimp only
    rw [List.length_map, List.length_range]
  rw [if_neg htri] at hcut ⊢
  rw [if_neg htri]
  by_cases hrect : op = 0x24 ∨ op = 0x25
  · rw [if_pos hrect] at hcut ⊢
    rw [if_pos hrect, if_neg (by omega), if_neg (by omega), beq_eq_false_iff_ne.mpr (by omega)]
    exact ⟨_, rfl, rfl, (if_neg (by omega)).symm, (Bool.or_false _).symm⟩
  rw [if_neg hrect, if_neg hrect]
  by_cases hsync : op = 0x00 ∨ (0x26 ≤ op ∧ op ≤ 0x29)
  · rw [if_pos hsync]
    obtain rfl | rfl | rfl | rfl | rfl :
        op = 0 ∨ op = 0x26 ∨ op = 0x27 ∨ op = 0x28 ∨ op = 0x29 := by omega
    · exact ⟨_, rfl, rfl, rfl, (Bool.or_false _).symm⟩
    · exact ⟨_, rfl, rfl, rfl, (Bool.or_false _).symm⟩
    · exact ⟨_, rfl, rfl, rfl, (Bool.or_false _).symm⟩
    · exact ⟨_, rfl, rfl, rfl, (Bool.or_false _).symm⟩
    · exact ⟨_, rfl, rfl, rfl, (Bool.or_true _).symm⟩
  · rw [if_neg hsync, if_neg (by omega), if_neg (by omega), if_neg (by omega), if_neg (by omega),
      if_neg (by omega), beq_eq_false_iff_ne.mpr (by omega)]
    exact ⟨_, rfl, rfl, rfl, (Bool.or_false _).symm⟩

/-- The walk stops where there is no command. -/
theorem walk_stop {D M : Type} (W : Draw D M) (m : M) (guard : Nat) (w : Walk D)
    (h : nextCmd fetch stop w.cur = none) :
    (walk W m fetch stop guard w).cur = w.cur ∧ (walk W m fetch stop guard w).reg = w.reg ∧
      (walk W m fetch stop guard w).sawSyncFull = w.sawSyncFull := by
  cases guard with
  | zero => exact ⟨rfl, rfl, rfl⟩
  | succ guard =>
    unfold nextCmd at h
    rw [walk]
    unfold cmdWords at h
    dsimp only at h ⊢
    generalize (fetch w.cur).toNat / 2 ^ 56 % 64 = op at h ⊢
    by_cases hend : stop ≤ w.cur
    · rw [if_pos hend]
      exact ⟨rfl, rfl, rfl⟩
    rw [if_neg hend]
    rw [if_neg hend] at h
    have hcut {n : Nat} {ws : Command}
        (h : (if 1 < n ∧ stop < w.cur + n * 8 then none else some ws) = none) :
        1 < n ∧ stop < w.cur + n * 8 := by
      by_contra hfit
      rw [if_neg hfit] at h
      cases h
    by_cases htri : 0x08 ≤ op ∧ op ≤ 0x0f
    · rw [if_pos htri] at h
      have := hcut h
      rw [if_pos htri, if_pos (by omega)]
      exact ⟨rfl, rfl, rfl⟩
    rw [if_neg htri]
    rw [if_neg htri] at h
    by_cases hrect : op = 0x24 ∨ op = 0x25
    · rw [if_pos hrect] at h
      have := hcut h
      rw [if_pos hrect, if_pos (by omega)]
      exact ⟨rfl, rfl, rfl⟩
    · rw [if_neg hrect, if_neg (by omega)] at h
      cases h

/-- The walk of the cost decoder takes the commands of the span. -/
theorem walk_eq {D M : Type} (W : Draw D M) (m : M) (guard : Nat) (w : Walk D) :
    (walk W m fetch stop guard w).cur = (decode fetch stop guard w.cur).2 ∧
      (walk W m fetch stop guard w).reg =
        (decode fetch stop guard w.cur).1.foldl (Command.apply W m) w.reg ∧
      (walk W m fetch stop guard w).sawSyncFull =
        (w.sawSyncFull || (decode fetch stop guard w.cur).1.any fun ws => ws.op == 0x29) := by
  induction guard generalizing w with
  | zero => exact ⟨rfl, rfl, (Bool.or_false _).symm⟩
  | succ guard ih =>
    cases hnext : nextCmd fetch stop w.cur with
    | none =>
      obtain ⟨hcur, hreg, hsaw⟩ := walk_stop W m (guard + 1) w hnext
      rw [decode, hnext]
      exact ⟨hcur, hreg, hsaw.trans (Bool.or_false _).symm⟩
    | some ws =>
      obtain ⟨w', hw, hcur, hreg, hsaw⟩ := walk_next W m guard w hnext
      obtain ⟨ih₁, ih₂, ih₃⟩ := ih w'
      rw [decode, hnext, hw, ih₁, ih₂, ih₃, hcur, hreg, hsaw, Bool.or_assoc]
      exact ⟨rfl, rfl, rfl⟩

/-- The pointers of a decoder: a command that was cut lies before the end. -/
structure Resume.Near (r : Resume) : Prop where
  lastEnd : r.lastEnd % 8 = 0
  resume : ∀ a ∈ r.resume, a % 8 = 0 ∧ a ≤ r.lastEnd ∧ r.lastEnd < a + 8 * 22

theorem Resume.Near.start (h : r.Near) (hcur : current % 8 = 0) :
    r.start current % 8 = 0 ∧ r.start current ≤ current ∧ current < r.start current + 8 * 22 := by
  unfold Resume.start
  cases ha : r.resume with
  | none => exact ⟨hcur, le_rfl, by dsimp only; omega⟩
  | some a =>
    have hnear := h.resume a ha
    dsimp only
    split_ifs with hend
    · rw [hend]
      exact hnear
    · exact ⟨hcur, le_rfl, by omega⟩

/-- A span that one round of a decoder covers. -/
structure Covers (current stop : Nat) : Prop where
  begins : current % 8 = 0
  ends : stop % 8 = 0
  le : current ≤ stop
  short : (stop - current) / 8 + 22 ≤ maxCmds

/-- The words that a decoder sees. -/
def Resume.sees (r : Resume) (fetch : Nat → BitVec 64) (current stop : Nat) : List (BitVec 64) :=
  span fetch (r.start current) stop

/-- The pointers after the words, `left` of which are of a command cut. -/
def Resume.leaves (left : List (BitVec 64)) (stop : Nat) : Resume :=
  ⟨if left = [] then none else some (stop - 8 * left.length), stop⟩

theorem leaves_start {left : List (BitVec 64)} :
    (Resume.leaves left stop).start stop = stop - 8 * left.length := by
  unfold Resume.leaves Resume.start
  dsimp only
  by_cases hleft : left = []
  · rw [if_pos hleft, hleft]
    rfl
  · rw [if_neg hleft]
    exact if_pos rfl

theorem length_sees (h : r.Near) (hc : Covers current stop) :
    (r.sees fetch current stop).length ≤ maxCmds := by
  obtain ⟨h8, hle, hlt⟩ := h.start hc.begins
  have hshort := hc.short
  have hstop := hc.ends
  rw [Resume.sees, length_span]
  omega

theorem runSpan_eq (h : r.Near) (hc : Covers current stop) :
    runSpan fetch r current stop =
      ((cut cmdWords maxCmds (r.sees fetch current stop)).1,
        .leaves (cut cmdWords maxCmds (r.sees fetch current stop)).2 stop) := by
  obtain ⟨h8, hle, -⟩ := h.start hc.begins
  have hrest := (@cut_rest _ cmdWords maxCmds (r.sees fetch current stop)).1
  have hlen : (r.sees fetch current stop).length = (stop - r.start current) / 8 := length_span
  have hstop := hc.le
  unfold runSpan
  dsimp only
  rw [decode_eq h8 hc.ends (by omega)]
  change _ = (_, Resume.leaves _ _)
  unfold Resume.after Resume.leaves
  refine Prod.ext rfl (congrArg (Resume.mk · stop) (if_congr ?_ rfl rfl))
  rw [← List.length_eq_zero_iff]
  change stop - 8 * (cut cmdWords maxCmds (r.sees fetch current stop)).2.length = stop ↔ _
  omega

theorem leaves_near {ws : List (BitVec 64)} (hstop : stop % 8 = 0) (hlen : 8 * ws.length ≤ stop)
    (hws : ws.length ≤ maxCmds) : (Resume.leaves (cut cmdWords maxCmds ws).2 stop).Near := by
  refine ⟨hstop, fun a ha => ?_⟩
  have hrest := (@cut_rest _ cmdWords maxCmds ws).1
  have hlt := cut_rest_lt cmdWords_pos hws
  unfold Resume.leaves at ha ⊢
  dsimp only at ha ⊢
  cases hleft : (cut cmdWords maxCmds ws).2 with
  | nil => rw [hleft, if_pos rfl] at ha; cases ha
  | cons w left =>
    rw [hleft] at ha hrest hlt
    rw [if_neg (List.cons_ne_nil w left)] at ha
    obtain rfl := Option.some.inj ha
    have hw := hlt w rfl
    have hle := cmdWords_le w
    omega

theorem runSpan_near (h : r.Near) (hc : Covers current stop) :
    (runSpan fetch r current stop).2.Near := by
  rw [runSpan_eq h hc]
  refine leaves_near hc.ends ?_ (length_sees h hc)
  rw [Resume.sees, length_span]
  omega

theorem runSpan_congr (h : r.Near) (hc : Covers current stop)
    (heq : ∀ a, a % 8 = 0 → a + 8 ≤ stop → fetch a = fetch' a) :
    runSpan fetch r current stop = runSpan fetch' r current stop := by
  obtain ⟨h8, -, -⟩ := h.start hc.begins
  have hsees : r.sees fetch current stop = r.sees fetch' current stop :=
    span_congr fun i hi => heq _ (by omega) (by omega)
  rw [runSpan_eq h hc, runSpan_eq h hc, hsees]

/-- **Spans.** A span decoded in two parts. -/
theorem runSpan_append (h : r.Near) (hc : Covers current mid) (hc' : Covers mid stop)
    (hall : Covers current stop) :
    runSpan fetch r current stop =
      ((runSpan fetch r current mid).1 ++
          (runSpan fetch (runSpan fetch r current mid).2 mid stop).1,
        (runSpan fetch (runSpan fetch r current mid).2 mid stop).2) := by
  obtain ⟨h8, hle, -⟩ := h.start hc.begins
  have hfirst := @runSpan_eq fetch _ _ _ h hc
  have hnear := @runSpan_near fetch _ _ _ h hc
  rw [hfirst] at hnear ⊢
  rw [runSpan_eq h hall, runSpan_eq hnear hc']
  -- the words of the second part are those left of the first, and its own
  have hsees : (Resume.leaves (cut cmdWords maxCmds (r.sees fetch current mid)).2 mid).sees fetch
      mid stop = (cut cmdWords maxCmds (r.sees fetch current mid)).2 ++ span fetch mid stop := by
    obtain ⟨hlen, hrest⟩ := @cut_rest _ cmdWords maxCmds (r.sees fetch current mid)
    have hmid := hc.le
    have hmid8 := hc.ends
    conv_rhs => rw [hrest]
    unfold Resume.sees at hlen ⊢
    rw [length_span] at hlen
    rw [leaves_start, drop_span, length_span,
      show r.start current + 8 * ((mid - r.start current) / 8 -
          (cut cmdWords maxCmds (span fetch (r.start current) mid)).2.length) =
        mid - 8 * (cut cmdWords maxCmds (span fetch (r.start current) mid)).2.length by omega]
    exact span_append (by omega) hmid8 (by omega) hc'.le
  have hwhole : r.sees fetch current stop = r.sees fetch current mid ++ span fetch mid stop :=
    span_append h8 hc.ends (hle.trans hc.le) hc'.le
  have hlen := @length_sees fetch _ _ _ h hall
  rw [hwhole, List.length_append] at hlen
  rw [hsees, hwhole, cut_append cmdWords_pos hlen]

/-- The cost pass is not begun for a span of no words, and comes to the same. -/
theorem costSpan_eq (h : r.Near) (hc : Covers current stop) :
    costSpan fetch r current stop = runSpan fetch r current stop := by
  unfold costSpan
  split_ifs with hnone
  · have hsees : r.sees fetch current stop = [] := span_nil (by rw [← hnone])
    rw [runSpan_eq h hc, hsees, cut_nil]
    rfl
  · rfl

end Decode

/-! ## Section 5: What is left to draw -/

/-- The spans of a queue, one after the other. -/
def runQueue (fetch : Nat → Nat → BitVec 64) : Resume → List Job → List Command × Resume
  | r, [] => ([], r)
  | r, j :: js =>
    let a := runSpan (fetch j.gen) r j.current j.stop
    let b := runQueue fetch a.2 js
    (a.1 ++ b.1, b.2)

/-- The rest of the worker's span. -/
def runActive (fetch : Nat → Nat → BitVec 64) (r : Resume) : Option Active → List Command × Resume
  | none => ([], r)
  | some a =>
    let d := decode (fetch a.gen) a.stop a.guard a.cur
    (d.1, .after d.2 a.stop)

/-- All that is left to draw. -/
def State.todo (size : Nat) (s : State) : List Command × Resume :=
  let a := runActive (s.fetch size) s.draw s.worker
  let b := runQueue (s.fetch size) a.2 s.rdpQueue
  (a.1 ++ b.1, b.2)

/-- The generations and ends of the spans not drawn yet. -/
def State.spans (s : State) : List (Nat × Nat) :=
  (s.worker.toList.map fun a => (a.gen, a.stop)) ++ s.rdpQueue.map fun j => (j.gen, j.stop)

def Job.Covers (j : Job) : Prop := Fifo.Covers j.current j.stop

structure Active.Covers (a : Active) : Prop where
  begins : a.cur % 8 = 0
  ends : a.stop % 8 = 0
  le : a.cur ≤ a.stop
  short : (a.stop - a.cur) / 8 ≤ a.guard

section Queue

variable {fetch fetch' : Nat → Nat → BitVec 64} {r : Resume} {js : List Job}

theorem runQueue_append (js js' : List Job) :
    runQueue fetch r (js ++ js') =
      ((runQueue fetch r js).1 ++ (runQueue fetch (runQueue fetch r js).2 js').1,
        (runQueue fetch (runQueue fetch r js).2 js').2) := by
  induction js generalizing r with
  | nil => rfl
  | cons j js ih => simp only [List.cons_append, runQueue, ih, List.append_assoc]

theorem runQueue_near (h : r.Near) (hjs : ∀ j ∈ js, j.Covers) : (runQueue fetch r js).2.Near := by
  induction js generalizing r with
  | nil => exact h
  | cons j js ih =>
    exact ih (runSpan_near h (hjs j List.mem_cons_self))
      fun k hk => hjs k (List.mem_cons_of_mem j hk)

theorem runQueue_congr (h : r.Near) (hjs : ∀ j ∈ js, j.Covers)
    (heq : ∀ j ∈ js, ∀ a, a % 8 = 0 → a + 8 ≤ j.stop → fetch j.gen a = fetch' j.gen a) :
    runQueue fetch r js = runQueue fetch' r js := by
  induction js generalizing r with
  | nil => rfl
  | cons j js ih =>
    have hj := hjs j List.mem_cons_self
    have hspan := runSpan_congr h hj (heq j List.mem_cons_self)
    have hrest := ih (@runSpan_near (fetch' j.gen) _ _ _ h hj)
      (fun k hk => hjs k (List.mem_cons_of_mem j hk)) fun k hk => heq k (List.mem_cons_of_mem j hk)
    unfold runQueue
    dsimp only
    rw [hspan, hrest]

theorem runActive_eq {a : Active} (h : a.Covers) :
    runActive fetch r (some a) =
      ((cut cmdWords a.guard (span (fetch a.gen) a.cur a.stop)).1,
        .leaves (cut cmdWords a.guard (span (fetch a.gen) a.cur a.stop)).2 a.stop) := by
  have hrest := (@cut_rest _ cmdWords a.guard (span (fetch a.gen) a.cur a.stop)).1
  have hle := h.le
  rw [length_span] at hrest
  unfold runActive
  dsimp only
  rw [decode_eq h.begins h.ends h.le]
  unfold Resume.after Resume.leaves
  refine Prod.ext rfl (congrArg (Resume.mk · a.stop) (if_congr ?_ rfl rfl))
  rw [← List.length_eq_zero_iff]
  dsimp only
  omega

theorem runActive_near {w : Option Active} (h : r.Near) (hw : ∀ a ∈ w, a.Covers)
    (hguard : ∀ a ∈ w, a.guard ≤ maxCmds) : (runActive fetch r w).2.Near := by
  cases w with
  | none => exact h
  | some a =>
    have ha := hw a rfl
    have hle := ha.le
    have hshort := ha.short
    have hmax := hguard a rfl
    rw [runActive_eq ha, cut_enough cmdWords_pos (n := maxCmds)]
    · refine leaves_near ha.ends ?_ ?_ <;> rw [length_span] <;> omega
    · rw [length_span]
      omega
    · rw [length_span]
      omega

theorem runActive_congr {w : Option Active} (hw : ∀ a ∈ w, a.Covers)
    (heq : ∀ a ∈ w, ∀ p, p % 8 = 0 → p + 8 ≤ a.stop → fetch a.gen p = fetch' a.gen p) :
    runActive fetch r w = runActive fetch' r w := by
  cases w with
  | none => rfl
  | some a =>
    have ha := hw a rfl
    have hbegins := ha.begins
    have hspan : span (fetch a.gen) a.cur a.stop = span (fetch' a.gen) a.cur a.stop :=
      span_congr fun i hi => heq a rfl _ (by omega) (by omega)
    rw [runActive_eq ha, runActive_eq ha, hspan]

end Queue

/-! ## Section 6: The invariant -/

/-- The number of words of a command that the buffer does not have all of. -/
def State.split (s : State) : List (BitVec 64) := (cut cmdWords s.words.length s.words).2

section Inv

variable {size : Nat} {s s' : State}

structure State.Inv (size : Nat) (s : State) : Prop where
  aligned : s.dpc_start % 8 = 0 ∧ s.dpc_end % 8 = 0 ∧ s.dpc_submitted % 8 = 0
  /-- The queue. -/
  queue : ∀ j ∈ s.rdpQueue, j.Covers
  worker : ∀ a ∈ s.worker, a.Covers
  guard : ∀ a ∈ s.worker, a.guard ≤ maxCmds
  /-- No span of this generation ends behind what has been given. -/
  behind : ∀ p ∈ s.spans, p.1 = s.rdpGen → p.2 ≤ s.dpc_submitted
  /-- None begins before the buffer. -/
  inside : ∀ j ∈ s.rdpQueue, j.gen = s.rdpGen → s.dpc_submitted ≤ j.current + 8 * s.words.length
  busy : ∀ g, s.rdpGenBusy g = s.spans.countP (·.1 == g)
  draw : s.draw.Near
  cost : s.cost.Near
  /-- What is drawn and what is left are what is charged. -/
  drawn : s.drawn ++ (s.todo size).1 = s.costed
  pointer : (s.todo size).2 = s.cost
  /-- What is charged is what is given. -/
  costed : s.costed = s.given
  resume : s.cost.start s.dpc_submitted = s.dpc_submitted - 8 * s.split.length
  /-- The copy has the words of the buffer. -/
  copied :
    span (s.fetch size s.rdpGen) (s.dpc_submitted - 8 * s.words.length) s.dpc_submitted = s.words
  short : s.words.length + 22 ≤ maxCmds
  room : 8 * s.words.length ≤ s.dpc_submitted
  waits : s.draining = true → s.startValid = true

theorem dpcAddr_aligned (v : BitVec 32) : dpcAddr v % 8 = 0 := by
  unfold dpcAddr
  omega

theorem State.Inv.init (h : Init s) : s.Inv size where
  aligned := by rw [h.start, h.stop, h.submitted]; decide
  queue := by rw [h.queue]; nofun
  worker := by rw [h.worker]; nofun
  guard := by rw [h.worker]; nofun
  behind := by unfold State.spans; rw [h.queue, h.worker]; nofun
  inside := by rw [h.queue]; nofun
  busy g := by unfold State.spans; rw [h.busy, h.queue, h.worker]; rfl
  draw := by rw [h.draw]; exact ⟨rfl, nofun⟩
  cost := by rw [h.cost]; exact ⟨rfl, nofun⟩
  drawn := by unfold State.todo; rw [h.drawn, h.costed, h.worker, h.queue]; rfl
  pointer := by unfold State.todo; rw [h.cost, h.draw, h.worker, h.queue]; rfl
  costed := by unfold State.given; rw [h.costed, h.buffers, h.words]; rfl
  resume := by rw [h.cost, h.submitted, Nat.zero_sub]; rfl
  copied := by rw [h.words, h.submitted]; exact span_nil le_rfl
  short := by rw [h.words]; decide
  room := by rw [h.words]; exact Nat.zero_le _
  waits := by rw [h.draining]; nofun

/-- A buffer with more words: the commands of what was split, and of the rest. -/
theorem commands_append {ws new : List (BitVec 64)} {n : Nat} (hn : ws.length + new.length ≤ n) :
    commands (ws ++ new) = commands ws ++
        (cut cmdWords n ((cut cmdWords ws.length ws).2 ++ new)).1 ∧
      (cut cmdWords (ws ++ new).length (ws ++ new)).2 =
        (cut cmdWords n ((cut cmdWords ws.length ws).2 ++ new)).2 := by
  have hall : cut cmdWords (ws ++ new).length (ws ++ new) = cut cmdWords n (ws ++ new) :=
    cut_enough cmdWords_pos le_rfl (by rw [List.length_append]; exact hn)
  have hfirst : cut cmdWords ws.length ws = cut cmdWords n ws :=
    cut_enough cmdWords_pos le_rfl (by omega)
  unfold commands
  rw [hall, hfirst, cut_append cmdWords_pos hn]
  exact ⟨rfl, rfl⟩

/-! A write of `DPC_END`. -/

theorem fetchFrom_congr {b b' : Nat → BitVec 8} {a : Nat}
    (h : ∀ i < 8, a + i < size → b (a + i) = b' (a + i)) :
    fetchFrom size b a = fetchFrom size b' a := by
  have hword {p : Nat} (hp : ∀ i < 4, p + i < size → b (p + i) = b' (p + i)) :
      CmdSource.rd32 ⟨b, size, fun _ => 0⟩ p = CmdSource.rd32 ⟨b', size, fun _ => 0⟩ p := by
    unfold CmdSource.rd32
    dsimp only
    split_ifs with hend
    · rfl
    · rw [hp 1 (by decide) (by omega), hp 2 (by decide) (by omega), hp 3 (by decide) (by omega),
        show b p = b' p from hp 0 (by decide) (by omega)]
  have hhi := hword (p := a) fun i hi => h i (by omega)
  have hlo := hword (p := a + 4) fun i hi hsize => by
    have := h (4 + i) (by omega)
    rw [← Nat.add_assoc] at this
    exact this hsize
  show CmdSource.rd32 _ _ ++ CmdSource.rd32 _ _ = CmdSource.rd32 _ _ ++ CmdSource.rd32 _ _
  rw [hhi, hlo]

/-- The copy takes in the words of the span. -/
theorem snapshot_inside {current stop a : Nat} (hlo : current ≤ a) (hhi : a + 8 ≤ stop) :
    (s.rdpSnapshot size current stop).fetch size s.rdpGen a = fetchFrom size s.rdram a :=
  fetchFrom_congr fun i hi hsize =>
    if_pos ⟨rfl, by omega, Nat.lt_min.mpr ⟨by omega, hsize⟩⟩

/-- It leaves the words before the span, and the other generations. -/
theorem snapshot_outside {current stop gen a : Nat} (h : gen = s.rdpGen → a + 8 ≤ current) :
    (s.rdpSnapshot size current stop).fetch size gen a = s.fetch size gen a := by
  refine fetchFrom_congr fun i hi _ => if_neg ?_
  rintro ⟨rfl, hle, -⟩
  have := h rfl
  omega

/-- A span goes to the end of the queue, or makes the last span longer. -/
theorem enqueue_cases (s : State) (current stop : Nat) :
    (∃ js j, s.rdpQueue = js ++ [j] ∧ j.stop = current ∧ j.gen = s.rdpGen ∧
      s.enqueue current stop = { s with rdpQueue := js ++ [{ j with stop := stop }] }) ∨
    s.enqueue current stop =
      { s with
        rdpQueue := s.rdpQueue ++ [⟨current, stop, s.rdpGen⟩]
        rdpGenBusy := Function.update s.rdpGenBusy s.rdpGen (s.rdpGenBusy s.rdpGen + 1) } := by
  unfold State.enqueue
  rcases List.eq_nil_or_concat s.rdpQueue with hnil | ⟨js, j, hjs⟩
  · rw [hnil]
    exact .inr rfl
  · rw [hjs, List.concat_eq_append, List.getLast?_concat]
    dsimp only
    split_ifs with hlast
    · rw [List.dropLast_concat]
      exact .inl ⟨js, j, rfl, hlast.1, hlast.2, rfl⟩
    · exact .inr rfl

/-- The queue is drawn as before, and then the span. -/
theorem runQueue_enqueue {fetch : Nat → Nat → BitVec 64} {r : Resume} {current stop : Nat}
    (h : r.Near) (hqueue : ∀ j ∈ s.rdpQueue, j.Covers) (hc : Covers current stop)
    (hlast : ∀ j ∈ s.rdpQueue, j.gen = s.rdpGen → Covers j.current stop) :
    runQueue fetch r (s.enqueue current stop).rdpQueue =
      ((runQueue fetch r s.rdpQueue).1 ++
          (runSpan (fetch s.rdpGen) (runQueue fetch r s.rdpQueue).2 current stop).1,
        (runSpan (fetch s.rdpGen) (runQueue fetch r s.rdpQueue).2 current stop).2) := by
  have hsingle (r : Resume) (j : Job) :
      runQueue fetch r [j] = runSpan (fetch j.gen) r j.current j.stop :=
    Prod.ext (List.append_nil _) rfl
  rcases enqueue_cases s current stop with ⟨js, j, hjs, rfl, hgen, heq⟩ | heq
  · rw [hjs] at hqueue hlast
    have hj := List.mem_append_right js (List.mem_singleton_self j)
    have hnear := @runQueue_near fetch _ _ h
      fun k hk => hqueue k (List.mem_append_left [j] hk)
    rw [heq, hjs, runQueue_append, runQueue_append, hsingle, hsingle]
    dsimp only
    rw [runSpan_append hnear (hqueue j hj) hc (hlast j hj hgen), hgen, List.append_assoc]
  · rw [heq, runQueue_append, hsingle]

/-- The copy has the words given before, and takes in those of the span. -/
theorem State.Inv.copied_next (h : s.Inv size) (hle : s.dpc_submitted ≤ s.dpc_end) :
    span ((s.rdpSnapshot size s.dpc_submitted s.dpc_end).fetch size s.rdpGen)
        (s.dpc_submitted - 8 * s.words.length) s.dpc_end =
      s.words ++ span (fetchFrom size s.rdram) s.dpc_submitted s.dpc_end := by
  obtain ⟨-, -, h8⟩ := h.aligned
  have hroom := h.room
  have hold : span ((s.rdpSnapshot size s.dpc_submitted s.dpc_end).fetch size s.rdpGen)
      (s.dpc_submitted - 8 * s.words.length) s.dpc_submitted = s.words :=
    (span_congr fun i hi => snapshot_outside fun _ => by omega).trans h.copied
  have hnew : span ((s.rdpSnapshot size s.dpc_submitted s.dpc_end).fetch size s.rdpGen)
      s.dpc_submitted s.dpc_end = span (fetchFrom size s.rdram) s.dpc_submitted s.dpc_end :=
    span_congr fun i hi => snapshot_inside (by omega) (by omega)
  rw [span_append (by omega) h8 (by omega) hle, hold, hnew]

/-- What the cost decoder sees of a span. -/
theorem State.Inv.sees (h : s.Inv size) (hle : s.dpc_submitted ≤ s.dpc_end) :
    s.cost.sees ((s.rdpSnapshot size s.dpc_submitted s.dpc_end).fetch size s.rdpGen)
        s.dpc_submitted s.dpc_end =
      s.split ++ span (fetchFrom size s.rdram) s.dpc_submitted s.dpc_end := by
  have hroom := h.room
  obtain ⟨hlen, hsplit⟩ := @cut_rest _ cmdWords s.words.length s.words
  change s.split.length ≤ _ at hlen
  change s.split = s.words.drop (s.words.length - s.split.length) at hsplit
  have hdrop := congrArg (List.drop (s.words.length - s.split.length)) (h.copied_next hle)
  rw [List.drop_append_of_le_length (by omega), ← hsplit, drop_span,
    show s.dpc_submitted - 8 * s.words.length + 8 * (s.words.length - s.split.length) =
      s.dpc_submitted - 8 * s.split.length by omega] at hdrop
  rw [Resume.sees, h.resume, hdrop]

/-- Nothing else changes. -/
theorem enqueue_frame (s : State) (current stop : Nat) :
    s.enqueue current stop =
      { s with
        rdpQueue := (s.enqueue current stop).rdpQueue
        rdpGenBusy := (s.enqueue current stop).rdpGenBusy } := by
  rcases enqueue_cases s current stop with ⟨js, j, -, -, -, heq⟩ | heq <;> rw [heq]

/-- A span of the queue is an old one, or one that ends with the new. -/
theorem enqueue_mem {current stop : Nat} {j : Job} (hj : j ∈ (s.enqueue current stop).rdpQueue) :
    j ∈ s.rdpQueue ∨ j.gen = s.rdpGen ∧ j.stop = stop ∧
      (j.current = current ∨ ∃ k ∈ s.rdpQueue, k.gen = s.rdpGen ∧ k.current = j.current) := by
  rcases enqueue_cases s current stop with ⟨js, k, hjs, -, hgen, heq⟩ | heq
  · rw [heq] at hj
    rcases List.mem_append.mp hj with hj | hj
    · exact .inl (hjs ▸ List.mem_append_left [k] hj)
    · obtain rfl := List.mem_singleton.mp hj
      have hk := List.mem_append_right js (List.mem_singleton_self k)
      exact .inr ⟨hgen, rfl, .inr ⟨k, hjs ▸ hk, hgen, rfl⟩⟩
  · rw [heq] at hj
    rcases List.mem_append.mp hj with hj | hj
    · exact .inl hj
    · obtain rfl := List.mem_singleton.mp hj
      exact .inr ⟨rfl, rfl, .inl rfl⟩

theorem enqueue_busy {current stop : Nat} (h : ∀ g, s.rdpGenBusy g = s.spans.countP (·.1 == g))
    (g : Nat) : (s.enqueue current stop).rdpGenBusy g =
      (s.enqueue current stop).spans.countP (·.1 == g) := by
  unfold State.spans at h ⊢
  rcases enqueue_cases s current stop with ⟨js, k, hjs, -, -, heq⟩ | heq
  · rw [heq]
    dsimp only
    rw [h, hjs, List.map_append, List.map_append, List.countP_append, List.countP_append,
      List.countP_append, List.countP_append]
    rfl
  · rw [heq]
    dsimp only
    rw [List.map_append, ← List.append_assoc, List.countP_append, ← h, List.map_singleton,
      List.countP_singleton]
    by_cases hg : g = s.rdpGen
    · rw [hg, Function.update_self, if_pos (by simp)]
    · rw [Function.update_of_ne hg, if_neg (by simpa using Ne.symm hg), Nat.add_zero]

/-- **DPC_END.** What is charged for a span is what is drawn of it, and both are
    the commands given. -/
theorem State.Inv.advance (h : s.Inv size)
    (hroom : s.frozen = false → Room s.words.length s.dpc_submitted s.dpc_end) :
    (s.dpcAdvance size).Inv size := by
  unfold State.dpcAdvance
  split_ifs with hfrozen
  · exact h
  obtain ⟨hle, hfit⟩ := hroom (by simpa using hfrozen)
  obtain ⟨h8start, h8end, h8⟩ := h.aligned
  have hlong := h.room
  set s₁ := s.rdpSnapshot size s.dpc_submitted s.dpc_end with hs₁
  set new := span (fetchFrom size s.rdram) s.dpc_submitted s.dpc_end with hnew
  have hnewlen : new.length = (s.dpc_end - s.dpc_submitted) / 8 := length_span
  have hc : Covers s.dpc_submitted s.dpc_end := ⟨h8, h8end, hle, by omega⟩
  have hlast : ∀ j ∈ s.rdpQueue, j.gen = s.rdpGen → Covers j.current s.dpc_end := by
    intro j hj hgen
    have hcov := h.queue j hj
    have hin := h.inside j hj hgen
    have hbehind := h.behind (j.gen, j.stop)
      (List.mem_append_right _ (List.mem_map_of_mem hj)) hgen
    have := hcov.le
    exact ⟨hcov.begins, h8end, by dsimp only at hbehind; omega, by omega⟩
  -- the cost pass
  have hcost : costSpan (s₁.fetch size s.rdpGen) s.cost s.dpc_submitted s.dpc_end =
      ((cut cmdWords maxCmds (s.split ++ new)).1,
        .leaves (cut cmdWords maxCmds (s.split ++ new)).2 s.dpc_end) := by
    rw [costSpan_eq h.cost hc, runSpan_eq h.cost hc, h.sees hle]
  obtain ⟨hgiven, hleft⟩ := @commands_append s.words new maxCmds (by omega)
  -- what is left to draw of the spans before is unchanged
  have hactive :
      runActive (s₁.fetch size) s.draw s.worker = runActive (s.fetch size) s.draw s.worker :=
    runActive_congr h.worker fun a ha p _ hp => snapshot_outside fun hgen => by
      have := h.behind (a.gen, a.stop) (by
        unfold State.spans
        rw [Option.mem_def.mp ha]
        exact List.mem_cons_self) hgen
      dsimp only at this
      omega
  have hnear := @runActive_near (s.fetch size) _ _ h.draw h.worker h.guard
  have hqueue : runQueue (s₁.fetch size) (runActive (s.fetch size) s.draw s.worker).2 s.rdpQueue =
      runQueue (s.fetch size) (runActive (s.fetch size) s.draw s.worker).2 s.rdpQueue :=
    runQueue_congr hnear h.queue fun j hj p _ hp => snapshot_outside fun hgen => by
      have := h.behind (j.gen, j.stop) (List.mem_append_right _ (List.mem_map_of_mem hj)) hgen
      dsimp only at this
      omega
  set s₂ := s₁.dpScheduleSpan size s.dpc_submitted s.dpc_end with hs₂
  have hadded := @runQueue_enqueue s₂ (s₁.fetch size) _ _ s.dpc_end hnear
    h.queue hc hlast
  have hpointer : (runQueue (s.fetch size) (runActive (s.fetch size) s.draw s.worker).2
      s.rdpQueue).2 = s.cost := h.pointer
  change runQueue (s₁.fetch size) (runActive (s.fetch size) s.draw s.worker).2
      (s₂.enqueue s.dpc_submitted s.dpc_end).rdpQueue =
    ((runQueue (s₁.fetch size) _ s.rdpQueue).1 ++
      (runSpan (s₁.fetch size s.rdpGen) (runQueue (s₁.fetch size) _ s.rdpQueue).2 _ _).1,
      (runSpan (s₁.fetch size s.rdpGen) (runQueue (s₁.fetch size) _ s.rdpQueue).2 _ _).2) at hadded
  rw [hqueue, hpointer, ← costSpan_eq h.cost hc, hcost] at hadded
  have hspans : ∀ p ∈ (s₂.enqueue s.dpc_submitted s.dpc_end).spans,
      p ∈ s.spans ∨ p = (s.rdpGen, s.dpc_end) := by
    intro p hp
    rw [enqueue_frame] at hp
    rcases List.mem_append.mp hp with hp | hp
    · exact .inl (List.mem_append_left _ hp)
    · obtain ⟨j, hj, rfl⟩ := List.mem_map.mp hp
      rcases enqueue_mem hj with hj | ⟨hgen, hstop, -⟩
      · exact .inl (List.mem_append_right _ (List.mem_map_of_mem hj))
      · exact .inr (Prod.ext hgen hstop)
  have hbusy := @enqueue_busy s₂ s.dpc_submitted s.dpc_end h.busy
  unfold State.rdpSubmit
  rw [enqueue_frame] at hspans hbusy ⊢
  refine
    { aligned := ⟨h8start, h8end, h8end⟩, queue := ?_, worker := h.worker, guard := h.guard
      behind := ?_, inside := ?_, busy := hbusy, draw := h.draw, cost := ?_, drawn := ?_
      pointer := ?_, costed := ?_, resume := ?_, copied := ?_, short := ?_, room := ?_
      waits := h.waits }
  · intro j hj
    rcases enqueue_mem hj with hj | ⟨-, hstop, hcur | ⟨k, hk, hgen, hcur⟩⟩
    · exact h.queue j hj
    · rw [Job.Covers, hcur, hstop]
      exact hc
    · rw [Job.Covers, ← hcur, hstop]
      exact hlast k hk hgen
  · intro p hp hgen
    rcases hspans p hp with hp | rfl
    · exact (h.behind p hp hgen).trans hle
    · exact le_rfl
  · intro j hj hgen
    show s.dpc_end ≤ j.current + 8 * (s.words ++ new).length
    rw [List.length_append]
    rcases enqueue_mem hj with hj | ⟨-, -, hcur | ⟨k, hk, hgen, hcur⟩⟩
    · have := h.inside j hj hgen
      omega
    · have : j.current = s.dpc_submitted := hcur
      omega
    · have := h.inside k hk hgen
      omega
  · show (costSpan (s₁.fetch size s.rdpGen) s.cost s.dpc_submitted s.dpc_end).2.Near
    rw [costSpan_eq h.cost hc]
    exact runSpan_near h.cost hc
  · show s.drawn ++ ((runActive (s₁.fetch size) s.draw s.worker).1 ++
      (runQueue (s₁.fetch size) (runActive (s₁.fetch size) s.draw s.worker).2 _).1) =
        s.costed ++ (costSpan (s₁.fetch size s.rdpGen) s.cost s.dpc_submitted s.dpc_end).1
    rw [hactive, hadded, hcost, ← h.drawn]
    simp only [State.todo, List.append_assoc]
  · show (runQueue (s₁.fetch size) (runActive (s₁.fetch size) s.draw s.worker).2 _).2 =
      (costSpan (s₁.fetch size s.rdpGen) s.cost s.dpc_submitted s.dpc_end).2
    rw [hactive, hadded, hcost]
  · show s.costed ++ (costSpan (s₁.fetch size s.rdpGen) s.cost s.dpc_submitted s.dpc_end).1 =
      s.buffers.flatMap commands ++ commands (s.words ++ new)
    rw [hcost, hgiven, h.costed, State.given, List.append_assoc]
    rfl
  · show (costSpan (s₁.fetch size s.rdpGen) s.cost s.dpc_submitted s.dpc_end).2.start s.dpc_end =
      s.dpc_end - 8 * (cut cmdWords (s.words ++ new).length (s.words ++ new)).2.length
    rw [hcost, leaves_start, hleft]
    rfl
  · show span (s₁.fetch size s.rdpGen) (s.dpc_end - 8 * (s.words ++ new).length) s.dpc_end =
      s.words ++ new
    rw [List.length_append, show s.dpc_end - 8 * (s.words.length + new.length) =
      s.dpc_submitted - 8 * s.words.length by omega]
    exact h.copied_next hle
  · show (s.words ++ new).length + 22 ≤ maxCmds
    rw [List.length_append]
    omega
  · show 8 * (s.words ++ new).length ≤ s.dpc_end
    rw [List.length_append]
    omega

/-! A fresh START. -/

/-- Another generation that no span waits in. -/
theorem State.Inv.reload (h : s.Inv size) (hdrain : s.draining = false)
    (hvalid : s.startValid = true) (hfresh : s.Fresh) {gen : Nat}
    (hgen : ∀ p ∈ s.spans, p.1 ≠ gen) : (s.reload gen).Inv size := by
  obtain ⟨h8start, h8end, h8⟩ := h.aligned
  refine { h with
    aligned := ⟨h8start, h8end, h8start⟩
    behind := fun p hp heq => absurd heq (hgen p hp)
    inside := fun j hj heq => absurd heq
      (hgen (j.gen, j.stop) (List.mem_append_right _ (List.mem_map_of_mem hj)))
    costed := ?_, resume := ?_, copied := span_nil le_rfl, short := show 0 + 22 ≤ maxCmds by decide
    room := Nat.zero_le _, waits := fun hd => absurd (hdrain.symm.trans hd) Bool.false_ne_true }
  · show s.costed = (s.buffers ++ [s.words]).flatMap commands ++ commands []
    rw [h.costed, List.flatMap_append, List.flatMap_singleton]
    exact (List.append_nil _).symm
  · show s.cost.start s.dpc_start = s.dpc_start
    have hstart := hfresh hvalid
    unfold Resume.start
    cases hr : s.cost.resume with
    | none => rfl
    | some a =>
      rw [hr] at hstart
      exact if_neg (hstart (Option.some_ne_none a))

theorem State.Inv.freeGen (h : s.Inv size) {gen : Nat} (hgen : s.freeGen = some gen) :
    ∀ p ∈ s.spans, p.1 ≠ gen := by
  have hfree := List.find?_some hgen
  rw [Bool.and_eq_true, beq_iff_eq, h.busy, List.countP_eq_zero] at hfree
  intro p hp heq
  exact hfree.2 p hp (beq_iff_eq.mpr heq)

/-- A write of `DPC_END` with a fresh START. -/
theorem State.Inv.begin (h : s.Inv size) (hdrain : s.draining = false)
    (hvalid : s.startValid = true) (hfresh : s.Fresh)
    (hroom : s.frozen = false → Room s.kept s.from s.dpc_end) {gen : Nat}
    (hgen : ∀ p ∈ s.spans, p.1 ≠ gen) : ((s.reload gen).dpcAdvance size).Inv size := by
  refine (h.reload hdrain hvalid hfresh hgen).advance fun hfrozen => ?_
  have hspan := hroom hfrozen
  unfold State.kept State.from at hspan
  rwa [if_pos hvalid, if_pos hvalid] at hspan

/-! The worker. -/

theorem State.Inv.take (h : s.Inv size) {j : Job} {js : List Job} (hworker : s.worker = none)
    (hqueue : s.rdpQueue = j :: js) :
    { s with
      rdpQueue := js
      worker := some ⟨s.draw.start j.current, j.stop, j.gen, maxCmds⟩
      draw := ⟨none, j.stop⟩ : State }.Inv size := by
  have hj : j.Covers := h.queue j (hqueue ▸ List.mem_cons_self)
  have hsub {k : Job} (hk : k ∈ js) : k ∈ s.rdpQueue := hqueue ▸ List.mem_cons_of_mem j hk
  obtain ⟨h8, hle, hlt⟩ := h.draw.start hj.begins
  have hshort := hj.short
  have hjle := hj.le
  have hends := hj.ends
  have hspans : s.spans = (j.gen, j.stop) :: js.map fun j => (j.gen, j.stop) := by
    unfold State.spans
    rw [hworker, hqueue]
    rfl
  have htodo : s.todo size = runQueue (s.fetch size) s.draw (j :: js) := by
    unfold State.todo
    rw [hworker, hqueue]
    rfl
  have hdrawn := h.drawn
  have hpointer := h.pointer
  rw [htodo] at hdrawn hpointer
  exact { h with
    queue := fun k hk => h.queue k (hsub hk)
    worker := by rintro a ⟨⟩; exact ⟨h8, hends, by dsimp only; omega, by dsimp only; omega⟩
    guard := by rintro a ⟨⟩; exact le_rfl
    behind := fun p hp => h.behind p (hspans ▸ hp)
    inside := fun k hk => h.inside k (hsub hk)
    busy := fun g => (h.busy g).trans (by rw [hspans]; rfl)
    draw := ⟨hends, nofun⟩
    drawn := hdrawn
    pointer := hpointer }

theorem State.Inv.draw_step (h : s.Inv size) {cur stop gen guard : Nat} {ws : Command}
    (hworker : s.worker = some ⟨cur, stop, gen, guard + 1⟩)
    (hnext : nextCmd (s.fetch size gen) stop cur = some ws) :
    { s with
      drawn := s.drawn ++ [ws]
      worker := some ⟨cur + 8 * ws.length, stop, gen, guard⟩ : State }.Inv size := by
  have ha : Active.Covers ⟨cur, stop, gen, guard + 1⟩ := h.worker _ hworker
  obtain ⟨h8, hends, hle, hshort⟩ := ha
  dsimp only at h8 hends hle hshort
  obtain ⟨hpos, hfit⟩ := nextCmd_length hnext
  have hstop := hfit h8 hends
  have hguard := h.guard _ hworker
  dsimp only at hguard
  have hspans : s.spans = (gen, stop) :: s.rdpQueue.map fun j => (j.gen, j.stop) := by
    unfold State.spans
    rw [hworker]
    rfl
  have hactive : runActive (s.fetch size) s.draw s.worker =
      (ws :: (runActive (s.fetch size) s.draw (some ⟨cur + 8 * ws.length, stop, gen, guard⟩)).1,
        (runActive (s.fetch size) s.draw (some ⟨cur + 8 * ws.length, stop, gen, guard⟩)).2) := by
    rw [hworker]
    unfold runActive
    dsimp only
    rw [decode, hnext]
  have hdrawn := h.drawn
  have hpointer := h.pointer
  unfold State.todo at hdrawn hpointer
  rw [hactive] at hdrawn hpointer
  exact { h with
    worker := by rintro a ⟨⟩; exact ⟨by dsimp only; omega, hends, hstop, by dsimp only; omega⟩
    guard := by rintro a ⟨⟩; exact Nat.le_of_succ_le hguard
    behind := fun p hp => h.behind p (hspans ▸ hp)
    busy := fun g => (h.busy g).trans (by rw [hspans]; rfl)
    drawn := (List.append_assoc _ _ _).trans hdrawn
    pointer := hpointer }

theorem State.Inv.finish (h : s.Inv size) {cur stop gen guard : Nat}
    (hworker : s.worker = some ⟨cur, stop, gen, guard⟩)
    (hend : guard = 0 ∨ nextCmd (s.fetch size gen) stop cur = none) :
    { s with
      worker := none
      draw := .after cur stop
      rdpGenBusy := Function.update s.rdpGenBusy gen (s.rdpGenBusy gen - 1) : State }.Inv size := by
  have hspans : s.spans = (gen, stop) :: s.rdpQueue.map fun j => (j.gen, j.stop) := by
    unfold State.spans
    rw [hworker]
    rfl
  have hdecode : decode (s.fetch size gen) stop guard cur = ([], cur) := by
    rcases hend with rfl | hnone
    · rfl
    · cases guard with
      | zero => rfl
      | succ guard => rw [decode, hnone]
  have hactive : runActive (s.fetch size) s.draw s.worker = ([], .after cur stop) := by
    rw [hworker]
    unfold runActive
    dsimp only
    rw [hdecode]
  have hnear := @runActive_near (s.fetch size) _ _ h.draw h.worker h.guard
  have hdrawn := h.drawn
  have hpointer := h.pointer
  unfold State.todo at hdrawn hpointer
  rw [hactive] at hdrawn hpointer hnear
  exact { h with
    worker := nofun
    guard := nofun
    behind := fun p hp => h.behind p (hspans ▸ List.mem_cons_of_mem _ hp)
    busy := fun g => by
      have hcount := h.busy g
      rw [hspans, List.countP_cons] at hcount
      show Function.update s.rdpGenBusy gen (s.rdpGenBusy gen - 1) g =
        (s.rdpQueue.map fun j => (j.gen, j.stop)).countP (·.1 == g)
      by_cases hg : g = gen
      · rw [hg] at hcount ⊢
        rw [Function.update_self, hcount, if_pos (by simp), Nat.add_sub_cancel]
      · rw [Function.update_of_ne hg, hcount, if_neg (by simpa using Ne.symm hg), Nat.add_zero]
    draw := hnear
    drawn := hdrawn
    pointer := hpointer }

/-- Every step keeps the invariant, if the registers are used in order. -/
theorem State.Inv.step (h : s.Inv size) {a : Label} (hgood : Orderly s a)
    (hs : Fifo.step size s a = some s') : s'.Inv size := by
  obtain ⟨h8start, h8end, h8⟩ := h.aligned
  cases a with
  | poke p v =>
    obtain rfl := Option.some.inj hs
    exact { h with }
  | dpcStart v =>
    simp only [Fifo.step] at hs
    split_ifs at hs
    · obtain rfl := Option.some.inj hs
      exact h
    · obtain rfl := Option.some.inj hs
      exact { h with aligned := ⟨dpcAddr_aligned v, h8end, h8⟩, waits := fun _ => rfl }
  | dpcEnd v =>
    obtain ⟨hfresh, hroom⟩ := hgood
    have hnext : { s with dpc_end := dpcAddr v : State }.Inv size :=
      { h with aligned := ⟨h8start, dpcAddr_aligned v, h8⟩ }
    simp only [Fifo.step] at hs
    split_ifs at hs with hdrain hvalid
    · split at hs
      · next gen hgen =>
        obtain rfl := Option.some.inj hs
        exact hnext.begin (Bool.not_eq_true _ ▸ hdrain) hvalid hfresh hroom (hnext.freeGen hgen)
      · obtain rfl := Option.some.inj hs
        exact { hnext with waits := fun _ => hvalid }
    · obtain rfl := Option.some.inj hs
      refine hnext.advance fun hfrozen => ?_
      have hspan := hroom hfrozen
      unfold State.kept State.from at hspan
      rwa [if_neg hvalid, if_neg hvalid] at hspan
  | drained =>
    obtain ⟨hfresh, hroom⟩ := hgood
    simp only [Fifo.step] at hs
    split_ifs at hs with hidle
    obtain rfl := Option.some.inj hs
    rw [Bool.and_eq_true, Bool.and_eq_true, List.isEmpty_iff, Option.isNone_iff_eq_none] at hidle
    obtain ⟨⟨hdrain, hqueue⟩, hworker⟩ := hidle
    have hnext : { s with draining := false : State }.Inv size := { h with waits := nofun }
    -- no span is left in any generation
    have hspans : s.spans = [] := by
      unfold State.spans
      rw [hqueue, hworker]
      rfl
    refine hnext.begin rfl (h.waits hdrain) hfresh hroom fun p hp => ?_
    rw [show State.spans { s with draining := false } = [] from hspans] at hp
    exact absurd hp List.not_mem_nil
  | freeze =>
    simp only [Fifo.step] at hs
    split_ifs at hs
    obtain rfl := Option.some.inj hs
    exact { h with }
  | unfreeze =>
    simp only [Fifo.step] at hs
    split_ifs at hs with hdrain hsame
    · obtain rfl := Option.some.inj hs
      exact { h with }
    · obtain rfl := Option.some.inj hs
      have hnext : { s with frozen := false : State }.Inv size := { h with }
      exact hnext.advance fun _ => hgood hsame
  | take =>
    simp only [Fifo.step] at hs
    split at hs
    · next j js hworker hqueue =>
      obtain rfl := Option.some.inj hs
      exact h.take hworker hqueue
    · cases hs
  | draw =>
    simp only [Fifo.step] at hs
    split at hs
    · next cur stop gen guard hworker =>
      obtain ⟨ws, hnext, rfl⟩ := Option.map_eq_some_iff.mp hs
      exact h.draw_step hworker hnext
    · cases hs
  | finish =>
    simp only [Fifo.step] at hs
    split at hs
    · next cur stop gen guard hworker =>
      split_ifs at hs with hend
      obtain rfl := Option.some.inj hs
      exact h.finish hworker hend
    · cases hs

end Inv

instance (s : State) : Decidable s.Fresh := by unfold State.Fresh; infer_instance

instance (kept lo hi : Nat) : Decidable (Room kept lo hi) := inferInstanceAs (Decidable (_ ∧ _))

instance (s : State) (a : Label) : Decidable (Orderly s a) := by
  cases a <;> unfold Orderly <;> infer_instance

def powerOn (rdram : Nat → BitVec 8) : State where
  rdram := rdram
  rdpShadow := fun _ _ => 0
  rdpGen := 0
  rdpGenBusy := fun _ => 0
  rdpQueue := []
  worker := none
  draw := ⟨none, 0⟩
  cost := ⟨none, 0⟩
  dpc_start := 0
  dpc_end := 0
  dpc_submitted := 0
  startValid := false
  frozen := false
  draining := false
  costed := []
  drawn := []
  buffers := []
  words := []

theorem powerOn_init (rdram : Nat → BitVec 8) : Init (powerOn rdram) :=
  ⟨rfl, fun _ => rfl, rfl, rfl, rfl, rfl, rfl, rfl, rfl, rfl, rfl, rfl, rfl, rfl⟩

/-- A triangle of four words, and a `SYNC_FULL` behind it. -/
def triangleAndSync (a : Nat) : BitVec 8 := if a = 0 then 0x08 else if a = 32 then 0x29 else 0

/-- The triangle is given in two halves, and the first is written over before
    the second comes. -/
def halves : List Label :=
  [.dpcStart 0, .dpcEnd 16, .take, .finish, .poke 0 0xff, .dpcEnd 40, .take, .draw, .poke 32 0,
    .draw, .finish]

/-- `DPC_END` goes back to 16 while the span up to 40 waits: the span is made
    shorter, and what has been charged is never drawn. -/
theorem end_going_back_loses :
    ∃ tr s, (fifo 64).Run tr s ∧ s.rdpQueue = [] ∧ s.worker = none ∧ s.drawn = [] ∧
      s.costed.length = 2 := by
  obtain ⟨tr, s, hr, hp⟩ := @LTS.System.exists_run _ _ (fifo 64) _ (fun _ _ _ h => h) _
    (powerOn_init triangleAndSync) [.dpcStart 0, .dpcEnd 40, .dpcEnd 16, .take, .finish]
    (fun r => r.2.rdpQueue.isEmpty && r.2.worker.isNone && r.2.drawn.isEmpty &&
      r.2.costed.length == 2) (by decide +kernel)
  simp only [Bool.and_eq_true, beq_iff_eq, List.isEmpty_iff, Option.isNone_iff_eq_none] at hp
  exact ⟨tr, s, hr, hp.1.1.1, hp.1.1.2, hp.1.2, hp.2⟩

end Rcp.Fifo
