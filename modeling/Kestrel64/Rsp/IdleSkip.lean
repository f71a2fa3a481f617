import Kestrel64.Rsp.Control
import Kestrel64.Rcp.DpChange

/-! # RSP: Skipping Turns of a Wait Loop

    Microcode waits for the RDP by polling `DPC_CURRENT` or `DPC_STATUS`. When
    a poll finds the same PC, the same hash of the scalar registers, the same
    value and the same distance to the poll before as the last one did,
    `idleSkip` and `dpcFastJump` add whole turns to the clock and execute
    none of them, as far as the register polled is known not to change.

    What that needs is that a turn leads back to the very state it started
    from (`Idles`), and the signature does not say so: it covers neither the
    vector unit nor DMEM nor the RCP, and a hash can collide. A run all of
    whose skips are made in a loop that idles is the run without skips
    (`skipping_exact`); `vector_turn_lost` is one that is not.

    The schedule of the RDP is fixed; the CPU files nothing meanwhile. What
    depends on the host (how far the CPU has come, whether a wait was given
    up) is arbitrary at every poll. The PC of the signature is `pc`, which in
    compiled code is the PC of the block: `sigPc` is any function of the
    state.
-/

namespace Rsp

open Rcp (Schedule DpcPort Pace)

variable {X : Type}

/-! ## Section 1: Instructions on a clock -/

/-- `MFC0` of `DPC_CURRENT` or `DPC_STATUS`. -/
def pollPort (op : Word) : Option DpcPort :=
  if Word.maj op = 0x10 ∧ Word.rs op = 0x00 ∧ Word.rd op / 8 % 2 = 1 then
    if Word.rd op % 8 = 2 then some .current
    else if Word.rd op % 8 = 3 then some .status
    else none
  else none

def isMtc0 (op : Word) : Bool := decide (Word.maj op = 0x10) && decide (Word.rs op = 0x04)

/-- The core with the two registers answered as given. -/
def Exec.withDpc (E : Exec X) (answer : DpcPort → Nat → Word) : Exec X :=
  { E with
    special := fun cyc op rx =>
      match pollPort op with
      | some port => ⟨setR rx.1 (Word.rt op) (answer port cyc), rx.2, false, none⟩
      | none => E.special cyc op rx }

/-- One instruction at cycle `cyc`. The record of what was executed is not
    part of the state here. -/
def instr (E : Exec X) (cyc : Nat) (s : St X) : St X :=
  { (if s.core.halt then s else interpStep E cyc s) with trace := [] }

/-- `n` instructions, one a cycle. -/
def instrs (E : Exec X) : Nat → Nat → St X → St X
  | 0, _, s => s
  | n + 1, cyc, s => instrs E n (cyc + 1) (instr E cyc s)

/-- The launch of the task, in both clocks. -/
structure SpClock where
  pace : Pace
  spKickEdge : Nat
  spKickCycles : Nat

def SpClock.rspGuestNowAt (k : SpClock) (cyc : Nat) : Nat :=
  k.pace.rcpCyclesToOps (k.spKickEdge + (cyc - k.spKickCycles))

/-- RCP cycles that fit into so many operations. -/
def SpClock.rcpOpsToCycles (k : SpClock) (ops : Nat) : Nat := ops * k.pace.den / k.pace.num

/-- What the RSP reads of a fixed schedule. -/
def SpClock.reads (k : SpClock) (S : Schedule) (port : DpcPort) (cyc : Nat) : Word :=
  S.read port (k.rspGuestNowAt cyc)

/-! ## Section 2: The signature and the skip -/

/-- The last poll, and the cached answer. -/
structure IdleSig where
  idlePc : Nat
  idleHash : Word
  idleVal : Word
  idleAt : Nat
  idleLen : Nat
  idleHashOk : Bool
  dpcFastEnd : Nat
  dpcFastVal : Word
  deriving DecidableEq, Repr

/-- Four chains over `r1`..`r31`. -/
def hash31 (r : Regs) : Word :=
  let P : Word := 0x01000193
  let mix (h : Word) (i : Nat) : Word := (h ^^^ getR r i) * P
  let seed : Word := 0x811c9dc5
  let lane (first : Nat) : Word :=
    (List.range 7).foldl (fun h i => mix h (first + 4 * i)) seed
  let h0 := mix (lane 1) 29
  let h1 := mix (lane 2) 30
  let h2 := mix (lane 3) 31
  let h3 := lane 4
  ((h0 ^^^ h1) * P ^^^ (h2 ^^^ h3) * P) * P

def kParkLead : Nat := 2 ^ 24

/-- A poll, as the skip sees it. -/
structure Poll where
  pc : Nat
  hash : Word
  val : Word
  cyc : Nat

/-- Compares a poll with the last one and takes it down: the new signature
    and, if the two are alike, the length of a turn. -/
def IdleSig.take (g : IdleSig) (p : Poll) : IdleSig × Option Nat :=
  let len := p.cyc - g.idleAt
  let same := g.idleHashOk && g.idlePc == p.pc && g.idleHash == p.hash && g.idleVal == p.val &&
    g.idleLen == len
  ({ g with
      idlePc := p.pc, idleHash := p.hash, idleVal := p.val, idleLen := len, idleAt := p.cyc
      idleHashOk := true },
    if !same || decide (len < 2) || decide (64 < len) then none else some len)

/-- `k` turns of `len` cycles, `k` being what fits into `room` cycles. -/
def IdleSig.skip (g : IdleSig) (len room : Nat) : IdleSig × Nat :=
  let k := min (room / len) (2 ^ 20)
  ({ g with idleAt := g.idleAt + k * len }, k * len)

/-- The cycles in which the register polled is known not to change.
    `lifeguard` says that the wait for the CPU was given up. -/
def idleRoom (c : SpClock) (S : Schedule) (lifeguard : Bool) (now : Nat) (cur : Bool) (cyc : Nat) :
    Nat :=
  let until_ := S.dpNextChangeAt now cur
  if until_ = 0 then 0
  else
    -- `rspParkWait`
    let cap := if until_ < now + kParkLead then until_ else now + kParkLead
    let tgt := if lifeguard then 0 else cap
    if tgt ≤ now then 0
    else
      let absCyc := c.spKickEdge + (cyc - c.spKickCycles)
      let lastCyc := c.rcpOpsToCycles (tgt - 1)
      lastCyc - absCyc

/-- Returns the signature and how many cycles are skipped. -/
def idleSkip (c : SpClock) (S : Schedule) (lifeguard : Bool) (now : Nat) (cur : Bool) (p : Poll)
    (g : IdleSig) : IdleSig × Nat :=
  if S.dpDrainedAt now then
    ({ g with
        idlePc := p.pc, idleVal := p.val, idleLen := p.cyc - g.idleAt, idleAt := p.cyc
        idleHashOk := false }, 0)
  else
    match g.take p with
    | (g, none) => (g, 0)
    | (g, some len) => g.skip len (idleRoom c S lifeguard now cur p.cyc)

/-- Arms the cached answer; `nowMax` is how far the CPU was seen to be. -/
def dpcFastFill (c : SpClock) (S : Schedule) (nowMax now : Nat) (val : Word) (g : IdleSig) :
    IdleSig :=
  let g := { g with dpcFastEnd := 0 }
  if S.jobs.isEmpty || !S.dpDrainedAt now || decide (nowMax ≤ now) then g
  else
    let absEnd := c.rcpOpsToCycles nowMax
    if absEnd ≤ c.spKickEdge then g
    else { g with dpcFastVal := val, dpcFastEnd := c.spKickCycles + (absEnd - c.spKickEdge) }

def dpcFastJump (p : Poll) (g : IdleSig) : IdleSig × Nat :=
  match g.take p with
  | (g, none) => (g, 0)
  | (g, some len) => g.skip len (g.dpcFastEnd - p.cyc)

/-! ## Section 3: The core that skips -/

/-- What the host decides at a poll. -/
structure Host where
  nowMax : Nat
  lifeguard : Bool

structure Poller (X : Type) where
  s : St X
  cyc : Nat
  sig : IdleSig

variable (E : Exec X) (c : SpClock) (S : Schedule) (sigPc : St X → Nat)

/-- Is the poll answered from the cache? -/
def Poller.fast (p : Poller X) (port : DpcPort) : Bool :=
  decide (port = .current) && decide (p.sig.dpcFastEnd ≠ 0) && decide (p.cyc ≤ p.sig.dpcFastEnd)

/-- What a poll returns. -/
def Poller.answer (p : Poller X) (port : DpcPort) : Word :=
  if p.fast port then p.sig.dpcFastVal else c.reads S port p.cyc

/-- The state after a poll. -/
def Poller.polled (p : Poller X) (port : DpcPort) : St X :=
  instr (E.withDpc fun _ _ => p.answer c S port) p.cyc p.s

/-- The signature after a poll, and the cycles skipped. -/
def Poller.idle (h : Host) (p : Poller X) (port : DpcPort) : IdleSig × Nat :=
  let poll : Poll :=
    ⟨sigPc p.s, hash31 (p.polled E c S port).core.r, p.answer c S port, p.cyc⟩
  if p.fast port then dpcFastJump poll p.sig
  else
    let now := c.rspGuestNowAt p.cyc
    let g := if port = .current then dpcFastFill c S h.nowMax now poll.val p.sig else p.sig
    idleSkip c S h.lifeguard now (port = .current) poll g

def Poller.step (h : Host) (p : Poller X) : Poller X :=
  if p.s.core.halt then p
  else
    let op := p.s.core.imem p.s.pc.val
    match pollPort op with
    | none =>
      { s := instr (E.withDpc (c.reads S)) p.cyc p.s
        cyc := p.cyc + 1
        sig := if isMtc0 op then { p.sig with dpcFastEnd := 0 } else p.sig }
    | some port =>
      let (sig, skipped) := p.idle E c S sigPc h port
      { s := p.polled E c S port, cyc := p.cyc + 1 + skipped, sig := sig }

def Poller.run (hs : List Host) (p : Poller X) : Poller X :=
  hs.foldl (fun p h => p.step E c S sigPc h) p

/-! ## Section 4: Loops that idle -/

/-- With the register polled held at `val`, `len` instructions lead from `s`
    back to `s`, whenever they start and whatever the other register
    shows. -/
def Idles (port : DpcPort) (val : Word) (len : Nat) (s : St X) : Prop :=
  ∀ answer : DpcPort → Nat → Word, (∀ cyc, answer port cyc = val) →
    ∀ cyc, instrs (E.withDpc answer) len cyc s = s

/-- The condition on a step: a skip is made in a loop that idles, and an
    answer is cached only when every span filed has been seen. -/
def Poller.Sound (h : Host) (p : Poller X) : Prop :=
  p.s.core.halt = false → ∀ port ∈ pollPort (p.s.core.imem p.s.pc.val),
    ((p.idle E c S sigPc h port).2 ≠ 0 →
      Idles E port (p.answer c S port) (p.cyc - p.sig.idleAt) (p.polled E c S port)) ∧
    (p.fast port = false → port = .current → S.dpDrainedAt (c.rspGuestNowAt p.cyc) = true →
      ∀ j ∈ S.jobs, j.kickG ≤ c.rspGuestNowAt p.cyc)

/-- A run all of whose steps are so. -/
def Poller.Sounds : List Host → Poller X → Prop
  | [], _ => True
  | h :: hs, p => p.Sound E c S sigPc h ∧ Poller.Sounds hs (p.step E c S sigPc h)

/-! ## Section 5: Runs of instructions -/

section Runs

variable {E} {c} {S} {sigPc}

theorem instrs_add (E : Exec X) (m n cyc : Nat) (s : St X) :
    instrs E (m + n) cyc s = instrs E n (cyc + m) (instrs E m cyc s) := by
  induction m generalizing cyc s with
  | zero => rw [Nat.zero_add]; rfl
  | succ m ih =>
    rw [show m + 1 + n = (m + n) + 1 by omega, show cyc + (m + 1) = cyc + 1 + m by omega]
    exact ih (cyc + 1) (instr E cyc s)

/-- An instruction sees of the answers only the one it asks for. -/
theorem instr_congr {a b : DpcPort → Nat → Word} {cyc : Nat} {s : St X}
    (h : ∀ port ∈ pollPort (s.core.imem s.pc.val), a port cyc = b port cyc) :
    instr (E.withDpc a) cyc s = instr (E.withDpc b) cyc s := by
  have hspecial : (E.withDpc a).special cyc (s.core.imem s.pc.val) =
      (E.withDpc b).special cyc (s.core.imem s.pc.val) := by
    funext rx
    unfold Exec.withDpc
    dsimp only
    cases hop : pollPort (s.core.imem s.pc.val) with
    | none => rfl
    | some port =>
      dsimp only
      rw [h port hop]
  have hexec : exec (E.withDpc a) cyc (s.core.imem s.pc.val) s.core =
      exec (E.withDpc b) cyc (s.core.imem s.pc.val) s.core := by
    unfold exec
    rw [hspecial]
    rfl
  have hstep : interpStep (E.withDpc a) cyc s = interpStep (E.withDpc b) cyc s := by
    unfold interpStep
    dsimp only
    rw [hexec]
  unfold instr
  rw [hstep]

theorem instrs_congr {a b : DpcPort → Nat → Word} {n cyc : Nat}
    (h : ∀ port cyc', cyc ≤ cyc' → cyc' < cyc + n → a port cyc' = b port cyc') (s : St X) :
    instrs (E.withDpc a) n cyc s = instrs (E.withDpc b) n cyc s := by
  induction n generalizing cyc s with
  | zero => rfl
  | succ n ih =>
    unfold instrs
    rw [instr_congr fun port _ => h port cyc (Nat.le_refl _) (by omega)]
    exact ih (fun port cyc' hle hlt => h port cyc' (by omega) (by omega)) _

/-- Turns of a loop that idles, while the register polled stays. -/
theorem Idles.turns {port : DpcPort} {val : Word} {len : Nat} {s : St X}
    (h : Idles E port val len s) {answer : DpcPort → Nat → Word} {cyc k : Nat}
    (hval : ∀ cyc', cyc ≤ cyc' → cyc' < cyc + k * len → answer port cyc' = val) :
    instrs (E.withDpc answer) (k * len) cyc s = s := by
  induction k with
  | zero => rw [Nat.zero_mul]; rfl
  | succ k ih =>
    have hlast : instrs (E.withDpc answer) len (cyc + k * len) s = s := by
      -- the same answers, with the register polled held for good
      have hheld := h (fun port' cyc' => if port' = port then val else answer port' cyc')
        (fun _ => if_pos rfl) (cyc + k * len)
      refine Eq.trans (instrs_congr (fun port' cyc' hle hlt => ?_) s) hheld
      split_ifs with hport
      · rw [hport]
        refine hval cyc' (by omega) ?_
        rw [Nat.succ_mul]
        omega
      · rfl
    rw [Nat.succ_mul, instrs_add, ih fun cyc' hle hlt => hval cyc' hle ?_, hlast]
    rw [Nat.succ_mul]
    omega

/-! ## Section 6: How far a skip reaches -/

/-- The instant of a cycle that fits is no later. -/
theorem cyclesToOps_le {x ops : Nat} (h : x ≤ c.rcpOpsToCycles ops) :
    c.pace.rcpCyclesToOps x ≤ ops := by
  have hmul : x * c.pace.num ≤ ops * c.pace.den :=
    (Nat.mul_le_mul_right _ h).trans (Nat.div_mul_le_self _ _)
  unfold Pace.rcpCyclesToOps
  obtain hden | hden := Nat.eq_zero_or_pos c.pace.den
  · rw [hden, Nat.div_zero]
    exact Nat.zero_le _
  · refine Nat.le_of_lt_succ ((Nat.div_lt_iff_lt_mul hden).mpr ?_)
    rw [Nat.succ_mul]
    omega

theorem idleRoom_spec {lifeguard cur : Bool} {now cyc cyc' : Nat}
    (hpos : idleRoom c S lifeguard now cur cyc ≠ 0)
    (h : cyc' ≤ cyc + idleRoom c S lifeguard now cur cyc) :
    c.rspGuestNowAt cyc' < S.dpNextChangeAt now cur := by
  unfold idleRoom at hpos h
  dsimp only at hpos h
  by_cases hnone : S.dpNextChangeAt now cur = 0
  · rw [if_pos hnone] at hpos
    exact absurd rfl hpos
  rw [if_neg hnone] at hpos h
  -- where the wait ends
  generalize htgt : (if lifeguard = true then 0 else
    if S.dpNextChangeAt now cur < now + kParkLead then S.dpNextChangeAt now cur
    else now + kParkLead) = tgt at hpos h
  have hle : tgt ≤ S.dpNextChangeAt now cur := by
    rw [← htgt]
    split_ifs <;> omega
  by_cases hnow : tgt ≤ now
  · rw [if_pos hnow] at hpos
    exact absurd rfl hpos
  rw [if_neg hnow] at hpos h
  have hfit : c.rspGuestNowAt cyc' ≤ tgt - 1 := cyclesToOps_le (by omega)
  omega

theorem IdleSig.take_some {g : IdleSig} {p : Poll} {len : Nat} (h : (g.take p).2 = some len) :
    len = p.cyc - g.idleAt := by
  unfold IdleSig.take at h
  dsimp only at h
  split_ifs at h with hsame
  exact (Option.some.inj h).symm

theorem IdleSig.skip_le (g : IdleSig) (len room : Nat) :
    ∃ k, (g.skip len room).2 = k * len ∧ k * len ≤ room :=
  ⟨_, rfl, (Nat.mul_le_mul_right len (Nat.min_le_left _ _)).trans (Nat.div_mul_le_self _ _)⟩

/-- A skip is whole turns, and ends before the register may change. -/
theorem idleSkip_spec {lifeguard cur : Bool} {now : Nat} {p : Poll} {g : IdleSig}
    (h : (idleSkip c S lifeguard now cur p g).2 ≠ 0) :
    ∃ k, (idleSkip c S lifeguard now cur p g).2 = k * (p.cyc - g.idleAt) ∧
      ∀ cyc', cyc' ≤ p.cyc + k * (p.cyc - g.idleAt) →
        c.rspGuestNowAt cyc' < S.dpNextChangeAt now cur := by
  unfold idleSkip at h ⊢
  by_cases hdrained : S.dpDrainedAt now = true
  · rw [if_pos hdrained] at h
    exact absurd rfl h
  rw [if_neg hdrained] at h ⊢
  have hlen := @IdleSig.take_some g p
  generalize g.take p = taken at hlen h ⊢
  obtain ⟨g', len⟩ := taken
  cases len with
  | none => exact absurd rfl h
  | some len =>
    rw [hlen rfl] at h ⊢
    obtain ⟨k, hk, hle⟩ := g'.skip_le (p.cyc - g.idleAt) (idleRoom c S lifeguard now cur p.cyc)
    refine ⟨k, hk, fun cyc' hcyc => idleRoom_spec ?_ (hcyc.trans (Nat.add_le_add_left hle _))⟩
    intro hzero
    rw [hk] at h
    omega

theorem dpcFastJump_spec {p : Poll} {g : IdleSig} (h : (dpcFastJump p g).2 ≠ 0) :
    ∃ k, (dpcFastJump p g).2 = k * (p.cyc - g.idleAt) := by
  unfold dpcFastJump at h ⊢
  have hlen := @IdleSig.take_some g p
  generalize g.take p = taken at hlen h ⊢
  obtain ⟨g', len⟩ := taken
  cases len with
  | none => exact absurd rfl h
  | some len =>
    rw [hlen rfl]
    exact ⟨_, rfl⟩

/-! Polls do not touch the cached answer. -/

theorem IdleSig.skip_fast (g : IdleSig) (len room : Nat) :
    (g.skip len room).1.dpcFastEnd = g.dpcFastEnd ∧
      (g.skip len room).1.dpcFastVal = g.dpcFastVal := by
  unfold IdleSig.skip
  exact ⟨rfl, rfl⟩

theorem IdleSig.take_fast (g : IdleSig) (p : Poll) : (g.take p).1.dpcFastEnd = g.dpcFastEnd ∧
    (g.take p).1.dpcFastVal = g.dpcFastVal := ⟨rfl, rfl⟩

theorem idleSkip_fast (lifeguard cur : Bool) (now : Nat) (p : Poll) (g : IdleSig) :
    (idleSkip c S lifeguard now cur p g).1.dpcFastEnd = g.dpcFastEnd ∧
      (idleSkip c S lifeguard now cur p g).1.dpcFastVal = g.dpcFastVal := by
  unfold idleSkip
  split_ifs with hdrained
  · exact ⟨rfl, rfl⟩
  have htake := g.take_fast p
  generalize g.take p = taken at htake ⊢
  obtain ⟨g', len⟩ := taken
  cases len with
  | none => exact htake
  | some len =>
    have hskip := g'.skip_fast len (idleRoom c S lifeguard now cur p.cyc)
    exact ⟨hskip.1.trans htake.1, hskip.2.trans htake.2⟩

theorem dpcFastJump_fast (p : Poll) (g : IdleSig) :
    (dpcFastJump p g).1.dpcFastEnd = g.dpcFastEnd ∧
      (dpcFastJump p g).1.dpcFastVal = g.dpcFastVal := by
  unfold dpcFastJump
  have htake := g.take_fast p
  generalize g.take p = taken at htake ⊢
  obtain ⟨g', len⟩ := taken
  cases len with
  | none => exact htake
  | some len =>
    have hskip := g'.skip_fast len (g'.dpcFastEnd - p.cyc)
    exact ⟨hskip.1.trans htake.1, hskip.2.trans htake.2⟩

/-- Arming the cache: nothing is cached, or with the engine drained what was
    read. The last poll stays. -/
theorem dpcFastFill_cases (nowMax now : Nat) (val : Word) (g : IdleSig) :
    (dpcFastFill c S nowMax now val g).idleAt = g.idleAt ∧
      ((dpcFastFill c S nowMax now val g).dpcFastEnd = 0 ∨
        S.dpDrainedAt now = true ∧ (dpcFastFill c S nowMax now val g).dpcFastVal = val) := by
  unfold dpcFastFill
  dsimp only
  split_ifs with hoff hend
  · exact ⟨rfl, .inl rfl⟩
  · exact ⟨rfl, .inl rfl⟩
  · refine ⟨rfl, .inr ⟨?_, rfl⟩⟩
    rw [Bool.or_eq_true, Bool.or_eq_true, not_or, not_or, Bool.not_eq_true', Bool.not_eq_false] at hoff
    exact hoff.1.2

/-! ## Section 7: The core that skips against the core that does not -/

/-- The cached answer is right from now on. -/
def Poller.FastOk (c : SpClock) (S : Schedule) (p : Poller X) : Prop :=
  p.sig.dpcFastEnd ≠ 0 → ∀ cyc, p.cyc ≤ cyc → c.reads S .current cyc = p.sig.dpcFastVal

/-- The state is that of the run without skips at the same cycle. -/
structure Poller.Exact (E : Exec X) (c : SpClock) (S : Schedule) (s₀ : St X) (cyc₀ : Nat)
    (p : Poller X) : Prop where
  later : cyc₀ ≤ p.cyc
  state : instrs (E.withDpc (c.reads S)) (p.cyc - cyc₀) cyc₀ s₀ = p.s
  fast : p.FastOk c S

theorem rspGuestNowAt_mono {a b : Nat} (h : a ≤ b) : c.rspGuestNowAt a ≤ c.rspGuestNowAt b := by
  unfold SpClock.rspGuestNowAt Pace.rcpCyclesToOps
  refine Nat.div_le_div_right (Nat.sub_le_sub_right (Nat.add_le_add_right ?_ _) 1)
  exact Nat.mul_le_mul_right _ (by omega)

theorem Poller.answer_eq {p : Poller X} (h : p.FastOk c S) (port : DpcPort) :
    p.answer c S port = c.reads S port p.cyc := by
  unfold Poller.answer
  split_ifs with hfast
  · unfold Poller.fast at hfast
    rw [Bool.and_eq_true_iff, Bool.and_eq_true_iff, decide_eq_true_eq, decide_eq_true_eq] at hfast
    rw [hfast.1.1, h hfast.1.2 p.cyc (Nat.le_refl _)]
  · rfl

/-- While turns are skipped the register polled does not change. -/
theorem Poller.idle_const {h : Host} {p : Poller X} (hfast : p.FastOk c S) {port : DpcPort}
    (hskip : (p.idle E c S sigPc h port).2 ≠ 0) :
    ∃ k, (p.idle E c S sigPc h port).2 = k * (p.cyc - p.sig.idleAt) ∧
      ∀ cyc', p.cyc ≤ cyc' → cyc' ≤ p.cyc + k * (p.cyc - p.sig.idleAt) →
        c.reads S port cyc' = p.answer c S port := by
  rw [Poller.answer_eq hfast]
  unfold Poller.idle at hskip ⊢
  by_cases hhit : p.fast port = true
  · rw [if_pos hhit] at hskip ⊢
    obtain ⟨k, hk⟩ := dpcFastJump_spec hskip
    refine ⟨k, hk, fun cyc' hle _ => ?_⟩
    unfold Poller.fast at hhit
    rw [Bool.and_eq_true_iff, Bool.and_eq_true_iff, decide_eq_true_eq, decide_eq_true_eq] at hhit
    rw [hhit.1.1, hfast hhit.1.2 cyc' hle, hfast hhit.1.2 p.cyc (Nat.le_refl _)]
  · rw [if_neg hhit] at hskip ⊢
    -- arming the cache does not move the last poll
    have hat (now nowMax : Nat) (val : Word) :
        (if port = .current then dpcFastFill c S nowMax now val p.sig else p.sig).idleAt =
          p.sig.idleAt := by
      split_ifs
      · exact (dpcFastFill_cases nowMax now val p.sig).1
      · rfl
    obtain ⟨k, hk, hreach⟩ := idleSkip_spec hskip
    rw [hat] at hk hreach
    refine ⟨k, hk, fun cyc' hle hcyc => ?_⟩
    exact S.read_const port (rspGuestNowAt_mono hle) (.inr (hreach cyc' hcyc))

/-- One step of the core that skips. -/
theorem Poller.Exact.step {s₀ : St X} {cyc₀ : Nat} {p : Poller X} (h : p.Exact E c S s₀ cyc₀)
    {host : Host} (hs : p.Sound E c S sigPc host) :
    (p.step E c S sigPc host).Exact E c S s₀ cyc₀ := by
  unfold Poller.step
  cases hhalt : p.s.core.halt with
  | true =>
    rw [if_pos rfl]
    exact h
  | false =>
    rw [if_neg Bool.false_ne_true]
    -- one more instruction, and as many turns as are skipped
    have hmore (n : Nat) : instrs (E.withDpc (c.reads S)) (p.cyc + 1 + n - cyc₀) cyc₀ s₀ =
        instrs (E.withDpc (c.reads S)) n (p.cyc + 1) (instr (E.withDpc (c.reads S)) p.cyc p.s) := by
      have hlater := h.later
      rw [show p.cyc + 1 + n - cyc₀ = (p.cyc - cyc₀) + (1 + n) by omega, instrs_add, h.state,
        show cyc₀ + (p.cyc - cyc₀) = p.cyc by omega, instrs_add]
      rfl
    dsimp only
    cases hop : pollPort (p.s.core.imem p.s.pc.val) with
    | none =>
      refine ⟨h.later.trans (Nat.le_succ _), hmore 0, ?_⟩
      unfold Poller.FastOk
      dsimp only
      intro hend cyc hle
      split_ifs at hend ⊢
      · exact absurd rfl hend
      · exact h.fast hend cyc (by omega)
    | some port =>
      obtain ⟨hidle, hseen⟩ := hs hhalt port hop
      have hanswer := Poller.answer_eq h.fast port
      have hpolled : p.polled E c S port = instr (E.withDpc (c.reads S)) p.cyc p.s := by
        refine instr_congr fun port' hport' => ?_
        rw [Option.some.inj (hop.symm.trans hport'), ← Option.some.inj (hop.symm.trans hport')]
        exact hanswer
      dsimp only
      refine ⟨Nat.le_trans h.later (by dsimp only; omega), ?_, ?_⟩
      · dsimp only
        rw [hmore, ← hpolled]
        by_cases hskip : (p.idle E c S sigPc host port).2 = 0
        · rw [hskip]
          rfl
        · obtain ⟨k, hk, hconst⟩ := Poller.idle_const h.fast hskip
          rw [hk]
          exact (hidle hskip).turns fun cyc' hle hlt => hconst cyc' (by omega) (by omega)
      · unfold Poller.FastOk
        dsimp only
        intro hend cyc hle
        unfold Poller.idle at hend ⊢
        by_cases hhit : p.fast port = true
        · rw [if_pos hhit] at hend ⊢
          rw [(dpcFastJump_fast _ p.sig).1] at hend
          rw [(dpcFastJump_fast _ p.sig).2]
          exact h.fast hend cyc (by omega)
        · rw [if_neg hhit] at hend ⊢
          dsimp only at hend ⊢
          rw [(idleSkip_fast _ _ _ _ _).1] at hend
          rw [(idleSkip_fast _ _ _ _ _).2]
          split_ifs at hend ⊢ with hport
          · -- the answer just read, if it was cached
            obtain ⟨-, hoff | ⟨hdrained, hval⟩⟩ := dpcFastFill_cases (c := c) (S := S) host.nowMax
              (c.rspGuestNowAt p.cyc) (p.answer c S port) p.sig
            · exact absurd hoff hend
            · rw [hval, hanswer, hport]
              exact S.read_drained .current (rspGuestNowAt_mono (by omega)) hdrained
                (hseen (Bool.eq_false_iff.mpr hhit) hport hdrained)
          · exact h.fast hend cyc (by omega)

theorem Poller.Exact.run {s₀ : St X} {cyc₀ : Nat} {p : Poller X} (h : p.Exact E c S s₀ cyc₀)
    {hosts : List Host} (hs : Poller.Sounds E c S sigPc hosts p) :
    (p.run E c S sigPc hosts).Exact E c S s₀ cyc₀ := by
  induction hosts generalizing p with
  | nil => exact h
  | cons host hosts ih => exact ih (h.step hs.1) hs.2

end Runs

/-- **Skipping is exact in loops that idle.** The core that skips is, at
    every cycle it stops at, where the core that executes every instruction
    is at that cycle: registers, vector unit, DMEM and RCP. -/
theorem skipping_exact (s : St X) (cyc : Nat) (sig : IdleSig) (hoff : sig.dpcFastEnd = 0)
    (hosts : List Host) (hs : Poller.Sounds E c S sigPc hosts ⟨s, cyc, sig⟩) :
    let p := Poller.run E c S sigPc hosts ⟨s, cyc, sig⟩
    cyc ≤ p.cyc ∧ p.s = instrs (E.withDpc (c.reads S)) (p.cyc - cyc) cyc s := by
  have hstart : Poller.Exact E c S s cyc ⟨s, cyc, sig⟩ :=
    ⟨Nat.le_refl _, by dsimp only; rw [Nat.sub_self]; rfl, fun hon => absurd hoff hon⟩
  have h := hstart.run hs
  exact ⟨h.later, h.state.symm⟩

/-! ## Section 8: Two loops -/

/-- One lane of `v1` and one of `v2`; `VADD v1, v1, v2` adds them. -/
def laneExec : Exec (BitVec 16 × BitVec 16) where
  plain := fun op rx => if op = 0x4a020850 then (rx.1, rx.2.1 + rx.2.2, rx.2.2) else rx
  special := fun _ _ rx => ⟨rx.1, rx.2, false, none⟩

/-- `MFC0 r1, DPC_STATUS`, `body`, `J 0`, `NOP`. -/
def waitLoop (body : Word) : Imem := fun a =>
  if a = 0 then 0x40015800 else if a = 1 then body else if a = 2 then 0x08000000 else 0

/-- One span of the RDP, from 0 to 16. -/
def oneSpan : Schedule where
  jobs := [⟨0, 8, 0, 16, 0, false⟩]
  dpc_current := 0
  dpc_status := 0
  rdpHwHung := false
  ends := List.pairwise_singleton _ _
  stamps := List.pairwise_singleton _ _
  fits := by
    intro j hj
    rw [List.mem_singleton.mp hj]
    exact ⟨by decide, by decide⟩

/-- Somewhere in the loop. -/
def looping (body : Word) (r : Regs) (pc : Pc) (inDelay : Bool) : St (BitVec 16 × BitVec 16) where
  core := { r := r, x := (0, 1), imem := waitLoop body, halt := false }
  pc := pc
  inDelay := inDelay
  pendingTarget := 0
  trace := []

/-- At the poll, `r1` being what the register showed last. -/
def polling (body : Word) : St (BitVec 16 × BitVec 16) :=
  looping body (setR (fun _ => 0) 1 0x1c0) 0 false

def oneToOne : SpClock := ⟨⟨1, 1⟩, 0, 0⟩

/-- The last poll was four cycles ago, and alike. -/
def alike : IdleSig := ⟨0, hash31 (polling 0).core.r, 0x1c0, 4, 4, true, 0, 0⟩

/-- Setting a register to what it was set to. -/
theorem setR_setR (r : Regs) (n : Nat) (v : Word) : setR (setR r n v) n v = setR r n v := by
  funext j
  unfold setR
  split_ifs <;> rfl

theorem waitLoop_idles :
    Idles laneExec .status 0x1c0 4 (instr (laneExec.withDpc fun _ _ => 0x1c0) 8 (polling 0)) := by
  intro answer h cyc
  have hpoll (answer : DpcPort → Nat → Word) (cyc : Nat) (r : Regs) :
      instr (laneExec.withDpc answer) cyc (looping 0 r 0 false) =
        looping 0 (setR r 1 (answer .status cyc)) 1 false := by
    have hkind : classify (waitLoop 0 0) = .cop0 := by decide
    have hport : pollPort (waitLoop 0 0) = some .status := by decide
    have hrt : Word.rt (waitLoop 0 0) = 1 := by decide
    unfold instr interpStep exec Exec.withDpc looping
    simp only [hkind, hport, hrt, Fin.val_zero, reduceCtorEq, if_false, Bool.false_eq_true]
    rfl
  have hnop (cyc : Nat) (r : Regs) :
      instr (laneExec.withDpc answer) cyc (looping 0 r 1 false) = looping 0 r 2 false := by
    with_unfolding_all rfl
  have hjump (cyc : Nat) (r : Regs) :
      instr (laneExec.withDpc answer) cyc (looping 0 r 2 false) = looping 0 r 3 true := by
    have hkind : classify (waitLoop 0 2) = .branch := by decide
    have hjump : execBranch (waitLoop 0 2) 2 r = (r, some 0) := rfl
    unfold instr interpStep looping
    simp only [hkind, hjump, Fin.val_two, Bool.false_eq_true, if_false, if_true]
    rfl
  have hslot (cyc : Nat) (r : Regs) :
      instr (laneExec.withDpc answer) cyc (looping 0 r 3 true) = looping 0 r 0 false := by
    with_unfolding_all rfl
  unfold polling
  rw [hpoll]
  unfold instrs instrs instrs instrs instrs
  rw [hnop, hjump, hslot, hpoll, h, setR_setR]

/-- A loop of four instructions that only waits: at cycle 8 one turn is
    skipped. -/
theorem skipping_exact_sample :
    let p := Poller.run laneExec oneToOne oneSpan (·.pc.val) [⟨0, false⟩] ⟨polling 0, 8, alike⟩
    p.cyc = 13 ∧ p.s = instrs (laneExec.withDpc (oneToOne.reads oneSpan)) 5 8 (polling 0) := by
  have hs : Poller.Sounds laneExec oneToOne oneSpan (·.pc.val) [⟨0, false⟩]
      ⟨polling 0, 8, alike⟩ := by
    refine ⟨fun _ port hport => ?_, trivial⟩
    obtain rfl : DpcPort.status = port := Option.some.inj hport
    exact ⟨fun _ => waitLoop_idles, fun _ => nofun⟩
  exact ⟨by decide, (skipping_exact laneExec oneToOne oneSpan (·.pc.val) (polling 0) 8 alike rfl
    [⟨0, false⟩] hs).2⟩

/-- The same loop with `VADD v1, v1, v2` in it: the skipped turn is missing
    from `v1`. -/
theorem vector_turn_lost :
    let p := Poller.run laneExec oneToOne oneSpan (·.pc.val) [⟨0, false⟩]
      ⟨polling 0x4a020850, 8, alike⟩
    p.cyc = 13 ∧
      p.s.core.x ≠
        (instrs (laneExec.withDpc (oneToOne.reads oneSpan)) 5 8 (polling 0x4a020850)).core.x := by
  decide

end Rsp
