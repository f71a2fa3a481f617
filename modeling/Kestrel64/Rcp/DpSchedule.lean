import Mathlib.Tactic.Linarith
import Kestrel64.Lib.RingLog

/-! # RCP: The Schedule of the RDP

    Every span of RDP commands is given its start and its end in guest time
    when `DPC_END` is written (`dpScheduleSpan`, `dpScheduleReload`), in a
    ring of 256 slots. What the guest sees of the engine afterwards
    (`dpVisibleAt`, `dpCompletedAt`, `dpcCurrentFor`) follows from the ring
    and from the reader's own clock. Readers scan forward from a cursor of
    their thread.

    The log of a run holds every span since the last reset, and `Inv` is what
    the ring and the cursors keep of it. The readers answer for the log
    (`dp_schedule`) as long as

    * stamps do not go back: the CPU's spans are visible one instant after
      their kick and the RSP's at it, so that the RSP must not file a span at
      the kick of a CPU's span just before;
    * a thread that reads for the first time since a reset has no cursor that
      points past a span not yet due: cursors survive resets;
    * the product in `dpcCurrentFor` fits in 64 bits.

    `stale_cursor_and_crossed_stamps` breaks the first two.

    Instants are natural numbers. What a span costs is what the cost pass
    charged for it, and any number here.
-/

namespace Rcp

/-! ## Section 1: The ring -/

/-- A slot of the ring: `dpJobAddr`, `dpJobEndAddr`, `dpJobStartG`,
    `dpJobEndG`, `dpJobKickG` and `dpJobSync`. -/
structure DpJob where
  addr : Nat
  endAddr : Nat
  startG : Nat
  endG : Nat
  kickG : Nat
  sync : Bool
  deriving DecidableEq, Repr

def kDpRingN : Nat := 256

structure Dp where
  dpSubSeq : Nat
  dpSchedEnd : Nat
  jobs : Nat → DpJob
  dpc_current : Nat

def Dp.slot (d : Dp) (seq : Nat) : DpJob := d.jobs (seq % kDpRingN)

/-- The CPU's clock against the RCP's: `paceCpuNum / paceCpuDen`. -/
structure Pace where
  num : Nat
  den : Nat
  deriving DecidableEq, Repr

def Pace.rcpCyclesToOps (p : Pace) (cyc : Nat) : Nat := (cyc * p.num + p.den - 1) / p.den

/-- From when a reader sees a span: the RSP's from its kick, the CPU's from
    the next instruction. -/
def kickStamp (rsp : Bool) (kick : Nat) : Nat := if rsp then kick else kick + 1

def Dp.spanJob (p : Pace) (d : Dp) (rsp : Bool) (current stop : Nat) (sync : Bool)
    (cost kick : Nat) : DpJob :=
  let t0 := if d.dpSchedEnd < kick then kick else d.dpSchedEnd
  { addr := current, endAddr := stop, startG := t0, endG := t0 + p.rcpCyclesToOps cost
    kickG := kickStamp rsp kick, sync := sync }

/-- An empty span, for a `DPC_CURRENT` reloaded while the RDP is frozen. -/
def Dp.reloadJob (d : Dp) (rsp : Bool) (addr kick : Nat) : DpJob :=
  let kg := kickStamp rsp kick
  let t := if d.dpSchedEnd < kg then kg else d.dpSchedEnd
  { addr := addr, endAddr := addr, startG := t, endG := t, kickG := kg, sync := false }

/-- Files a span in the next slot. -/
def Dp.file (d : Dp) (j : DpJob) : Dp :=
  { d with
    jobs := Function.update d.jobs (d.dpSubSeq % kDpRingN) j
    dpSchedEnd := j.endG
    dpSubSeq := d.dpSubSeq + 1 }

def Dp.dpScheduleSpan (p : Pace) (d : Dp) (rsp : Bool) (current stop : Nat) (sync : Bool)
    (cost kick : Nat) : Dp :=
  d.file (d.spanJob p rsp current stop sync cost kick)

def Dp.dpScheduleReload (d : Dp) (rsp : Bool) (addr kick : Nat) : Dp :=
  d.file (d.reloadJob rsp addr kick)

def Dp.rcpSchedReset (d : Dp) : Dp :=
  { d with
    dpSubSeq := 0
    dpSchedEnd := 0
    jobs := fun i =>
      { addr := 0, endAddr := 0, startG := 0, endG := 0, kickG := 0, sync := (d.jobs i).sync } }

/-! ## Section 2: The readers -/

/-- Where the scan starts. -/
def dpClip (sub cur : Nat) : Nat :=
  let cur := if sub < kDpRingN then (if sub < cur then 0 else cur)
    else if cur < sub - kDpRingN then sub - kDpRingN else cur
  if sub < cur then sub else cur

/-- The loop of `dpScanFwd`, for `n` more slots. -/
def dpScan (stamp : Nat → Nat) (now : Nat) : Nat → Nat → Nat
  | 0, cur => cur
  | n + 1, cur => if stamp (cur % kDpRingN) ≤ now then dpScan stamp now n (cur + 1) else cur

def dpScanFwd (stamp : Nat → Nat) (sub now cur : Nat) : Nat :=
  dpScan stamp now (sub - dpClip sub cur) (dpClip sub cur)

/-- The cursors of a thread. -/
structure DpCursors where
  vis : Nat
  comp : Nat
  deriving DecidableEq, Repr

structure DpSys (T : Type) where
  dp : Dp
  tl : T → DpCursors

variable {T : Type} [DecidableEq T]

def DpSys.dpVisibleAt (th : T) (now : Nat) (s : DpSys T) : DpSys T × Nat :=
  let cur := dpScanFwd (fun i => (s.dp.jobs i).kickG) s.dp.dpSubSeq now (s.tl th).vis
  ({ s with tl := Function.update s.tl th { s.tl th with vis := cur } }, cur)

def DpSys.dpCompletedAt (th : T) (now : Nat) (s : DpSys T) : DpSys T × Nat :=
  let cur := dpScanFwd (fun i => (s.dp.jobs i).endG) s.dp.dpSubSeq now (s.tl th).comp
  ({ s with tl := Function.update s.tl th { s.tl th with comp := cur } }, cur)

/-- How far the engine is in a span at `now`, in words of eight bytes. -/
def DpJob.progress (j : DpJob) (now : Nat) : Nat :=
  if j.endAddr ≤ j.addr ∨ now ≤ j.startG then j.addr
  else if j.endG ≤ j.startG ∨ j.endG ≤ now then j.endAddr
  else
    let span := j.endAddr - j.addr
    let adv := span * (now - j.startG) % 2 ^ 64 / (j.endG - j.startG) % 2 ^ 32
    j.addr + adv / 8 * 8

def DpSys.dpcCurrentFor (th : T) (now : Nat) (s : DpSys T) : DpSys T × Nat :=
  let (s, c) := s.dpCompletedAt th now
  let (s, sub) := s.dpVisibleAt th now
  let c := if sub < c then sub else c
  (s,
    if c < sub then (s.dp.slot c).progress now
    else if 0 < c then (s.dp.slot (c - 1)).endAddr
    else s.dp.dpc_current)

/-! ## Section 3: Runs -/

inductive DpEvent (T : Type) where
  | span (rsp : Bool) (current stop : Nat) (sync : Bool) (cost kick : Nat)
  | reload (rsp : Bool) (addr kick : Nat)
  | reset
  | visible (th : T) (now : Nat)
  | completed (th : T) (now : Nat)
  | current (th : T) (now : Nat)
  deriving DecidableEq, Repr

/-- A span in the log: who filed it, at which kick, and its dates. -/
structure Filed where
  rsp : Bool
  kick : Nat
  job : DpJob
  deriving DecidableEq, Repr

/-- A thread as a reader since the last reset: its clock, and which of its
    cursors it has used. -/
structure DpWatch where
  clock : Nat
  vis : Bool
  comp : Bool
  deriving DecidableEq, Repr

/-- The system with the history of the run since the last reset. -/
structure DpRun (T : Type) where
  sys : DpSys T
  log : List Filed
  kick : Nat
  watch : T → DpWatch

def DpRun.init (dpc_current : Nat) : DpRun T where
  sys :=
    { dp := { dpSubSeq := 0, dpSchedEnd := 0, jobs := fun _ => ⟨0, 0, 0, 0, 0, false⟩
              dpc_current := dpc_current }
      tl := fun _ => ⟨0, 0⟩ }
  log := []
  kick := 0
  watch := fun _ => ⟨0, false, false⟩

def DpRun.step (p : Pace) (r : DpRun T) : DpEvent T → DpRun T
  | .span rsp current stop sync cost kick =>
    { r with
      sys := { r.sys with dp := r.sys.dp.dpScheduleSpan p rsp current stop sync cost kick }
      log := r.log ++ [⟨rsp, kick, r.sys.dp.spanJob p rsp current stop sync cost kick⟩]
      kick := kick }
  | .reload rsp addr kick =>
    { r with
      sys := { r.sys with dp := r.sys.dp.dpScheduleReload rsp addr kick }
      log := r.log ++ [⟨rsp, kick, r.sys.dp.reloadJob rsp addr kick⟩]
      kick := kick }
  | .reset =>
    { sys := { r.sys with dp := r.sys.dp.rcpSchedReset }, log := [], kick := 0
      watch := fun _ => ⟨0, false, false⟩ }
  | .visible th now =>
    { r with
      sys := (r.sys.dpVisibleAt th now).1
      watch := Function.update r.watch th { r.watch th with clock := now, vis := true } }
  | .completed th now =>
    { r with
      sys := (r.sys.dpCompletedAt th now).1
      watch := Function.update r.watch th { r.watch th with clock := now, comp := true } }
  | .current th now =>
    { r with
      sys := (r.sys.dpcCurrentFor th now).1
      watch := Function.update r.watch th ⟨now, true, true⟩ }

/-- Spans that the reader has not seen, or not seen closed. -/
def DpRun.unfinished (r : DpRun T) (now : Nat) : Nat :=
  r.log.countP fun f => decide (now < f.job.endG) || decide (now < f.job.kickG)

/-- What callers keep to: kicks and clocks do not go back between resets,
    and the ring holds whatever a reader may still ask for. Addresses have 32
    bits. -/
def DpRun.Allowed (r : DpRun T) : DpEvent T → Prop
  | .span _ _ stop _ _ kick => r.kick ≤ kick ∧ stop < 2 ^ 32
  | .reload _ addr kick => r.kick ≤ kick ∧ addr < 2 ^ 32
  | .reset => True
  | .visible th now | .completed th now | .current th now =>
    (r.watch th).clock ≤ now ∧ r.unfinished now ≤ kDpRingN

/-- A cursor left from before a reset is harmless: it lies beyond all the
    spans filed since and is dropped, or all it passes over is due. -/
def Harmless (stamp : DpJob → Nat) (log : List Filed) (cur now : Nat) : Prop :=
  (log.length < cur ∧ log.length < kDpRingN) ∨ ∀ f ∈ log.take cur, stamp f.job ≤ now

/-- The condition on an event under which the readers are right. -/
def DpRun.Sound (p : Pace) (r : DpRun T) : DpEvent T → Prop
  | .span rsp current stop _ cost kick =>
    (rsp = true → ∀ f ∈ r.log.getLast?, f.kick = kick → f.rsp = true) ∧
      (stop - current) * p.rcpCyclesToOps cost < 2 ^ 64
  | .reload rsp _ kick => rsp = true → ∀ f ∈ r.log.getLast?, f.kick = kick → f.rsp = true
  | .reset => True
  | .visible th now =>
    (r.watch th).vis = false → Harmless (·.kickG) r.log (r.sys.tl th).vis now
  | .completed th now =>
    (r.watch th).comp = false → Harmless (·.endG) r.log (r.sys.tl th).comp now
  | .current th now =>
    ((r.watch th).vis = false → Harmless (·.kickG) r.log (r.sys.tl th).vis now) ∧
      ((r.watch th).comp = false → Harmless (·.endG) r.log (r.sys.tl th).comp now)

def DpRun.run (p : Pace) (r : DpRun T) (es : List (DpEvent T)) : DpRun T := es.foldl (·.step p) r

/-- Every event of a run is allowed and sound. -/
def DpRun.Keeps (p : Pace) : DpRun T → List (DpEvent T) → Prop
  | _, [] => True
  | r, e :: es => r.Allowed e ∧ r.Sound p e ∧ (r.step p e).Keeps p es

/-- Every event of a run is allowed. -/
def DpRun.Calls (p : Pace) : DpRun T → List (DpEvent T) → Prop
  | _, [] => True
  | r, e :: es => r.Allowed e ∧ (r.step p e).Calls p es

instance (r : DpRun T) (e : DpEvent T) : Decidable (r.Allowed e) :=
  match e with
  | .span _ _ _ _ _ _ | .reload _ _ _ | .visible _ _ | .completed _ _ | .current _ _ =>
    inferInstanceAs (Decidable (_ ∧ _))
  | .reset => inferInstanceAs (Decidable True)

instance (stamp : DpJob → Nat) (log : List Filed) (cur now : Nat) :
    Decidable (Harmless stamp log cur now) :=
  inferInstanceAs (Decidable (_ ∨ _))

instance (p : Pace) (r : DpRun T) (e : DpEvent T) : Decidable (r.Sound p e) :=
  match e with
  | .span _ _ _ _ _ _ | .current _ _ => inferInstanceAs (Decidable (_ ∧ _))
  | .reload _ _ _ | .visible _ _ | .completed _ _ => inferInstanceAs (Decidable (_ → _))
  | .reset => inferInstanceAs (Decidable True)

instance decidableKeeps (p : Pace) : (r : DpRun T) → (es : List (DpEvent T)) → Decidable (r.Keeps p es)
  | _, [] => inferInstanceAs (Decidable True)
  | r, e :: es =>
    have := decidableKeeps p (r.step p e) es
    inferInstanceAs (Decidable (_ ∧ _ ∧ _))

instance decidableCalls (p : Pace) : (r : DpRun T) → (es : List (DpEvent T)) → Decidable (r.Calls p es)
  | _, [] => inferInstanceAs (Decidable True)
  | r, e :: es =>
    have := decidableCalls p (r.step p e) es
    inferInstanceAs (Decidable (_ ∧ _))

/-- The oldest span that a reader sees open at `now`. -/
def oldestOpen (log : List Filed) (now : Nat) : Option Nat :=
  log.findIdx? fun f => decide (f.job.kickG ≤ now) && decide (now < f.job.endG)

/-! ## Section 4: The scan -/

theorem dpClip_le (sub cur : Nat) : dpClip sub cur ≤ sub := by
  unfold dpClip
  dsimp only
  split_ifs <;> omega

theorem le_dpClip (sub cur : Nat) : sub - kDpRingN ≤ dpClip sub cur := by
  unfold dpClip
  dsimp only
  split_ifs <;> omega

/-- The scan never starts beyond the cursor, but to skip what the ring has
    lost. -/
theorem dpClip_cases (sub cur : Nat) :
    dpClip sub cur ≤ cur ∨ dpClip sub cur = sub - kDpRingN := by
  unfold dpClip
  dsimp only
  split_ifs <;> omega

theorem dpClip_dropped {sub cur : Nat} (hcur : sub < cur) (hsub : sub < kDpRingN) :
    dpClip sub cur = 0 := by
  unfold dpClip
  rw [if_pos hsub, if_pos hcur]
  rfl

theorem dpScan_spec (stamp : Nat → Nat) (now n cur : Nat) :
    cur ≤ dpScan stamp now n cur ∧ dpScan stamp now n cur ≤ cur + n ∧
      (∀ j, cur ≤ j → j < dpScan stamp now n cur → stamp (j % kDpRingN) ≤ now) ∧
      (dpScan stamp now n cur < cur + n →
        now < stamp (dpScan stamp now n cur % kDpRingN)) := by
  induction n generalizing cur with
  | zero => exact ⟨Nat.le_refl _, Nat.le_refl _, fun j h h' => by unfold dpScan at h'; omega,
      fun h => absurd h (Nat.lt_irrefl cur)⟩
  | succ n ih =>
    unfold dpScan
    split_ifs with hdue
    · obtain ⟨hge, hle, hall, hstop⟩ := ih (cur + 1)
      refine ⟨by omega, by omega, fun j hj hj' => ?_, fun h => hstop (by omega)⟩
      obtain rfl | hj := Nat.eq_or_lt_of_le hj
      · exact hdue
      · exact hall j hj hj'
    · exact ⟨Nat.le_refl _, by omega, fun j h h' => by omega, fun _ => Nat.lt_of_not_le hdue⟩

/-- Which of the spans of a log are due, for a stamp. -/
def due (stamp : DpJob → Nat) (now : Nat) (f : Filed) : Bool := decide (stamp f.job ≤ now)

theorem due_eq_false {stamp : DpJob → Nat} {now : Nat} {f : Filed} :
    due stamp now f = false ↔ now < stamp f.job := by
  unfold due
  rw [decide_eq_false_iff_not, Nat.not_le]

/-- The ring, read by its stamps, against the log. -/
structure Reads (jobs : Nat → DpJob) (stamp : DpJob → Nat) (log : List Filed) : Prop where
  holds : RingLog.Holds kDpRingN jobs (log.map (·.job))
  mono : log.Pairwise fun a b => stamp a.job ≤ stamp b.job

variable {jobs : Nat → DpJob} {stamp : DpJob → Nat} {log : List Filed} {now cur : Nat}

theorem Reads.downward (h : Reads jobs stamp log) (now : Nat) :
    RingLog.Downward (due stamp now) log :=
  h.mono.imp fun hab hb => decide_eq_true (hab.trans (of_decide_eq_true hb))

theorem Reads.slot (h : Reads jobs stamp log) {j : Nat} (hlast : log.length - kDpRingN ≤ j)
    (hj : j < log.length) : jobs (j % kDpRingN) = log[j].job := by
  have hlen : (log.map (·.job)).length = log.length := List.length_map _
  have := h.holds j (by omega) (by omega)
  rw [List.getElem_map] at this
  exact this

/-- The forward scan counts what is due, if all before its start is. -/
theorem Reads.scan (h : Reads jobs stamp log)
    (hclip : ∀ f ∈ log.take (dpClip log.length cur), stamp f.job ≤ now) :
    dpScanFwd (fun i => stamp (jobs i)) log.length now cur = log.countP (due stamp now) ∧
      ∀ f ∈ log.take (log.countP (due stamp now)), stamp f.job ≤ now := by
  unfold dpScanFwd
  obtain ⟨hge, hle, hall, hstop⟩ := dpScan_spec (fun i => stamp (jobs i)) now
    (log.length - dpClip log.length cur) (dpClip log.length cur)
  have hclip_le := dpClip_le log.length cur
  have hle_clip := le_dpClip log.length cur
  generalize hr : dpScan (fun i => stamp (jobs i)) now (log.length - dpClip log.length cur)
    (dpClip log.length cur) = r at hge hle hall hstop ⊢
  have htake : ∀ f ∈ log.take r, stamp f.job ≤ now := by
    intro f hf
    obtain ⟨j, hj, rfl⟩ := List.mem_take_iff_getElem.mp hf
    by_cases hjc : j < dpClip log.length cur
    · exact hclip _ (List.mem_take_iff_getElem.mpr ⟨j, by omega, rfl⟩)
    · rw [← h.slot (by omega) (by omega)]
      exact hall j (by omega) (by omega)
  have hdrop : ∀ f ∈ log.drop r, due stamp now f = false := by
    intro f hf
    by_cases hend : r < log.length
    · refine (h.downward now).drop hend ?_ f hf
      rw [due_eq_false, ← h.slot (by omega) hend]
      exact hstop (by omega)
    · rw [List.drop_eq_nil_of_le (by omega)] at hf
      exact absurd hf List.not_mem_nil
  have hcount := RingLog.countP_eq_of_split (p := due stamp now) (by omega)
    (fun f hf => decide_eq_true (htake f hf)) hdrop
  rw [hcount]
  exact ⟨rfl, htake⟩

/-- What lies before the start of a scan is due: by what the cursor has
    passed over, or because the ring lost it. -/
theorem Reads.clip (h : Reads jobs stamp log) (hcur : Harmless stamp log cur now)
    (hring : log.countP (fun f => !due stamp now f) ≤ kDpRingN) :
    ∀ f ∈ log.take (dpClip log.length cur), stamp f.job ≤ now := by
  intro f hf
  obtain ⟨hlt, hsub⟩ | hall := hcur
  · rw [dpClip_dropped hlt hsub, List.take_zero] at hf
    exact absurd hf List.not_mem_nil
  · obtain hle | heq := dpClip_cases log.length cur
    · exact hall f (List.take_subset_take_left log hle hf)
    · rw [heq] at hf
      exact of_decide_eq_true ((h.downward now).take_of_count hring f hf)

/-! ## Section 5: `DPC_CURRENT` inside a span -/

theorem DpJob.progress_mem (j : DpJob) (now : Nat) :
    j.addr ≤ j.progress now ∧ j.progress now ≤ max j.addr j.endAddr := by
  unfold DpJob.progress
  split_ifs with hlow hhigh
  · exact ⟨Nat.le_refl _, Nat.le_max_left _ _⟩
  · push Not at hlow
    exact ⟨hlow.1.le, Nat.le_max_right _ _⟩
  · push Not at hlow hhigh
    dsimp only
    have hadv : (j.endAddr - j.addr) * (now - j.startG) % 2 ^ 64 / (j.endG - j.startG) % 2 ^ 32 ≤
        j.endAddr - j.addr := by
      refine (Nat.mod_le _ _).trans ((Nat.div_le_div_right (Nat.mod_le _ _)).trans ?_)
      refine Nat.div_le_of_le_mul ?_
      rw [Nat.mul_comm]
      exact Nat.mul_le_mul_right _ (by omega)
    omega

/-- Addresses have 32 bits, and the product of a span's length and duration
    has 64. -/
structure DpJob.Fits (j : DpJob) : Prop where
  addr : j.endAddr < 2 ^ 32
  area : (j.endAddr - j.addr) * (j.endG - j.startG) < 2 ^ 64

theorem DpJob.progress_before {j : DpJob} {now : Nat}
    (h : j.endAddr ≤ j.addr ∨ now ≤ j.startG) : j.progress now = j.addr := by
  unfold DpJob.progress
  rw [if_pos h]

/-- Inside a span the quotient has no carry to lose. -/
theorem DpJob.progress_inside {j : DpJob} (h : j.Fits) {now : Nat} (haddr : j.addr < j.endAddr)
    (hstart : j.startG < now) (hend : now < j.endG) :
    j.progress now =
      j.addr + (j.endAddr - j.addr) * (now - j.startG) / (j.endG - j.startG) / 8 * 8 ∧
    (j.endAddr - j.addr) * (now - j.startG) < 2 ^ 64 := by
  have hprod : (j.endAddr - j.addr) * (now - j.startG) ≤
      (j.endAddr - j.addr) * (j.endG - j.startG) := Nat.mul_le_mul_left _ (by omega)
  have hdiv : (j.endAddr - j.addr) * (now - j.startG) / (j.endG - j.startG) ≤
      j.endAddr - j.addr := by
    refine Nat.div_le_of_le_mul ?_
    rw [Nat.mul_comm (j.endG - j.startG)]
    exact hprod
  have hbits := h.addr
  have hlt := hprod.trans_lt h.area
  unfold DpJob.progress
  rw [if_neg (by omega), if_neg (by omega)]
  dsimp only
  rw [Nat.mod_eq_of_lt hlt, Nat.mod_eq_of_lt (by omega)]
  exact ⟨rfl, hlt⟩

theorem DpJob.progress_mono {j : DpJob} (h : j.Fits) {now now' : Nat} (hle : now ≤ now') :
    j.progress now ≤ j.progress now' := by
  by_cases hlow : j.endAddr ≤ j.addr ∨ now ≤ j.startG
  · rw [DpJob.progress_before hlow]
    exact (j.progress_mem now').1
  by_cases hhigh : j.endG ≤ j.startG ∨ j.endG ≤ now'
  · push Not at hlow
    have hnow : j.progress now' = j.endAddr := by
      unfold DpJob.progress
      rw [if_neg (by omega), if_pos hhigh]
    rw [hnow]
    exact (j.progress_mem now).2.trans (max_le hlow.1.le (Nat.le_refl _))
  · push Not at hlow hhigh
    rw [(DpJob.progress_inside h hlow.1 hlow.2 (by omega)).1,
      (DpJob.progress_inside h hlow.1 (by omega) hhigh.2).1]
    have hquot_le : (j.endAddr - j.addr) * (now - j.startG) / (j.endG - j.startG) ≤
        (j.endAddr - j.addr) * (now' - j.startG) / (j.endG - j.startG) :=
      Nat.div_le_div_right (Nat.mul_le_mul_left _ (by omega))
    have := Nat.mul_le_mul_right 8 (Nat.div_le_div_right (c := 8) hquot_le)
    omega

/-! ## Section 6: The invariant -/

/-- The schedule itself: each span starts no earlier than its kick and the
    end of the one before, and `dpSchedEnd` is the last end. -/
structure Scheduled (log : List Filed) (dpSchedEnd : Nat) : Prop where
  last : dpSchedEnd = (log.getLast?.map (·.job.endG)).getD 0
  starts : ∀ f ∈ log, f.kick ≤ f.job.startG ∧ f.job.startG ≤ f.job.endG
  ends : log.Pairwise fun a b => a.job.endG ≤ b.job.startG

/-- A cursor in use passes over nothing that its thread has not seen due. -/
def Trails (stamp : DpJob → Nat) (log : List Filed) (cur clock : Nat) : Prop :=
  cur ≤ log.length ∧ ∀ f ∈ log.take cur, stamp f.job ≤ clock

structure DpRun.Inv (r : DpRun T) : Prop where
  sub : r.sys.dp.dpSubSeq = r.log.length
  holds : RingLog.Holds kDpRingN r.sys.dp.jobs (r.log.map (·.job))
  scheduled : Scheduled r.log r.sys.dp.dpSchedEnd
  kicks : ∀ f ∈ r.log, f.job.kickG = kickStamp f.rsp f.kick ∧ f.kick ≤ r.kick
  stamps : r.log.Pairwise fun a b => a.job.kickG ≤ b.job.kickG
  fits : ∀ f ∈ r.log, f.job.Fits
  vis : ∀ th, (r.watch th).vis = true →
    Trails (·.kickG) r.log (r.sys.tl th).vis (r.watch th).clock
  comp : ∀ th, (r.watch th).comp = true →
    Trails (·.endG) r.log (r.sys.tl th).comp (r.watch th).clock

omit [DecidableEq T] in
theorem DpRun.Inv.init (dpc_current : Nat) : (DpRun.init dpc_current : DpRun T).Inv where
  sub := rfl
  holds := .nil _ _
  scheduled := ⟨rfl, nofun, .nil⟩
  kicks := nofun
  stamps := .nil
  fits := nofun
  vis := nofun
  comp := nofun

theorem DpRun.Inv.reset {r : DpRun T} (p : Pace) : (r.step p .reset).Inv where
  sub := rfl
  holds := .nil _ _
  scheduled := ⟨rfl, nofun, .nil⟩
  kicks := nofun
  stamps := .nil
  fits := nofun
  vis := nofun
  comp := nofun

theorem Trails.push {x : Filed} (h : Trails stamp log cur now) : Trails stamp (log ++ [x]) cur now := by
  refine ⟨?_, ?_⟩
  · rw [List.length_append]
    exact h.1.trans (Nat.le_add_right _ _)
  · rw [List.take_append_of_le_length h.1]
    exact h.2

theorem Scheduled.le_last (h : Scheduled log now) : ∀ f ∈ log, f.job.endG ≤ now := by
  intro f hf
  obtain rfl | ⟨l, x, rfl⟩ := List.eq_nil_or_concat' log
  · exact absurd hf List.not_mem_nil
  · have hlast := h.last
    rw [List.getLast?_concat, Option.map_some, Option.getD_some] at hlast
    rw [hlast]
    obtain hf | hf := List.mem_append.mp hf
    · have hstart := (List.pairwise_append.mp h.ends).2.2 f hf x (List.mem_singleton_self x)
      exact hstart.trans (h.starts x (List.mem_append_right _ (List.mem_singleton_self x))).2
    · rw [List.mem_singleton.mp hf]

theorem Scheduled.push (h : Scheduled log now) {x : Filed} (hkick : x.kick ≤ x.job.startG)
    (hend : x.job.startG ≤ x.job.endG) (hnow : now ≤ x.job.startG) :
    Scheduled (log ++ [x]) x.job.endG where
  last := by rw [List.getLast?_concat, Option.map_some, Option.getD_some]
  starts := by
    intro f hf
    obtain hf | hf := List.mem_append.mp hf
    · exact h.starts f hf
    · rw [List.mem_singleton.mp hf]
      exact ⟨hkick, hend⟩
  ends := List.pairwise_append.mpr ⟨h.ends, List.pairwise_singleton _ _, fun a ha b hb => by
    rw [List.mem_singleton.mp hb]
    exact (h.le_last a ha).trans hnow⟩

/-- The new stamp is no earlier than any before it. -/
theorem stamp_le_new (hkicks : ∀ f ∈ log, f.job.kickG = kickStamp f.rsp f.kick ∧ f.kick ≤ cur)
    (hstamps : log.Pairwise fun a b => a.job.kickG ≤ b.job.kickG) {rsp : Bool} {kick : Nat}
    (hle : cur ≤ kick)
    (hside : rsp = true → ∀ f ∈ log.getLast?, f.kick = kick → f.rsp = true) :
    ∀ f ∈ log, f.job.kickG ≤ kickStamp rsp kick := by
  obtain rfl | ⟨l, x, rfl⟩ := List.eq_nil_or_concat' log
  · exact fun f hf => absurd hf List.not_mem_nil
  -- the last one decides
  have hlast : x.job.kickG ≤ kickStamp rsp kick := by
    obtain ⟨hstamp, hkick⟩ := hkicks x (List.mem_append_right _ (List.mem_singleton_self x))
    rw [hstamp]
    unfold kickStamp
    cases rsp with
    | false =>
      rw [if_neg Bool.false_ne_true]
      split_ifs <;> omega
    | true =>
      have hx := hside rfl x (by rw [List.getLast?_concat]; rfl)
      rw [if_pos rfl]
      split_ifs with hrsp
      · omega
      · have hne : x.kick ≠ kick := fun heq => hrsp (hx heq)
        omega
  intro f hf
  obtain hf | hf := List.mem_append.mp hf
  · exact ((List.pairwise_append.mp hstamps).2.2 f hf x (List.mem_singleton_self x)).trans hlast
  · rw [List.mem_singleton.mp hf]
    exact hlast

/-! ## Section 7: One event -/

section Events

variable {r : DpRun T}

omit [DecidableEq T] in
/-- Filing a span. -/
theorem DpRun.Inv.file (h : r.Inv) {x : Filed} (hle : r.kick ≤ x.kick)
    (hkick : x.kick ≤ x.job.startG) (hend : x.job.startG ≤ x.job.endG)
    (hnow : r.sys.dp.dpSchedEnd ≤ x.job.startG) (hstamp : x.job.kickG = kickStamp x.rsp x.kick)
    (hside : x.rsp = true → ∀ f ∈ r.log.getLast?, f.kick = x.kick → f.rsp = true)
    (hfits : x.job.Fits) :
    DpRun.Inv { r with
      sys := { r.sys with dp := r.sys.dp.file x.job }, log := r.log ++ [x], kick := x.kick } where
  sub := by
    rw [List.length_append, ← h.sub]
    rfl
  holds := by
    have hholds := h.holds.push x.job
    rw [List.length_map, ← h.sub] at hholds
    rw [List.map_append]
    exact hholds
  scheduled := h.scheduled.push hkick hend hnow
  kicks := by
    intro f hf
    obtain hf | hf := List.mem_append.mp hf
    · exact ⟨(h.kicks f hf).1, (h.kicks f hf).2.trans hle⟩
    · rw [List.mem_singleton.mp hf]
      exact ⟨hstamp, Nat.le_refl _⟩
  stamps := List.pairwise_append.mpr ⟨h.stamps, List.pairwise_singleton _ _, fun a ha b hb => by
    rw [List.mem_singleton.mp hb, hstamp]
    exact stamp_le_new h.kicks h.stamps hle hside a ha⟩
  fits := by
    intro f hf
    obtain hf | hf := List.mem_append.mp hf
    · exact h.fits f hf
    · rw [List.mem_singleton.mp hf]
      exact hfits
  vis := fun th hth => (h.vis th hth).push
  comp := fun th hth => (h.comp th hth).push

omit [DecidableEq T] in
theorem DpRun.Inv.reads_vis (h : r.Inv) : Reads r.sys.dp.jobs (·.kickG) r.log := ⟨h.holds, h.stamps⟩

omit [DecidableEq T] in
theorem DpRun.Inv.reads_comp (h : r.Inv) : Reads r.sys.dp.jobs (·.endG) r.log := by
  refine ⟨h.holds, h.scheduled.ends.imp_of_mem fun _ hb hab => ?_⟩
  exact hab.trans (h.scheduled.starts _ hb).2

/-- A cursor that is in use is as harmless as one that is required to be. -/
theorem Trails.harmless {clock : Nat} {used : Bool} (hle : clock ≤ now)
    (h : used = true → Trails stamp log cur clock)
    (hstale : used = false → Harmless stamp log cur now) : Harmless stamp log cur now := by
  cases used with
  | false => exact hstale rfl
  | true => exact .inr fun f hf => ((h rfl).2 f hf).trans hle

omit [DecidableEq T] in
theorem DpRun.unfinished_vis (r : DpRun T) (now : Nat) :
    r.log.countP (fun f => !due (·.kickG) now f) ≤ r.unfinished now := by
  refine List.countP_mono_left fun f _ hf => ?_
  rw [Bool.not_eq_true', due_eq_false] at hf
  rw [decide_eq_true hf, Bool.or_true]

omit [DecidableEq T] in
theorem DpRun.unfinished_comp (r : DpRun T) (now : Nat) :
    r.log.countP (fun f => !due (·.endG) now f) ≤ r.unfinished now := by
  refine List.countP_mono_left fun f _ hf => ?_
  rw [Bool.not_eq_true', due_eq_false] at hf
  rw [decide_eq_true hf, Bool.true_or]

/-- A thread moves its cursors and its clock. -/
theorem DpRun.Inv.look (h : r.Inv) (th : T) {c : DpCursors} {w : DpWatch}
    (hvis : w.vis = true → Trails (·.kickG) r.log c.vis w.clock)
    (hcomp : w.comp = true → Trails (·.endG) r.log c.comp w.clock) :
    DpRun.Inv { r with
      sys := { r.sys with tl := Function.update r.sys.tl th c }
      watch := Function.update r.watch th w } := by
  refine ⟨h.sub, h.holds, h.scheduled, h.kicks, h.stamps, h.fits, fun t => ?_, fun t => ?_⟩
  · dsimp only
    by_cases heq : t = th
    · subst heq
      rw [Function.update_self, Function.update_self]
      exact hvis
    · rw [Function.update_of_ne heq, Function.update_of_ne heq]
      exact h.vis t
  · dsimp only
    by_cases heq : t = th
    · subst heq
      rw [Function.update_self, Function.update_self]
      exact hcomp
    · rw [Function.update_of_ne heq, Function.update_of_ne heq]
      exact h.comp t

theorem Trails.later {clock : Nat} (h : Trails stamp log cur clock) (hle : clock ≤ now) :
    Trails stamp log cur now :=
  ⟨h.1, fun f hf => (h.2 f hf).trans hle⟩

theorem DpRun.Inv.visible (h : r.Inv) {p : Pace} {th : T} {now : Nat}
    (ha : r.Allowed (.visible th now)) (hs : r.Sound p (.visible th now)) :
    (r.sys.dpVisibleAt th now).2 = r.log.countP (due (·.kickG) now) ∧
      (r.step p (.visible th now)).Inv := by
  obtain ⟨hclock, hfew⟩ := ha
  obtain ⟨hcount, htake⟩ := h.reads_vis.scan (h.reads_vis.clip
    (Trails.harmless hclock (h.vis th) hs) ((r.unfinished_vis now).trans hfew))
  rw [← h.sub] at hcount
  refine ⟨hcount, h.look th (fun _ => ?_) fun hcomp => (h.comp th hcomp).later hclock⟩
  dsimp only
  rw [hcount]
  exact ⟨List.countP_le_length, htake⟩

theorem DpRun.Inv.completed (h : r.Inv) {p : Pace} {th : T} {now : Nat}
    (ha : r.Allowed (.completed th now)) (hs : r.Sound p (.completed th now)) :
    (r.sys.dpCompletedAt th now).2 = r.log.countP (due (·.endG) now) ∧
      (r.step p (.completed th now)).Inv := by
  obtain ⟨hclock, hfew⟩ := ha
  obtain ⟨hcount, htake⟩ := h.reads_comp.scan (h.reads_comp.clip
    (Trails.harmless hclock (h.comp th) hs) ((r.unfinished_comp now).trans hfew))
  rw [← h.sub] at hcount
  refine ⟨hcount, h.look th (fun hvis => (h.vis th hvis).later hclock) fun _ => ?_⟩
  dsimp only
  rw [hcount]
  exact ⟨List.countP_le_length, htake⟩

/-- Reading `DPC_CURRENT` is reading both counts. -/
theorem DpRun.step_current (r : DpRun T) (p : Pace) (th : T) (now : Nat) :
    r.step p (.current th now) = (r.step p (.completed th now)).step p (.visible th now) := by
  unfold DpRun.step DpSys.dpcCurrentFor
  dsimp only
  rw [Function.update_idem, Function.update_self]

theorem DpRun.Inv.current (h : r.Inv) {p : Pace} {th : T} {now : Nat}
    (ha : r.Allowed (.current th now)) (hs : r.Sound p (.current th now)) :
    (r.sys.dpCompletedAt th now).2 = r.log.countP (due (·.endG) now) ∧
      ((r.sys.dpCompletedAt th now).1.dpVisibleAt th now).2 = r.log.countP (due (·.kickG) now) ∧
      (r.step p (.current th now)).Inv := by
  obtain ⟨hcomp, h'⟩ := h.completed (p := p) ha hs.2
  have ha' : (r.step p (.completed th now)).Allowed (.visible th now) := by
    refine ⟨?_, ha.2⟩
    unfold DpRun.step
    dsimp only
    rw [Function.update_self]
  have hs' : (r.step p (.completed th now)).Sound p (.visible th now) := by
    unfold DpRun.Sound DpRun.step DpSys.dpCompletedAt
    dsimp only
    rw [Function.update_self, Function.update_self]
    exact hs.1
  obtain ⟨hvis, h''⟩ := h'.visible ha' hs'
  rw [DpRun.step_current]
  exact ⟨hcomp, hvis, h''⟩

/-- What one event keeps. -/
theorem DpRun.Inv.step (h : r.Inv) {p : Pace} {e : DpEvent T} (ha : r.Allowed e)
    (hs : r.Sound p e) : (r.step p e).Inv := by
  cases e with
  | span rsp current stop sync cost kick =>
    obtain ⟨hle, haddr⟩ := ha
    obtain ⟨hside, harea⟩ := hs
    refine h.file (x := ⟨rsp, kick, _⟩) hle ?_ ?_ ?_ rfl hside ⟨haddr, ?_⟩
    · dsimp only
      split_ifs <;> omega
    · exact Nat.le_add_right _ _
    · dsimp only
      split_ifs <;> omega
    · dsimp only
      rw [Nat.add_sub_cancel_left]
      exact harea
  | reload rsp addr kick =>
    obtain ⟨hle, haddr⟩ := ha
    refine h.file (x := ⟨rsp, kick, _⟩) hle ?_ (Nat.le_refl _) ?_ rfl hs ⟨haddr, ?_⟩
    · have hstamp : kick ≤ kickStamp rsp kick := by
        unfold kickStamp
        split_ifs <;> omega
      dsimp only
      split_ifs <;> omega
    · dsimp only
      split_ifs <;> omega
    · dsimp only
      rw [Nat.sub_self, Nat.zero_mul]
      exact Nat.two_pow_pos 64
  | reset => exact .reset p
  | visible th now => exact (h.visible ha hs).2
  | completed th now => exact (h.completed ha hs).2
  | current th now => exact (h.current ha hs).2.2

theorem DpRun.Inv.run (h : r.Inv) {p : Pace} {es : List (DpEvent T)} (hes : r.Keeps p es) :
    (r.run p es).Inv := by
  induction es generalizing r with
  | nil => exact h
  | cons e es ih => exact ih (h.step hes.1 hes.2.1) hes.2.2

/-! ## Section 8: The oldest open span -/

omit [DecidableEq T] in
/-- The oldest open span is the first that is not finished, and it is
    visible. -/
theorem DpRun.Inv.oldestOpen (h : r.Inv) {now i : Nat} (hi : oldestOpen r.log now = some i) :
    ∃ hlt : i < r.log.length, r.log.countP (due (·.endG) now) = i ∧
      i < r.log.countP (due (·.kickG) now) ∧ now < r.log[i].job.endG := by
  obtain ⟨hlt, hopen, hbefore⟩ := List.findIdx?_eq_some_iff_getElem.mp hi
  rw [Bool.and_eq_true_iff, decide_eq_true_eq, decide_eq_true_eq] at hopen
  obtain ⟨hvis, hend⟩ := hopen
  refine ⟨hlt, RingLog.countP_eq_of_split hlt.le (fun f hf => ?_) ?_, ?_, hend⟩
  · -- what comes before is visible too, so it is closed
    obtain ⟨j, hj, rfl⟩ := List.mem_take_iff_getElem.mp hf
    have hji : j < i := by omega
    have hnot := hbefore j hji
    have hle := List.pairwise_iff_getElem.mp h.stamps j i (by omega) hlt hji
    rw [decide_eq_true (hle.trans hvis), Bool.true_and, Bool.not_eq_true,
      decide_eq_false_iff_not, Nat.not_lt] at hnot
    exact decide_eq_true hnot
  · exact (h.reads_comp.downward now).drop hlt (due_eq_false.mpr hend)
  · exact (h.reads_vis.downward now).lt_countP hlt (decide_eq_true hvis)

/-- With a span open, `DPC_CURRENT` is how far the engine is in it. -/
theorem DpRun.Inv.current_open (h : r.Inv) {p : Pace} {th : T} {now i : Nat}
    (ha : r.Allowed (.current th now)) (hs : r.Sound p (.current th now))
    (hi : Rcp.oldestOpen r.log now = some i) :
    ∃ hlt : i < r.log.length, (r.sys.dpcCurrentFor th now).2 = r.log[i].job.progress now := by
  obtain ⟨hcomp, hvis, -⟩ := h.current ha hs
  obtain ⟨hlt, hc, hv, hend⟩ := h.oldestOpen hi
  -- the ring still has it
  have hring : r.log.length - kDpRingN ≤ i := by
    by_contra hlost
    have hdue := (h.reads_comp.downward now).take_of_count ((r.unfinished_comp now).trans ha.2)
      r.log[i] (List.mem_take_iff_getElem.mpr ⟨i, by omega, rfl⟩)
    exact absurd (of_decide_eq_true hdue) (Nat.not_le.mpr hend)
  refine ⟨hlt, ?_⟩
  unfold DpSys.dpcCurrentFor
  dsimp only
  rw [hcomp, hvis, hc, if_neg (Nat.not_lt.mpr hv.le), if_pos hv]
  exact congrArg (DpJob.progress · now) (h.reads_comp.slot hring hlt)

/-! ## Section 9: Later reads of the same span -/

/-- Without a reset the log only grows and no clock goes back. -/
theorem DpRun.run_grows {p : Pace} {es : List (DpEvent T)} (hes : r.Keeps p es)
    (hno : DpEvent.reset ∉ es) (th : T) :
    r.log <+: (r.run p es).log ∧ (r.watch th).clock ≤ ((r.run p es).watch th).clock := by
  induction es generalizing r with
  | nil => exact ⟨List.prefix_rfl, Nat.le_refl _⟩
  | cons e es ih =>
    obtain ⟨hrest, hclock⟩ := ih hes.2.2 fun hmem => hno (List.mem_cons_of_mem e hmem)
    have hone : r.log <+: (r.step p e).log ∧
        (r.watch th).clock ≤ ((r.step p e).watch th).clock := by
      have hmove (t : T) (w : DpWatch) (hw : (r.watch t).clock ≤ w.clock) :
          (r.watch th).clock ≤ (Function.update r.watch t w th).clock := by
        by_cases heq : th = t
        · subst heq
          rw [Function.update_self]
          exact hw
        · rw [Function.update_of_ne heq]
      cases e with
      | span | reload => exact ⟨List.prefix_append _ _, Nat.le_refl _⟩
      | reset => exact absurd List.mem_cons_self hno
      | visible | completed | current =>
        exact ⟨List.prefix_rfl, hmove _ _ hes.1.1⟩
    exact ⟨hone.1.trans hrest, hone.2.trans hclock⟩

end Events

/-- **The schedule and its readers.** After every run from power-on whose
    events are allowed and sound: spans are scheduled one after the other;
    the two counts are those of the log; `DPC_CURRENT` lies in the oldest
    open span, and does not go back while that span stays open. -/
theorem dp_schedule (p : Pace) (dpc_current : Nat) (es : List (DpEvent T))
    (hes : (DpRun.init dpc_current : DpRun T).Keeps p es) :
    let r := (DpRun.init dpc_current : DpRun T).run p es
    Scheduled r.log r.sys.dp.dpSchedEnd ∧
    (∀ th now, r.Allowed (.visible th now) → r.Sound p (.visible th now) →
      (r.sys.dpVisibleAt th now).2 = r.log.countP fun f => decide (f.job.kickG ≤ now)) ∧
    (∀ th now, r.Allowed (.completed th now) → r.Sound p (.completed th now) →
      (r.sys.dpCompletedAt th now).2 = r.log.countP fun f => decide (f.job.endG ≤ now)) ∧
    (∀ th now, r.Allowed (.current th now) → r.Sound p (.current th now) →
      ∀ i, oldestOpen r.log now = some i → ∃ f, r.log[i]? = some f ∧
        f.job.addr ≤ (r.sys.dpcCurrentFor th now).2 ∧
        (r.sys.dpcCurrentFor th now).2 ≤ max f.job.addr f.job.endAddr) ∧
    (∀ th now es' now', r.Keeps p (.current th now :: es') → DpEvent.reset ∉ es' →
      let r' := (r.step p (.current th now)).run p es'
      r'.Allowed (.current th now') → r'.Sound p (.current th now') →
      ∀ i, oldestOpen r.log now = some i → oldestOpen r'.log now' = some i →
        (r.sys.dpcCurrentFor th now).2 ≤ (r'.sys.dpcCurrentFor th now').2) := by
  have h := (DpRun.Inv.init (T := T) dpc_current).run hes
  dsimp only
  generalize (DpRun.init dpc_current : DpRun T).run p es = r at h ⊢
  refine ⟨h.scheduled, fun th now ha hs => (h.visible ha hs).1,
    fun th now ha hs => (h.completed ha hs).1, ?_, ?_⟩
  · intro th now ha hs i hi
    obtain ⟨hlt, hval⟩ := h.current_open ha hs hi
    rw [hval]
    exact ⟨r.log[i], List.getElem?_eq_getElem hlt, r.log[i].job.progress_mem now⟩
  · intro th now es' now' hkeeps hno ha' hs' i hi hi'
    obtain ⟨ha, hs, hes'⟩ := hkeeps
    have h' := (h.step ha hs).run hes'
    obtain ⟨hlt, hval⟩ := h.current_open ha hs hi
    obtain ⟨hlt', hval'⟩ := h'.current_open ha' hs' hi'
    obtain ⟨hpre, hclock⟩ := DpRun.run_grows hes' hno th
    have hsame : ((r.step p (.current th now)).run p es').log[i] = r.log[i] :=
      (hpre.getElem (i := i) hlt).symm
    have hnow : now ≤ now' := by
      refine Nat.le_trans ?_ (hclock.trans ha'.1)
      unfold DpRun.step
      dsimp only
      rw [Function.update_self]
    rw [hval, hval', hsame]
    exact DpJob.progress_mono (h.fits _ (List.getElem_mem hlt)) hnow

/-- Two spans, one from each side, a read in between, and a reset. -/
theorem dp_schedule_sample :
    let es : List (DpEvent Bool) :=
      [.span false 0x100 0x140 true 90 10, .current true 12, .span true 0x140 0x180 false 30 20,
        .visible false 25, .reset, .reload true 0x80 3]
    let r := (DpRun.init 0 : DpRun Bool).run ⟨3, 2⟩ es
    (r.sys.dpVisibleAt true 3).2 = 1 := by
  intro es r
  exact (dp_schedule ⟨3, 2⟩ 0 es (by decide)).2.1 true 3 (by decide) (by decide)

/-- A thread whose cursor is 1 from before a reset counts a span that comes
    only at 100 as visible at 5. And of a span of the CPU and one of the RSP
    at the same kick 5, the second is visible at 5 and not counted. -/
theorem stale_cursor_and_crossed_stamps :
    (let es : List (DpEvent Unit) :=
      [.span true 0 8 false 0 0, .visible () 0, .reset, .span true 0 8 false 0 100]
    let r := (DpRun.init 0 : DpRun Unit).run ⟨1, 1⟩ es
    (DpRun.init 0 : DpRun Unit).Calls ⟨1, 1⟩ es ∧ r.Allowed (.visible () 5) ∧
      (r.sys.dpVisibleAt () 5).2 ≠ r.log.countP fun f => decide (f.job.kickG ≤ 5)) ∧
    (let es : List (DpEvent Unit) := [.span false 0 8 false 0 5, .span true 8 16 false 0 5]
    let r := (DpRun.init 0 : DpRun Unit).run ⟨1, 1⟩ es
    (DpRun.init 0 : DpRun Unit).Calls ⟨1, 1⟩ es ∧ r.Allowed (.visible () 5) ∧
      (r.sys.dpVisibleAt () 5).2 ≠ r.log.countP fun f => decide (f.job.kickG ≤ 5)) := by
  decide

end Rcp
