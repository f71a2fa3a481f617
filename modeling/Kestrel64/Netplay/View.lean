import Kestrel64.Netplay.Agreement

/-! # Netplay: the Split-Screen View

    The view travels inside the frames, so from field `delay` on it is part
    of what `Agreement` is about. The first `delay` fields of an epoch are
    not sent: every machine fills them with the view it has on screen. The
    snapshot does not carry the view, so a guest that loads it starts with
    its own.

    `view_agree_iff` says exactly which runs keep all machines on one view:
    those in which each guest that finishes loading a state shows what the
    host showed when it started that epoch. A guest that has just joined
    shows the full screen, which is where this fails.
-/

namespace Netplay

/-- Machines that applied the same field applied the same view. -/
def ViewAgree (log : Log) : Prop :=
  ∀ a ∈ log.applied, ∀ b ∈ log.applied,
    a.epoch = b.epoch → a.field = b.field → a.frame.view = b.frame.view

/-- The same for the field an epoch starts with. -/
def StartAgree (log : Log) : Prop :=
  ∀ a ∈ log.applied, ∀ b ∈ log.applied,
    a.epoch = b.epoch → a.field = 0 → b.field = 0 → a.frame.view = b.frame.view

/-- If the step is a guest taking up a state it has loaded, that guest is
    showing the view the host showed when it started the epoch. -/
def LoadsHostView (s : Sys) : Label → Prop
  | .guestApplied i _ ok =>
    ∀ l ep d m cfg blob, s.peers[i]? = some l → l.guest.phase = .applying ep d m cfg blob →
      ok = true → l.guest.syncReady = false →
      ∀ fr, ⟨.host, ep, 0, fr⟩ ∈ s.log.applied → l.guest.cur.view = fr.view
  | _ => True

/-! ## The start of an epoch decides -/

theorem viewAgree_iff_startAgree {h : HostSession} {log : Log} (hH : HostInv h log) :
    ViewAgree log ↔ StartAgree log := by
  constructor
  · intro hv a ha b hb he ha0 hb0
    exact hv a ha b hb he (ha0.trans hb0.symm)
  · intro hs a ha b hb he hf
    have hoa := hH.applied_origin a ha
    have hob := hH.applied_origin b hb
    rcases hoa with ⟨hlt, -, ha0⟩ | hba
    · rcases hob with ⟨-, -, hb0⟩ | hbb
      · exact hs _ ha0 ⟨b.who, b.epoch, 0, b.frame⟩ hb0 he rfl rfl
      · exact absurd hlt (Nat.not_lt.mpr (hf ▸ hH.bcast_late _ hbb))
    · rcases hob with ⟨hlt, -, -⟩ | hbb
      · exact absurd hlt (Nat.not_lt.mpr (hf ▸ hH.bcast_late _ hba))
      · have hkey : (a.epoch, a.field) = (b.epoch, b.field) := by rw [he, hf]
        have := List.inj_on_of_nodup_map hH.bcast_nodup hba hbb hkey
        simp only [Bcast.mk.injEq] at this
        rw [this.2.2]

/-! ## What one step adds -/

theorem endApplySync_applied {h : HostSession} {log : Log} {i : Nat} {l : Peer}
    {ep d : Nat} {m : Mask} {cfg : Slot → PadCfg} {blob : Blob} (hH : HostInv h log)
    (hP : PeerInv h.delay log i l) (hp : l.guest.phase = .applying ep d m cfg blob)
    (hr : l.guest.syncReady = false) (pad : Pad) :
    (endApplySync l.guest ep d m cfg pad true).applied =
      some (ep, 0, .blank l.guest.cur.view) := by
  obtain ⟨rfl, -, -⟩ := hP.applying ep d m cfg blob hp
  have hfill := prefill_fresh hH hP (by rw [hp]; rfl) hH.delay_pos (.blank l.guest.cur.view)
  simp [endApplySync, hr, firstFrame, hfill]

theorem endApplySync_applied_none {g : GuestSession} {ep d : Nat} {m : Mask}
    {cfg : Slot → PadCfg} {pad : Pad} {ok : Bool} (h : ok = false ∨ g.syncReady = true) :
    (endApplySync g ep d m cfg pad ok).applied = none := by
  unfold endApplySync
  rcases h with h | h
  · simp [h]
  · simp only [h]
    cases ok <;> rfl

theorem guestAwait_applied {g : GuestSession} {f ep f' : Nat} {fr : Frame}
    (h : (guestAwait g f).applied = some (ep, f', fr)) : f' = f := by
  unfold guestAwait at h
  split at h
  · cases h
  · split at h
    · cases h; rfl
    · split at h <;> cases h

theorem record_applied (log : Log) (i : Nat) (out : GuestOut) :
    (log.record i out).applied =
      (out.applied.map (fun x => ⟨.guest i, x.1, x.2.1, x.2.2⟩)).toList ++ log.applied := by
  unfold Log.record
  cases out.applied <;> rfl

/-- How a step changes the list of applied fields: not at all, by a later
    field, by the host starting an epoch, or by a guest starting one. -/
inductive AppliedStep (s : Sys) (l : Label) (applied : List Applied) : Prop where
  | none : LoadsHostView s l → applied = s.log.applied → AppliedStep s l applied
  | later (a) : LoadsHostView s l → 1 ≤ a.field → applied = a :: s.log.applied →
      AppliedStep s l applied
  | hostStart (fr) : LoadsHostView s l →
      applied = ⟨.host, s.host.epoch + 1, 0, fr⟩ :: s.log.applied → AppliedStep s l applied
  | guestStart (i p ep d m cfg blob pad) : l = .guestApplied i pad true →
      s.peers[i]? = some p → p.guest.phase = .applying ep d m cfg blob →
      p.guest.syncReady = false →
      applied = ⟨.guest i, ep, 0, .blank p.guest.cur.view⟩ :: s.log.applied →
      AppliedStep s l applied

theorem hostResume_applied {s : Sys} {l : Label} {t : Sys} {f : Nat}
    (hl : LoadsHostView s l) (ht : t.log.applied = s.log.applied) (hf : 1 ≤ f) :
    AppliedStep s l (hostResume t f).log.applied := by
  unfold hostResume
  split
  · exact .none hl ht
  · next fr _ =>
    refine .later ⟨.host, t.host.epoch, f, fr⟩ hl hf ?_
    rw [← ht]
    rfl

theorem guestOut_applied {s : Sys} {l : Label} {i : Nat} {p : Peer} {out : GuestOut}
    (hl : LoadsHostView s l)
    (hout : ∀ ep f fr, out.applied = some (ep, f, fr) → 1 ≤ f) :
    AppliedStep s l (s.guestStep i p out).log.applied := by
  have hrec := record_applied s.log i out
  cases hx : out.applied with
  | none => rw [hx] at hrec; exact .none hl hrec
  | some x =>
    obtain ⟨ep, f, fr⟩ := x
    rw [hx] at hrec
    exact .later ⟨.guest i, ep, f, fr⟩ hl (hout ep f fr hx) hrec

theorem applied_of_rest {s t : Sys} (h : s.rest = t.rest) :
    s.log.applied = t.log.applied := (congrArg (fun r => r.log.applied) h :)

theorem hostSubmit_applied (s : Sys) (f : Nat) (p : Pad) :
    (hostSubmit s f p).log.applied = s.log.applied := applied_of_rest (hostSubmit_rest s f p)

theorem leaveGame_applied (s : Sys) (c : Slot) :
    (leaveGame s c).log.applied = s.log.applied := by
  unfold leaveGame
  rw [applied_of_rest (retryAll_rest _)]

theorem hostRxExit_applied (s : Sys) (i : Nat) (l : Peer) :
    (hostRxExit s i l).log.applied = s.log.applied := by
  unfold hostRxExit
  dsimp only
  split
  · exact leaveGame_applied (dropLink s i l) l.slot
  · rfl

theorem hostRx_applied (s : Sys) (i : Nat) (l : Peer) (m : UpMsg) :
    (hostRx s i l m).log.applied = s.log.applied := by
  cases m with
  | input ep f p =>
    simp only [hostRx]
    split
    · exact applied_of_rest (submit_rest s l.slot f p)
    · rfl
  | hash ep f h =>
    simp only [hostRx]
    split
    · rfl
    · split <;> rfl
  | bye => exact hostRxExit_applied s i l

theorem Step.applied {s s' : Sys} {l : Label} (h : AgreeInv s) (hs : Step s l s') :
    AppliedStep s l s'.log.applied := by
  cases hs with
  | admitGuest r sent ports =>
    refine .none trivial ?_
    unfold Netplay.admitGuest
    split
    · rfl
    · split <;> rfl
  | hostRx => exact .none trivial (hostRx_applied _ _ _ _)
  | hostRxExit => exact .none trivial (hostRxExit_applied _ _ _)
  | serviceSync pad state hw =>
    refine .hostStart (firstFrame (syncStart s state).host.ready) trivial ?_
    exact hostSubmit_applied (syncStart s state) _ pad
  | hostField pad hash hw =>
    unfold Netplay.hostField
    split
    · exact .none trivial rfl
    · refine hostResume_applied trivial ?_ (Nat.succ_pos _)
      obtain ⟨c, d, m, r, mh, ph, he⟩ := hashCheck_eq
        (hostSubmit (nextField s) (s.host.field + 1 + s.host.delay) pad) (s.host.field + 1) hash
      rw [he]
      exact hostSubmit_applied (nextField s) _ pad
  | hostWake hw => exact hostResume_applied trivial rfl (h.host.waiting_field _ hw).2
  | setView => exact .none trivial rfl
  | clientRx => exact .none trivial rfl
  | clientRxExit => exact .none trivial rfl
  | @guestField i l pad hash hl hp =>
    refine guestOut_applied trivial ?_
    intro ep f fr hx
    unfold Netplay.guestField at hx
    split at hx
    · cases hx
    · split at hx
      · cases hx
      · split at hx
        · cases hx
        · rw [guestAwait_applied hx]
          exact Nat.succ_pos _
  | @guestWake i l out hl hw =>
    refine guestOut_applied trivial ?_
    intro ep f fr hx
    unfold Netplay.guestWake at hw
    split at hw
    · split at hw
      · cases hw; cases hx
      · split at hw <;> cases hw
        cases hx
    · next g hp =>
      cases hw
      rw [guestAwait_applied hx]
      exact ((h.peers i l hl).waiting g hp).1
    · cases hw
  | @guestApplied i l ep d m cfg blob pad ok hl hp =>
    have hrec := record_applied s.log i (endApplySync l.guest ep d m cfg pad ok)
    by_cases hdone : ok = true ∧ l.guest.syncReady = false
    · obtain ⟨rfl, hr⟩ := hdone
      rw [endApplySync_applied h.host (h.peers i l hl) hp hr pad] at hrec
      exact .guestStart i l ep d m cfg blob pad rfl hl hp hr hrec
    · have hnone : ok = false ∨ l.guest.syncReady = true := by
        cases ok <;> cases hx : l.guest.syncReady <;> simp_all
      rw [endApplySync_applied_none hnone] at hrec
      refine .none ?_ hrec
      intro l' ep' d' m' cfg' blob' hl' _ hok hr
      rw [hl] at hl'
      cases hl'
      exact absurd ⟨hok, hr⟩ hdone
  | guestStop => exact .none trivial rfl

/-! ## Every run -/

theorem AppliedStep.subset {s : Sys} {l : Label} {applied : List Applied}
    (h : AppliedStep s l applied) : s.log.applied ⊆ applied := by
  cases h with
  | none _ he => rw [he]; exact fun _ ha => ha
  | later a _ _ he => rw [he]; exact fun _ ha => List.mem_cons_of_mem _ ha
  | hostStart fr _ he => rw [he]; exact fun _ ha => List.mem_cons_of_mem _ ha
  | guestStart i p ep d m cfg blob pad _ _ _ _ he =>
    rw [he]; exact fun _ ha => List.mem_cons_of_mem _ ha

/-- One more start of an epoch, in agreement with the earlier ones. -/
theorem StartAgree.cons {log log' : Log} {a : Applied} (h : StartAgree log)
    (he : log'.applied = a :: log.applied)
    (ha : a.field = 0 → ∀ b ∈ log.applied, b.epoch = a.epoch → b.field = 0 →
      b.frame.view = a.frame.view) : StartAgree log' := by
  intro x hx y hy hep hx0 hy0
  rw [he] at hx hy
  rcases List.mem_cons.mp hx with hxa | hx
  · rcases List.mem_cons.mp hy with hya | hy
    · rw [hxa, hya]
    · rw [hxa] at hep hx0 ⊢
      exact (ha hx0 y hy hep.symm hy0).symm
  · rcases List.mem_cons.mp hy with hya | hy
    · rw [hya] at hep hy0 ⊢
      exact ha hy0 x hx hep hx0
    · exact h x hx y hy hep hx0 hy0

theorem startAgree_step {s s' : Sys} {l : Label} (h : AgreeInv s) (hs : Step s l s')
    (hv : StartAgree s.log) (hl : LoadsHostView s l) : StartAgree s'.log := by
  cases hs.applied h with
  | none _ he => intro a ha b hb; rw [he] at ha hb; exact hv a ha b hb
  | later a _ hpos he => exact hv.cons he (fun h0 => by omega)
  | hostStart fr _ he =>
    refine hv.cons he ?_
    intro _ b hb hep
    -- the epoch is new
    have := h.host.applied_epoch b hb
    dsimp only at hep
    omega
  | guestStart i p ep d m cfg blob pad hlab hp hph hr he =>
    refine hv.cons he ?_
    intro _ b hb hep hb0
    subst hlab
    obtain ⟨-, ⟨fr, hfr⟩, -⟩ := (h.peers i p hp).applying ep d m cfg blob hph
    have hview := hl p ep d m cfg blob hp hph rfl hr fr hfr
    have := hv b hb _ hfr hep hb0 rfl
    rw [this]
    exact hview.symm

theorem loads_of_startAgree {s s' : Sys} {l : Label} (h : AgreeInv s) (hs : Step s l s')
    (hv : StartAgree s'.log) : LoadsHostView s l := by
  cases hs.applied h with
  | none hl _ => exact hl
  | later _ hl _ _ => exact hl
  | hostStart _ hl _ => exact hl
  | guestStart i p ep d m cfg blob pad hlab hp hph hr he =>
    subst hlab
    intro p' ep' d' m' cfg' blob' hp' hph' _ _ fr hfr
    rw [hp] at hp'
    cases hp'
    rw [hph] at hph'
    cases hph'
    have hnew : (⟨.guest i, ep, 0, .blank p.guest.cur.view⟩ : Applied) ∈ s'.log.applied := by
      rw [he]; exact List.mem_cons_self ..
    have hold : (⟨.host, ep, 0, fr⟩ : Applied) ∈ s'.log.applied := by
      rw [he]; exact List.mem_cons_of_mem _ hfr
    exact hv _ hnew _ hold rfl rfl rfl

/-- **View agreement, exactly.** At the end of a run any two machines that
    applied the same field of the same epoch applied the same view, if and
    only if every guest that took up a loaded state during the run was
    showing the view with which the host had started that epoch. -/
theorem view_agree_iff {tr : List (Sys × Label)} {s : Sys} (hr : netplay.Run tr s) :
    ViewAgree s.log ↔ ∀ p ∈ tr, LoadsHostView p.1 p.2 := by
  rw [viewAgree_iff_startAgree (agreeInv_reachable hr.reachable).host]
  induction hr with
  | init h =>
    obtain ⟨env, romHash, ports, rfl⟩ := h
    constructor
    · intro _ p hp
      cases hp
    · intro _ a ha
      cases ha
  | @step tr s l s' hr hs ih =>
    have hI := agreeInv_reachable hr.reachable
    have hstep := Step.of_step hs
    constructor
    · intro hv
      have hprev : StartAgree s.log := fun a ha b hb =>
        hv a ((hstep.applied hI).subset ha) b ((hstep.applied hI).subset hb)
      intro p hp
      rcases List.mem_cons.mp hp with rfl | hp
      · exact loads_of_startAgree hI hstep hv
      · exact ih.mp hprev p hp
    · intro hall
      have hv := ih.mpr (fun p hp => hall p (List.mem_cons_of_mem _ hp))
      exact startAgree_step hI hstep hv (hall (s, l) (List.mem_cons_self ..))

instance (log : Log) : Decidable (ViewAgree log) :=
  inferInstanceAs (Decidable (∀ a ∈ log.applied, ∀ b ∈ log.applied, _ → _ → _))

/-- A guest that joins while the host shows the full screen starts on the
    host's view. -/
theorem view_agree_first_join : ∃ tr s, netplay.Run tr s ∧
    (∃ l ∈ s.peers, l.guest.synced = true) ∧ ∀ p ∈ tr, LoadsHostView p.1 p.2 := by
  obtain ⟨s, ⟨tr, hr⟩, h⟩ := exists_reachable
    [.admitGuest (joinHello 0) true noPorts, .serviceSync .rest [], .clientRx 0,
      .guestField 0 .rest 0, .guestApplied 0 .rest true]
    (fun s => decide (ViewAgree s.log) && s.peers.any (fun l => l.guest.synced))
    (show (exec (start none 0 noPorts) _).any _ = true by decide)
  simp only [Bool.and_eq_true, decide_eq_true_eq, List.any_eq_true] at h
  exact ⟨tr, s, hr, h.2, (view_agree_iff hr).mp h.1⟩

/-- The host shows the two-row view when a second guest joins: that guest
    plays the first field of the new epoch full screen. -/
theorem view_disagree_second_join : ¬ ∀ s, netplay.Reachable s → ViewAgree s.log := by
  obtain ⟨s, hs, h⟩ := exists_reachable
    [.admitGuest (joinHello 0) true noPorts, .serviceSync .rest [], .hostRxExit 0,
      .setView 1, .hostField .rest 0, .hostField .rest 0, .hostField .rest 0,
      .admitGuest (joinHello 0) true noPorts, .serviceSync .rest [], .clientRx 1,
      .guestField 1 .rest 0, .guestApplied 1 .rest true]
    (fun s => !decide (ViewAgree s.log))
    (show (exec (start none 0 noPorts) _).any _ = true by decide)
  intro hall
  simp [hall s hs] at h

end Netplay
