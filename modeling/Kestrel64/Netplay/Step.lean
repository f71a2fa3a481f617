import Kestrel64.Netplay.Session
import Mathlib.Data.Option.Basic

/-! # Netplay: What a Step Can Do

    * `Step` inverts `step`: one constructor per label, with the guards the
      step passed.
    * One lemma for each host operation says how it branches
      (`tryComplete_cases`) or which fields it can touch (`compareHash_eq`,
      `hashCheck_eq`, `setView_eq`).
    * `exec` runs a list of labels, for the concrete runs.

    The invariants of the protocol are proved from these and do not unfold
    `step` again.
-/

namespace Netplay


/-- `step` as a relation, one constructor per label, guards included. -/
inductive Step (s : Sys) : Label → Sys → Prop where
  | admitGuest (r sent ports) : Step s (.admitGuest r sent ports) (Netplay.admitGuest s r sent ports)
  | hostRx {i l m ms} : s.peers[i]? = some l → l.alive = true → l.up = m :: ms →
      Step s (.hostRx i)
        (Netplay.hostRx (s.setPeer i { l with up := ms }) i { l with up := ms } m)
  | hostRxExit {i l} : s.peers[i]? = some l → l.alive = true →
      Step s (.hostRxExit i) (Netplay.hostRxExit s i l)
  | serviceSync (pad state) : s.host.waiting = none →
      Step s (.serviceSync pad state) (Netplay.serviceSync s pad state)
  | hostField (pad hash) : s.host.waiting = none →
      Step s (.hostField pad hash) (Netplay.hostField s pad hash)
  | hostWake {f} : s.host.waiting = some f → Step s .hostWake (hostResume s f)
  | setView {mode h} : Netplay.setView s.host mode = .ok h →
      Step s (.setView mode) { s with host := h }
  | clientRx {i l m ms} : s.peers[i]? = some l → l.down = m :: ms →
      Step s (.clientRx i)
        (s.setPeer i { l with down := ms, guest := Netplay.clientRx l.guest m })
  | clientRxExit {i l} : s.peers[i]? = some l →
      Step s (.clientRxExit i) (s.setPeer i { l with guest := Netplay.clientRxExit l.guest })
  | guestField {i l} (pad hash) : s.peers[i]? = some l → l.guest.phase = .idle →
      Step s (.guestField i pad hash) (s.guestStep i l (Netplay.guestField l.guest pad hash))
  | guestWake {i l out} : s.peers[i]? = some l → Netplay.guestWake l.guest = some out →
      Step s (.guestWake i) (s.guestStep i l out)
  | guestApplied {i l ep d m cfg blob} (pad ok) : s.peers[i]? = some l →
      l.guest.phase = .applying ep d m cfg blob →
      Step s (.guestApplied i pad ok)
        (s.guestStep i l (endApplySync l.guest ep d m cfg pad ok))
  | guestStop {i l} : s.peers[i]? = some l →
      Step s (.guestStop i) (s.setPeer i { l with
        up := l.up ++ [.bye]
        guest := { l.guest with phase := .off, lockstep := false } })

theorem Step.of_step {s s' : Sys} {l : Label} (h : step s l = some s') : Step s l s' := by
  cases l with
  | admitGuest r sent ports => cases h; exact .admitGuest r sent ports
  | hostRx i =>
    simp only [step, Option.bind_eq_bind, Option.bind_eq_some_iff, Option.guard_eq_some'] at h
    obtain ⟨l, hl, _, ha, h⟩ := h
    cases hm : l.up with
    | nil => simp [hm] at h
    | cons m ms =>
      simp only [hm, Option.some.injEq] at h
      exact h ▸ .hostRx hl ha hm
  | hostRxExit i =>
    simp only [step, Option.bind_eq_bind, Option.bind_eq_some_iff, Option.guard_eq_some',
      Option.some.injEq] at h
    obtain ⟨l, hl, _, ha, rfl⟩ := h
    exact .hostRxExit hl ha
  | serviceSync pad state =>
    simp only [step, Option.ite_none_right_eq_some, Option.some.injEq] at h
    exact h.2 ▸ .serviceSync pad state h.1.2
  | hostField pad hash =>
    simp only [step, Option.ite_none_right_eq_some, Option.some.injEq] at h
    exact h.2 ▸ .hostField pad hash h.1
  | hostWake =>
    simp only [step] at h
    cases hw : s.host.waiting with
    | none => simp [hw] at h
    | some f =>
      simp only [hw, Option.some.injEq] at h
      exact h ▸ .hostWake hw
  | setView mode =>
    simp only [step] at h
    cases hv : Netplay.setView s.host mode with
    | error e => simp [hv] at h
    | ok v =>
      simp only [hv, Option.some.injEq] at h
      exact h ▸ .setView hv
  | clientRx i =>
    simp only [step, Option.bind_eq_bind, Option.bind_eq_some_iff, Option.guard_eq_some'] at h
    obtain ⟨l, hl, _, _, h⟩ := h
    cases hm : l.down with
    | nil => simp [hm] at h
    | cons m ms =>
      simp only [hm, Option.some.injEq] at h
      exact h ▸ .clientRx hl hm
  | clientRxExit i =>
    simp only [step, Option.bind_eq_bind, Option.bind_eq_some_iff, Option.guard_eq_some',
      Option.some.injEq] at h
    obtain ⟨l, hl, _, _, rfl⟩ := h
    exact .clientRxExit hl
  | guestField i pad hash =>
    simp only [step, Option.bind_eq_bind, Option.bind_eq_some_iff, Option.guard_eq_some',
      Option.some.injEq] at h
    obtain ⟨l, hl, _, hp, rfl⟩ := h
    exact .guestField pad hash hl hp
  | guestWake i =>
    simp only [step, Option.bind_eq_bind, Option.bind_eq_some_iff, Option.some.injEq] at h
    obtain ⟨l, hl, out, ho, rfl⟩ := h
    exact .guestWake hl ho
  | guestApplied i pad ok =>
    simp only [step, Option.bind_eq_bind, Option.bind_eq_some_iff] at h
    obtain ⟨l, hl, h⟩ := h
    cases hp : l.guest.phase with
    | applying ep d m cfg blob =>
      simp only [hp, Option.some.injEq] at h
      exact h ▸ .guestApplied pad ok hl hp
    | _ => simp [hp] at h
  | guestStop i =>
    simp only [step, Option.bind_eq_bind, Option.bind_eq_some_iff, Option.guard_eq_some',
      Option.some.injEq] at h
    obtain ⟨l, hl, _, _, rfl⟩ := h
    exact .guestStop hl

theorem peers_setPeer_self {s : Sys} {i : Nat} {l : Peer} (h : s.peers[i]? = some l)
    (l' : Peer) : (s.setPeer i l').peers[i]? = some l' := by
  rw [Sys.setPeer, List.getElem?_set_self (List.getElem?_eq_some_iff.mp h).1]

theorem missing_eq_false {m : Mask} {row : Slot → Option Pad} :
    missing m row = false ↔ ∀ i, m i = true → (row i).isSome := by
  simp only [missing, List.any_eq_false, List.mem_finRange, Bool.and_eq_true,
    Option.isNone_iff_eq_none, forall_true_left, not_and, ← Option.isSome_iff_ne_none]

/-- `tryComplete` either does nothing or publishes the field. -/
theorem tryComplete_cases (s : Sys) (f : Nat) :
    (tryComplete s f = s ∧
      ∀ row, s.host.partialPads.find? f = some row → missing s.host.mask row = true) ∨
    ∃ row, s.host.partialPads.find? f = some row ∧ missing s.host.mask row = false ∧
      tryComplete s f = publish s f (assemble row (s.host.partialView.find? f)) := by
  unfold tryComplete
  cases hrow : s.host.partialPads.find? f with
  | none => exact .inl ⟨rfl, fun row h => nomatch h⟩
  | some row =>
    by_cases hm : missing s.host.mask row = true
    · exact .inl ⟨by simp [hm], fun row' h => by cases h; exact hm⟩
    · have hm' : missing s.host.mask row = false := by simpa using hm
      exact .inr ⟨row, rfl, hm', by simp [hm']⟩

/-! ## Frame lemmas

    Collecting pads touches `ready`, `partial` and `partialView` of the host
    and the outgoing queues, nothing else. -/

/-- The state without what collecting pads can change. -/
def Sys.rest (s : Sys) : Sys where
  host := { s.host with ready := ∅, partialPads := ∅, partialView := ∅ }
  peers := s.peers.map (fun l => { l with down := [] })
  log := { s.log with bcasts := [] }

theorem broadcast_rest (s : Sys) (m : DownMsg) : (s.broadcast m).rest = s.rest := by
  have hpeers : (s.peers.map (Peer.post m)).map (fun l => { l with down := [] }) =
      s.peers.map (fun l => { l with down := [] }) := by
    rw [List.map_map]
    apply List.map_congr_left
    intro l _
    unfold Function.comp Peer.post
    split <;> rfl
  simp only [Sys.rest, Sys.broadcast, hpeers]

theorem publish_rest (s : Sys) (f : Nat) (fr : Frame) : (publish s f fr).rest = s.rest := by
  unfold publish
  rw [broadcast_rest]
  rfl

theorem tryComplete_rest (s : Sys) (f : Nat) : (tryComplete s f).rest = s.rest := by
  rcases tryComplete_cases s f with ⟨h, -⟩ | ⟨row, -, -, h⟩
  · rw [h]
  · rw [h, publish_rest]

theorem submit_rest (s : Sys) (c : Slot) (f : Nat) (p : Pad) :
    (submit s c f p).rest = s.rest := by
  unfold submit
  split
  · rfl
  · rw [tryComplete_rest]; rfl

theorem hostSubmit_rest (s : Sys) (f : Nat) (p : Pad) : (hostSubmit s f p).rest = s.rest := by
  unfold hostSubmit
  rw [submit_rest]; rfl

theorem hostSubmit_nextField (s : Sys) (f : Nat) (p : Pad) :
    (hostSubmit (nextField s) f p).host.field = s.host.field + 1 :=
  (congrArg (fun r => r.host.field) (hostSubmit_rest (nextField s) f p) :)

theorem retryAll_rest (s : Sys) : (retryAll s).rest = s.rest := by
  have hfold : ∀ (fs : List Nat) (s : Sys), (fs.foldl tryComplete s).rest = s.rest := by
    intro fs
    induction fs with
    | nil => exact fun s => rfl
    | cons f fs ih => exact fun s => (ih _).trans (tryComplete_rest s f)
  exact hfold _ s

/-- Slot and liveness of each link: all that membership depends on. -/
def Sys.links (s : Sys) : List (Slot × Bool) := s.peers.map (fun l => (l.slot, l.alive))

theorem links_of_peer {s : Sys} {i : Nat} {l : Peer} (h : s.peers[i]? = some l) :
    s.links[i]? = some (l.slot, l.alive) := by
  simp [Sys.links, h]

theorem peer_of_links {s : Sys} {i : Nat} {c : Slot} {b : Bool}
    (h : s.links[i]? = some (c, b)) : ∃ l, s.peers[i]? = some l ∧ l.slot = c ∧ l.alive = b := by
  simpa [Sys.links, Option.map_eq_some_iff, Prod.ext_iff] using h

theorem links_of_rest {s t : Sys} (h : s.rest = t.rest) : s.links = t.links := by
  have hrest : ∀ s : Sys, s.rest.links = s.links := by
    intro s
    simp [Sys.links, Sys.rest]
  rw [← hrest s, h, hrest t]

/-- A step of one link's queues or guest is no matter of membership. -/
theorem links_set {s : Sys} {i : Nat} {l l' : Peer} (h : s.peers[i]? = some l)
    (hs : l'.slot = l.slot) (ha : l'.alive = l.alive) :
    (s.peers.set i l').map (fun l => (l.slot, l.alive)) = s.links := by
  unfold Sys.links
  rw [List.map_set, hs, ha]
  apply List.ext_getElem?
  intro j
  rw [List.getElem?_set]
  split
  · next hij =>
    subst hij
    split
    · simp [h]
    · next hlen => simp at hlen; simp [hlen]
  · rfl

/-- The host's `partial` after `publish`. -/
@[simp] theorem publish_partialPads (s : Sys) (f : Nat) (fr : Frame) :
    (publish s f fr).host.partialPads = s.host.partialPads.erase f := rfl

@[simp] theorem putPad_find? (s : Sys) (c : Slot) (f g : Nat) (p : Pad) :
    (putPad s c f p).host.partialPads.find? g =
      if g = f then some (Function.update (s.host.row f) c (some p))
      else s.host.partialPads.find? g := by
  simp only [putPad, OrdMap.find?_insert]

/-- The comparison of hashes touches only counters, the message and the
    request for a synchronisation. -/
theorem compareHash_eq (h : HostSession) (slot : Slot) (f : Nat) (theirs mine : Hash) :
    ∃ c d m r, compareHash h slot f theirs mine =
      { h with checks := c, desyncs := d, msg := m, netSyncReq := r } := by
  unfold compareHash
  split
  · exact ⟨h.checks + 1, h.desyncs, h.msg, h.netSyncReq, rfl⟩
  · exact ⟨_, _, _, _, rfl⟩

theorem hostHash_eq (h : HostSession) (f : Nat) (hash : Hash) :
    ∃ c d m r mh ph, hostHash h f hash =
      { h with checks := c, desyncs := d, msg := m, netSyncReq := r,
               myHash := mh, peerHash := ph } := by
  have hfold : ∀ (qs : List PeerHash) (h : HostSession), ∃ c d m r,
      qs.foldl (fun h q => compareHash h q.slot f q.h hash) h =
        { h with checks := c, desyncs := d, msg := m, netSyncReq := r } := by
    intro qs
    induction qs with
    | nil => intro h; exact ⟨h.checks, h.desyncs, h.msg, h.netSyncReq, rfl⟩
    | cons q qs ih =>
      intro h
      obtain ⟨c, d, m, r, hq⟩ := compareHash_eq h q.slot f q.h hash
      obtain ⟨c', d', m', r', hqs⟩ := ih (compareHash h q.slot f q.h hash)
      refine ⟨c', d', m', r', ?_⟩
      rw [List.foldl_cons, hqs, hq]
  unfold hostHash
  dsimp only
  obtain ⟨c, d, m, r, hq⟩ := hfold
    (h.peerHash.filter (fun q => q.f = f))
    { h with myHash := if 32 < (h.myHash.insert f hash).size
        then (h.myHash.insert f hash).eraseFirst else h.myHash.insert f hash }
  rw [hq]
  exact ⟨c, d, m, r, _, _, rfl⟩

theorem hashCheck_eq (s : Sys) (f : Nat) (hash : Hash) :
    ∃ c d m r mh ph, hashCheck s f hash =
      { s with host := { s.host with checks := c, desyncs := d, msg := m, netSyncReq := r,
                                     myHash := mh, peerHash := ph } } := by
  unfold hashCheck
  split
  · obtain ⟨c, d, m, r, mh, ph, he⟩ := hostHash_eq s.host f hash
    exact ⟨c, d, m, r, mh, ph, by rw [he]⟩
  · exact ⟨s.host.checks, s.host.desyncs, s.host.msg, s.host.netSyncReq,
      s.host.myHash, s.host.peerHash, rfl⟩

theorem setView_eq {h h' : HostSession} {mode : Int} (hv : setView h mode = .ok h') :
    ∃ v m, h' = { h with hostView := v, msg := m } := by
  unfold setView at hv
  split at hv
  · cases hv
  · cases hv; exact ⟨_, _, rfl⟩

theorem waiting_of_rest {s t : Sys} (h : s.rest = t.rest) : s.host.waiting = t.host.waiting :=
  (congrArg (fun r => r.host.waiting) h :)

/-- The receiver threads do not touch what the core thread waits for. -/
theorem hostRxExit_waiting (s : Sys) (i : Nat) (l : Peer) :
    (hostRxExit s i l).host.waiting = s.host.waiting := by
  unfold hostRxExit
  dsimp only
  split
  · show (leaveGame (dropLink s i l) l.slot).host.waiting = s.host.waiting
    unfold leaveGame
    rw [waiting_of_rest (retryAll_rest _)]
    rfl
  · rfl

theorem hostRx_waiting (s : Sys) (i : Nat) (l : Peer) (m : UpMsg) :
    (hostRx s i l m).host.waiting = s.host.waiting := by
  cases m with
  | input ep f p =>
    simp only [hostRx]
    split
    · exact waiting_of_rest (submit_rest s l.slot f p)
    · rfl
  | hash ep f x =>
    simp only [hostRx]
    split
    · rfl
    · split
      · next mine _ =>
        obtain ⟨c, d, m, r, he⟩ := compareHash_eq s.host l.slot f x mine
        rw [he]
      · rfl
  | bye => exact hostRxExit_waiting s i l

/-! ## Concrete runs -/

/-- Nothing plugged in. -/
def noPorts : Slot → PadCfg := fun _ => ⟨false, false, 0⟩

/-- Take the steps `ls`, oldest first. -/
def exec (s : Sys) (ls : List Label) : Option Sys := ls.foldlM step s

theorem reachable_exec {ls : List Label} {s s' : Sys} (hs : netplay.Reachable s)
    (h : exec s ls = some s') : netplay.Reachable s' := by
  induction ls generalizing s with
  | nil => cases h; exact hs
  | cons l ls ih =>
    simp only [exec, List.foldlM_cons, Option.bind_eq_bind, Option.bind_eq_some_iff] at h
    obtain ⟨t, ht, h⟩ := h
    exact ih (hs.step ht) h

/-- A run from `start` whose final state passes the test `p`. -/
theorem exists_reachable {env : Option (BitVec 32)} {romHash : Hash}
    {ports : Slot → PadCfg} (ls : List Label) (p : Sys → Bool)
    (h : (exec (start env romHash ports) ls).any p = true) :
    ∃ s, netplay.Reachable s ∧ p s = true := by
  obtain ⟨s, hs, hp⟩ := (Option.any_eq_true _ _).mp h
  exact ⟨s, reachable_exec (.of_init ⟨_, _, _, rfl⟩) hs, hp⟩

end Netplay
