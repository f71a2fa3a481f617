import Kestrel64.Netplay.Step

/-! # Netplay: Who is in the Game

    Slots are handed out by `admit`, moved from `pendingMask` to `mask` by
    `serviceSync` and freed when a link's `hostRx` ends, each in its own
    thread. Two facts hold throughout:

    * `Roster` — `mask` and `pendingMask` are disjoint, every bit of
      either (bit 0 of `mask` apart) belongs to a live link, and live links
      have different slots in 1..3.
    * `NoStall` — no field waits in `partial` with every pad it needs. A
      departing player shrinks the mask, so its exit goes once over all the
      waiting fields.
-/

namespace Netplay

/-! ## The membership invariant -/

/-- The bits of the two masks against the links. -/
structure Roster (mask pending : Mask) (links : List (Slot × Bool)) : Prop where
  host_in : mask 0 = true
  mask_alive : ∀ c, c ≠ 0 → mask c = true → ∃ k : Nat, links[k]? = some (c, true)
  pending_alive : ∀ c, pending c = true → ∃ k : Nat, links[k]? = some (c, true)
  disjoint : ∀ c, ¬ (mask c = true ∧ pending c = true)
  slot_pos : ∀ (k : Nat) c, links[k]? = some (c, true) → c ≠ 0
  slot_inj : ∀ (j k : Nat) c, links[j]? = some (c, true) → links[k]? = some (c, true) → j = k

/-- No field is held back with all the pads it needs. -/
def NoStall (h : HostSession) : Prop :=
  ∀ f row, h.partialPads.find? f = some row → missing h.mask row = true

theorem aliveSlots_eq_true {peers : List Peer} {c : Slot} :
    aliveSlots peers c = true ↔
      c = 0 ∨ ∃ k : Nat, (peers.map (fun l => (l.slot, l.alive)))[k]? = some (c, true) := by
  simp only [aliveSlots, Bool.or_eq_true, decide_eq_true_eq, List.any_eq_true,
    Bool.and_eq_true, ← List.mem_iff_getElem?, List.mem_map, Prod.mk.injEq]
  constructor
  · rintro (h | ⟨l, hl, ha, hs⟩)
    · exact .inl h
    · exact .inr ⟨l, hl, hs, ha⟩
  · rintro (h | ⟨l, hl, hs, ha⟩)
    · exact .inl h
    · exact .inr ⟨l, hl, ha, hs⟩

/-- The slot `admit` gives out is nobody's. -/
theorem freeSlot_spec {s : Sys} {c : Slot} (h : freeSlot s = some c) :
    c ≠ 0 ∧ s.host.mask c = false ∧ s.host.pendingMask c = false ∧
      ∀ k : Nat, s.links[k]? ≠ some (c, true) := by
  unfold freeSlot at h
  have hused := List.find?_some h
  have hmem := List.mem_of_find?_eq_some h
  have hc : c ≠ 0 := by
    intro h0
    subst h0
    revert hmem
    decide
  simp only [Bool.not_eq_true', Bool.or_eq_false_iff] at hused
  refine ⟨hc, hused.1.1, hused.1.2, ?_⟩
  intro k hk
  have : aliveSlots s.peers c = true := aliveSlots_eq_true.mpr (.inr ⟨k, hk⟩)
  rw [hused.2] at this
  cases this

theorem Roster.admitGuest {mask pending : Mask} {links : List (Slot × Bool)} {c : Slot}
    (h : Roster mask pending links) (hc : c ≠ 0) (hm : mask c = false)
    (hl : ∀ k : Nat, links[k]? ≠ some (c, true)) :
    Roster mask (fun i => pending i || Mask.bit c i) (links ++ [(c, true)]) := by
  have hnew : ∀ (k : Nat) a, (links ++ [(c, true)])[k]? = some (a, true) →
      links[k]? = some (a, true) ∨ k = links.length ∧ a = c := by
    intro k a hk
    rw [List.getElem?_append] at hk
    split at hk
    · exact .inl hk
    · next hlen =>
      rw [List.getElem?_singleton] at hk
      split at hk
      · next h0 =>
        cases hk
        exact .inr ⟨by omega, rfl⟩
      · cases hk
  have hold : ∀ (k : Nat) a, links[k]? = some (a, true) →
      (links ++ [(c, true)])[k]? = some (a, true) := by
    intro k a hk
    rw [List.getElem?_append_left (List.getElem?_eq_some_iff.mp hk).1, hk]
  constructor
  case host_in => exact h.host_in
  case mask_alive =>
    intro a ha hma
    obtain ⟨k, hk⟩ := h.mask_alive a ha hma
    exact ⟨k, hold k a hk⟩
  case pending_alive =>
    intro a ha
    simp only [Mask.bit_apply, Bool.or_eq_true, decide_eq_true_eq] at ha
    rcases ha with ha | rfl
    · obtain ⟨k, hk⟩ := h.pending_alive a ha
      exact ⟨k, hold k a hk⟩
    · exact ⟨links.length, by simp⟩
  case disjoint =>
    rintro a ⟨hma, ha⟩
    simp only [Mask.bit_apply, Bool.or_eq_true, decide_eq_true_eq] at ha
    rcases ha with ha | rfl
    · exact h.disjoint a ⟨hma, ha⟩
    · rw [hm] at hma; cases hma
  case slot_pos =>
    intro k a hk
    rcases hnew k a hk with hk | ⟨-, rfl⟩
    · exact h.slot_pos k a hk
    · exact hc
  case slot_inj =>
    intro j k a hj hk
    rcases hnew j a hj with hj | ⟨rfl, hac⟩
    · rcases hnew k a hk with hk | ⟨-, hac⟩
      · exact h.slot_inj j k a hj hk
      · exact absurd (hac ▸ hj) (hl j)
    · rcases hnew k a hk with hk | ⟨hk, -⟩
      · exact absurd (hac ▸ hk) (hl k)
      · exact hk.symm

/-- A link that ends takes its bit out of both masks. -/
theorem Roster.exit {mask pending : Mask} {links : List (Slot × Bool)} {i : Nat}
    {c : Slot} (h : Roster mask pending links) (hi : links[i]? = some (c, true)) :
    Roster (mask.clear c) (pending.clear c) (links.set i (c, false)) := by
  have hc : c ≠ 0 := h.slot_pos i c hi
  have hold : ∀ (k : Nat) a, a ≠ c → links[k]? = some (a, true) →
      (links.set i (c, false))[k]? = some (a, true) := by
    intro k a ha hk
    rw [List.getElem?_set_ne, hk]
    intro hik
    subst hik
    rw [hi] at hk
    cases hk
    exact ha rfl
  have hnew : ∀ (k : Nat) a, (links.set i (c, false))[k]? = some (a, true) →
      links[k]? = some (a, true) := by
    intro k a hk
    rw [List.getElem?_set] at hk
    split at hk
    · split at hk <;> simp at hk
    · exact hk
  constructor
  case host_in => simp [h.host_in, hc.symm]
  case mask_alive =>
    intro a ha hma
    simp only [Mask.clear_apply, Bool.and_eq_true, decide_eq_true_eq] at hma
    obtain ⟨k, hk⟩ := h.mask_alive a ha hma.1
    exact ⟨k, hold k a hma.2 hk⟩
  case pending_alive =>
    intro a hpa
    simp only [Mask.clear_apply, Bool.and_eq_true, decide_eq_true_eq] at hpa
    obtain ⟨k, hk⟩ := h.pending_alive a hpa.1
    exact ⟨k, hold k a hpa.2 hk⟩
  case disjoint =>
    rintro a ⟨hma, hpa⟩
    simp only [Mask.clear_apply, Bool.and_eq_true, decide_eq_true_eq] at hma hpa
    exact h.disjoint a ⟨hma.1, hpa.1⟩
  case slot_pos => exact fun k a hk => h.slot_pos k a (hnew k a hk)
  case slot_inj => exact fun j k a hj hk => h.slot_inj j k a (hnew j a hj) (hnew k a hk)

/-- Bits that are not set can be cleared. -/
theorem Roster.clear_of_not_mem {mask pending : Mask} {links : List (Slot × Bool)}
    {c : Slot} (h : Roster (mask.clear c) pending links) (hm : mask c = false) :
    Roster mask pending links := by
  have : mask.clear c = mask := by
    funext a
    by_cases ha : a = c
    · simp [ha, hm]
    · simp [ha]
  rwa [this] at h

theorem Roster.sync {mask pending : Mask} {peers : List Peer}
    (h : Roster mask pending (peers.map (fun l => (l.slot, l.alive)))) :
    Roster (fun i => (mask i || pending i || Mask.bit 0 i) && aliveSlots peers i)
      (fun _ => false) (peers.map (fun l => (l.slot, l.alive))) := by
  constructor
  case host_in => simp [h.host_in, aliveSlots]
  case mask_alive =>
    intro a ha hma
    simp only [Bool.and_eq_true] at hma
    rcases aliveSlots_eq_true.mp hma.2 with h0 | hk
    · exact absurd h0 ha
    · exact hk
  case pending_alive => intro a ha; cases ha
  case disjoint => rintro a ⟨-, ha⟩; cases ha
  case slot_pos => exact h.slot_pos
  case slot_inj => exact h.slot_inj

/-! ## The host operations

    `tryComplete` and `submit` leave masks and links alone and never let a
    complete field wait. -/

/-- The part of the state that membership is about. -/
def Sys.members (s : Sys) : Mask × Mask × List (Slot × Bool) :=
  (s.host.mask, s.host.pendingMask, s.links)

theorem members_of_rest {s t : Sys} (h : s.rest = t.rest) : s.members = t.members := by
  have h1 : s.host.mask = t.host.mask := (congrArg (fun r => r.host.mask) h :)
  have h2 : s.host.pendingMask = t.host.pendingMask :=
    (congrArg (fun r => r.host.pendingMask) h :)
  unfold Sys.members
  rw [h1, h2, links_of_rest h]

theorem hostResume_members (s : Sys) (f : Nat) : (hostResume s f).members = s.members := by
  unfold hostResume
  split <;> rfl

theorem members_mask {s t : Sys} (h : s.members = t.members) : s.host.mask = t.host.mask :=
  congrArg Prod.fst h

/-- What waits after `tryComplete s f`: only what waited before, and not `f`
    unless a pad is missing. -/
theorem tryComplete_partial {s : Sys} {f g : Nat} {row : Slot → Option Pad}
    (h : (tryComplete s f).host.partialPads.find? g = some row) :
    s.host.partialPads.find? g = some row ∧
      (g = f → missing s.host.mask row = true) := by
  rcases tryComplete_cases s f with ⟨he, hm⟩ | ⟨row', -, -, he⟩
  · rw [he] at h
    exact ⟨h, fun hg => hm row (hg ▸ h)⟩
  · rw [he, publish_partialPads, OrdMap.find?_erase] at h
    split at h
    · cases h
    · next hg => exact ⟨h, fun hgf => absurd hgf hg⟩

theorem submit_noStall {s : Sys} (h : NoStall s.host) (c : Slot) (f : Nat) (p : Pad) :
    NoStall (submit s c f p).host := by
  have hmask := members_mask (members_of_rest (submit_rest s c f p))
  intro g row hrow
  rw [hmask]
  revert hrow
  unfold submit
  split
  · exact h g row
  · intro hrow
    obtain ⟨hin, hf⟩ := tryComplete_partial hrow
    by_cases hg : g = f
    · exact hf hg
    · rw [putPad_find?, if_neg hg] at hin
      exact h g row hin

theorem hostSubmit_noStall {s : Sys} (h : NoStall s.host) (f : Nat) (p : Pad) :
    NoStall (hostSubmit s f p).host := by
  exact submit_noStall (s := putView s f) h 0 f p

/-- Going once over a list of fields leaves none of them complete. -/
theorem foldl_tryComplete_noStall (fs : List Nat) (s : Sys)
    (h : ∀ f row, s.host.partialPads.find? f = some row →
      f ∈ fs ∨ missing s.host.mask row = true) :
    NoStall (fs.foldl tryComplete s).host := by
  induction fs generalizing s with
  | nil =>
    intro f row hrow
    rcases h f row hrow with hf | hm
    · cases hf
    · exact hm
  | cons g fs ih =>
    apply ih
    intro f row hrow
    rw [members_mask (members_of_rest (tryComplete_rest s g))]
    obtain ⟨hin, hg⟩ := tryComplete_partial hrow
    rcases h f row hin with hf | hm
    · rcases List.mem_cons.mp hf with hf | hf
      · exact .inr (hg hf)
      · exact .inl hf
    · exact .inr hm

/-! ## Every run -/

/-- The invariant: masks against links, and no complete field waiting. -/
structure MemberInv (s : Sys) : Prop where
  members : Roster s.host.mask s.host.pendingMask s.links
  noStall : NoStall s.host

/-- `MemberInv` only looks at the members and at `partial`. -/
theorem MemberInv.of_eq {s t : Sys} (h : MemberInv s) (hm : t.members = s.members)
    (hp : t.host.partialPads = s.host.partialPads) : MemberInv t := by
  simp only [Sys.members, Prod.mk.injEq] at hm
  obtain ⟨h1, h2, h3⟩ := hm
  refine ⟨?_, ?_⟩
  · rw [h1, h2, h3]; exact h.members
  · unfold NoStall; rw [h1, hp]; exact h.noStall

theorem memberInv_submit {s : Sys} (h : MemberInv s) (c : Slot) (f : Nat) (p : Pad) :
    MemberInv (submit s c f p) := by
  have hm := members_of_rest (submit_rest s c f p)
  simp only [Sys.members, Prod.mk.injEq] at hm
  obtain ⟨h1, h2, h3⟩ := hm
  refine ⟨?_, submit_noStall h.noStall c f p⟩
  rw [h1, h2, h3]
  exact h.members

theorem memberInv_hostSubmit {s : Sys} (h : MemberInv s) (f : Nat) (p : Pad) :
    MemberInv (hostSubmit s f p) :=
  memberInv_submit (s := putView s f) ⟨h.members, h.noStall⟩ 0 f p

theorem memberInv_hostResume {s : Sys} (h : MemberInv s) (f : Nat) :
    MemberInv (hostResume s f) := by
  apply h.of_eq (hostResume_members s f)
  unfold hostResume
  split <;> rfl

theorem memberInv_setPeer {s : Sys} (h : MemberInv s) {i : Nat} {l : Peer}
    (hl : s.peers[i]? = some l) (l' : Peer) (hs : l'.slot = l.slot) (ha : l'.alive = l.alive) :
    MemberInv (s.setPeer i l') :=
  h.of_eq (by simp only [Sys.members, Sys.links, Sys.setPeer]; rw [links_set hl hs ha]; rfl) rfl

theorem memberInv_guestStep {s : Sys} (h : MemberInv s) {i : Nat} {l : Peer}
    (hl : s.peers[i]? = some l) (out : GuestOut) : MemberInv (s.guestStep i l out) := by
  have := memberInv_setPeer h hl { l with guest := out.guest, up := l.up ++ out.sends } rfl rfl
  exact this.of_eq rfl rfl

theorem memberInv_leaveGame {s : Sys} {c : Slot}
    (h : Roster (s.host.mask.clear c) s.host.pendingMask s.links) :
    MemberInv (leaveGame s c) := by
  have hm := members_of_rest
    (retryAll_rest { s with host := { s.host with mask := s.host.mask.clear c } })
  simp only [Sys.members, Prod.mk.injEq] at hm
  obtain ⟨h1, h2, h3⟩ := hm
  unfold leaveGame
  refine ⟨?_, ?_⟩
  · rw [h1, h2, h3]
    exact h
  · unfold retryAll
    apply foldl_tryComplete_noStall
    intro f row hrow
    exact .inl (OrdMap.mem_keys.mpr (by rw [hrow]; rfl))

theorem memberInv_hostRxExit {s : Sys} (h : MemberInv s) {i : Nat} {l : Peer}
    (hl : s.peers[i]? = some l) (ha : l.alive = true) : MemberInv (hostRxExit s i l) := by
  have hlink : s.links[i]? = some (l.slot, true) := ha ▸ links_of_peer hl
  have hset : (dropLink s i l).links = s.links.set i (l.slot, false) := by
    simp [Sys.links, dropLink, Sys.setPeer, List.map_set]
  have hex := h.members.exit hlink
  rw [← hset] at hex
  unfold hostRxExit
  dsimp only
  split
  · -- the player was in the game: its bit goes, then every waiting field is tried
    exact (memberInv_leaveGame (s := dropLink s i l) hex).of_eq rfl rfl
  · next hmask =>
    have hm : s.host.mask l.slot = false := by simpa [dropLink, Sys.setPeer] using hmask
    have hd : MemberInv (dropLink s i l) := ⟨hex.clear_of_not_mem hm, h.noStall⟩
    exact hd.of_eq rfl rfl

theorem memberInv_syncStart {s : Sys} (h : MemberInv s) (state : Blob) :
    MemberInv (syncStart s state) := by
  refine ⟨?_, ?_⟩
  · show Roster (nextMask s) (fun _ => false) (Sys.links (Sys.broadcast _ _))
    rw [links_of_rest (broadcast_rest _ _)]
    exact h.members.sync
  · intro f row hrow
    cases hrow

theorem memberInv_serviceSync {s : Sys} (h : MemberInv s) (pad : Pad) (state : Blob) :
    MemberInv (serviceSync s pad state) :=
  (memberInv_hostSubmit (memberInv_syncStart h state) _ pad).of_eq rfl rfl

theorem memberInv_hostField {s : Sys} (h : MemberInv s) (pad : Pad) (hash : Hash) :
    MemberInv (hostField s pad hash) := by
  unfold hostField
  split
  · exact h
  · dsimp only
    apply memberInv_hostResume
    have hsub := memberInv_hostSubmit (s := nextField s) ⟨h.members, h.noStall⟩
      (s.host.field + 1 + s.host.delay) pad
    obtain ⟨c, d, m, r, mh, ph, he⟩ := hashCheck_eq
      (hostSubmit (nextField s) (s.host.field + 1 + s.host.delay) pad) (s.host.field + 1) hash
    rw [he]
    exact hsub.of_eq rfl rfl

theorem memberInv_hostRx {s : Sys} (h : MemberInv s) {i : Nat} {l : Peer}
    (hl : s.peers[i]? = some l) (ha : l.alive = true) (m : UpMsg) :
    MemberInv (hostRx s i l m) := by
  cases m with
  | input ep f p =>
    simp only [hostRx]
    split
    · exact memberInv_submit h l.slot f p
    · exact h
  | hash ep f x =>
    simp only [hostRx]
    split
    · exact h
    · split
      · next mine _ =>
        obtain ⟨c, d, m, r, he⟩ := compareHash_eq s.host l.slot f x mine
        rw [he]
        exact h.of_eq rfl rfl
      · exact h.of_eq rfl rfl
  | bye => exact memberInv_hostRxExit h hl ha

theorem freeSlot_of_admitSlot {s : Sys} {r : Hello} {c : Slot} (h : admitSlot s r = .ok c) :
    freeSlot s = some c := by
  unfold admitSlot at h
  split at h
  · cases h
  · split at h
    · cases h
    · split at h
      · next hf => cases h; exact hf
      · cases h

theorem memberInv_admitGuest {s : Sys} (h : MemberInv s) (r : Hello) (sent : Bool)
    (ports : Slot → PadCfg) : MemberInv (admitGuest s r sent ports) := by
  unfold admitGuest
  cases ha : admitSlot s r with
  | error e => exact h
  | ok c =>
    obtain ⟨hc, hm, -, hl⟩ := freeSlot_spec (freeSlot_of_admitSlot ha)
    dsimp only
    split
    · exact h
    · refine ⟨?_, h.noStall⟩
      have := h.members.admitGuest hc hm hl
      simpa [Sys.links] using this

theorem memberInv_step {s s' : Sys} {l : Label} (h : MemberInv s) (hs : Step s l s') :
    MemberInv s' := by
  cases hs with
  | admitGuest r sent ports => exact memberInv_admitGuest h r sent ports
  | @hostRx i l m ms hl ha hm =>
    have hpop := memberInv_setPeer h hl { l with up := ms } rfl rfl
    exact memberInv_hostRx hpop (peers_setPeer_self hl _) ha m
  | hostRxExit hl ha => exact memberInv_hostRxExit h hl ha
  | serviceSync pad state => exact memberInv_serviceSync h pad state
  | hostField pad hash => exact memberInv_hostField h pad hash
  | hostWake => exact memberInv_hostResume h _
  | setView hv =>
    obtain ⟨v, m, rfl⟩ := setView_eq hv
    exact h.of_eq rfl rfl
  | clientRx hl => exact memberInv_setPeer h hl _ rfl rfl
  | clientRxExit hl => exact memberInv_setPeer h hl _ rfl rfl
  | guestField pad hash hl => exact memberInv_guestStep h hl _
  | guestWake hl => exact memberInv_guestStep h hl _
  | guestApplied pad ok hl => exact memberInv_guestStep h hl _
  | guestStop hl => exact memberInv_setPeer h hl _ rfl rfl

theorem memberInv_reachable {s : Sys} (h : netplay.Reachable s) : MemberInv s := by
  refine h.invariant MemberInv ?_ (fun _ _ _ _ hs hstep => memberInv_step hs (Step.of_step hstep))
  rintro s ⟨env, romHash, ports, rfl⟩
  refine ⟨?_, fun f row hrow => by cases hrow⟩
  constructor
  case host_in => rfl
  case mask_alive =>
    intro c hc hm
    exact absurd (by simpa [start, hosting] using hm) hc
  case pending_alive => intro c hc; cases hc
  case disjoint => rintro c ⟨-, hc⟩; cases hc
  case slot_pos => intro k c hk; simp [Sys.links, start] at hk
  case slot_inj => intro j k c hj; simp [Sys.links, start] at hj
/-- **Membership.** In every reachable state the host is in the game, every
    other bit of `mask` and every bit of `pendingMask` is the slot of exactly
    one live link, the two are disjoint, and live links have different slots
    in 1..3. No field is held in `partial` once every slot of the mask has
    its pad there, so the host never waits on a player that has left. -/
theorem membership {s : Sys} (h : netplay.Reachable s) :
    s.host.mask 0 = true ∧
    (∀ c, c ≠ 0 → s.host.mask c = true →
      ∃! k : Nat, ∃ l, s.peers[k]? = some l ∧ l.alive = true ∧ l.slot = c) ∧
    (∀ c, s.host.pendingMask c = true →
      ∃! k : Nat, ∃ l, s.peers[k]? = some l ∧ l.alive = true ∧ l.slot = c) ∧
    (∀ c, ¬ (s.host.mask c = true ∧ s.host.pendingMask c = true)) ∧
    (∀ (j k : Nat) (a b : Peer), s.peers[j]? = some a → s.peers[k]? = some b →
      a.alive = true → b.alive = true → a.slot ≠ 0 ∧ (a.slot = b.slot → j = k)) ∧
    (∀ f row, s.host.partialPads.find? f = some row →
      ∃ c, s.host.mask c = true ∧ row c = none) := by
  have hI := memberInv_reachable h
  have hR := hI.members
  -- a live link of slot `c` exists, hence exactly one
  have huniq : ∀ c, (∃ k : Nat, s.links[k]? = some (c, true)) →
      ∃! k : Nat, ∃ l, s.peers[k]? = some l ∧ l.alive = true ∧ l.slot = c := by
    rintro c ⟨k, hk⟩
    obtain ⟨l, hl, hs, ha⟩ := peer_of_links hk
    refine ⟨k, ⟨l, hl, ha, hs⟩, ?_⟩
    rintro j ⟨l', hl', ha', hs'⟩
    have hj : s.links[j]? = some (c, true) := hs' ▸ ha' ▸ links_of_peer hl'
    exact hR.slot_inj j k c hj hk
  refine ⟨hR.host_in, fun c hc hm => huniq c (hR.mask_alive c hc hm),
    fun c hp => huniq c (hR.pending_alive c hp), hR.disjoint, ?_, ?_⟩
  · intro j k a b ha hb hla hlb
    have hj : s.links[j]? = some (a.slot, true) := hla ▸ links_of_peer ha
    have hk : s.links[k]? = some (b.slot, true) := hlb ▸ links_of_peer hb
    exact ⟨hR.slot_pos j a.slot hj, fun hab => hR.slot_inj j k a.slot hj (hab ▸ hk)⟩
  · intro f row hrow
    have hm := hI.noStall f row hrow
    by_contra hcon
    push Not at hcon
    have : missing s.host.mask row = false :=
      missing_eq_false.mpr (fun c hc => Option.isSome_iff_ne_none.mpr (hcon c hc))
    rw [hm] at this
    cases this

/-- With one guest admitted and synchronised, its bit is its own. -/
theorem membership_one_guest : ∃ s, netplay.Reachable s ∧ s.host.mask 1 = true ∧
    ∃! k : Nat, ∃ l, s.peers[k]? = some l ∧ l.alive = true ∧ l.slot = 1 := by
  obtain ⟨s, hs, h1⟩ := exists_reachable
    [.admitGuest (joinHello 0) true noPorts, .serviceSync .rest []]
    (fun s => s.host.mask 1) (show (exec (start none 0 noPorts) _).any _ = true by decide)
  exact ⟨s, hs, h1, (membership hs).2.1 1 (by decide) h1⟩

end Netplay
