import Kestrel64.Netplay.Agreement
import Kestrel64.Netplay.Membership
import Mathlib.Order.Bounds.Defs

/-! # Netplay: No Lost Input, Bounded Skew

    For a guest whose link is alive and whose slot is in the mask, follow the
    pads it sends in the current epoch. They carry the fields `delay`,
    `delay + 1`, ... without a gap, one per field the guest starts:

      `delay .. f0 - 1`     taken by the host
      `f0 .. nextSend - 1`  in the upward queue, in this order
      `nextSend`            what the guest sends next

    The host cannot get past `f0`: a field needs the guest's pad before it is
    broadcast (`LinkLock`). So nothing the guest sends comes too late, and
    the two sides stay within `delay + 1` fields of each other. The `+ 1` is
    there because a machine sends its pad of field `f + delay` when it starts
    field `f`, before it has applied it.
-/

namespace Netplay

/-! ## Section 1: Queues -/

/-- The fields of the pads of epoch `e` in an upward queue. -/
def upFields (e : Nat) (up : List UpMsg) : List Nat :=
  up.filterMap (fun m => match m with
    | .input ep f _ => if ep = e then some f else none
    | _ => none)

/-- The epochs of the states in a downward queue. -/
def syncEpochs (down : List DownMsg) : List Nat :=
  down.filterMap (fun m => match m with
    | .sync ep _ _ _ _ => some ep
    | _ => none)

/-- The field of the next pad the guest sends in epoch `e`. -/
def nextSend (d e : Nat) (g : GuestSession) : Nat :=
  if g.epoch = e then g.field + d + 1 else d

theorem upFields_append (e : Nat) (a b : List UpMsg) :
    upFields e (a ++ b) = upFields e a ++ upFields e b := List.filterMap_append

theorem upFields_eq_nil {e : Nat} {up : List UpMsg}
    (h : ∀ ep f p, .input ep f p ∈ up → ep ≠ e) : upFields e up = [] := by
  unfold upFields
  rw [List.filterMap_eq_nil_iff]
  intro m hm
  cases m with
  | input ep f p => simp [h ep f p hm]
  | hash ep f x => rfl
  | bye => rfl

theorem mem_sentPads {i : Nat} {ms : List UpMsg} {x : Sent} :
    x ∈ sentPads i ms ↔ x.i = i ∧ .input x.epoch x.field x.pad ∈ ms := by
  unfold sentPads
  rw [List.mem_filterMap]
  constructor
  · rintro ⟨m, hm, hx⟩
    cases m with
    | input ep f p => cases hx; exact ⟨rfl, hm⟩
    | hash ep f h => cases hx
    | bye => cases hx
  · rintro ⟨rfl, hm⟩
    exact ⟨_, hm, rfl⟩

/-! ## Section 2: The invariants -/

/-- The host's side. `idle` says that it has applied its field and is not
    waiting for it. -/
structure HostLock (idle : Prop) (h : HostSession) (log : Log) : Prop where
  sent_epoch : ∀ x ∈ log.sent, x.epoch ≤ h.epoch
  epoch_pos : h.synced = true → 1 ≤ h.epoch
  last : h.synced = true → ∃ f fr, ⟨.host, h.epoch, f, fr⟩ ∈ log.applied ∧
    h.field ≤ f + 1 ∧ (idle → h.field ≤ f)
  own : ∀ f row, h.partialPads.find? f = some row → (row 0).isSome → f ≤ h.field + h.delay
  bcast_own : ∀ b ∈ log.bcasts, b.epoch = h.epoch → b.field ≤ h.field + h.delay

/-- A guest's epochs only go up, and it plays each of them once. -/
structure GuestLock (h : HostSession) (log : Log) (i : Nat) (l : Peer) : Prop where
  delay : l.guest.delay = h.delay
  up_epoch : ∀ ep f p, .input ep f p ∈ l.up → ep ≤ h.epoch
  syncs : (l.guest.rxEpoch :: syncEpochs l.down).Pairwise (· < ·)
  syncs_le : ∀ ep ∈ l.guest.rxEpoch :: syncEpochs l.down, ep ≤ h.epoch
  epoch_le : l.guest.epoch ≤ l.guest.rxEpoch
  ready_lt : l.guest.syncReady = true → l.guest.epoch < l.guest.rxEpoch
  applying_lt : ∀ ep d m cfg blob, l.guest.phase = .applying ep d m cfg blob →
    l.guest.epoch < ep ∧ ep ≤ l.guest.rxEpoch
  last : 1 ≤ l.guest.epoch → ∃ f fr, ⟨.guest i, l.guest.epoch, f, fr⟩ ∈ log.applied ∧
    l.guest.field ≤ f + 1
  idle : l.guest.phase = .idle → l.guest.synced = true → l.guest.lost = false →
    l.guest.syncReady = false → 1 ≤ l.guest.epoch ∧
      ∃ fr, ⟨.guest i, l.guest.epoch, l.guest.field, fr⟩ ∈ log.applied
  waiting : ∀ f, l.guest.phase = .waitField f → 1 ≤ l.guest.epoch ∧ f = l.guest.field

/-- The pads of a live player in the current epoch: the host has those
    before `f0`, the rest is in the queue. -/
structure LinkLock (idle : Prop) (h : HostSession) (log : Log) (i : Nat) (l : Peer)
    (f0 : Nat) : Prop where
  synced : h.synced = true
  lo : h.delay ≤ f0
  hi : f0 ≤ nextSend h.delay h.epoch l.guest
  queue : upFields h.epoch l.up =
    List.range' f0 (nextSend h.delay h.epoch l.guest - f0)
  queue_sent : ∀ f p, .input h.epoch f p ∈ l.up → ⟨i, h.epoch, f, p⟩ ∈ log.sent
  sent_lt : ∀ f p, ⟨i, h.epoch, f, p⟩ ∈ log.sent → f < nextSend h.delay h.epoch l.guest
  sent_unique : ∀ f p q, ⟨i, h.epoch, f, p⟩ ∈ log.sent → ⟨i, h.epoch, f, q⟩ ∈ log.sent → p = q
  field_le : h.field ≤ f0
  field_lt : idle → h.field < f0
  todo : ∀ f row, h.partialPads.find? f = some row → f0 ≤ f → row l.slot = none
  taken : ∀ f row p, h.partialPads.find? f = some row → row l.slot = some p →
    ⟨i, h.epoch, f, p⟩ ∈ log.sent
  bcast : ∀ b ∈ log.bcasts, b.epoch = h.epoch →
    b.field < f0 ∧ ⟨i, h.epoch, b.field, b.frame.p l.slot⟩ ∈ log.sent

structure LockInv (idle : Prop) (s : Sys) : Prop where
  host : HostLock idle s.host s.log
  guests : ∀ (i : Nat) l, s.peers[i]? = some l → GuestLock s.host s.log i l
  links : ∀ (i : Nat) l, s.peers[i]? = some l → l.alive = true → s.host.mask l.slot = true →
    ∃ f0, LinkLock idle s.host s.log i l f0

/-! ## Section 3: The host takes pads -/

theorem post_slot (l : Peer) (m : DownMsg) : (l.post m).slot = l.slot := by
  unfold Peer.post; split <;> rfl

theorem post_alive (l : Peer) (m : DownMsg) : (l.post m).alive = l.alive := by
  unfold Peer.post; split <;> rfl

/-- A link with other messages on their way down is the same player. -/
theorem LinkLock.post {idle : Prop} {h : HostSession} {log : Log} {i : Nat} {l : Peer}
    {f0 : Nat} (hL : LinkLock idle h log i l f0) (m : DownMsg) :
    LinkLock idle h log i (l.post m) f0 := by
  unfold Peer.post
  split
  · exact { hL with }
  · exact hL

theorem GuestLock.post_input {h : HostSession} {log : Log} {i : Nat} {l : Peer}
    (hG : GuestLock h log i l) (ep f : Nat) (fr : Frame) :
    GuestLock h log i (l.post (.input ep f fr)) := by
  unfold Peer.post
  split
  · have hsync : syncEpochs (l.down ++ [.input ep f fr]) = syncEpochs l.down := by
      simp [syncEpochs, List.filterMap_append]
    exact { hG with
      syncs := by rw [hsync]; exact hG.syncs
      syncs_le := by rw [hsync]; exact hG.syncs_le }
  · exact hG

theorem LinkLock.publish {idle : Prop} {s : Sys} {i : Nat} {l : Peer} {f0 f : Nat}
    {row : Slot → Option Pad} (hL : LinkLock idle s.host s.log i l f0)
    (hrow : s.host.partialPads.find? f = some row) (hslot : (row l.slot).isSome)
    (v : Option View) :
    LinkLock idle (publish s f (assemble row v)).host (publish s f (assemble row v)).log i l f0 := by
  obtain ⟨p, hp⟩ := Option.isSome_iff_exists.mp hslot
  have hlt : f < f0 := by
    by_contra hge
    have := hL.todo f row hrow (Nat.le_of_not_lt hge)
    rw [hp] at this
    cases this
  have hsub : ∀ g r, (Netplay.publish s f (assemble row v)).host.partialPads.find? g = some r →
      s.host.partialPads.find? g = some r := by
    intro g r hg
    rw [publish_partialPads, OrdMap.find?_erase] at hg
    split at hg
    · cases hg
    · exact hg
  refine { hL with
    todo := fun g r hg => hL.todo g r (hsub g r hg)
    taken := fun g r q hg => hL.taken g r q (hsub g r hg)
    bcast := ?_ }
  intro b hb he
  rcases List.mem_cons.mp hb with rfl | hb
  · refine ⟨hlt, ?_⟩
    have : (assemble row v).p l.slot = p := by simp [assemble, hp]
    show (⟨i, s.host.epoch, f, (assemble row v).p l.slot⟩ : Sent) ∈ s.log.sent
    rw [this]
    exact hL.taken f row p hrow hp
  · exact hL.bcast b hb he

theorem lockInv_tryComplete {idle : Prop} {s : Sys} (h : LockInv idle s)
    (h0 : s.host.mask 0 = true) (f : Nat) : LockInv idle (tryComplete s f) := by
  rcases tryComplete_cases s f with ⟨he, -⟩ | ⟨row, hrow, hm, he⟩
  · rw [he]; exact h
  · rw [he]
    have hfull := missing_eq_false.mp hm
    constructor
    case host =>
      refine { h.host with own := ?_, bcast_own := ?_ }
      · intro g r hg
        rw [publish_partialPads, OrdMap.find?_erase] at hg
        split at hg
        · cases hg
        · exact h.host.own g r hg
      · intro b hb hep
        rcases List.mem_cons.mp hb with rfl | hb
        · exact h.host.own f row hrow (hfull 0 h0)
        · exact h.host.bcast_own b hb hep
    case guests =>
      intro i l' hl'
      obtain ⟨l, hl, rfl⟩ := peers_broadcast hl'
      exact { (h.guests i l hl).post_input s.host.epoch f _ with }
    case links =>
      intro i l' hl' ha hmask
      obtain ⟨l, hl, rfl⟩ := peers_broadcast hl'
      rw [post_alive] at ha
      rw [post_slot] at hmask
      obtain ⟨f0, hL⟩ := h.links i l hl ha hmask
      exact ⟨f0, (hL.publish hrow (hfull l.slot hmask) _).post _⟩

theorem lockInv_retryAll {idle : Prop} {s : Sys} (h : LockInv idle s)
    (h0 : s.host.mask 0 = true) : LockInv idle (retryAll s) := by
  have hfold : ∀ (fs : List Nat) (s : Sys), LockInv idle s → s.host.mask 0 = true →
      LockInv idle (fs.foldl tryComplete s) := by
    intro fs
    induction fs with
    | nil => exact fun s h _ => h
    | cons f fs ih =>
      intro s h h0
      refine ih _ (lockInv_tryComplete h h0 f) ?_
      have : (tryComplete s f).host.mask = s.host.mask :=
        (congrArg (fun r => r.host.mask) (tryComplete_rest s f) :)
      rw [this]
      exact h0
  exact hfold _ s h h0

/-- The row of a field changes only at the connector that sent its pad. -/
theorem putPad_row_ne {s : Sys} {c c' : Slot} {f g : Nat} {p : Pad} {row : Slot → Option Pad}
    (hc : c' ≠ c) (h : (putPad s c f p).host.partialPads.find? g = some row) :
    (∃ row', s.host.partialPads.find? g = some row' ∧ row' c' = row c') ∨ row c' = none := by
  rw [putPad_find?] at h
  split at h
  · next hg =>
    cases h
    subst hg
    rw [Function.update_of_ne hc, HostSession.row]
    cases hr : s.host.partialPads.find? g with
    | none => exact .inr rfl
    | some row' => exact .inl ⟨row', rfl, rfl⟩
  · exact .inl ⟨row, h, rfl⟩

/-- Another connector's pad is no matter of this player. -/
theorem LinkLock.putPad_other {idle : Prop} {s : Sys} {i : Nat} {l : Peer} {f0 : Nat}
    (hL : LinkLock idle s.host s.log i l f0) {c : Slot} (hc : l.slot ≠ c) (f : Nat) (p : Pad) :
    LinkLock idle (putPad s c f p).host (putPad s c f p).log i l f0 := by
  refine { hL with todo := ?_, taken := ?_ }
  · intro g row hg hge
    rcases putPad_row_ne hc hg with ⟨row', hr, he⟩ | hn
    · rw [← he]; exact hL.todo g row' hr hge
    · exact hn
  · intro g row q hg hq
    rcases putPad_row_ne hc hg with ⟨row', hr, he⟩ | hn
    · exact hL.taken g row' q hr (he.trans hq)
    · rw [hn] at hq; cases hq

/-- The next pad in the queue of a live player is the one the host is
    missing, and `submit` takes it. -/
theorem LinkLock.head {idle : Prop} {h : HostSession} {log : Log} {i : Nat} {l : Peer}
    {f0 f : Nat} {p : Pad} {ms : List UpMsg} (hL : LinkLock idle h log i l f0)
    (hup : l.up = .input h.epoch f p :: ms) :
    f = f0 ∧ f0 < nextSend h.delay h.epoch l.guest ∧
      upFields h.epoch ms =
        List.range' (f0 + 1) (nextSend h.delay h.epoch l.guest - (f0 + 1)) := by
  have hq := hL.queue
  have hhead : upFields h.epoch l.up = f :: upFields h.epoch ms := by
    rw [hup]; simp [upFields]
  rw [hhead] at hq
  obtain ⟨n, hn⟩ : ∃ n, nextSend h.delay h.epoch l.guest - f0 = n := ⟨_, rfl⟩
  rw [hn] at hq
  cases n with
  | zero => simp at hq
  | succ n =>
    rw [List.range'_succ, List.cons.injEq] at hq
    refine ⟨hq.1, by omega, ?_⟩
    rw [hq.2]
    congr 1
    omega

theorem LinkLock.not_settled {idle : Prop} {h : HostSession} {log : Log} {i : Nat} {l : Peer}
    {f0 f : Nat} (hL : LinkLock idle h log i l f0) (hH : HostInv h log) (hf : f0 ≤ f) :
    ¬ Settled h f := by
  rintro (hlt | hr)
  · have := hL.field_le
    omega
  · obtain ⟨fr, hfr⟩ := Option.isSome_iff_exists.mp hr
    rcases hH.ready_origin f fr hfr with ⟨hlt, -, -⟩ | hb
    · have := hL.lo
      omega
    · have := (hL.bcast _ hb rfl).1
      dsimp only at this
      omega

theorem LinkLock.putPad_own {idle : Prop} {s : Sys} {i : Nat} {l : Peer} {f0 f : Nat}
    {p : Pad} {ms : List UpMsg} (hL : LinkLock idle s.host s.log i l f0)
    (hup : l.up = .input s.host.epoch f p :: ms) :
    LinkLock idle (putPad s l.slot f p).host (putPad s l.slot f p).log i
      { l with up := ms } (f0 + 1) := by
  obtain ⟨rfl, hlt, hq⟩ := hL.head hup
  have hsent : ⟨i, s.host.epoch, f, p⟩ ∈ s.log.sent :=
    hL.queue_sent f p (by rw [hup]; exact List.mem_cons_self ..)
  refine { hL with
    lo := Nat.le_succ_of_le hL.lo
    hi := hlt
    queue := hq
    queue_sent := ?_
    field_le := Nat.le_succ_of_le hL.field_le
    field_lt := fun hi => Nat.lt_succ_of_lt (hL.field_lt hi)
    todo := ?_
    taken := ?_
    bcast := fun b hb he => ⟨Nat.lt_succ_of_lt (hL.bcast b hb he).1, (hL.bcast b hb he).2⟩ }
  · exact fun g q hin => hL.queue_sent g q (by rw [hup]; exact List.mem_cons_of_mem _ hin)
  · intro g row hg hge
    rw [putPad_find?, if_neg (by omega)] at hg
    exact hL.todo g row hg (by omega)
  · intro g row q hg hq
    rw [putPad_find?] at hg
    split at hg
    · next hgf =>
      subst hgf
      cases hg
      rw [Function.update_self] at hq
      cases hq
      exact hsent
    · exact hL.taken g row q hg hq

/-- The pads of the host are never far ahead of its field. -/
theorem HostLock.putPad {idle : Prop} {s : Sys} (hH : HostLock idle s.host s.log) {c : Slot}
    {f : Nat} (hf : c = 0 → f ≤ s.host.field + s.host.delay) (p : Pad) :
    HostLock idle (putPad s c f p).host (putPad s c f p).log := by
  refine { hH with own := ?_ }
  intro g row hg hr
  rw [putPad_find?] at hg
  split at hg
  · next hgf =>
    subst hgf
    cases hg
    by_cases hc : c = 0
    · exact hf hc
    · rw [Function.update_of_ne (Ne.symm hc), HostSession.row] at hr
      cases hrow : s.host.partialPads.find? g with
      | none => rw [hrow] at hr; cases hr
      | some row => rw [hrow] at hr; exact hH.own g row hrow hr
  · exact hH.own g row hg hr

theorem lockInv_hostSubmit {idle : Prop} {s : Sys} (h : LockInv idle s) (hM : MemberInv s)
    {f : Nat} (hf : f ≤ s.host.field + s.host.delay) (p : Pad) :
    LockInv idle (hostSubmit s f p) := by
  have hview : LockInv idle (putView s f) :=
    ⟨{ h.host with }, fun i l hl => { h.guests i l hl with },
      fun i l hl ha hm => (h.links i l hl ha hm).imp (fun f0 hL => { hL with })⟩
  unfold hostSubmit submit
  split
  · exact hview
  · refine lockInv_tryComplete (s := putPad (putView s f) 0 f p) ?_ hM.members.host_in f
    refine ⟨hview.host.putPad (fun _ => hf) p, fun i l hl => { hview.guests i l hl with }, ?_⟩
    intro i l hl ha hm
    obtain ⟨f0, hL⟩ := hview.links i l hl ha hm
    have hslot : l.slot ≠ 0 := hM.members.slot_pos i l.slot (ha ▸ links_of_peer hl)
    exact ⟨f0, hL.putPad_other hslot f p⟩

/-- What a player has sent besides pads of this epoch can leave the queue. -/
theorem LinkLock.pop {idle : Prop} {h : HostSession} {log : Log} {i : Nat} {l : Peer}
    {f0 : Nat} {m : UpMsg} {ms : List UpMsg} (hL : LinkLock idle h log i l f0)
    (hup : l.up = m :: ms) (hm : ∀ f p, m ≠ .input h.epoch f p) :
    LinkLock idle h log i { l with up := ms } f0 := by
  have hskip : upFields h.epoch l.up = upFields h.epoch ms := by
    rw [hup]
    unfold upFields
    rw [List.filterMap_cons_none]
    cases m with
    | input ep f p =>
      have : ep ≠ h.epoch := fun he => hm f p (he ▸ rfl)
      simp [this]
    | hash ep f x => rfl
    | bye => rfl
  refine { hL with
    queue := hskip ▸ hL.queue
    queue_sent := fun f p hin => hL.queue_sent f p (by rw [hup]; exact List.mem_cons_of_mem _ hin) }

theorem GuestLock.pop {h : HostSession} {log : Log} {i : Nat} {l : Peer} {m : UpMsg}
    {ms : List UpMsg} (hG : GuestLock h log i l) (hup : l.up = m :: ms) :
    GuestLock h log i { l with up := ms } :=
  { hG with up_epoch := fun ep f p hin =>
      hG.up_epoch ep f p (by rw [hup]; exact List.mem_cons_of_mem _ hin) }

/-- Facts about every link, when one of them is replaced. -/
theorem forall_setPeer {s : Sys} {i : Nat} {l' : Peer} {P : Nat → Peer → Prop}
    (hi : ∀ l, s.peers[i]? = some l → P i l')
    (h : ∀ (j : Nat) l, s.peers[j]? = some l → j ≠ i → P j l) :
    ∀ (j : Nat) l, (s.setPeer i l').peers[j]? = some l → P j l := by
  intro j l hl
  change (s.peers.set i l')[j]? = some l at hl
  rw [List.getElem?_set] at hl
  split at hl
  · next hij =>
    split at hl
    · next hlt =>
      cases hl
      subst hij
      exact hi _ (List.getElem?_eq_getElem hlt)
    · cases hl
  · next hij => exact h j l hl (Ne.symm hij)

/-- A message that carries no pad of this epoch is taken from a queue. -/
theorem lockInv_pop {idle : Prop} {s : Sys} (h : LockInv idle s) {i : Nat} {l : Peer}
    {m : UpMsg} {ms : List UpMsg} (hl : s.peers[i]? = some l) (hup : l.up = m :: ms)
    (hm : ∀ f p, s.host.mask l.slot = true → l.alive = true → m ≠ .input s.host.epoch f p) :
    LockInv idle (s.setPeer i { l with up := ms }) := by
  refine ⟨h.host, ?_, ?_⟩
  · refine forall_setPeer ?_ (fun j l' hl' _ => h.guests j l' hl')
    exact fun _ _ => (h.guests i l hl).pop hup
  · refine forall_setPeer ?_ (fun j l' hl' _ => h.links j l' hl')
    intro _ _ ha hmask
    obtain ⟨f0, hL⟩ := h.links i l hl ha hmask
    exact ⟨f0, hL.pop hup (fun f p => hm f p hmask ha)⟩

/-- The host takes a pad of the current epoch from a live link. -/
theorem lockInv_submit {idle : Prop} {s : Sys} (h : LockInv idle s) (hM : MemberInv s)
    (hA : AgreeInv s) {i : Nat} {l : Peer} {f : Nat} {p : Pad} {ms : List UpMsg}
    (hl : s.peers[i]? = some l) (ha : l.alive = true)
    (hup : l.up = .input s.host.epoch f p :: ms) :
    LockInv idle (submit (s.setPeer i { l with up := ms }) l.slot f p) := by
  have hlink : s.links[i]? = some (l.slot, true) := ha ▸ links_of_peer hl
  have hslot : l.slot ≠ 0 := hM.members.slot_pos i l.slot hlink
  unfold submit
  split
  · -- dropped: then the player is not in the game
    next hdrop =>
    refine lockInv_pop h hl hup ?_
    intro g q hmask _ _
    obtain ⟨f0, hL⟩ := h.links i l hl ha hmask
    obtain ⟨rfl, -, -⟩ := hL.head hup
    exact hL.not_settled hA.host le_rfl hdrop
  · refine lockInv_tryComplete (s := putPad (s.setPeer i { l with up := ms }) l.slot f p) ?_
      hM.members.host_in f
    refine ⟨h.host.putPad (fun hc => absurd hc hslot) p, ?_, ?_⟩
    · refine forall_setPeer ?_ (fun j l' hl' _ => { h.guests j l' hl' with })
      exact fun _ _ => { (h.guests i l hl).pop hup with }
    · refine forall_setPeer ?_ ?_
      · intro _ _ _ hmask
        obtain ⟨f0, hL⟩ := h.links i l hl ha hmask
        exact ⟨f0 + 1, hL.putPad_own hup⟩
      · intro j l' hl' hji ha' hmask
        obtain ⟨f0, hL⟩ := h.links j l' hl' ha' hmask
        have hne : l'.slot ≠ l.slot := by
          intro he
          refine hji (hM.members.slot_inj j i l.slot ?_ hlink)
          exact he ▸ ha' ▸ links_of_peer hl'
        exact ⟨f0, hL.putPad_other hne f p⟩

/-- `LockInv` does not look at the counters, the messages and the hashes. -/
theorem LockInv.of_host {idle : Prop} {s : Sys} (h : LockInv idle s) {h' : HostSession}
    (hH : HostLock idle h' s.log) (he : h'.epoch = s.host.epoch)
    (hd : h'.delay = s.host.delay) (hm : h'.mask = s.host.mask)
    (hL : ∀ i l f0, LinkLock idle s.host s.log i l f0 → LinkLock idle h' s.log i l f0) :
    LockInv idle { s with host := h' } := by
  refine ⟨hH, ?_, ?_⟩
  · intro i l hl
    have hG := h.guests i l hl
    exact { hG with
      delay := hG.delay.trans hd.symm
      up_epoch := fun ep f p hin => he ▸ hG.up_epoch ep f p hin
      syncs_le := fun ep hin => he ▸ hG.syncs_le ep hin }
  · intro i l hl ha hmask
    dsimp only at hmask
    rw [hm] at hmask
    obtain ⟨f0, h0⟩ := h.links i l hl ha hmask
    exact ⟨f0, hL i l f0 h0⟩

theorem lockInv_hostRxExit {idle : Prop} {s : Sys} (h : LockInv idle s) (hM : MemberInv s)
    {i : Nat} {l : Peer} (hl : s.peers[i]? = some l) (ha : l.alive = true) :
    LockInv idle (hostRxExit s i l) := by
  have hslot : l.slot ≠ 0 := hM.members.slot_pos i l.slot (ha ▸ links_of_peer hl)
  have hdrop : ∀ mask : Mask, (∀ c, mask c = true → s.host.mask c = true) → LockInv idle
      { dropLink s i l with host := { (dropLink s i l).host with mask := mask } } := by
    intro mask hsub
    refine ⟨{ h.host with }, ?_, ?_⟩
    · refine forall_setPeer ?_ (fun j l' hl' _ => { h.guests j l' hl' with })
      exact fun _ _ => { h.guests i l hl with }
    · refine forall_setPeer ?_ ?_
      · exact fun _ _ hdead => by cases hdead
      · intro j l' hl' _ ha' hmask
        obtain ⟨f0, hL⟩ := h.links j l' hl' ha' (hsub _ hmask)
        exact ⟨f0, { hL with }⟩
  have hmsg : ∀ (t : Sys) (msg : String), LockInv idle t →
      LockInv idle { t with host := { t.host with msg := msg } } :=
    fun t msg ht => ht.of_host { ht.host with } rfl rfl rfl (fun _ _ _ hL => { hL with })
  unfold hostRxExit
  dsimp only
  split
  · apply hmsg
    refine lockInv_retryAll (hdrop (s.host.mask.clear l.slot) ?_) ?_
    · intro c hc
      simp only [Mask.clear_apply, Bool.and_eq_true] at hc
      exact hc.1
    · show s.host.mask.clear l.slot 0 = true
      simp [hM.members.host_in, hslot.symm]
  · apply hmsg
    exact hdrop s.host.mask (fun c hc => hc)


theorem lockInv_hostRx {idle : Prop} {s : Sys} (h : LockInv idle s) (hM : MemberInv s)
    (hA : AgreeInv s) {i : Nat} {l : Peer} {m : UpMsg} {ms : List UpMsg}
    (hl : s.peers[i]? = some l) (ha : l.alive = true) (hup : l.up = m :: ms) :
    LockInv idle (hostRx (s.setPeer i { l with up := ms }) i { l with up := ms } m) := by
  have hpop : ∀ x, m = x → (∀ f p, s.host.mask l.slot = true → x ≠ .input s.host.epoch f p) →
      LockInv idle (s.setPeer i { l with up := ms }) :=
    fun x hx hne => lockInv_pop h hl hup (fun f p hmask _ => hx ▸ hne f p hmask)
  cases m with
  | input ep f p =>
    simp only [hostRx]
    split
    · next hc =>
      obtain ⟨rfl, -⟩ := hc
      exact lockInv_submit h hM hA hl ha hup
    · next hc =>
      refine hpop _ rfl ?_
      intro g q hmask he
      cases he
      obtain ⟨f0, hL⟩ := h.links i l hl ha hmask
      exact hc ⟨rfl, hL.synced⟩
  | hash ep f x =>
    have hpop := hpop _ rfl (fun _ _ _ he => by cases he)
    simp only [hostRx]
    split
    · exact hpop
    · split
      · next mine _ =>
        obtain ⟨c, d, m, r, he⟩ :=
          compareHash_eq (s.setPeer i { l with up := ms }).host l.slot f x mine
        rw [he]
        exact hpop.of_host { hpop.host with } rfl rfl rfl (fun _ _ _ hL => { hL with })
      · exact hpop.of_host { hpop.host with } rfl rfl rfl (fun _ _ _ hL => { hL with })
  | bye =>
    have hpop := hpop _ rfl (fun _ _ _ he => by cases he)
    exact lockInv_hostRxExit hpop (memberInv_setPeer hM hl _ rfl rfl)
      (peers_setPeer_self hl _) ha

/-! ## Section 4: The host's own steps -/

theorem GuestLock.post_sync {h h' : HostSession} {log log' : Log} {i : Nat} {l : Peer}
    (hG : GuestLock h log i l) {e : Nat} (hnew : e = h.epoch + 1) (he : h'.epoch = e)
    (hd : h'.delay = h.delay) (hlog : log.applied ⊆ log'.applied) (d : Nat) (m : Mask)
    (cfg : Slot → PadCfg) (blob : Blob) : GuestLock h' log' i (l.post (.sync e d m cfg blob)) := by
  subst he
  have hlater : ∀ ep ∈ l.guest.rxEpoch :: syncEpochs l.down, ep < h'.epoch := by
    intro ep hep
    have := hG.syncs_le ep hep
    omega
  have hbase : GuestLock h' log' i l :=
    { hG with
      delay := hG.delay.trans hd.symm
      up_epoch := fun ep f p hin => by
        have := hG.up_epoch ep f p hin
        omega
      syncs_le := fun ep hin => Nat.le_of_lt (hlater ep hin)
      last := fun h1 =>
        have ⟨f, fr, ha, hle⟩ := hG.last h1
        ⟨f, fr, hlog ha, hle⟩
      idle := fun hp hs hl hr =>
        have ⟨h1, fr, ha⟩ := hG.idle hp hs hl hr
        ⟨h1, fr, hlog ha⟩ }
  unfold Peer.post
  split
  · have hsync : l.guest.rxEpoch :: syncEpochs (l.down ++ [.sync h'.epoch d m cfg blob]) =
        (l.guest.rxEpoch :: syncEpochs l.down) ++ [h'.epoch] := by
      simp [syncEpochs, List.filterMap_append]
    refine { hbase with syncs := ?_, syncs_le := ?_ }
    · rw [hsync, List.pairwise_append]
      refine ⟨hG.syncs, List.pairwise_singleton _ _, ?_⟩
      intro a ha b hb
      rw [List.mem_singleton.mp hb]
      exact hlater a ha
    · intro ep hin
      rw [hsync] at hin
      rcases List.mem_append.mp hin with hin | hin
      · exact Nat.le_of_lt (hlater ep hin)
      · rw [List.mem_singleton.mp hin]
  · exact hbase

/-- A new epoch: nothing has been sent in it yet. -/
theorem lockInv_syncStart {s : Sys} (h : LockInv True s) (hA : AgreeInv s) (state : Blob) :
    LockInv True (syncStart s state) := by
  have hnew : ∀ x ∈ s.log.sent, x.epoch ≠ s.host.epoch + 1 := by
    intro x hx
    have := h.host.sent_epoch x hx
    omega
  have hnoBcast : ∀ b ∈ s.log.bcasts, b.epoch ≠ s.host.epoch + 1 := by
    intro b hb
    have := hA.host.bcast_epoch b hb
    omega
  constructor
  case host =>
    constructor
    case sent_epoch => exact fun x hx => Nat.le_succ_of_le (h.host.sent_epoch x hx)
    case epoch_pos => exact fun _ => Nat.succ_pos _
    case last => exact fun _ => ⟨0, _, List.mem_cons_self .., Nat.zero_le _, fun _ => Nat.zero_le _⟩
    case own => intro f row hrow; cases hrow
    case bcast_own => exact fun b hb he => absurd he (hnoBcast b hb)
  case guests =>
    intro i l' hl'
    obtain ⟨l, hl, rfl⟩ := peers_broadcast hl'
    have hlog : s.log.applied ⊆ (syncStart s state).log.applied :=
      fun a ha => List.mem_cons_of_mem _ ha
    have he : (syncStart s state).host.epoch = s.host.epoch + 1 := rfl
    have hd : (syncStart s state).host.delay = s.host.delay := rfl
    exact (h.guests i l hl).post_sync rfl he hd hlog _ _ _ _
  case links =>
    intro i l' hl' _ _
    obtain ⟨l, hl, rfl⟩ := peers_broadcast hl'
    have hG := h.guests i l hl
    have hguest : l.guest.epoch ≠ s.host.epoch + 1 := by
      have h1 := hG.epoch_le
      have h2 := hG.syncs_le _ (List.mem_cons_self ..)
      omega
    have hnext : nextSend s.host.delay (s.host.epoch + 1) l.guest = s.host.delay :=
      if_neg hguest
    refine ⟨s.host.delay, LinkLock.post ?_ _⟩
    constructor
    case synced => rfl
    case lo => exact le_rfl
    case hi => exact le_of_eq hnext.symm
    case queue =>
      show upFields (s.host.epoch + 1) l.up =
        List.range' s.host.delay (nextSend s.host.delay (s.host.epoch + 1) l.guest - s.host.delay)
      rw [hnext, Nat.sub_self]
      apply upFields_eq_nil
      intro ep f p hin
      have := hG.up_epoch ep f p hin
      omega
    case queue_sent =>
      intro f p hin
      have := hG.up_epoch _ f p hin
      exact absurd this (Nat.not_succ_le_self _)
    case sent_lt => exact fun f p hx => absurd rfl (hnew _ hx)
    case sent_unique => exact fun f p q hx => absurd rfl (hnew _ hx)
    case field_le => exact Nat.zero_le _
    case field_lt => exact fun _ => hA.host.delay_pos
    case todo => intro f row hrow; cases hrow
    case taken => intro f row p hrow; cases hrow
    case bcast => exact fun b hb he => absurd he (hnoBcast b hb)

theorem lockInv_serviceSync {s : Sys} (h : LockInv True s) (hM : MemberInv s) (hA : AgreeInv s)
    (pad : Pad) (state : Blob) : LockInv True (serviceSync s pad state) := by
  have hstart := lockInv_syncStart h hA state
  have hsub := lockInv_hostSubmit hstart (memberInv_syncStart hM state)
    (f := (syncStart s state).host.delay) (Nat.le_add_left _ _) pad
  exact hsub.of_host { hsub.host with } rfl rfl rfl (fun _ _ _ hL => { hL with })

/-- Less is claimed of a host that is not idle. -/
theorem LockInv.imp {P Q : Prop} {s : Sys} (h : LockInv P s) (hpq : Q → P) : LockInv Q s where
  host := { h.host with
    last := fun hs =>
      have ⟨f, fr, ha, hle, hidle⟩ := h.host.last hs
      ⟨f, fr, ha, hle, fun hq => hidle (hpq hq)⟩ }
  guests := h.guests
  links i l hl ha hm :=
    have ⟨f0, hL⟩ := h.links i l hl ha hm
    ⟨f0, { hL with field_lt := fun hq => hL.field_lt (hpq hq) }⟩

/-- The host starts its next field; it has not applied it yet. -/
theorem lockInv_nextField {s : Sys} (h : LockInv True s) : LockInv False (nextField s) := by
  refine ⟨?_, fun i l hl => { h.guests i l hl with }, ?_⟩
  · refine { h.host with last := ?_, own := ?_, bcast_own := ?_ }
    · intro hs
      obtain ⟨f, fr, ha, -, hidle⟩ := h.host.last hs
      exact ⟨f, fr, ha, Nat.succ_le_succ (hidle trivial), fun hF => hF.elim⟩
    · intro f row hrow hr
      have := h.host.own f row hrow hr
      show f ≤ s.host.field + 1 + s.host.delay
      omega
    · intro b hb he
      have := h.host.bcast_own b hb he
      show b.field ≤ s.host.field + 1 + s.host.delay
      omega
  · intro i l hl ha hm
    obtain ⟨f0, hL⟩ := h.links i l hl ha hm
    exact ⟨f0, { hL with
      field_le := hL.field_lt trivial
      field_lt := fun hF => hF.elim }⟩

/-- The host applies its field if it has it, else it waits. -/
theorem lockInv_hostResume {s : Sys} (h : LockInv False s) (hA : AgreeInv s) {f : Nat}
    (hf : f = s.host.field) :
    LockInv ((hostResume s f).host.waiting = none) (hostResume s f) := by
  unfold hostResume
  cases hfr : s.host.ready.find? f with
  | none =>
    have hw : LockInv (some f = none) s := h.imp (fun hx => by cases hx)
    exact hw.of_host { hw.host with } rfl rfl rfl (fun _ _ _ hL => { hL with })
  | some fr =>
    have happ : ∀ a ∈ s.log.applied, a ∈ (⟨.host, s.host.epoch, f, fr⟩ : Applied) :: s.log.applied :=
      fun a ha => List.mem_cons_of_mem _ ha
    refine ⟨?_, ?_, ?_⟩
    · refine { h.host with last := ?_ }
      intro _
      exact ⟨f, fr, List.mem_cons_self .., by show s.host.field ≤ f + 1; omega,
        fun _ => le_of_eq hf.symm⟩
    · intro i l hl
      have hG := h.guests i l hl
      exact { hG with
        last := fun h1 =>
          have ⟨g, fr', ha, hle⟩ := hG.last h1
          ⟨g, fr', happ _ ha, hle⟩
        idle := fun hp hs hl hr =>
          have ⟨h1, fr', ha⟩ := hG.idle hp hs hl hr
          ⟨h1, fr', happ _ ha⟩ }
    · intro i l hl ha hm
      obtain ⟨f0, hL⟩ := h.links i l hl ha hm
      refine ⟨f0, { hL with field_lt := ?_ }⟩
      intro _
      show s.host.field < f0
      -- the field was ready, so this player's pad for it was taken
      rcases hA.host.ready_origin f fr hfr with ⟨hlt, -, -⟩ | hb
      · have := hL.lo
        omega
      · have := (hL.bcast _ hb rfl).1
        dsimp only at this
        omega

theorem lockInv_hostField {s : Sys} (h : LockInv True s) (hw : s.host.waiting = none)
    (hM : MemberInv s) (hA : AgreeInv s) (pad : Pad) (hash : Hash) :
    LockInv ((hostField s pad hash).host.waiting = none) (hostField s pad hash) := by
  unfold hostField
  split
  · exact h.imp (fun _ => trivial)
  · next hs =>
    have hs : s.host.synced = true := by simpa using hs
    dsimp only
    have hsub := lockInv_hostSubmit (s := nextField s) (f := s.host.field + 1 + s.host.delay)
      (lockInv_nextField h) ⟨hM.members, hM.noStall⟩ le_rfl pad
    have hagree := agreeInv_hostSubmit (s := nextField s) ⟨hA.host.nextField hw, hA.peers⟩ hs
      (s.host.field + 1 + s.host.delay) pad
    have hfield := hostSubmit_nextField s (s.host.field + 1 + s.host.delay) pad
    obtain ⟨c, d, m, r, mh, ph, he⟩ := hashCheck_eq
      (hostSubmit (nextField s) (s.host.field + 1 + s.host.delay) pad) (s.host.field + 1) hash
    rw [he]
    apply lockInv_hostResume
    · exact hsub.of_host { hsub.host with } rfl rfl rfl (fun _ _ _ hL => { hL with })
    · exact ⟨{ hagree.host with }, hagree.peers⟩
    · exact hfield.symm

/-! ## Section 5: The guests' steps -/

/-- The log after a guest's step: other players' pads are as they were. -/
theorem LinkLock.record {idle : Prop} {h : HostSession} {log : Log} {i j : Nat} {l : Peer}
    {f0 : Nat} (hL : LinkLock idle h log j l f0) (hij : j ≠ i) (out : GuestOut) :
    LinkLock idle h (log.record i out) j l f0 := by
  have hmem : ∀ f p, (⟨j, h.epoch, f, p⟩ : Sent) ∈ (log.record i out).sent ↔
      ⟨j, h.epoch, f, p⟩ ∈ log.sent := by
    intro f p
    show _ ∈ sentPads i out.sends ++ log.sent ↔ _
    rw [List.mem_append, mem_sentPads]
    exact ⟨fun hx => hx.elim (fun hx => absurd hx.1 hij) id, .inr⟩
  exact { hL with
    queue_sent := fun f p hin => (hmem f p).mpr (hL.queue_sent f p hin)
    sent_lt := fun f p hx => hL.sent_lt f p ((hmem f p).mp hx)
    sent_unique := fun f p q hx hy => hL.sent_unique f p q ((hmem f p).mp hx) ((hmem f q).mp hy)
    taken := fun f row p hr hp => (hmem f p).mpr (hL.taken f row p hr hp)
    bcast := fun b hb he => ⟨(hL.bcast b hb he).1, (hmem _ _).mpr (hL.bcast b hb he).2⟩ }

/-- What the step `out` of the guest of link `i` must satisfy. -/
structure GuestStepLock (h : HostSession) (log : Log) (i : Nat) (l : Peer) (out : GuestOut) :
    Prop where
  epoch : ∀ ep f p, .input ep f p ∈ out.sends → ep ≤ h.epoch
  guest : GuestLock h (log.record i out) i { l with guest := out.guest, up := l.up ++ out.sends }
  link : ∀ (idle : Prop) f0, LinkLock idle h log i l f0 →
    LinkLock idle h (log.record i out) i { l with guest := out.guest, up := l.up ++ out.sends } f0

theorem GuestLock.record {h : HostSession} {log : Log} {j : Nat} {l : Peer}
    (hG : GuestLock h log j l) (i : Nat) (out : GuestOut) :
    GuestLock h (log.record i out) j l :=
  have hsub := (record_extends log i out).applied
  { hG with
    last := fun h1 =>
      have ⟨f, fr, ha, hle⟩ := hG.last h1
      ⟨f, fr, hsub ha, hle⟩
    idle := fun hp hs hl hr =>
      have ⟨h1, fr, ha⟩ := hG.idle hp hs hl hr
      ⟨h1, fr, hsub ha⟩ }

theorem lockInv_guestStep {idle : Prop} {s : Sys} (h : LockInv idle s) {i : Nat} {l : Peer}
    {out : GuestOut} (hl : s.peers[i]? = some l) (hok : GuestStepLock s.host s.log i l out) :
    LockInv idle (s.guestStep i l out) := by
  refine ⟨?_, ?_, ?_⟩
  · refine { h.host with sent_epoch := ?_, last := ?_ }
    · intro x hx
      rcases List.mem_append.mp (show x ∈ sentPads i out.sends ++ s.log.sent from hx) with hx | hx
      · exact hok.epoch _ _ _ (mem_sentPads.mp hx).2
      · exact h.host.sent_epoch x hx
    · intro hs
      obtain ⟨f, fr, ha, hrest⟩ := h.host.last hs
      exact ⟨f, fr, (record_extends s.log i out).applied ha, hrest⟩
  · refine forall_setPeer (fun _ _ => hok.guest) ?_
    exact fun j l' hl' _ => (h.guests j l' hl').record i out
  · refine forall_setPeer ?_ ?_
    · intro _ _ ha hm
      obtain ⟨f0, hL⟩ := h.links i l hl ha hm
      exact ⟨f0, hok.link idle f0 hL⟩
    · intro j l' hl' hji ha hm
      obtain ⟨f0, hL⟩ := h.links j l' hl' ha hm
      exact ⟨f0, hL.record hji out⟩

/-- A step that sends no pad and stays in its field. -/
theorem LinkLock.quiet {idle : Prop} {h : HostSession} {log : Log} {i : Nat} {l : Peer}
    {f0 : Nat} {out : GuestOut} (hL : LinkLock idle h log i l f0)
    (he : out.guest.epoch = l.guest.epoch) (hf : out.guest.field = l.guest.field)
    (hs : out.sends = []) :
    LinkLock idle h (log.record i out) i
      { l with guest := out.guest, up := l.up ++ out.sends } f0 := by
  have hnext : nextSend h.delay h.epoch out.guest = nextSend h.delay h.epoch l.guest := by
    unfold nextSend; rw [he, hf]
  have hsent : (log.record i out).sent = log.sent := by
    show sentPads i out.sends ++ log.sent = log.sent
    rw [hs]; rfl
  rw [hs, List.append_nil]
  exact { hL with
    hi := by rw [hnext]; exact hL.hi
    queue := by rw [hnext]; exact hL.queue
    queue_sent := by rw [hsent]; exact hL.queue_sent
    sent_lt := by rw [hsent, hnext]; exact hL.sent_lt
    sent_unique := by rw [hsent]; exact hL.sent_unique
    taken := by rw [hsent]; exact hL.taken
    bcast := by rw [hsent]; exact hL.bcast }

/-- A step that sends one pad, with hashes behind it at most. If the pad is
    for the current epoch it is the next one of the sequence. -/
theorem LinkLock.send {idle : Prop} {h : HostSession} {log : Log} {i : Nat} {l : Peer}
    {f0 ep n : Nat} {pad : Pad} {hs : List UpMsg} {out : GuestOut}
    (hL : LinkLock idle h log i l f0) (hsends : out.sends = .input ep n pad :: hs)
    (hhash : ∀ ep f p, .input ep f p ∉ hs)
    (hcur : ep = h.epoch → n = nextSend h.delay h.epoch l.guest ∧
      nextSend h.delay h.epoch out.guest = n + 1)
    (hold : ep ≠ h.epoch →
      nextSend h.delay h.epoch out.guest = nextSend h.delay h.epoch l.guest) :
    LinkLock idle h (log.record i out) i
      { l with guest := out.guest, up := l.up ++ out.sends } f0 := by
  have hmem : ∀ f p, (⟨i, h.epoch, f, p⟩ : Sent) ∈ (log.record i out).sent ↔
      (ep = h.epoch ∧ n = f ∧ pad = p) ∨ ⟨i, h.epoch, f, p⟩ ∈ log.sent := by
    intro f p
    show _ ∈ sentPads i out.sends ++ log.sent ↔ _
    rw [List.mem_append, mem_sentPads, hsends]
    simp [hhash, eq_comm]
  have hup : upFields h.epoch (l.up ++ out.sends) =
      upFields h.epoch l.up ++ (if ep = h.epoch then [n] else []) := by
    have hnil : upFields h.epoch hs = [] :=
      upFields_eq_nil (fun ep f p hin => absurd hin (hhash ep f p))
    rw [upFields_append, hsends]
    by_cases he : ep = h.epoch
    · rw [if_pos he]
      show _ ++ upFields h.epoch ([.input ep n pad] ++ hs) = _
      rw [upFields_append, hnil]
      simp [upFields, he]
    · rw [if_neg he]
      show _ ++ upFields h.epoch ([.input ep n pad] ++ hs) = _
      rw [upFields_append, hnil]
      simp [upFields, he]
  have hle : nextSend h.delay h.epoch l.guest ≤ nextSend h.delay h.epoch out.guest := by
    by_cases he : ep = h.epoch
    · obtain ⟨h1, h2⟩ := hcur he
      omega
    · exact le_of_eq (hold he).symm
  have hhi := hL.hi
  refine { hL with
    hi := le_trans hhi hle
    queue := ?_
    queue_sent := ?_
    sent_lt := ?_
    sent_unique := ?_
    taken := fun f row p hr hp => (hmem f p).mpr (.inr (hL.taken f row p hr hp))
    bcast := fun b hb he =>
      ⟨(hL.bcast b hb he).1, (hmem _ _).mpr (.inr (hL.bcast b hb he).2)⟩ }
  · show upFields h.epoch (l.up ++ out.sends) =
      List.range' f0 (nextSend h.delay h.epoch out.guest - f0)
    rw [hup, hL.queue]
    by_cases he : ep = h.epoch
    · obtain ⟨h1, h2⟩ := hcur he
      rw [if_pos he, h2, show n + 1 - f0 = (n - f0) + 1 by omega, ← h1, List.range'_concat]
      congr 2
      omega
    · rw [if_neg he, hold he, List.append_nil]
  · intro f p hin
    rcases List.mem_append.mp hin with hin | hin
    · exact (hmem f p).mpr (.inr (hL.queue_sent f p hin))
    · rw [hsends] at hin
      rcases List.mem_cons.mp hin with he | hin
      · simp only [UpMsg.input.injEq] at he
        exact (hmem f p).mpr (.inl ⟨he.1.symm, he.2.1.symm, he.2.2.symm⟩)
      · exact absurd hin (hhash _ f p)
  · intro f p hx
    show f < nextSend h.delay h.epoch out.guest
    rcases (hmem f p).mp hx with ⟨he, rfl, -⟩ | hx
    · rw [(hcur he).2]
      exact Nat.lt_succ_self _
    · exact lt_of_lt_of_le (hL.sent_lt f p hx) hle
  · intro f p q hx hy
    -- the new pad's field is beyond every earlier one
    have hfresh : ∀ r, ep = h.epoch → n = f → ⟨i, h.epoch, f, r⟩ ∉ log.sent := by
      intro r he hn hr
      have := hL.sent_lt f r hr
      have := (hcur he).1
      omega
    rcases (hmem f p).mp hx with ⟨he, hn, hp⟩ | hx
    · rcases (hmem f q).mp hy with ⟨-, -, hq⟩ | hy
      · rw [← hp, ← hq]
      · exact absurd hy (hfresh q he hn)
    · rcases (hmem f q).mp hy with ⟨he, hn, -⟩ | hy
      · exact absurd hx (hfresh p he hn)
      · exact hL.sent_unique f p q hx hy

/-- A section without a pad and within one field, given what it does to the
    guest. -/
theorem GuestStepLock.quiet {h : HostSession} {log : Log} {i : Nat} {l : Peer} {out : GuestOut}
    (he : out.guest.epoch = l.guest.epoch) (hf : out.guest.field = l.guest.field)
    (hs : out.sends = [])
    (hG : GuestLock h (log.record i out) i { l with guest := out.guest }) :
    GuestStepLock h log i l out where
  epoch ep f p hin := by rw [hs] at hin; cases hin
  guest := by rw [hs, List.append_nil]; exact hG
  link idle f0 hL := hL.quiet he hf hs

theorem GuestLock.beginApplySync {h : HostSession} {log : Log} {i : Nat} {l : Peer}
    (hG : GuestLock h log i l) (hr : l.guest.syncReady = true) :
    GuestLock h log i { l with guest := beginApplySync l.guest } :=
  { hG with
    ready_lt := fun hx => by cases hx
    applying_lt := fun ep d m cfg blob hp => by
      cases hp
      exact ⟨hG.ready_lt hr, le_rfl⟩
    idle := fun hp => by cases hp
    waiting := fun f hp => by cases hp }

/-- The wait for field `f`, seen from its guest. -/
theorem GuestLock.guestAwait {h : HostSession} {log : Log} {i : Nat} {l : Peer} {f : Nat}
    (hG : GuestLock h log i l) (h1 : 1 ≤ l.guest.epoch) (hf : f = l.guest.field)
    (sends : List UpMsg) :
    GuestLock h (log.record i { guestAwait l.guest f with sends := sends }) i
      { l with guest := (guestAwait l.guest f).guest } := by
  unfold Netplay.guestAwait
  split
  · next hr => exact (hG.beginApplySync hr).record i _
  · cases hfr : l.guest.ready.find? f with
    | none =>
      dsimp only
      split
      · next hl =>
        refine GuestLock.record ?_ i _
        exact { hG with
          applying_lt := fun ep d m cfg blob hp => by cases hp
          idle := fun _ _ hx => by rw [hl] at hx; cases hx
          waiting := fun g hp => by cases hp }
      · refine GuestLock.record ?_ i _
        exact { hG with
          applying_lt := fun ep d m cfg blob hp => by cases hp
          idle := fun hp => by cases hp
          waiting := fun g hp => by cases hp; exact ⟨h1, hf⟩ }
    | some fr =>
      subst hf
      exact { hG with
        applying_lt := fun ep d m cfg blob hp => by cases hp
        last := fun _ => ⟨l.guest.field, fr, List.mem_cons_self .., Nat.le_succ _⟩
        idle := fun _ _ _ _ => ⟨h1, fr, List.mem_cons_self ..⟩
        waiting := fun g hp => by cases hp }

/-- Where the guest was before the wait does not matter. -/
theorem guestAwait_phase (g : GuestSession) (f : Nat) (ph : Phase) :
    guestAwait { g with phase := ph } f = guestAwait g f := by
  unfold guestAwait beginApplySync
  rfl

theorem guestAwait_epoch (g : GuestSession) (f : Nat) :
    (guestAwait g f).guest.epoch = g.epoch ∧ (guestAwait g f).guest.field = g.field ∧
      (guestAwait g f).sends = [] := by
  unfold guestAwait
  split
  · exact ⟨rfl, rfl, rfl⟩
  · split
    · exact ⟨rfl, rfl, rfl⟩
    · split <;> exact ⟨rfl, rfl, rfl⟩

theorem GuestStepLock.guestWake {h : HostSession} {log : Log} {i : Nat} {l : Peer}
    {out : GuestOut} (hG : GuestLock h log i l) (hw : guestWake l.guest = some out) :
    GuestStepLock h log i l out := by
  unfold Netplay.guestWake at hw
  split at hw
  · split at hw
    · next hr =>
      cases hw
      exact .quiet rfl rfl rfl ((hG.beginApplySync hr).record i _)
    · split at hw
      · next hl =>
        cases hw
        refine .quiet rfl rfl rfl (GuestLock.record ?_ i _)
        exact { hG with
          applying_lt := fun ep d m cfg blob hp => by cases hp
          idle := fun _ _ hx => by rw [hl] at hx; cases hx
          waiting := fun g hp => by cases hp }
      · cases hw
  · next f hp =>
    cases hw
    obtain ⟨h1, hf⟩ := hG.waiting f hp
    obtain ⟨hep, hfield, hsends⟩ := guestAwait_epoch l.guest f
    exact .quiet hep hfield hsends (hG.guestAwait h1 hf _)
  · cases hw

theorem GuestStepLock.guestField {h : HostSession} {log : Log} {i : Nat} {l : Peer}
    (hG : GuestLock h log i l) (hidle : l.guest.phase = .idle) (pad : Pad) (hash : Hash) :
    GuestStepLock h log i l (guestField l.guest pad hash) := by
  unfold Netplay.guestField
  split
  · next hl =>
    have hquiet : GuestLock h log i { l with guest := if l.guest.synced then
        { l.guest with synced := false, lockstep := false, viewSlot := none } else l.guest } := by
      split
      · exact { hG with idle := fun _ hx => by cases hx }
      · exact { hG with }
    refine .quiet ?_ ?_ rfl (hquiet.record i _)
    · dsimp only; split <;> rfl
    · dsimp only; split <;> rfl
  · next hl =>
    split
    · next hr => exact .quiet rfl rfl rfl ((hG.beginApplySync hr).record i _)
    · next hr =>
      split
      · refine .quiet rfl rfl rfl (GuestLock.record ?_ i _)
        exact { hG with
          applying_lt := fun ep d m cfg blob hp => by cases hp
          idle := fun hp => by cases hp
          waiting := fun g hp => by cases hp }
      · next hs =>
        obtain ⟨h1, fr, hfr⟩ := hG.idle hidle (by simpa using hs) (by simpa using hl)
          (by simpa using hr)
        have hnext : GuestLock h log i { l with guest :=
            { l.guest with
              field := l.guest.field + 1
              phase := .waitField (l.guest.field + 1) } } :=
          { hG with
            applying_lt := fun ep d m cfg blob hp => by cases hp
            last := fun _ => ⟨l.guest.field, fr, hfr, le_rfl⟩
            idle := fun hp => by cases hp
            waiting := fun g hp => by cases hp; exact ⟨h1, rfl⟩ }
        have hphase := guestAwait_phase { l.guest with field := l.guest.field + 1 }
          (l.guest.field + 1) (.waitField (l.guest.field + 1))
        obtain ⟨hep, hfield, -⟩ := guestAwait_epoch
          { l.guest with field := l.guest.field + 1 } (l.guest.field + 1)
        have hepoch : l.guest.epoch ≤ h.epoch :=
          le_trans hG.epoch_le (hG.syncs_le _ (List.mem_cons_self ..))
        have hhash : ∀ ep f p, UpMsg.input ep f p ∉ (if (l.guest.field + 1) % kHashEvery = 0
            then [UpMsg.hash l.guest.epoch (l.guest.field + 1) hash] else []) := by
          intro ep f p hin
          split at hin
          · simp at hin
          · cases hin
        constructor
        case epoch =>
          intro ep f p hin
          rcases List.mem_cons.mp hin with he | hin
          · cases he; exact hepoch
          · exact absurd hin (hhash ep f p)
        case guest =>
          have hawait := hnext.guestAwait h1 rfl
            (.input l.guest.epoch (l.guest.field + 1 + l.guest.delay) pad ::
              (if (l.guest.field + 1) % kHashEvery = 0
                then [.hash l.guest.epoch (l.guest.field + 1) hash] else []))
          dsimp only at hawait
          rw [hphase] at hawait
          refine { hawait with up_epoch := ?_ }
          intro ep f p hin
          rcases List.mem_append.mp hin with hin | hin
          · exact hG.up_epoch ep f p hin
          · rcases List.mem_cons.mp hin with he | hin
            · cases he; exact hepoch
            · exact absurd hin (hhash ep f p)
        case link =>
          intro idle f0 hL
          refine hL.send rfl hhash ?_ ?_
          · intro he
            have hd := hG.delay
            refine ⟨?_, ?_⟩
            · unfold nextSend
              rw [if_pos he]
              omega
            · show nextSend h.delay h.epoch (Netplay.guestAwait _ _).guest = _
              unfold nextSend
              rw [hep, hfield, if_pos he]
              show l.guest.field + 1 + h.delay + 1 = _
              omega
          · intro he
            show nextSend h.delay h.epoch (Netplay.guestAwait _ _).guest = _
            unfold nextSend
            rw [hep, if_neg he, if_neg he]

theorem GuestStepLock.endApplySync {h : HostSession} {log : Log} {i : Nat} {l : Peer}
    {ep d : Nat} {m : Mask} {cfg : Slot → PadCfg} {blob : Blob} (hG : GuestLock h log i l)
    (hP : PeerInv h.delay log i l) (hp : l.guest.phase = .applying ep d m cfg blob)
    (pad : Pad) (ok : Bool) :
    GuestStepLock h log i l (endApplySync l.guest ep d m cfg pad ok) := by
  obtain ⟨hd, -, hep⟩ := hP.applying ep d m cfg blob hp
  obtain ⟨hlt, hle⟩ := hG.applying_lt ep d m cfg blob hp
  have hepoch : ep ≤ h.epoch := le_trans hle (hG.syncs_le _ (List.mem_cons_self ..))
  subst hd
  unfold Netplay.endApplySync
  dsimp only
  split
  · refine .quiet rfl rfl rfl (GuestLock.record ?_ i _)
    exact { hG with
      applying_lt := fun ep d m cfg blob hp => by cases hp
      idle := fun _ _ hx => by cases hx
      waiting := fun g hp => by cases hp }
  · split
    · next hr =>
      refine .quiet rfl rfl rfl (GuestLock.record ?_ i _)
      exact { hG with
        applying_lt := fun ep d m cfg blob hp => by cases hp
        idle := fun _ _ _ hx => by rw [hr] at hx; cases hx
        waiting := fun g hp => by cases hp }
    · next hr =>
      have hr : l.guest.syncReady = false := by simpa using hr
      constructor
      case epoch =>
        intro ep' f p hin
        cases List.mem_singleton.mp hin
        exact hepoch
      case guest =>
        exact { hG with
          delay := rfl
          up_epoch := fun ep' f p hin => by
            rcases List.mem_append.mp hin with hin | hin
            · exact hG.up_epoch ep' f p hin
            · cases List.mem_singleton.mp hin
              exact hepoch
          epoch_le := hle
          ready_lt := fun hx => by rw [hr] at hx; cases hx
          applying_lt := fun ep d m cfg blob hp => by cases hp
          last := fun _ => ⟨0, _, List.mem_cons_self .., Nat.zero_le _⟩
          idle := fun _ _ _ _ => ⟨Nat.lt_of_le_of_lt (Nat.zero_le _) hlt, _, List.mem_cons_self ..⟩
          waiting := fun g hp => by cases hp }
      case link =>
        intro idle f0 hL
        refine hL.send rfl (fun _ _ _ hin => by cases hin) ?_ ?_
        · rintro rfl
          refine ⟨?_, ?_⟩
          · unfold nextSend
            rw [if_neg (Nat.ne_of_lt hlt)]
          · unfold nextSend
            rw [if_pos rfl]
            show 0 + h.delay + 1 = h.delay + 1
            omega
        · intro he
          have hne : l.guest.epoch ≠ h.epoch := Nat.ne_of_lt (lt_of_lt_of_le hlt hepoch)
          unfold nextSend
          rw [if_neg hne, if_neg he]

theorem GuestLock.clientRx {h : HostSession} {log : Log} {i : Nat} {l : Peer} {m : DownMsg}
    {ms : List DownMsg} (hG : GuestLock h log i l) (hm : l.down = m :: ms) :
    GuestLock h log i { l with down := ms, guest := clientRx l.guest m } := by
  have hsyncs := hG.syncs
  have hsle := hG.syncs_le
  rw [hm] at hsyncs hsle
  cases m with
  | input ep f fr =>
    have hpop : GuestLock h log i { l with down := ms } :=
      { hG with syncs := hsyncs, syncs_le := hsle }
    simp only [Netplay.clientRx]
    split
    · exact { hpop with }
    · exact hpop
  | sync ep d k cfg blob =>
    have hlt : l.guest.rxEpoch < ep := (List.pairwise_cons.mp hsyncs).1 ep (List.mem_cons_self ..)
    have hle := hG.epoch_le
    exact { hG with
      syncs := (List.pairwise_cons.mp hsyncs).2
      syncs_le := fun e he => hsle e (List.mem_cons_of_mem _ he)
      epoch_le := by show l.guest.epoch ≤ ep; omega
      ready_lt := fun _ => by show l.guest.epoch < ep; omega
      applying_lt := fun ep' d' m' cfg' blob' hp => by
        obtain ⟨h1, h2⟩ := hG.applying_lt ep' d' m' cfg' blob' hp
        exact ⟨h1, by show ep' ≤ ep; omega⟩
      idle := fun _ _ _ hx => by cases hx }
  | bye =>
    exact { hG with
      syncs := hsyncs
      syncs_le := hsle
      idle := fun _ _ hx => by cases hx }

/-- A link whose guest changes, but neither its epoch nor its field. -/
theorem LinkLock.of_guest {idle : Prop} {h : HostSession} {log : Log} {i : Nat} {l : Peer}
    {f0 : Nat} (hL : LinkLock idle h log i l f0) {g : GuestSession} {down : List DownMsg}
    (he : g.epoch = l.guest.epoch) (hf : g.field = l.guest.field) :
    LinkLock idle h log i { l with guest := g, down := down } f0 := by
  have hnext : nextSend h.delay h.epoch g = nextSend h.delay h.epoch l.guest := by
    unfold nextSend; rw [he, hf]
  exact { hL with
    hi := by rw [hnext]; exact hL.hi
    queue := by rw [hnext]; exact hL.queue
    sent_lt := by rw [hnext]; exact hL.sent_lt }

theorem lockInv_setGuest {idle : Prop} {s : Sys} (h : LockInv idle s) {i : Nat} {l : Peer}
    (hl : s.peers[i]? = some l) {g : GuestSession} {down : List DownMsg}
    (he : g.epoch = l.guest.epoch) (hf : g.field = l.guest.field)
    (hG : GuestLock s.host s.log i { l with guest := g, down := down }) :
    LockInv idle (s.setPeer i { l with guest := g, down := down }) := by
  refine ⟨h.host, ?_, ?_⟩
  · exact forall_setPeer (fun _ _ => hG) (fun j l' hl' _ => h.guests j l' hl')
  · refine forall_setPeer ?_ (fun j l' hl' _ => h.links j l' hl')
    intro _ _ ha hm
    obtain ⟨f0, hL⟩ := h.links i l hl ha hm
    exact ⟨f0, hL.of_guest he hf⟩

theorem clientRx_epoch (g : GuestSession) (m : DownMsg) :
    (clientRx g m).epoch = g.epoch ∧ (clientRx g m).field = g.field := by
  cases m with
  | input ep f fr => simp only [clientRx]; split <;> exact ⟨rfl, rfl⟩
  | sync ep d k cfg blob => exact ⟨rfl, rfl⟩
  | bye => exact ⟨rfl, rfl⟩

/-- A guest says goodbye and plays no more. -/
theorem lockInv_guestStop {idle : Prop} {s : Sys} (h : LockInv idle s) {i : Nat} {l : Peer}
    (hl : s.peers[i]? = some l) :
    LockInv idle (s.setPeer i { l with
      up := l.up ++ [.bye]
      guest := { l.guest with phase := .off, lockstep := false } }) := by
  have hup : ∀ ep f p, UpMsg.input ep f p ∈ l.up ++ [.bye] → .input ep f p ∈ l.up := by
    intro ep f p hin
    simpa using hin
  have hG := h.guests i l hl
  refine ⟨h.host, ?_, ?_⟩
  · refine forall_setPeer (fun _ _ => ?_) (fun j l' hl' _ => h.guests j l' hl')
    exact { hG with
      up_epoch := fun ep f p hin => hG.up_epoch ep f p (hup ep f p hin)
      applying_lt := fun ep d m cfg blob hp => by cases hp
      idle := fun hp => by cases hp
      waiting := fun g hp => by cases hp }
  · refine forall_setPeer ?_ (fun j l' hl' _ => h.links j l' hl')
    intro _ _ ha hm
    obtain ⟨f0, hL⟩ := h.links i l hl ha hm
    refine ⟨f0, { hL with
      queue := ?_
      queue_sent := fun f p hin => hL.queue_sent f p (hup _ f p hin) }⟩
    show upFields s.host.epoch (l.up ++ [.bye]) = _
    rw [upFields_append, hL.queue]
    exact List.append_nil _

/-- A new link is not in the mask before the next synchronisation. -/
theorem lockInv_admitGuest {idle : Prop} {s : Sys} (h : LockInv idle s) (r : Hello)
    (sent : Bool) (ports : Slot → PadCfg) : LockInv idle (admitGuest s r sent ports) := by
  unfold admitGuest
  cases ha : admitSlot s r with
  | error e => exact h
  | ok c =>
    obtain ⟨-, hm, -, -⟩ := freeSlot_spec (freeSlot_of_admitSlot ha)
    dsimp only
    split
    · exact h
    · have happ : ∀ (i : Nat) l, (s.peers ++
          [{ slot := c, alive := true, up := [], down := [],
             guest := joined c s.host.delay ports : Peer }])[i]? = some l →
          s.peers[i]? = some l ∨ l =
            { slot := c, alive := true, up := [], down := [],
              guest := joined c s.host.delay ports } := by
        intro i l hl
        rw [List.getElem?_append] at hl
        split at hl
        · exact .inl hl
        · rw [List.getElem?_singleton] at hl
          split at hl
          · cases hl; exact .inr rfl
          · cases hl
      refine ⟨{ h.host with }, ?_, ?_⟩
      · intro i l hl
        rcases happ i l hl with hl | rfl
        · exact { h.guests i l hl with }
        · exact {
            delay := rfl
            up_epoch := fun ep f p hin => by cases hin
            syncs := List.pairwise_singleton _ _
            syncs_le := fun ep hin => by rw [List.mem_singleton.mp hin]; exact Nat.zero_le _
            epoch_le := le_rfl
            ready_lt := fun hx => by cases hx
            applying_lt := fun ep d m cfg blob hp => by cases hp
            last := fun hx => absurd hx (Nat.not_succ_le_zero 0)
            idle := fun _ hx => by cases hx
            waiting := fun f hp => by cases hp }
      · intro i l hl hal hmask
        rcases happ i l hl with hl | rfl
        · obtain ⟨f0, hL⟩ := h.links i l hl hal hmask
          exact ⟨f0, { hL with }⟩
        · exact absurd (show s.host.mask c = true from hmask) (by simp [hm])

/-! ## Section 6: Every run -/

theorem lockInv_step {s s' : Sys} {l : Label} (h : LockInv (s.host.waiting = none) s)
    (hM : MemberInv s) (hA : AgreeInv s) (hs : Step s l s') :
    LockInv (s'.host.waiting = none) s' := by
  cases hs with
  | admitGuest r sent ports =>
    refine (lockInv_admitGuest h r sent ports).imp ?_
    have : (admitGuest s r sent ports).host.waiting = s.host.waiting := by
      unfold admitGuest
      split
      · rfl
      · split <;> rfl
    rw [this]
    exact id
  | hostRx hl ha hm =>
    refine (lockInv_hostRx h hM hA hl ha hm).imp ?_
    rw [hostRx_waiting]
    exact id
  | hostRxExit hl ha =>
    refine (lockInv_hostRxExit h hM hl ha).imp ?_
    rw [hostRxExit_waiting]
    exact id
  | serviceSync pad state hw =>
    exact (lockInv_serviceSync (h.imp (fun _ => hw)) hM hA pad state).imp (fun _ => trivial)
  | hostField pad hash hw =>
    exact lockInv_hostField (h.imp (fun _ => hw)) hw hM hA pad hash
  | hostWake hw =>
    exact lockInv_hostResume (h.imp (fun hF => hF.elim)) hA (hA.host.waiting_field _ hw).1
  | setView hv =>
    obtain ⟨v, m, rfl⟩ := setView_eq hv
    exact h.of_host { h.host with } rfl rfl rfl (fun _ _ _ hL => { hL with })
  | clientRx hl hm =>
    obtain ⟨he, hf⟩ := clientRx_epoch _ _
    exact lockInv_setGuest h hl he hf ((h.guests _ _ hl).clientRx hm)
  | @clientRxExit i l hl =>
    exact lockInv_setGuest h hl rfl rfl
      { h.guests i l hl with idle := fun _ _ hx => by cases hx }
  | guestField pad hash hl hp =>
    exact lockInv_guestStep h hl (.guestField (h.guests _ _ hl) hp pad hash)
  | guestWake hl hw => exact lockInv_guestStep h hl (.guestWake (h.guests _ _ hl) hw)
  | guestApplied pad ok hl hp =>
    exact lockInv_guestStep h hl (.endApplySync (h.guests _ _ hl) (hA.peers _ _ hl) hp pad ok)
  | guestStop hl => exact lockInv_guestStop h hl

theorem lockInv_reachable {s : Sys} (h : netplay.Reachable s) :
    LockInv (s.host.waiting = none) s := by
  refine h.invariant (fun s => LockInv (s.host.waiting = none) s) ?_ ?_
  · rintro s ⟨env, romHash, ports, rfl⟩
    refine ⟨?_, fun i l hl => by simp [start] at hl, fun i l hl => by simp [start] at hl⟩
    constructor
    case epoch_pos => intro hs; cases hs
    case last => intro hs; cases hs
    case own => intro f row hrow; cases hrow
    all_goals intro x hx; cases hx
  · intro s l s' hreach hI hstep
    exact lockInv_step hI (memberInv_reachable hreach) (agreeInv_reachable hreach)
      (Step.of_step hstep)

/-- The fields of epoch `e` a machine has applied. -/
def appliedFields (log : Log) (who : Machine) (e : Nat) : Set Nat :=
  { f | ∃ fr, ⟨who, e, f, fr⟩ ∈ log.applied }

/-- `f` is the last field of epoch `e` that `who` applied, read off the log. -/
def lastApplied (log : Log) (who : Machine) (e f : Nat) : Bool :=
  log.applied.any (fun a => a.who = who ∧ a.epoch = e ∧ a.field = f) &&
    log.applied.all (fun a => a.who = who → a.epoch = e → a.field ≤ f)

theorem isGreatest_of_lastApplied {log : Log} {who : Machine} {e f : Nat}
    (h : lastApplied log who e f = true) : IsGreatest (appliedFields log who e) f := by
  simp only [lastApplied, Bool.and_eq_true, List.any_eq_true, List.all_eq_true,
    decide_eq_true_eq] at h
  obtain ⟨⟨a, ha, rfl, rfl, rfl⟩, hall⟩ := h
  refine ⟨⟨a.frame, ha⟩, ?_⟩
  rintro g ⟨fr, hfr⟩
  exact hall _ hfr rfl rfl

/-- **No lost input, bounded skew.** Take a link that is alive and in the mask
    (a link enters the mask only when an epoch starts, so it has been there
    for the whole epoch). Every pad of the current epoch in its queue will be
    taken by `submit`. Every machine that applied a field `f ≥ delay` of the
    epoch applied, on the connector of this link, the one pad its guest sent
    for `f`. The last fields host and guest have applied differ by at most
    `delay + 1`. -/
theorem lockstep {s : Sys} (h : netplay.Reachable s) {i : Nat} {l : Peer}
    (hl : s.peers[i]? = some l) (ha : l.alive = true) (hm : s.host.mask l.slot = true) :
    s.host.synced = true ∧
    (∀ f p, .input s.host.epoch f p ∈ l.up →
      ¬ (f < s.host.field ∨ s.host.ready.contains f = true)) ∧
    (∀ a ∈ s.log.applied, a.epoch = s.host.epoch → s.host.delay ≤ a.field →
      ∀ p, ⟨i, s.host.epoch, a.field, p⟩ ∈ s.log.sent ↔ p = a.frame.p l.slot) ∧
    (∀ hf gf, IsGreatest (appliedFields s.log .host s.host.epoch) hf →
      IsGreatest (appliedFields s.log (.guest i) s.host.epoch) gf →
      hf ≤ gf + (s.host.delay + 1) ∧ gf ≤ hf + (s.host.delay + 1)) := by
  have hI := lockInv_reachable h
  have hA := (agreeInv_reachable h).host
  obtain ⟨f0, hL⟩ := hI.links i l hl ha hm
  have hG := hI.guests i l hl
  refine ⟨hL.synced, ?_, ?_, ?_⟩
  · intro f p hin
    refine hL.not_settled hA ?_
    have : f ∈ upFields s.host.epoch l.up :=
      List.mem_filterMap.mpr ⟨_, hin, if_pos rfl⟩
    rw [hL.queue] at this
    exact (List.mem_range'_1.mp this).1
  · intro a ha he hd p
    have hb : (⟨a.epoch, a.field, a.frame⟩ : Bcast) ∈ s.log.bcasts := by
      rcases hA.applied_origin a ha with ⟨hlt, -, -⟩ | hb
      · exact absurd hlt (Nat.not_lt.mpr hd)
      · exact hb
    have hsent := (hL.bcast _ hb he).2
    exact ⟨fun hp => hL.sent_unique a.field p _ hp hsent, fun hp => hp ▸ hsent⟩
  · intro hf gf hhost hguest
    -- what anyone has applied, the host has sent its pad for and taken the guest's
    have hbound : ∀ who f, f ∈ appliedFields s.log who s.host.epoch →
        f < f0 ∧ f ≤ s.host.field + s.host.delay := by
      rintro who f ⟨fr, hfr⟩
      rcases hA.applied_origin _ hfr with ⟨hlt, -, -⟩ | hb
      · have := hL.lo
        dsimp only at hlt
        omega
      · exact ⟨(hL.bcast _ hb rfl).1, hI.host.bcast_own _ hb rfl⟩
    obtain ⟨f, fr, hfr, hle, -⟩ := hI.host.last hL.synced
    have hlast : f ≤ hf := hhost.2 ⟨fr, hfr⟩
    have h1 := hbound _ hf hhost.1
    have h2 := hbound _ gf hguest.1
    have hhi := hL.hi
    refine ⟨?_, by omega⟩
    unfold nextSend at hhi
    split at hhi
    · next he =>
      obtain ⟨g, fr', hg, hgle⟩ := hG.last (he ▸ hI.host.epoch_pos hL.synced)
      rw [he] at hg
      have : g ≤ gf := hguest.2 ⟨fr', hg⟩
      omega
    · omega

/-- With a delay of one field: the guest has applied field 0 and waits for
    field 1, its pads for 1 and 2 are with the host, the host has applied
    field 2. -/
def skewRun : List Label :=
  [.admitGuest (joinHello 0) true noPorts, .serviceSync .rest [], .clientRx 0,
    .guestField 0 .rest 0, .guestApplied 0 .rest true, .guestField 0 .rest 0,
    .hostRx 0, .hostField .rest 0, .hostRx 0, .hostField .rest 0]

/-- The state `skewRun` ends in. -/
theorem skewRun_state : ∃ s, netplay.Reachable s ∧ s.host.delay = 1 ∧
    (∃ l, s.peers[0]? = some l ∧ l.alive = true ∧ s.host.mask l.slot = true) ∧
    IsGreatest (appliedFields s.log .host s.host.epoch) 2 ∧
    IsGreatest (appliedFields s.log (.guest 0) s.host.epoch) 0 := by
  obtain ⟨s, hs, h⟩ := exists_reachable skewRun
    (fun s => s.host.delay = 1 ∧
      (s.peers[0]?.any (fun l => l.alive && s.host.mask l.slot)) = true ∧
      lastApplied s.log .host s.host.epoch 2 = true ∧
      lastApplied s.log (.guest 0) s.host.epoch 0 = true)
    (show (exec (start (some 1) 0 noPorts) _).any _ = true by decide)
  simp only [decide_eq_true_eq, Option.any_eq_true, Bool.and_eq_true] at h
  obtain ⟨hd, hl, hh, hg⟩ := h
  exact ⟨s, hs, hd, hl, isGreatest_of_lastApplied hh, isGreatest_of_lastApplied hg⟩

theorem lockstep_skewRun : ∃ s, netplay.Reachable s ∧
    ∃ l, s.peers[0]? = some l ∧ l.alive = true ∧ s.host.mask l.slot = true ∧
    IsGreatest (appliedFields s.log .host s.host.epoch) 2 ∧
    IsGreatest (appliedFields s.log (.guest 0) s.host.epoch) 0 ∧
    2 ≤ 0 + (s.host.delay + 1) := by
  obtain ⟨s, hs, hd, ⟨l, hl, ha, hm⟩, hh, hg⟩ := skewRun_state
  exact ⟨s, hs, l, hl, ha, hm, hh, hg, ((lockstep hs hl ha hm).2.2.2 2 0 hh hg).1⟩

/-- A skew of `delay` is not enough. -/
theorem skew_exceeds_delay :
    ¬ ∀ (s : Sys) (i : Nat) (l : Peer), netplay.Reachable s → s.peers[i]? = some l →
      l.alive = true → s.host.mask l.slot = true →
      ∀ hf gf, IsGreatest (appliedFields s.log .host s.host.epoch) hf →
        IsGreatest (appliedFields s.log (.guest i) s.host.epoch) gf →
        hf ≤ gf + s.host.delay ∧ gf ≤ hf + s.host.delay := by
  intro hall
  obtain ⟨s, hs, hd, ⟨l, hl, ha, hm⟩, hh, hg⟩ := skewRun_state
  have := (hall s 0 l hs hl ha hm 2 0 hh hg).1
  omega

end Netplay
