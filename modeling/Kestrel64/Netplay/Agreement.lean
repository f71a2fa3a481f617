import Kestrel64.Netplay.Step

/-! # Netplay: Every Machine Applies the Same Inputs

    Why two machines agree on a field:

    * A frame on any machine has one of two origins (`Origin`). Fields before
      `delay` are filled locally with blank pads when the epoch starts; every
      other frame is one the host broadcast for that field of that epoch.
    * The host broadcasts a field at most once per epoch. Once a field is
      `Settled` (applied, or in `ready`) `submit` refuses pads for it, and a
      field still in `partial` has not been broadcast.
    * A guest files an `"in"` only under the epoch of the last `"sync"` it
      received, and applies fields only while it plays that epoch.

    The pads agree in every run. The view of the first `delay` fields is
    whatever each machine had on screen when its epoch started, so the views
    agree exactly in the runs where a guest that loads a state shows what the
    host showed when it took it.
-/

namespace Netplay

/-! ## Section 1: Where a frame comes from -/

/-- Frame `fr` for field `f` of epoch `ep` on machine `who`: the blank fill
    of the epoch's first fields, as applied at field 0, or a broadcast. -/
def Origin (d : Nat) (log : Log) (who : Machine) (ep f : Nat) (fr : Frame) : Prop :=
  (f < d ∧ fr = .blank fr.view ∧ ⟨who, ep, 0, fr⟩ ∈ log.applied) ∨ ⟨ep, f, fr⟩ ∈ log.bcasts

/-- The host has started epoch `ep`. -/
def Started (log : Log) (ep : Nat) : Prop := ∃ fr, ⟨.host, ep, 0, fr⟩ ∈ log.applied

/-- `log'` has everything `log` has. -/
structure Log.Extends (log' log : Log) : Prop where
  applied : log.applied ⊆ log'.applied
  bcasts : log.bcasts ⊆ log'.bcasts

theorem Log.Extends.refl (log : Log) : log.Extends log := ⟨fun _ h => h, fun _ h => h⟩

theorem Origin.mono {d : Nat} {log log' : Log} {who : Machine} {ep f : Nat} {fr : Frame}
    (h : Origin d log who ep f fr) (hle : log'.Extends log) : Origin d log' who ep f fr := by
  rcases h with ⟨hf, hb, ha⟩ | hb
  · exact .inl ⟨hf, hb, hle.applied ha⟩
  · exact .inr (hle.bcasts hb)

theorem Started.mono {log log' : Log} {ep : Nat} (h : Started log ep)
    (hle : log'.Extends log) : Started log' ep := by
  obtain ⟨fr, hfr⟩ := h
  exact ⟨fr, hle.applied hfr⟩

theorem find?_prefill (ready : OrdMap Nat Frame) {d : Nat} (hd : 1 ≤ d) (fr : Frame) (f : Nat) :
    (prefill ready d fr).find? f =
      if f < d then some ((ready.find? f).getD fr) else ready.find? f := by
  have hfold : ∀ n, ((List.range n).foldl (fun m f => m.emplace f fr) ready).find? f =
      if f < n then some ((ready.find? f).getD fr) else ready.find? f := by
    intro n
    induction n with
    | zero => simp
    | succ n ih =>
      rw [List.range_succ, List.foldl_append, List.foldl_cons, List.foldl_nil,
        OrdMap.find?_emplace]
      by_cases hf : f = n
      · subst hf; simp [ih]
      · rw [if_neg hf, ih]
        have : f < n + 1 ↔ f < n := by omega
        simp only [this]
  unfold prefill
  rw [OrdMap.find?_emplace]
  by_cases hf : f = 0
  · subst hf
    simp [hfold d, Nat.lt_of_lt_of_le Nat.zero_lt_one hd]
  · rw [if_neg hf, hfold]

/-! ## Section 2: The host -/

/-- Pads for field `f` are no longer taken. -/
def Settled (h : HostSession) (f : Nat) : Prop := f < h.field ∨ (h.ready.find? f).isSome

/-- What the host's session and the log say about each other. -/
structure HostInv (h : HostSession) (log : Log) : Prop where
  delay_pos : 1 ≤ h.delay
  applied_epoch : ∀ a ∈ log.applied, a.epoch ≤ h.epoch
  bcast_epoch : ∀ b ∈ log.bcasts, b.epoch ≤ h.epoch
  bcast_nodup : (log.bcasts.map (fun b => (b.epoch, b.field))).Nodup
  bcast_late : ∀ b ∈ log.bcasts, h.delay ≤ b.field
  bcast_settled : ∀ b ∈ log.bcasts, b.epoch = h.epoch → Settled h b.field
  fill_settled : h.synced = true → ∀ f < h.delay, Settled h f
  synced_started : h.synced = true → Started log h.epoch
  bcast_started : ∀ b ∈ log.bcasts, Started log b.epoch
  partial_new : ∀ f row, h.partialPads.find? f = some row →
    h.synced = true ∧ h.delay ≤ f ∧ ∀ b ∈ log.bcasts, b.epoch = h.epoch → b.field ≠ f
  ready_origin : ∀ f fr, h.ready.find? f = some fr → Origin h.delay log .host h.epoch f fr
  applied_origin : ∀ a ∈ log.applied, Origin h.delay log a.who a.epoch a.field a.frame
  applied_started : ∀ a ∈ log.applied, Started log a.epoch
  waiting_field : ∀ f, h.waiting = some f → f = h.field ∧ 1 ≤ f

theorem HostInv.publish {s : Sys} (h : HostInv s.host s.log) {f : Nat}
    {row : Slot → Option Pad} (hrow : s.host.partialPads.find? f = some row) (fr : Frame) :
    HostInv (publish s f fr).host (publish s f fr).log := by
  obtain ⟨hsync, hlate, hnew⟩ := h.partial_new f row hrow
  have hext : (Netplay.publish s f fr).log.Extends s.log :=
    ⟨fun _ h => h, fun _ h => List.mem_cons_of_mem _ h⟩
  have hsettled : ∀ g, Settled s.host g → Settled (Netplay.publish s f fr).host g := by
    intro g hg
    rcases hg with hg | hg
    · exact .inl hg
    · right
      show ((s.host.ready.insert f fr).find? g).isSome
      rw [OrdMap.find?_insert]
      split
      · rfl
      · exact hg
  have hmem : ∀ b ∈ (Netplay.publish s f fr).log.bcasts,
      b = ⟨s.host.epoch, f, fr⟩ ∨ b ∈ s.log.bcasts := fun b hb => List.mem_cons.mp hb
  constructor
  case delay_pos => exact h.delay_pos
  case applied_epoch => exact h.applied_epoch
  case bcast_epoch =>
    intro b hb
    rcases hmem b hb with rfl | hb
    · exact le_refl _
    · exact h.bcast_epoch b hb
  case bcast_nodup =>
    refine List.nodup_cons.mpr ⟨?_, h.bcast_nodup⟩
    intro hin
    obtain ⟨b, hb, hkey⟩ := List.mem_map.mp hin
    simp only [Prod.mk.injEq] at hkey
    exact hnew b hb hkey.1 hkey.2
  case bcast_late =>
    intro b hb
    rcases hmem b hb with rfl | hb
    · exact hlate
    · exact h.bcast_late b hb
  case bcast_settled =>
    intro b hb he
    rcases hmem b hb with rfl | hb
    · right
      show ((s.host.ready.insert f fr).find? f).isSome
      simp
    · exact hsettled _ (h.bcast_settled b hb he)
  case fill_settled => exact fun hs g hg => hsettled g (h.fill_settled hs g hg)
  case synced_started => exact fun hs => (h.synced_started hs).mono hext
  case bcast_started =>
    intro b hb
    rcases hmem b hb with rfl | hb
    · exact (h.synced_started hsync).mono hext
    · exact (h.bcast_started b hb).mono hext
  case partial_new =>
    intro g row' hg
    rw [publish_partialPads, OrdMap.find?_erase] at hg
    split at hg
    · cases hg
    · next hgf =>
      obtain ⟨hs, hl, hn⟩ := h.partial_new g row' hg
      refine ⟨hs, hl, ?_⟩
      intro b hb he
      rcases hmem b hb with rfl | hb
      · exact fun h => hgf h.symm
      · exact hn b hb he
  case ready_origin =>
    intro g fr' hg
    change (s.host.ready.insert f fr).find? g = some fr' at hg
    rw [OrdMap.find?_insert] at hg
    split at hg
    · next hgf =>
      cases hg; subst hgf
      exact .inr (List.mem_cons_self ..)
    · exact (h.ready_origin g fr' hg).mono hext
  case applied_origin => exact fun a ha => (h.applied_origin a ha).mono hext
  case applied_started => exact fun a ha => (h.applied_started a ha).mono hext
  case waiting_field => exact h.waiting_field

/-- A pad for a field that is not settled can be filed. -/
theorem HostInv.putPad {s : Sys} (h : HostInv s.host s.log) (hs : s.host.synced = true)
    {f : Nat} (hf : ¬ Settled s.host f) (c : Slot) (p : Pad) :
    HostInv (putPad s c f p).host (putPad s c f p).log := by
  refine { h with partial_new := ?_ }
  intro g row hg
  rw [putPad_find?] at hg
  split at hg
  · next hgf =>
    subst hgf
    refine ⟨hs, ?_, ?_⟩
    · by_contra hlt
      exact hf (h.fill_settled hs g (Nat.lt_of_not_le hlt))
    · intro b hb he hbf
      exact hf (hbf ▸ h.bcast_settled b hb he)
  · exact h.partial_new g row hg

theorem HostInv.openEpoch {s : Sys} (h : HostInv s.host s.log)
    (hw : s.host.waiting = none) :
    HostInv (fillEpoch (openEpoch s)).host (fillEpoch (openEpoch s)).log := by
  have hd := h.delay_pos
  have hfind : ∀ f, (fillEpoch (Netplay.openEpoch s)).host.ready.find? f =
      if f < s.host.delay then some (.blank s.host.cur.view) else none := by
    intro f
    exact find?_prefill ∅ hd (.blank s.host.cur.view) f
  have hfirst : firstFrame (prefill ∅ s.host.delay (.blank s.host.cur.view)) =
      .blank s.host.cur.view := by
    unfold firstFrame
    rw [find?_prefill ∅ hd, if_pos (by omega)]
    rfl
  have hlog : (fillEpoch (Netplay.openEpoch s)).log.applied =
      ⟨.host, s.host.epoch + 1, 0, .blank s.host.cur.view⟩ :: s.log.applied := by
    rw [← hfirst]; rfl
  have hext : (fillEpoch (Netplay.openEpoch s)).log.Extends s.log :=
    ⟨fun a ha => by rw [hlog]; exact List.mem_cons_of_mem _ ha, fun _ h => h⟩
  have hepoch : (fillEpoch (Netplay.openEpoch s)).host.epoch = s.host.epoch + 1 := rfl
  constructor
  case delay_pos => exact hd
  case applied_epoch =>
    intro a ha
    rw [hlog] at ha
    rw [hepoch]
    rcases List.mem_cons.mp ha with rfl | ha
    · exact le_refl _
    · exact le_trans (h.applied_epoch a ha) (Nat.le_succ _)
  case bcast_epoch => exact fun b hb => le_trans (h.bcast_epoch b hb) (Nat.le_succ _)
  case bcast_nodup => exact h.bcast_nodup
  case bcast_late => exact h.bcast_late
  case bcast_settled =>
    intro b hb he
    have := h.bcast_epoch b hb
    rw [hepoch] at he
    omega
  case fill_settled =>
    intro _ f hf
    right
    rw [hfind, if_pos (show f < s.host.delay from hf)]
    rfl
  case synced_started =>
    exact fun _ => ⟨.blank s.host.cur.view, by rw [hlog]; exact List.mem_cons_self ..⟩
  case bcast_started => exact fun b hb => (h.bcast_started b hb).mono hext
  case partial_new => intro f row hrow; cases hrow
  case ready_origin =>
    intro f fr hfr
    rw [hfind] at hfr
    split at hfr
    · next hlt =>
      cases hfr
      refine .inl ⟨hlt, rfl, ?_⟩
      rw [hlog, hepoch]
      exact List.mem_cons_self ..
    · cases hfr
  case applied_origin =>
    intro a ha
    rw [hlog] at ha
    rcases List.mem_cons.mp ha with rfl | ha
    · refine .inl ⟨hd, rfl, ?_⟩
      rw [hlog]
      exact List.mem_cons_self ..
    · exact (h.applied_origin a ha).mono hext
  case applied_started =>
    intro a ha
    rw [hlog] at ha
    rcases List.mem_cons.mp ha with rfl | ha
    · exact ⟨.blank s.host.cur.view, by rw [hlog]; exact List.mem_cons_self ..⟩
    · exact (h.applied_started a ha).mono hext
  case waiting_field =>
    intro f hf
    exact absurd (hw.symm.trans hf) (by simp)

/-- The host moves on to its next field. -/
theorem HostInv.nextField {s : Sys} (h : HostInv s.host s.log) (hw : s.host.waiting = none) :
    HostInv (nextField s).host (nextField s).log := by
  have hsettled : ∀ g, Settled s.host g →
      Settled (Netplay.nextField s).host g := by
    intro g hg
    rcases hg with hg | hg
    · exact .inl (Nat.lt_succ_of_lt hg)
    · exact .inr hg
  refine { h with bcast_settled := ?_, fill_settled := ?_, waiting_field := ?_ }
  · exact fun b hb he => hsettled _ (h.bcast_settled b hb he)
  · exact fun hs g hg => hsettled g (h.fill_settled hs g hg)
  · intro f hf
    exact absurd (hw.symm.trans hf) (by simp)

/-- The host applies its field, or waits for it. -/
theorem HostInv.hostResume {s : Sys} (h : HostInv s.host s.log) {f : Nat}
    (hf : f = s.host.field) (hpos : 1 ≤ f) :
    HostInv (hostResume s f).host (hostResume s f).log := by
  unfold Netplay.hostResume
  cases hfr : s.host.ready.find? f with
  | none =>
    refine { h with waiting_field := ?_ }
    intro g hg
    cases hg
    exact ⟨hf, hpos⟩
  | some fr =>
    have hext : Log.Extends
        { s.log with applied := ⟨.host, s.host.epoch, f, fr⟩ :: s.log.applied } s.log :=
      ⟨fun a ha => List.mem_cons_of_mem _ ha, fun _ h => h⟩
    have horigin := h.ready_origin f fr hfr
    have hstarted : Started s.log s.host.epoch := by
      rcases horigin with ⟨-, -, ha⟩ | hb
      · exact ⟨fr, ha⟩
      · exact h.bcast_started _ hb
    have hsettled : ∀ g, Settled s.host g →
        Settled { s.host with ready := s.host.ready.eraseBefore f } g := by
      intro g hg
      rcases hg with hg | hg
      · exact .inl hg
      · by_cases hgf : f ≤ g
        · right
          show ((s.host.ready.eraseBefore f).find? g).isSome
          rw [OrdMap.find?_eraseBefore, if_pos hgf]
          exact hg
        · exact .inl (show g < s.host.field by omega)
    constructor
    case delay_pos => exact h.delay_pos
    case applied_epoch =>
      intro a ha
      rcases List.mem_cons.mp ha with rfl | ha
      · exact le_refl _
      · exact h.applied_epoch a ha
    case bcast_epoch => exact h.bcast_epoch
    case bcast_nodup => exact h.bcast_nodup
    case bcast_late => exact h.bcast_late
    case bcast_settled => exact fun b hb he => hsettled _ (h.bcast_settled b hb he)
    case fill_settled => exact fun hs g hg => hsettled g (h.fill_settled hs g hg)
    case synced_started => exact fun hs => (h.synced_started hs).mono hext
    case bcast_started => exact fun b hb => (h.bcast_started b hb).mono hext
    case partial_new => exact h.partial_new
    case ready_origin =>
      intro g fr' hg
      change (s.host.ready.eraseBefore f).find? g = some fr' at hg
      rw [OrdMap.find?_eraseBefore] at hg
      split at hg
      · exact (h.ready_origin g fr' hg).mono hext
      · cases hg
    case applied_origin =>
      intro a ha
      rcases List.mem_cons.mp ha with rfl | ha
      · exact horigin.mono hext
      · exact (h.applied_origin a ha).mono hext
    case applied_started =>
      intro a ha
      rcases List.mem_cons.mp ha with rfl | ha
      · exact hstarted.mono hext
      · exact (h.applied_started a ha).mono hext
    case waiting_field => intro g hg; cases hg

/-! ## Section 3: A link and its guest -/

/-- What the log says about link `i`: its downward queue and its guest. -/
structure PeerInv (d : Nat) (log : Log) (i : Nat) (l : Peer) : Prop where
  down_input : ∀ ep f fr, .input ep f fr ∈ l.down → ⟨ep, f, fr⟩ ∈ log.bcasts
  down_sync : ∀ ep d' m cfg blob, .sync ep d' m cfg blob ∈ l.down → d' = d ∧ Started log ep
  ready_origin : ∀ f fr, l.guest.ready.find? f = some fr →
    Origin d log (.guest i) l.guest.rxEpoch f fr
  fresh : l.guest.syncReady = true ∨ l.guest.phase.isApplying = true →
    ∀ f fr, l.guest.ready.find? f = some fr → ⟨l.guest.rxEpoch, f, fr⟩ ∈ log.bcasts
  sync_ready : l.guest.syncReady = true → l.guest.syncDelay = d ∧ Started log l.guest.rxEpoch
  applying : ∀ ep d' m cfg blob, l.guest.phase = .applying ep d' m cfg blob →
    d' = d ∧ Started log ep ∧ (l.guest.syncReady = false → ep = l.guest.rxEpoch)
  playing : l.guest.phase = .idle → l.guest.synced = true → l.guest.lost = false →
    l.guest.syncReady = false → l.guest.epoch = l.guest.rxEpoch
  waiting : ∀ f, l.guest.phase = .waitField f →
    1 ≤ f ∧ (l.guest.syncReady = false → l.guest.epoch = l.guest.rxEpoch)

theorem PeerInv.mono {d : Nat} {log log' : Log} {i : Nat} {l : Peer}
    (h : PeerInv d log i l) (hle : log'.Extends log) : PeerInv d log' i l where
  down_input ep f fr hm := hle.bcasts (h.down_input ep f fr hm)
  down_sync ep d' m cfg blob hm :=
    ⟨(h.down_sync ep d' m cfg blob hm).1, (h.down_sync ep d' m cfg blob hm).2.mono hle⟩
  ready_origin f fr hf := (h.ready_origin f fr hf).mono hle
  fresh hr f fr hf := hle.bcasts (h.fresh hr f fr hf)
  sync_ready hr := ⟨(h.sync_ready hr).1, (h.sync_ready hr).2.mono hle⟩
  applying ep d' m cfg blob hp :=
    have ⟨hd, hs, he⟩ := h.applying ep d' m cfg blob hp
    ⟨hd, hs.mono hle, he⟩
  playing := h.playing
  waiting := h.waiting

/-- A message the host may put on a live link. -/
def MsgOk (d : Nat) (log : Log) : DownMsg → Prop
  | .input ep f fr => ⟨ep, f, fr⟩ ∈ log.bcasts
  | .sync ep d' _ _ _ => d' = d ∧ Started log ep
  | .bye => True

theorem PeerInv.post {d : Nat} {log : Log} {i : Nat} {l : Peer} {m : DownMsg}
    (h : PeerInv d log i l) (hm : MsgOk d log m) : PeerInv d log i (l.post m) := by
  unfold Peer.post
  split
  · refine { h with down_input := ?_, down_sync := ?_ }
    · intro ep f fr hin
      rcases List.mem_append.mp hin with hin | hin
      · exact h.down_input ep f fr hin
      · obtain rfl := List.mem_singleton.mp hin
        exact hm
    · intro ep d' m' cfg blob hin
      rcases List.mem_append.mp hin with hin | hin
      · exact h.down_sync ep d' m' cfg blob hin
      · obtain rfl := List.mem_singleton.mp hin
        exact hm
  · exact h

/-- The receiver thread of the guest. -/
theorem PeerInv.clientRx {d : Nat} {log : Log} {i : Nat} {l : Peer} {m : DownMsg}
    {ms : List DownMsg} (h : PeerInv d log i l) (hm : l.down = m :: ms) :
    PeerInv d log i { l with down := ms, guest := clientRx l.guest m } := by
  have htail : ∀ x ∈ ms, x ∈ l.down := fun x hx => hm ▸ List.mem_cons_of_mem m hx
  have hhead : m ∈ l.down := hm ▸ List.mem_cons_self ..
  have hpop : PeerInv d log i { l with down := ms } :=
    { h with
      down_input := fun ep f fr hx => h.down_input ep f fr (htail _ hx)
      down_sync := fun ep d' m cfg blob hx => h.down_sync ep d' m cfg blob (htail _ hx) }
  cases m with
  | input ep f fr =>
    simp only [Netplay.clientRx]
    split
    · next hep =>
      have hb := h.down_input ep f fr hhead
      subst hep
      refine { hpop with ready_origin := ?_, fresh := ?_ }
      · intro g fr' hg
        rw [OrdMap.find?_insert] at hg
        split at hg
        · next hgf => cases hg; subst hgf; exact .inr hb
        · exact h.ready_origin g fr' hg
      · intro hr g fr' hg
        rw [OrdMap.find?_insert] at hg
        split at hg
        · next hgf => cases hg; subst hgf; exact hb
        · exact h.fresh hr g fr' hg
    · exact hpop
  | sync ep d' m cfg blob =>
    -- whatever was being loaded or waited for, this one supersedes it
    refine { hpop with
      ready_origin := fun g fr hg => by cases hg
      fresh := fun _ g fr hg => by cases hg
      sync_ready := fun _ => h.down_sync ep d' m cfg blob hhead
      applying := ?_
      playing := fun _ _ _ hr => by cases hr
      waiting := ?_ }
    · intro ep' d'' m' cfg' blob' hp
      obtain ⟨hd, hs, -⟩ := h.applying ep' d'' m' cfg' blob' hp
      exact ⟨hd, hs, fun hr => by cases hr⟩
    · exact fun f hp => ⟨(h.waiting f hp).1, fun hr => by cases hr⟩
  | bye => exact { hpop with playing := fun _ _ hl => by cases hl }

theorem PeerInv.clientRxExit {d : Nat} {log : Log} {i : Nat} {l : Peer}
    (h : PeerInv d log i l) :
    PeerInv d log i { l with guest := clientRxExit l.guest } :=
  { h with playing := fun _ _ hl => by cases hl }

theorem PeerInv.stop {d : Nat} {log : Log} {i : Nat} {l : Peer}
    (h : PeerInv d log i l) (up : List UpMsg) :
    PeerInv d log i { l with
      up := up
      guest := { l.guest with phase := .off, lockstep := false } } :=
  { h with
    fresh := fun hr => h.fresh (hr.imp_right (fun hp => by cases hp))
    applying := fun ep d' m cfg blob hp => by cases hp
    playing := fun hp => by cases hp
    waiting := fun f hp => by cases hp }

/-- What a guest's core thread may do in one critical section. -/
structure GuestOk (d : Nat) (log : Log) (i : Nat) (l : Peer) (out : GuestOut) : Prop where
  peer : PeerInv d (log.record i out) i { l with guest := out.guest, up := l.up ++ out.sends }
  origin : ∀ ep f fr, out.applied = some (ep, f, fr) →
    Origin d (log.record i out) (.guest i) ep f fr
  started : ∀ ep f fr, out.applied = some (ep, f, fr) → Started log ep

theorem record_extends (log : Log) (i : Nat) (out : GuestOut) :
    (log.record i out).Extends log := by
  refine ⟨?_, fun _ h => h⟩
  unfold Log.record
  dsimp only
  split
  · exact fun a ha => List.mem_cons_of_mem _ ha
  · exact fun a ha => ha

/-- A section that applies no field keeps the old log as far as frames go. -/
theorem GuestOk.of_peer {d : Nat} {log : Log} {i : Nat} {l : Peer} {out : GuestOut}
    (h : PeerInv d log i { l with guest := out.guest, up := l.up ++ out.sends })
    (ha : out.applied = none) : GuestOk d log i l out where
  peer := h.mono (record_extends log i out)
  origin ep f fr hx := by rw [ha] at hx; cases hx
  started ep f fr hx := by rw [ha] at hx; cases hx

theorem GuestOk.beginApplySync {d : Nat} {log : Log} {i : Nat} {l : Peer}
    (h : PeerInv d log i l) (hr : l.guest.syncReady = true) (sends : List UpMsg) :
    GuestOk d log i l { guest := beginApplySync l.guest, sends := sends } := by
  obtain ⟨hd, hs⟩ := h.sync_ready hr
  refine .of_peer ?_ rfl
  refine { h with
    fresh := fun _ => h.fresh (.inl hr)
    sync_ready := fun hr => by cases hr
    applying := ?_
    playing := fun hp => by cases hp
    waiting := fun f hp => by cases hp }
  intro ep d' m cfg blob hp
  cases hp
  exact ⟨hd, hs, fun _ => rfl⟩

/-- The wait for the inputs of field `f`, entered or looked at again. -/
theorem GuestOk.guestAwait {h : HostSession} {log : Log} {i : Nat} {l : Peer} {f : Nat}
    (hH : HostInv h log) (hP : PeerInv h.delay log i l) (hf : 1 ≤ f)
    (hcur : l.guest.syncReady = false → l.guest.epoch = l.guest.rxEpoch)
    (sends : List UpMsg) :
    GuestOk h.delay log i l { guestAwait l.guest f with sends := sends } := by
  unfold Netplay.guestAwait
  split
  · next hr => exact .beginApplySync hP hr sends
  · next hr =>
    have hr : l.guest.syncReady = false := by simpa using hr
    have hep := hcur hr
    cases hfr : l.guest.ready.find? f with
    | none =>
      dsimp only
      split
      · next hl =>
        refine .of_peer ?_ rfl
        exact { hP with
          fresh := fun hx => hx.elim (fun hx => by rw [hr] at hx; cases hx) (fun hx => by cases hx)
          applying := fun ep d' m cfg blob hp => by cases hp
          playing := fun _ _ hx => by rw [hl] at hx; cases hx
          waiting := fun g hp => by cases hp }
      · refine .of_peer ?_ rfl
        exact { hP with
          fresh := fun hx => hx.elim (fun hx => by rw [hr] at hx; cases hx) (fun hx => by cases hx)
          applying := fun ep d' m cfg blob hp => by cases hp
          playing := fun hp => by cases hp
          waiting := fun g hp => by cases hp; exact ⟨hf, fun _ => hep⟩ }
    | some fr =>
      have horigin := hP.ready_origin f fr hfr
      rw [← hep] at horigin
      constructor
      case peer =>
        refine PeerInv.mono ?_ (record_extends log i _)
        exact { hP with
          ready_origin := fun g fr' hg => by
            rw [OrdMap.find?_eraseBefore] at hg
            split at hg
            · exact hP.ready_origin g fr' hg
            · cases hg
          fresh := fun hx => hx.elim (fun hx => by rw [hr] at hx; cases hx) (fun hx => by cases hx)
          applying := fun ep d' m cfg blob hp => by cases hp
          playing := fun _ _ _ _ => hep
          waiting := fun g hp => by cases hp }
      case origin =>
        intro ep g fr' hx
        cases hx
        exact horigin.mono (record_extends log i _)
      case started =>
        intro ep g fr' hx
        cases hx
        rcases horigin with ⟨-, -, ha⟩ | hb
        · exact hH.applied_started _ ha
        · exact hH.bcast_started _ hb

theorem GuestOk.guestField {h : HostSession} {log : Log} {i : Nat} {l : Peer}
    (hH : HostInv h log) (hP : PeerInv h.delay log i l) (hidle : l.guest.phase = .idle)
    (pad : Pad) (hash : Hash) :
    GuestOk h.delay log i l (guestField l.guest pad hash) := by
  unfold Netplay.guestField
  split
  · next hl =>
    refine .of_peer ?_ rfl
    dsimp only
    split
    · exact { hP with playing := fun _ hx => by cases hx }
    · exact { hP with }
  · next hl =>
    split
    · next hr => exact .beginApplySync hP hr []
    · next hr =>
      have hr : l.guest.syncReady = false := by simpa using hr
      split
      · refine .of_peer ?_ rfl
        exact { hP with
          fresh := fun hx => hx.elim (fun hx => by rw [hr] at hx; cases hx) (fun hx => by cases hx)
          applying := fun ep d' m cfg blob hp => by cases hp
          playing := fun hp => by cases hp
          waiting := fun g hp => by cases hp }
      · next hs =>
        have hep : l.guest.epoch = l.guest.rxEpoch :=
          hP.playing hidle (by simpa using hs) (by simpa using hl) hr
        have hnext : PeerInv h.delay log i
            { l with guest := { l.guest with field := l.guest.field + 1 } } := { hP with }
        have hok := GuestOk.guestAwait hH hnext (Nat.succ_pos l.guest.field) (fun _ => hep)
          (.input l.guest.epoch (l.guest.field + 1 + l.guest.delay) pad ::
            (if (l.guest.field + 1) % kHashEvery = 0
              then [.hash l.guest.epoch (l.guest.field + 1) hash] else []))
        exact ⟨hok.peer, hok.origin, hok.started⟩

theorem GuestOk.guestWake {h : HostSession} {log : Log} {i : Nat} {l : Peer} {out : GuestOut}
    (hH : HostInv h log) (hP : PeerInv h.delay log i l) (hw : guestWake l.guest = some out) :
    GuestOk h.delay log i l out := by
  unfold Netplay.guestWake at hw
  split at hw
  · next hp =>
    split at hw
    · next hr => cases hw; exact .beginApplySync hP hr []
    · next hr =>
      split at hw
      · next hl =>
        cases hw
        refine .of_peer ?_ rfl
        exact { hP with
          fresh := fun hx => hP.fresh (hx.imp_right (fun hx => by cases hx))
          applying := fun ep d' m cfg blob hp => by cases hp
          playing := fun _ _ hx => by rw [hl] at hx; cases hx
          waiting := fun g hp => by cases hp }
      · cases hw
  · next f hp =>
    cases hw
    obtain ⟨hf, hcur⟩ := hP.waiting f hp
    have hok := GuestOk.guestAwait hH hP hf hcur (Netplay.guestAwait l.guest f).sends
    exact hok
  · cases hw

/-- The frames a guest fills its first fields with. -/
theorem prefill_fresh {h : HostSession} {log : Log} {i : Nat} {l : Peer}
    (hH : HostInv h log) (hP : PeerInv h.delay log i l)
    (hfresh : l.guest.phase.isApplying = true) {f : Nat} (hf : f < h.delay) (fr : Frame) :
    (prefill l.guest.ready h.delay fr).find? f = some fr := by
  rw [find?_prefill _ hH.delay_pos, if_pos hf]
  cases hx : l.guest.ready.find? f with
  | none => rfl
  | some fr' =>
    -- a broadcast is never for one of the first `delay` fields
    have := hH.bcast_late _ (hP.fresh (.inr hfresh) f fr' hx)
    exact absurd hf (Nat.not_lt.mpr this)

theorem GuestOk.endApplySync {h : HostSession} {log : Log} {i : Nat} {l : Peer}
    {ep d : Nat} {m : Mask} {cfg : Slot → PadCfg} {blob : Blob}
    (hH : HostInv h log) (hP : PeerInv h.delay log i l)
    (hp : l.guest.phase = .applying ep d m cfg blob) (pad : Pad) (ok : Bool) :
    GuestOk h.delay log i l (endApplySync l.guest ep d m cfg pad ok) := by
  obtain ⟨hd, hstart, hep⟩ := hP.applying ep d m cfg blob hp
  subst hd
  have happ : l.guest.phase.isApplying = true := by rw [hp]; rfl
  unfold Netplay.endApplySync
  dsimp only
  split
  · refine .of_peer ?_ rfl
    exact { hP with
      fresh := fun hx => hP.fresh (hx.imp_right (fun hx => by cases hx))
      applying := fun ep d' m cfg blob hp => by cases hp
      playing := fun _ _ hx => by cases hx
      waiting := fun g hp => by cases hp }
  · split
    · next hr =>
      refine .of_peer ?_ rfl
      exact { hP with
        fresh := fun hx => hP.fresh (hx.imp_right (fun hx => by cases hx))
        applying := fun ep d' m cfg blob hp => by cases hp
        playing := fun _ _ _ hx => by rw [hr] at hx; cases hx
        waiting := fun g hp => by cases hp }
    · next hr =>
      have hr : l.guest.syncReady = false := by simpa using hr
      have hep := hep hr
      have hfill := fun f hf =>
        prefill_fresh hH hP happ (f := f) hf (.blank l.guest.cur.view)
      have hfirst : firstFrame (prefill l.guest.ready h.delay (.blank l.guest.cur.view)) =
          .blank l.guest.cur.view := by
        unfold firstFrame
        rw [hfill 0 hH.delay_pos]
        rfl
      rw [hfirst]
      constructor
      case peer =>
        have hext : Log.Extends
            { log with
              sent := sentPads i [.input ep h.delay pad] ++ log.sent
              applied := ⟨.guest i, ep, 0, .blank l.guest.cur.view⟩ :: log.applied } log :=
          ⟨fun a ha => List.mem_cons_of_mem _ ha, fun _ h => h⟩
        refine { hP.mono hext with
          ready_origin := ?_
          fresh := fun hx => hx.elim (fun hx => by rw [hr] at hx; cases hx) (fun hx => by cases hx)
          applying := fun ep d' m cfg blob hp => by cases hp
          playing := fun _ _ _ _ => hep
          waiting := fun g hp => by cases hp }
        intro f fr hfr
        by_cases hf : f < h.delay
        · have hfr := (hfill f hf).symm.trans hfr
          cases hfr
          exact .inl ⟨hf, rfl, hep ▸ List.mem_cons_self ..⟩
        · have hfr := (find?_prefill l.guest.ready hH.delay_pos _ f).symm.trans hfr
          rw [if_neg hf] at hfr
          exact (hP.ready_origin f fr hfr).mono hext
      case origin =>
        intro ep' f fr hx
        cases hx
        exact .inl ⟨hH.delay_pos, rfl, List.mem_cons_self ..⟩
      case started =>
        intro ep' f fr hx
        cases hx
        exact hstart

/-! ## Section 4: The whole game -/

/-- The invariant behind agreement. -/
structure AgreeInv (s : Sys) : Prop where
  host : HostInv s.host s.log
  peers : ∀ (i : Nat) l, s.peers[i]? = some l → PeerInv s.host.delay s.log i l

theorem peers_broadcast {s : Sys} {m : DownMsg} {i : Nat} {l' : Peer}
    (h : (s.broadcast m).peers[i]? = some l') :
    ∃ l, s.peers[i]? = some l ∧ l' = l.post m := by
  simp only [Sys.broadcast, List.getElem?_map, Option.map_eq_some_iff] at h
  obtain ⟨l, hl, rfl⟩ := h
  exact ⟨l, hl, rfl⟩

theorem agreeInv_tryComplete {s : Sys} (h : AgreeInv s) (f : Nat) :
    AgreeInv (tryComplete s f) := by
  rcases tryComplete_cases s f with ⟨he, -⟩ | ⟨row, hrow, -, he⟩
  · rw [he]; exact h
  · rw [he]
    refine ⟨h.host.publish hrow _, ?_⟩
    intro i l' hl'
    obtain ⟨l, hl, rfl⟩ := peers_broadcast hl'
    have hext : Log.Extends
        { s.log with bcasts := ⟨s.host.epoch, f, assemble row (s.host.partialView.find? f)⟩ ::
            s.log.bcasts } s.log :=
      ⟨fun _ h => h, fun b hb => List.mem_cons_of_mem _ hb⟩
    exact ((h.peers i l hl).mono hext).post (List.mem_cons_self ..)

theorem agreeInv_submit {s : Sys} (h : AgreeInv s) (hs : s.host.synced = true) (c : Slot)
    (f : Nat) (p : Pad) : AgreeInv (submit s c f p) := by
  unfold submit
  split
  · exact h
  · next hf => exact agreeInv_tryComplete ⟨h.host.putPad hs hf c p, h.peers⟩ f

theorem agreeInv_hostSubmit {s : Sys} (h : AgreeInv s) (hs : s.host.synced = true)
    (f : Nat) (p : Pad) : AgreeInv (hostSubmit s f p) :=
  agreeInv_submit (s := putView s f) ⟨{ h.host with }, h.peers⟩ hs 0 f p

theorem agreeInv_retryAll {s : Sys} (h : AgreeInv s) : AgreeInv (retryAll s) := by
  have hfold : ∀ (fs : List Nat) (s : Sys), AgreeInv s → AgreeInv (fs.foldl tryComplete s) := by
    intro fs
    induction fs with
    | nil => exact fun s h => h
    | cons f fs ih => exact fun s h => ih _ (agreeInv_tryComplete h f)
  exact hfold _ s h

/-- A link changes and the log grows. -/
theorem AgreeInv.setPeer {s : Sys} (h : AgreeInv s) {i : Nat} {l' : Peer} {log : Log}
    (hext : log.Extends s.log) (hH : HostInv s.host log)
    (hl' : PeerInv s.host.delay log i l') :
    AgreeInv { s.setPeer i l' with log := log } := by
  refine ⟨hH, ?_⟩
  intro j l hl
  change (s.peers.set i l')[j]? = some l at hl
  rw [List.getElem?_set] at hl
  split at hl
  · next hij =>
    split at hl
    · cases hl; subst hij; exact hl'
    · cases hl
  · exact (h.peers j l hl).mono hext

theorem agreeInv_setPeer {s : Sys} (h : AgreeInv s) {i : Nat} (l' : Peer)
    (hl' : PeerInv s.host.delay s.log i l') : AgreeInv (s.setPeer i l') :=
  h.setPeer (.refl s.log) h.host hl'

/-- The guest of a link takes a step. -/
theorem agreeInv_guestStep {s : Sys} (h : AgreeInv s) {i : Nat} {l : Peer} {out : GuestOut}
    (hok : GuestOk s.host.delay s.log i l out) : AgreeInv (s.guestStep i l out) := by
  have hext := record_extends s.log i out
  refine h.setPeer hext ?_ hok.peer
  have hmem : ∀ a ∈ (s.log.record i out).applied, a ∈ s.log.applied ∨
      ∃ ep f fr, out.applied = some (ep, f, fr) ∧ a = ⟨.guest i, ep, f, fr⟩ := by
    intro a ha
    unfold Log.record at ha
    dsimp only at ha
    split at ha
    · next ep f fr hx =>
      rcases List.mem_cons.mp ha with rfl | ha
      · exact .inr ⟨ep, f, fr, hx, rfl⟩
      · exact .inl ha
    · exact .inl ha
  have hH := h.host
  exact { hH with
    applied_epoch := fun a ha => by
      rcases hmem a ha with ha | ⟨ep, f, fr, hx, rfl⟩
      · exact hH.applied_epoch a ha
      · obtain ⟨fr', hfr'⟩ := hok.started ep f fr hx
        exact hH.applied_epoch ⟨.host, ep, 0, fr'⟩ hfr'
    synced_started := fun hs => (hH.synced_started hs).mono hext
    bcast_started := fun b hb => (hH.bcast_started b hb).mono hext
    ready_origin := fun f fr hf => (hH.ready_origin f fr hf).mono hext
    applied_origin := fun a ha => by
      rcases hmem a ha with ha | ⟨ep, f, fr, hx, rfl⟩
      · exact (hH.applied_origin a ha).mono hext
      · exact hok.origin ep f fr hx
    applied_started := fun a ha => by
      rcases hmem a ha with ha | ⟨ep, f, fr, hx, rfl⟩
      · exact (hH.applied_started a ha).mono hext
      · exact (hok.started ep f fr hx).mono hext }

theorem agreeInv_hostRxExit {s : Sys} (h : AgreeInv s) {i : Nat} {l : Peer}
    (hl : s.peers[i]? = some l) : AgreeInv (hostRxExit s i l) := by
  have hdrop : AgreeInv (dropLink s i l) := by
    have hset := agreeInv_setPeer h { l with alive := false } { h.peers i l hl with }
    exact ⟨{ hset.host with }, hset.peers⟩
  unfold hostRxExit
  dsimp only
  split
  · have hleave : AgreeInv (leaveGame (dropLink s i l) l.slot) :=
      agreeInv_retryAll ⟨{ hdrop.host with }, hdrop.peers⟩
    exact ⟨{ hleave.host with }, hleave.peers⟩
  · exact ⟨{ hdrop.host with }, hdrop.peers⟩

theorem agreeInv_hostRx {s : Sys} (h : AgreeInv s) {i : Nat} {l : Peer}
    (hl : s.peers[i]? = some l) (m : UpMsg) : AgreeInv (hostRx s i l m) := by
  cases m with
  | input ep f p =>
    simp only [hostRx]
    split
    · next hc => exact agreeInv_submit h hc.2 l.slot f p
    · exact h
  | hash ep f x =>
    simp only [hostRx]
    split
    · exact h
    · split
      · next mine _ =>
        obtain ⟨c, d, m, r, he⟩ := compareHash_eq s.host l.slot f x mine
        rw [he]
        exact ⟨{ h.host with }, h.peers⟩
      · exact ⟨{ h.host with }, h.peers⟩
  | bye => exact agreeInv_hostRxExit h hl

theorem agreeInv_serviceSync {s : Sys} (h : AgreeInv s) (hw : s.host.waiting = none)
    (pad : Pad) (state : Blob) : AgreeInv (serviceSync s pad state) := by
  have hstart : AgreeInv (syncStart s state) := by
    have hopen := h.host.openEpoch hw
    refine ⟨hopen, ?_⟩
    intro i l' hl'
    obtain ⟨l, hl, rfl⟩ := peers_broadcast hl'
    have hext : (fillEpoch (openEpoch s)).log.Extends s.log :=
      ⟨fun a ha => List.mem_cons_of_mem _ ha, fun _ h => h⟩
    exact ((h.peers i l hl).mono hext).post ⟨rfl, hopen.synced_started rfl⟩
  have hsub := agreeInv_hostSubmit hstart rfl (syncStart s state).host.delay pad
  exact ⟨{ hsub.host with }, hsub.peers⟩

theorem agreeInv_hostResume {s : Sys} (h : AgreeInv s) {f : Nat} (hf : f = s.host.field)
    (hpos : 1 ≤ f) : AgreeInv (hostResume s f) := by
  refine ⟨h.host.hostResume hf hpos, ?_⟩
  intro i l hl
  unfold hostResume at hl ⊢
  cases hfr : s.host.ready.find? f with
  | none => rw [hfr] at hl; exact h.peers i l hl
  | some fr =>
    rw [hfr] at hl
    exact (h.peers i l hl).mono ⟨fun a ha => List.mem_cons_of_mem _ ha, fun _ h => h⟩

theorem agreeInv_hostField {s : Sys} (h : AgreeInv s) (hw : s.host.waiting = none)
    (pad : Pad) (hash : Hash) : AgreeInv (hostField s pad hash) := by
  unfold hostField
  split
  · exact h
  · next hs =>
    have hs : s.host.synced = true := by simpa using hs
    dsimp only
    have hsub := agreeInv_hostSubmit (s := nextField s) ⟨h.host.nextField hw, h.peers⟩ hs
      (s.host.field + 1 + s.host.delay) pad
    have hfield := hostSubmit_nextField s (s.host.field + 1 + s.host.delay) pad
    obtain ⟨c, d, m, r, mh, ph, he⟩ := hashCheck_eq
      (hostSubmit (nextField s) (s.host.field + 1 + s.host.delay) pad) (s.host.field + 1) hash
    rw [he]
    apply agreeInv_hostResume
    · exact ⟨{ hsub.host with }, hsub.peers⟩
    · exact hfield.symm
    · exact Nat.succ_pos _

/-- A guest that has just joined knows nothing. -/
theorem peerInv_joined (d : Nat) (log : Log) (i : Nat) (slot : Slot) (ports : Slot → PadCfg) :
    PeerInv d log i
      { slot := slot, alive := true, up := [], down := [], guest := joined slot d ports } where
  down_input ep f fr h := by cases h
  down_sync ep d' m cfg blob h := by cases h
  ready_origin f fr h := by cases h
  fresh _ f fr h := by cases h
  sync_ready h := by cases h
  applying ep d' m cfg blob h := by cases h
  playing _ h := by cases h
  waiting f h := by cases h

theorem agreeInv_admitGuest {s : Sys} (h : AgreeInv s) (r : Hello) (sent : Bool)
    (ports : Slot → PadCfg) : AgreeInv (admitGuest s r sent ports) := by
  unfold admitGuest
  split
  · exact h
  · next slot _ =>
    split
    · exact h
    · refine ⟨{ h.host with }, ?_⟩
      intro i l hl
      dsimp only at hl
      rw [List.getElem?_append] at hl
      split at hl
      · exact h.peers i l hl
      · rw [List.getElem?_singleton] at hl
        split at hl
        · cases hl; exact peerInv_joined s.host.delay s.log i slot ports
        · cases hl

theorem agreeInv_step {s s' : Sys} {l : Label} (h : AgreeInv s) (hs : Step s l s') :
    AgreeInv s' := by
  cases hs with
  | admitGuest r sent ports => exact agreeInv_admitGuest h r sent ports
  | @hostRx i l m ms hl ha hm =>
    have hpop := agreeInv_setPeer h { l with up := ms } { h.peers i l hl with }
    exact agreeInv_hostRx hpop (peers_setPeer_self hl _) m
  | hostRxExit hl ha => exact agreeInv_hostRxExit h hl
  | serviceSync pad state hw => exact agreeInv_serviceSync h hw pad state
  | hostField pad hash hw => exact agreeInv_hostField h hw pad hash
  | hostWake hw =>
    obtain ⟨hf, hpos⟩ := h.host.waiting_field _ hw
    exact agreeInv_hostResume h hf hpos
  | setView hv =>
    obtain ⟨v, m, rfl⟩ := setView_eq hv
    exact ⟨{ h.host with }, h.peers⟩
  | clientRx hl hm => exact agreeInv_setPeer h _ ((h.peers _ _ hl).clientRx hm)
  | clientRxExit hl => exact agreeInv_setPeer h _ (h.peers _ _ hl).clientRxExit
  | guestField pad hash hl hp =>
    exact agreeInv_guestStep h (.guestField h.host (h.peers _ _ hl) hp pad hash)
  | guestWake hl hw => exact agreeInv_guestStep h (.guestWake h.host (h.peers _ _ hl) hw)
  | guestApplied pad ok hl hp =>
    exact agreeInv_guestStep h (.endApplySync h.host (h.peers _ _ hl) hp pad ok)
  | guestStop hl => exact agreeInv_setPeer h _ ((h.peers _ _ hl).stop _)

theorem agreeInv_reachable {s : Sys} (h : netplay.Reachable s) : AgreeInv s := by
  refine h.invariant AgreeInv ?_ (fun _ _ _ _ hs hstep => agreeInv_step hs (Step.of_step hstep))
  rintro s ⟨env, romHash, ports, rfl⟩
  refine ⟨?_, fun i l hl => by simp [start] at hl⟩
  constructor
  case delay_pos => exact envDelay_pos env
  case bcast_nodup => exact List.nodup_nil
  case fill_settled => intro hs; cases hs
  case synced_started => intro hs; cases hs
  case partial_new => intro f row hrow; cases hrow
  case ready_origin => intro f fr hfr; cases hfr
  case waiting_field => intro f hf; cases hf
  all_goals intro a ha; cases ha

/-! ## Section 5: The pads agree -/

/-- Blank fills and broadcasts never meet: the pads of a field are fixed by
    its epoch and number. -/
theorem HostInv.origin_pads {h : HostSession} {log : Log} (hH : HostInv h log)
    {who who' : Machine} {ep f : Nat} {fr fr' : Frame}
    (ho : Origin h.delay log who ep f fr) (ho' : Origin h.delay log who' ep f fr') :
    fr.p = fr'.p := by
  rcases ho with ⟨hf, hb, -⟩ | hb
  · rcases ho' with ⟨-, hb', -⟩ | hb'
    · rw [hb, hb']; rfl
    · exact absurd hf (Nat.not_lt.mpr (hH.bcast_late _ hb'))
  · rcases ho' with ⟨hf, -, -⟩ | hb'
    · exact absurd hf (Nat.not_lt.mpr (hH.bcast_late _ hb))
    · have := List.inj_on_of_nodup_map hH.bcast_nodup hb hb' rfl
      cases this
      rfl

/-- **Agreement.** In every reachable state, any two `setCur` calls for the
    same field of the same epoch applied the same four pads, and the host has
    broadcast at most one frame for each epoch and field. -/
theorem pads_agree {s : Sys} (h : netplay.Reachable s) :
    (∀ a ∈ s.log.applied, ∀ b ∈ s.log.applied,
      a.epoch = b.epoch → a.field = b.field → a.frame.p = b.frame.p) ∧
    (s.log.bcasts.map (fun b => (b.epoch, b.field))).Nodup := by
  have hH := (agreeInv_reachable h).host
  refine ⟨?_, hH.bcast_nodup⟩
  intro a ha b hb he hf
  have hoa := hH.applied_origin a ha
  have hob := hH.applied_origin b hb
  rw [← he, ← hf] at hob
  exact hH.origin_pads hoa hob

/-- Host and guest have both applied field 2, with the guest's button. -/
theorem pads_agree_field_two : ∃ s, netplay.Reachable s ∧
    ∃ a ∈ s.log.applied, ∃ b ∈ s.log.applied, a.who = .host ∧ b.who = .guest 0 ∧
      a.field = 2 ∧ a.frame.p 1 = ⟨1, 0, 0⟩ ∧ a.frame.p = b.frame.p := by
  obtain ⟨s, hs, h⟩ := exists_reachable
    [.admitGuest (joinHello 0) true noPorts, .serviceSync .rest [], .clientRx 0,
      .guestField 0 .rest 0, .guestApplied 0 ⟨1, 0, 0⟩ true, .hostRx 0,
      .hostField .rest 0, .hostField .rest 0, .clientRx 0,
      .guestField 0 .rest 0, .guestField 0 .rest 0]
    (fun s => s.log.applied.any (fun a => s.log.applied.any (fun b =>
      a.who = .host ∧ b.who = .guest 0 ∧ a.field = 2 ∧ a.frame.p 1 = ⟨1, 0, 0⟩ ∧
        a.epoch = b.epoch ∧ a.field = b.field)))
    (show (exec (start none 0 noPorts) _).any _ = true by decide)
  simp only [List.any_eq_true, decide_eq_true_eq] at h
  obtain ⟨a, ha, b, hb, hwa, hwb, hf, hp, he, hff⟩ := h
  exact ⟨s, hs, a, ha, b, hb, hwa, hwb, hf, hp, (pads_agree hs).1 a ha b hb he hff⟩

end Netplay
