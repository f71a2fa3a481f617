import Mathlib.Algebra.Group.Int.Defs
import Kestrel64.Lib.OrdMap
import Kestrel64.Lib.Transition
import Mathlib.Data.String.Basic

/-! # Netplay: the Relay

    `net/relay.cpp`. The relay pairs hosts and guests that cannot reach each
    other. A host opens a room and keeps its connection as the room's
    control; a guest joins by the room's code and waits under a token; the
    host learns the token through the control and comes back with a new
    connection that asks for it.

    Each connection has a thread that runs `handle`. A label is one critical
    section of such a thread or one send between two of them, so a run is any
    interleaving: the host is told of a guest outside the lock, when its room
    may be closed and the token purged or taken.

    Mutexes of the control (`ctlMu`) only order the sends to one host, which
    are single steps here. The frames that flow through a spliced pair are
    left out.
-/

namespace Relay

/-! ## Section 1: Model -/

abbrev Conn := Nat

/-- A guest that waits for its host. Times are ticks of the steady clock. -/
structure Pending where
  conn : Conn
  room : String
  since : Int

structure Room where
  ctl : Conn

/-- What the relay sends. -/
inductive Frame where
  | room (code : String)
  | guest (token : String)
  | err (text : String)
  | ok
deriving DecidableEq

/-- The first frame of a connection says what it is. -/
inductive Request where
  | open
  | join (code : String)
  | accept (token : String)
  /-- A frame of another type, or none. -/
  | other

/-- Where the thread of a connection stands in `handle`. -/
inductive Phase where
  /-- Not accepted yet. -/
  | absent
  /-- Before the first frame. -/
  | fresh
  | opening
  /-- The room is in the map, its code not sent yet. -/
  | announcing (code : String)
  /-- Reads the control until it closes. -/
  | hosting (code : String)
  | joining (code : String)
  /-- The token is in the map, the host not told yet. -/
  | notifying (ctl : Conn) (token : String)
  | refusing (code : String)
  | accepting (token : String)
  /-- Holds the guest, `room.ok` not sent yet. -/
  | splicing (guest : Conn)
  | pumping (guest : Conn)
  | done

structure State where
  rooms : OrdMap String Room
  pending : OrdMap String Pending
  phase : Conn → Phase
  closed : Conn → Bool
  sent : List (Conn × Frame)

def kAlpha : List Char := "ABCDEFGHJKMNPQRSTUVWXYZ23456789".toList

/-- `s` is one of the results of `randomCode(n)`. -/
def randomCode (n : Nat) (s : String) : Prop := s.toList.length = n ∧ ∀ c ∈ s.toList, c ∈ kAlpha

instance (n : Nat) (s : String) : Decidable (randomCode n s) :=
  @instDecidableAnd _ _ inferInstance (List.decidableBAll _ _)

/-- `seconds(kPendingSecs)` in ticks of one nanosecond. -/
def kPending : Int := 30 * 10 ^ 9

def State.setPhase (s : State) (c : Conn) (p : Phase) : State :=
  { s with phase := fun d => if d = c then p else s.phase d }

def State.send (s : State) (c : Conn) (f : Frame) : State := { s with sent := (c, f) :: s.sent }

def State.close (s : State) (c : Conn) : State :=
  { s with closed := fun d => d = c || s.closed d }

/-- The loops that walk `g_pending`, close some of the guests and erase
    them. -/
def State.drop (s : State) (p : Pending → Bool) : State :=
  { s with
    pending := s.pending.eraseIf p
    closed := fun d => s.closed d || s.pending.entries.any (fun e => p e.2 && e.2.conn = d) }

def State.purgeLocked (s : State) (now : Int) : State :=
  s.drop fun p => now - p.since > kPending

/-- What a step did, for the history of a run. -/
inductive Event where
  | opened (host : Conn) (code : String)
  | issued (token : String) (guest host : Conn)
  | handed (token : String) (guest acceptor : Conn)
  | shut (host : Conn)
deriving DecidableEq

inductive Label where
  /-- `srv.accept()`: a new connection and its thread. -/
  | connect (c : Conn)
  | recv (c : Conn) (r : Request)
  /-- First critical section of `room.open`; `code` is the draw that was free. -/
  | openRoom (c : Conn) (code : String)
  | announce (c : Conn)
  /-- Second critical section of `room.open`, after the control has closed. -/
  | closeRoom (c : Conn)
  /-- Critical section of `room.join`, with the two readings of the clock;
      `token` is the draw that was free. -/
  | joinRoom (c : Conn) (now since : Int) (token : String)
  | notify (c : Conn)
  | refuse (c : Conn)
  /-- Critical section of `room.accept`. -/
  | acceptGuest (c : Conn)
  /-- `room.ok` to the guest, and whether it could be sent. -/
  | splice (c : Conn) (ok : Bool)
  /-- One side of a spliced pair falls. -/
  | pumpEnd (c : Conn)

def Request.phase : Request → Phase
  | .open => .opening
  | .join code => .joining code
  | .accept token => .accepting token
  | .other => .done

def step (s : State) : Label → Option (State × List Event)
  | .connect c =>
    match s.phase c with
    | .absent => some (s.setPhase c .fresh, [])
    | _ => none
  | .recv c r =>
    match s.phase c with
    | .fresh => some (s.setPhase c r.phase, [])
    | _ => none
  | .openRoom c code =>
    match s.phase c with
    | .opening =>
      if randomCode 6 code ∧ s.rooms.contains code = false then
        some ({ s with rooms := s.rooms.insert code ⟨c⟩ }.setPhase c (.announcing code),
          [.opened c code])
      else none
    | _ => none
  | .announce c =>
    match s.phase c with
    | .announcing code => some ((s.send c (.room code)).setPhase c (.hosting code), [])
    | _ => none
  | .closeRoom c =>
    match s.phase c with
    | .hosting code =>
      some (({ s with rooms := s.rooms.erase code }.drop fun p => p.room = code).setPhase c .done,
        [.shut c])
    | _ => none
  | .joinRoom c now since token =>
    match s.phase c with
    | .joining code =>
      let s := s.purgeLocked now
      match s.rooms.find? code with
      | none => some (s.setPhase c (.refusing code), [])
      | some room =>
        if randomCode 16 token ∧ s.pending.contains token = false then
          some ({ s with pending := s.pending.insert token ⟨c, code, since⟩ }.setPhase c
              (.notifying room.ctl token), [.issued token c room.ctl])
        else none
    | _ => none
  | .notify c =>
    match s.phase c with
    | .notifying ctl token => some ((s.send ctl (.guest token)).setPhase c .done, [])
    | _ => none
  | .refuse c =>
    match s.phase c with
    | .refusing code =>
      some ((s.send c (.err ("no existe la sala " ++ code))).setPhase c .done, [])
    | _ => none
  | .acceptGuest c =>
    match s.phase c with
    | .accepting token =>
      match s.pending.find? token with
      | none => some (s.setPhase c .done, [])
      | some p =>
        some ({ s with pending := s.pending.erase token }.setPhase c (.splicing p.conn),
          [.handed token p.conn c])
    | _ => none
  | .splice c ok =>
    match s.phase c with
    | .splicing guest =>
      some (if ok then (s.send guest .ok).setPhase c (.pumping guest) else s.setPhase c .done, [])
    | _ => none
  | .pumpEnd c =>
    match s.phase c with
    | .pumping guest => some (((s.close c).close guest).setPhase c .done, [])
    | _ => none

def init : State where
  rooms := ∅
  pending := ∅
  phase := fun _ => .absent
  closed := fun _ => false
  sent := []

/-- A state with the history that led to it, newest event first. -/
abbrev World := State × List Event

/-- Every interleaving of the handlers. -/
def relay : LTS.System World Label where
  init := fun w => w = (init, [])
  step := fun w l w' => ∃ es, step w.1 l = some (w'.1, es) ∧ w'.2 = es ++ w.2

/-! ## Section 2: What a step can do -/

/-- The thread of a connection has joined a room or is over: it will not join
    again. -/
def Phase.Spent (p : Phase) : Prop := p = .done ∨ ∃ ctl token, p = .notifying ctl token

/-- The thread keeps the room `code` open. -/
def Phase.Hosts (p : Phase) (code : String) : Prop := p = .announcing code ∨ p = .hosting code

/-- Moves of a thread outside the critical sections. -/
inductive Phase.Quiet : Phase → Phase → Prop where
  | connect : Quiet .absent .fresh
  | recv (r : Request) : Quiet .fresh r.phase
  | announce (code) : Quiet (.announcing code) (.hosting code)
  | notify (ctl token) : Quiet (.notifying ctl token) .done
  | refuse (code) : Quiet (.refusing code) .done
  | miss (token) : Quiet (.accepting token) .done
  | splice (guest) : Quiet (.splicing guest) (.pumping guest)
  | unspliced (guest) : Quiet (.splicing guest) .done
  | pumpEnd (guest) : Quiet (.pumping guest) .done

/-- `step` as a relation, guards included. The moves that leave both maps
    alone are one constructor. -/
inductive Step (s : State) : State → List Event → Prop where
  | quiet {c q s'} : Phase.Quiet (s.phase c) q → s'.rooms = s.rooms → s'.pending = s.pending →
      (∀ d, s.closed d = true → s'.closed d = true) →
      s'.phase = (s.setPhase c q).phase → Step s s' []
  | opened {c code} : s.phase c = .opening → s.rooms.find? code = none →
      Step s ({ s with rooms := s.rooms.insert code ⟨c⟩ }.setPhase c (.announcing code))
        [.opened c code]
  | shut {c code} : s.phase c = .hosting code →
      Step s (({ s with rooms := s.rooms.erase code }.drop fun p => p.room = code).setPhase c .done)
        [.shut c]
  | refused {c code} (now) : s.phase c = .joining code →
      Step s ((s.purgeLocked now).setPhase c (.refusing code)) []
  | issued {c code token room} (now since) : s.phase c = .joining code →
      s.rooms.find? code = some room → (s.purgeLocked now).pending.find? token = none →
      Step s ({ s.purgeLocked now with
          pending := (s.purgeLocked now).pending.insert token ⟨c, code, since⟩ }.setPhase c
            (.notifying room.ctl token)) [.issued token c room.ctl]
  | handed {c token p} : s.phase c = .accepting token → s.pending.find? token = some p →
      Step s ({ s with pending := s.pending.erase token }.setPhase c (.splicing p.conn))
        [.handed token p.conn c]

theorem contains_eq_false {α : Type} {m : OrdMap String α} {k : String}
    (h : m.contains k = false) : m.find? k = none := by
  simpa [OrdMap.contains] using h

theorem Step.of_step {s s' : State} {l : Label} {es : List Event}
    (h : step s l = some (s', es)) : Step s s' es := by
  cases l with
  | connect c =>
    simp only [step] at h
    split at h <;> simp only [Option.some.injEq, Prod.mk.injEq, reduceCtorEq] at h
    next hp =>
      obtain ⟨rfl, rfl⟩ := h
      exact .quiet (hp ▸ .connect) rfl rfl (fun _ h => h) rfl
  | recv c r =>
    simp only [step] at h
    split at h <;> simp only [Option.some.injEq, Prod.mk.injEq, reduceCtorEq] at h
    next hp =>
      obtain ⟨rfl, rfl⟩ := h
      exact .quiet (hp ▸ .recv r) rfl rfl (fun _ h => h) rfl
  | openRoom c code =>
    simp only [step] at h
    split at h
    · next hp =>
      split at h <;> simp only [Option.some.injEq, Prod.mk.injEq, reduceCtorEq] at h
      next hc =>
        obtain ⟨rfl, rfl⟩ := h
        exact .opened hp (contains_eq_false hc.2)
    · simp at h
  | announce c =>
    simp only [step] at h
    split at h <;> simp only [Option.some.injEq, Prod.mk.injEq, reduceCtorEq] at h
    next code hp =>
      obtain ⟨rfl, rfl⟩ := h
      exact .quiet (hp ▸ .announce code) rfl rfl (fun _ h => h) rfl
  | closeRoom c =>
    simp only [step] at h
    split at h <;> simp only [Option.some.injEq, Prod.mk.injEq, reduceCtorEq] at h
    next code hp =>
      obtain ⟨rfl, rfl⟩ := h
      exact .shut hp
  | joinRoom c now since token =>
    simp only [step] at h
    split at h
    · next code hp =>
      split at h
      · simp only [Option.some.injEq, Prod.mk.injEq] at h
        obtain ⟨rfl, rfl⟩ := h
        exact .refused now hp
      · next room hr =>
        split at h <;> simp only [Option.some.injEq, Prod.mk.injEq, reduceCtorEq] at h
        next hc =>
          obtain ⟨rfl, rfl⟩ := h
          exact .issued now since hp hr (contains_eq_false hc.2)
    · simp at h
  | notify c =>
    simp only [step] at h
    split at h <;> simp only [Option.some.injEq, Prod.mk.injEq, reduceCtorEq] at h
    next ctl token hp =>
      obtain ⟨rfl, rfl⟩ := h
      exact .quiet (hp ▸ .notify ctl token) rfl rfl (fun _ h => h) rfl
  | refuse c =>
    simp only [step] at h
    split at h <;> simp only [Option.some.injEq, Prod.mk.injEq, reduceCtorEq] at h
    next code hp =>
      obtain ⟨rfl, rfl⟩ := h
      exact .quiet (hp ▸ .refuse code) rfl rfl (fun _ h => h) rfl
  | acceptGuest c =>
    simp only [step] at h
    split at h
    · next token hp =>
      split at h <;> simp only [Option.some.injEq, Prod.mk.injEq] at h <;> obtain ⟨rfl, rfl⟩ := h
      · exact .quiet (hp ▸ .miss token) rfl rfl (fun _ h => h) rfl
      · next p hf => exact .handed hp hf
    · simp at h
  | splice c ok =>
    simp only [step] at h
    split at h <;> simp only [Option.some.injEq, Prod.mk.injEq, reduceCtorEq] at h
    next guest hp =>
      obtain ⟨rfl, rfl⟩ := h
      cases ok
      · exact .quiet (hp ▸ .unspliced guest) rfl rfl (fun _ h => h) rfl
      · exact .quiet (hp ▸ .splice guest) rfl rfl (fun _ h => h) rfl
  | pumpEnd c =>
    simp only [step] at h
    split at h <;> simp only [Option.some.injEq, Prod.mk.injEq, reduceCtorEq] at h
    next guest hp =>
      obtain ⟨rfl, rfl⟩ := h
      refine .quiet (hp ▸ .pumpEnd guest) rfl rfl ?_ rfl
      intro d hd
      simp [State.close, State.setPhase, hd]

@[simp] theorem setPhase_phase (s : State) (c d : Conn) (p : Phase) :
    (s.setPhase c p).phase d = if d = c then p else s.phase d := rfl

@[simp] theorem setPhase_rooms (s : State) (c : Conn) (p : Phase) :
    (s.setPhase c p).rooms = s.rooms := rfl

@[simp] theorem setPhase_pending (s : State) (c : Conn) (p : Phase) :
    (s.setPhase c p).pending = s.pending := rfl

@[simp] theorem setPhase_closed (s : State) (c : Conn) (p : Phase) :
    (s.setPhase c p).closed = s.closed := rfl

@[simp] theorem drop_phase (s : State) (p : Pending → Bool) : (s.drop p).phase = s.phase := rfl

@[simp] theorem drop_rooms (s : State) (p : Pending → Bool) : (s.drop p).rooms = s.rooms := rfl

theorem drop_pending (s : State) (q : Pending → Bool) (t : String) (p : Pending) :
    (s.drop q).pending.find? t = some p ↔ s.pending.find? t = some p ∧ q p = false := by
  simp [State.drop, Option.filter_eq_some_iff]

theorem drop_closed {s : State} (q : Pending → Bool) {d : Conn} (h : s.closed d = true) :
    (s.drop q).closed d = true := by
  simp [State.drop, h]

/-- A guest that is dropped is closed. -/
theorem drop_kept {s : State} (q : Pending → Bool) {t : String} {p : Pending}
    (h : s.pending.find? t = some p) :
    (s.drop q).closed p.conn = true ∨ (s.drop q).pending.find? t = some p := by
  by_cases hq : q p = true
  · left
    have hmem : (t, p) ∈ s.pending.entries := OrdMap.mem_of_lookupEntry h
    simp only [State.drop, Bool.or_eq_true, List.any_eq_true, Bool.and_eq_true, decide_eq_true_eq]
    exact .inr ⟨(t, p), hmem, hq, rfl⟩
  · right
    rw [drop_pending]
    exact ⟨h, by simpa using hq⟩

/-! ## Section 3: The threads -/

theorem Phase.Quiet.hosts {p q : Phase} (h : Quiet p q) (code : String) :
    q.Hosts code ↔ p.Hosts code := by
  cases h with
  | recv r => cases r <;> simp [Phase.Hosts, Request.phase]
  | _ => simp [Phase.Hosts]

/-- A thread that has joined or ended moves only to its end. -/
theorem Phase.Quiet.spent {p q : Phase} (h : Quiet p q) (hp : p.Spent) : q = .done := by
  rcases hp with rfl | ⟨ctl, token, rfl⟩
  · cases h
  · cases h
    rfl

theorem Step.phase_spent {s s' : State} {es : List Event} (h : Step s s' es) {d : Conn}
    (hd : (s.phase d).Spent) : (s'.phase d).Spent ∧ (s.phase d = .done → s'.phase d = .done) := by
  -- the thread that moves is not `d`, or it goes from `notifying` to `done`
  have hmove : ∀ {c q}, s'.phase d = (if d = c then q else s.phase d) →
      ((s.phase c).Spent → q = .done) →
      (s'.phase d).Spent ∧ (s.phase d = .done → s'.phase d = .done) := by
    intro c q hphase hq
    rw [hphase]
    split
    · next hdc =>
      obtain rfl := hq (hdc ▸ hd)
      exact ⟨.inl rfl, fun _ => rfl⟩
    · exact ⟨hd, fun h => h⟩
  cases h with
  | @quiet c q _ hq _ _ _ hphase => exact hmove (congrFun hphase d) hq.spent
  | opened hc _ => exact hmove rfl (by rw [hc]; simp [Phase.Spent])
  | shut hc => exact hmove rfl (fun _ => rfl)
  | refused now hc => exact hmove rfl (by rw [hc]; simp [Phase.Spent])
  | issued now since hc _ _ => exact hmove rfl (by rw [hc]; simp [Phase.Spent])
  | handed hc _ => exact hmove rfl (by rw [hc]; simp [Phase.Spent])

/-- The room map says which threads host. -/
def RoomsOk (s : State) : Prop :=
  ∀ code r, s.rooms.find? code = some r ↔ (s.phase r.ctl).Hosts code

/-- A move of one thread that hosts nothing before or after leaves the map
    right. -/
theorem RoomsOk.move {s s' : State} (h : RoomsOk s) (hrooms : s'.rooms = s.rooms) {c : Conn}
    {q : Phase} (hphase : s'.phase = (s.setPhase c q).phase)
    (hq : ∀ code, q.Hosts code ↔ (s.phase c).Hosts code) : RoomsOk s' := by
  intro code r
  rw [hrooms, h code r, hphase, setPhase_phase]
  split
  · next hrc => rw [hq code, hrc]
  · rfl

theorem Step.roomsOk {s s' : State} {es : List Event} (hs : Step s s' es) (h : RoomsOk s) :
    RoomsOk s' := by
  cases hs with
  | quiet hq hrooms _ _ hphase => exact h.move hrooms hphase hq.hosts
  | @opened c code hc hnone =>
    intro code' r
    rw [setPhase_rooms, OrdMap.find?_insert, setPhase_phase]
    by_cases hcode : code' = code <;> by_cases hrc : r.ctl = c
    · subst hcode
      obtain ⟨ctl⟩ := r
      simp only [show ctl = c from hrc, if_pos, Phase.Hosts, true_or]
    · -- another thread cannot host the new code: it was free
      have hno := (h code r).not.mp (by simp [hnone])
      rw [if_pos hcode, if_neg hrc, hcode]
      refine iff_of_false (fun heq => hrc ?_) hno
      rw [← Option.some.inj heq]
    · have hno := (h code' r).not.mpr (by rw [hrc, hc]; simp [Phase.Hosts])
      rw [if_neg hcode, if_pos hrc]
      refine iff_of_false hno ?_
      simp [Phase.Hosts, Ne.symm hcode]
    · rw [if_neg hcode, if_neg hrc]
      exact h code' r
  | @shut c code hc =>
    have hroom : s.rooms.find? code = some ⟨c⟩ := (h code ⟨c⟩).mpr (.inr hc)
    intro code' r
    rw [setPhase_rooms, drop_rooms, OrdMap.find?_erase, setPhase_phase]
    by_cases hcode : code' = code <;> by_cases hrc : r.ctl = c
    · rw [if_pos hcode, if_pos hrc]
      simp [Phase.Hosts]
    · -- the room that is erased was the only one with its code
      rw [if_pos hcode, if_neg hrc, hcode]
      refine iff_of_false (by simp) fun hh => hrc ?_
      have := (h code r).mpr hh
      rw [hroom] at this
      rw [← Option.some.inj this]
    · have hno := (h code' r).not.mpr (by rw [hrc, hc]; simp [Phase.Hosts, Ne.symm hcode])
      rw [if_neg hcode, if_pos hrc]
      exact iff_of_false hno (by simp [Phase.Hosts])
    · rw [if_neg hcode, if_neg hrc]
      exact h code' r
  | refused now hc => exact h.move rfl rfl (by intro code; rw [hc]; simp [Phase.Hosts])
  | issued now since hc _ _ => exact h.move rfl rfl (by intro code; rw [hc]; simp [Phase.Hosts])
  | handed hc _ => exact h.move rfl rfl (by intro code; rw [hc]; simp [Phase.Hosts])

/-! ## Section 4: The tokens -/

/-- How the pending guests, the rooms and the history fit together. -/
structure TokensOk (s : State) (h : List Event) : Prop where
  /-- A guest waits for the room it joined, and that room is open. -/
  pend : ∀ t p, s.pending.find? t = some p →
    ∃ r, s.rooms.find? p.room = some r ∧ Event.issued t p.conn r.ctl ∈ h
  /-- A guest joins once. -/
  spent : ∀ t g host, Event.issued t g host ∈ h → (s.phase g).Spent
  once : ∀ t g a t' b, Event.issued t g a ∈ h → Event.issued t' g b ∈ h → t = t' ∧ a = b
  /-- A guest that was handed over does not wait any more. -/
  taken : ∀ t g a, Event.handed t g a ∈ h → ∃ host, Event.issued t g host ∈ h
  gone : ∀ t g a, Event.handed t g a ∈ h →
    ∀ t' p, s.pending.find? t' = some p → p.conn ≠ g
  shut : ∀ host, Event.shut host ∈ h → s.phase host = .done
  /-- No guest is lost: its token is never given to another while it waits. -/
  kept : ∀ t g host, Event.issued t g host ∈ h →
    s.closed g = true ∨ (∃ a, Event.handed t g a ∈ h) ∨
      ∃ p, s.pending.find? t = some p ∧ p.conn = g

/-- The token a guest waits under is its only one. -/
theorem TokensOk.token_unique {s : State} {h : List Event} (ht : TokensOk s h) {t t' : String}
    {p p' : Pending} (hp : s.pending.find? t = some p) (hp' : s.pending.find? t' = some p')
    (hconn : p.conn = p'.conn) : t = t' := by
  obtain ⟨r, -, hi⟩ := ht.pend t p hp
  obtain ⟨r', -, hi'⟩ := ht.pend t' p' hp'
  rw [hconn] at hi
  exact (ht.once _ _ _ _ _ hi hi').1

/-- A step that changes neither the rooms nor the history: guests may only
    leave by being closed. -/
theorem TokensOk.shrink {s s' : State} {h : List Event} (ht : TokensOk s h)
    (hrooms : s'.rooms = s.rooms)
    (hphase : ∀ d, (s.phase d).Spent →
      (s'.phase d).Spent ∧ (s.phase d = .done → s'.phase d = .done))
    (hclosed : ∀ d, s.closed d = true → s'.closed d = true)
    (hsub : ∀ t p, s'.pending.find? t = some p → s.pending.find? t = some p)
    (hkept : ∀ t p, s.pending.find? t = some p →
      s'.closed p.conn = true ∨ s'.pending.find? t = some p) : TokensOk s' h where
  pend := by
    intro t p hp
    rw [hrooms]
    exact ht.pend t p (hsub t p hp)
  spent := fun t g host hi => (hphase g (ht.spent t g host hi)).1
  once := ht.once
  taken := ht.taken
  gone := fun t g a hh t' p hp => ht.gone t g a hh t' p (hsub t' p hp)
  shut := fun host hs => (hphase host (.inl (ht.shut host hs))).2 (ht.shut host hs)
  kept := by
    intro t g host hi
    rcases ht.kept t g host hi with hc | hh | ⟨p, hp, rfl⟩
    · exact .inl (hclosed g hc)
    · exact .inr (.inl hh)
    · rcases hkept t p hp with hc | hp'
      · exact .inl hc
      · exact .inr (.inr ⟨p, hp', rfl⟩)

theorem TokensOk.opened {s : State} {h : List Event} (ht : TokensOk s h) {c : Conn} {code : String}
    (hc : s.phase c = .opening) (hnone : s.rooms.find? code = none) :
    TokensOk ({ s with rooms := s.rooms.insert code ⟨c⟩ }.setPhase c (.announcing code))
      (.opened c code :: h) := by
  have hphase := @Step.phase_spent _ _ _ (Step.opened hc hnone)
  refine ⟨?_, ?_, ?_, ?_, ?_, ?_, ?_⟩
  · intro t p hp
    obtain ⟨r, hr, hi⟩ := ht.pend t p hp
    refine ⟨r, ?_, List.mem_cons_of_mem _ hi⟩
    -- the room a guest waits for was there, so it is not the new one
    rw [setPhase_rooms, OrdMap.find?_insert, if_neg, hr]
    rintro rfl
    simp [hnone] at hr
  · intro t g host hi
    exact (hphase (ht.spent t g host (by simpa using hi))).1
  · intro t g a t' b hi hi'
    exact ht.once t g a t' b (by simpa using hi) (by simpa using hi')
  · intro t g a hh
    obtain ⟨host, hi⟩ := ht.taken t g a (by simpa using hh)
    exact ⟨host, List.mem_cons_of_mem _ hi⟩
  · intro t g a hh
    exact ht.gone t g a (by simpa using hh)
  · intro host hs
    have hdone := ht.shut host (by simpa using hs)
    exact (hphase (.inl hdone)).2 hdone
  · intro t g host hi
    rcases ht.kept t g host (by simpa using hi) with hcl | ⟨a, hh⟩ | hp
    · exact .inl hcl
    · exact .inr (.inl ⟨a, List.mem_cons_of_mem _ hh⟩)
    · exact .inr (.inr hp)

theorem TokensOk.shutRoom {s : State} {h : List Event} (ht : TokensOk s h) {c : Conn}
    {code : String} (hc : s.phase c = .hosting code) :
    TokensOk
      (({ s with rooms := s.rooms.erase code }.drop fun p => p.room = code).setPhase c .done)
      (.shut c :: h) := by
  have hphase := @Step.phase_spent _ _ _ (Step.shut hc)
  refine ⟨?_, ?_, ?_, ?_, ?_, ?_, ?_⟩
  · intro t p hp
    rw [setPhase_pending, drop_pending] at hp
    obtain ⟨r, hr, hi⟩ := ht.pend t p hp.1
    refine ⟨r, ?_, List.mem_cons_of_mem _ hi⟩
    -- a guest that stays waits for another room
    rw [setPhase_rooms, drop_rooms, OrdMap.find?_erase, if_neg, hr]
    simpa using hp.2
  · intro t g host hi
    exact (hphase (ht.spent t g host (by simpa using hi))).1
  · intro t g a t' b hi hi'
    exact ht.once t g a t' b (by simpa using hi) (by simpa using hi')
  · intro t g a hh
    obtain ⟨host, hi⟩ := ht.taken t g a (by simpa using hh)
    exact ⟨host, List.mem_cons_of_mem _ hi⟩
  · intro t g a hh t' p hp
    rw [setPhase_pending, drop_pending] at hp
    exact ht.gone t g a (by simpa using hh) t' p hp.1
  · intro host hs
    rcases List.mem_cons.mp hs with heq | hs
    · obtain rfl : host = c := by simpa using heq
      simp
    · have hdone := ht.shut host hs
      exact (hphase (.inl hdone)).2 hdone
  · intro t g host hi
    rcases ht.kept t g host (by simpa using hi) with hcl | ⟨a, hh⟩ | ⟨p, hp, rfl⟩
    · exact .inl (drop_closed (s := { s with rooms := s.rooms.erase code })
        (fun p => p.room = code) hcl)
    · exact .inr (.inl ⟨a, List.mem_cons_of_mem _ hh⟩)
    · rcases drop_kept (s := { s with rooms := s.rooms.erase code }) (fun p => p.room = code) hp
        with hcl | hp
      · exact .inl hcl
      · exact .inr (.inr ⟨p, hp, rfl⟩)

theorem TokensOk.issue {s : State} {h : List Event} (ht : TokensOk s h) {c : Conn}
    {code token : String} {room : Room} {since : Int} (hc : s.phase c = .joining code)
    (hroom : s.rooms.find? code = some room) (hfree : s.pending.find? token = none) :
    TokensOk ({ s with pending := s.pending.insert token ⟨c, code, since⟩ }.setPhase c
        (.notifying room.ctl token)) (.issued token c room.ctl :: h) := by
  -- the guest has never joined
  have hnew : ∀ t host, Event.issued t c host ∉ h := by
    intro t host hi
    have := ht.spent t c host hi
    rw [hc] at this
    simp [Phase.Spent] at this
  have hspent : ∀ d, (s.phase d).Spent → d ≠ c := by
    rintro d hd rfl
    rw [hc] at hd
    simp [Phase.Spent] at hd
  refine ⟨?_, ?_, ?_, ?_, ?_, ?_, ?_⟩
  · intro t p hp
    rw [setPhase_pending, OrdMap.find?_insert] at hp
    split at hp
    · next heq =>
      obtain rfl := Option.some.inj hp
      exact ⟨room, hroom, by simp [heq]⟩
    · obtain ⟨r, hr, hi⟩ := ht.pend t p hp
      exact ⟨r, hr, List.mem_cons_of_mem _ hi⟩
  · intro t g host hi
    rw [setPhase_phase]
    split
    · exact .inr ⟨_, _, rfl⟩
    · next hgc =>
      refine ht.spent t g host ?_
      simpa [hgc] using hi
  · intro t g a t' b hi hi'
    rcases List.mem_cons.mp hi with heq | hi <;> rcases List.mem_cons.mp hi' with heq' | hi'
    · cases heq
      cases heq'
      exact ⟨rfl, rfl⟩
    · cases heq
      exact absurd hi' (hnew _ _)
    · cases heq'
      exact absurd hi (hnew _ _)
    · exact ht.once t g a t' b hi hi'
  · intro t g a hh
    obtain ⟨host, hi⟩ := ht.taken t g a (by simpa using hh)
    exact ⟨host, List.mem_cons_of_mem _ hi⟩
  · intro t g a hh t' p hp
    have hh : Event.handed t g a ∈ h := by simpa using hh
    rw [setPhase_pending, OrdMap.find?_insert] at hp
    split at hp
    · obtain rfl := Option.some.inj hp
      obtain ⟨host, hi⟩ := ht.taken t g a hh
      rintro rfl
      exact hnew _ _ hi
    · exact ht.gone t g a hh t' p hp
  · intro host hs
    have hdone := ht.shut host (by simpa using hs)
    rw [setPhase_phase, if_neg (hspent host (.inl hdone)), ← hdone]
  · intro t g host hi
    rcases List.mem_cons.mp hi with heq | hi
    · cases heq
      exact .inr (.inr ⟨⟨c, code, since⟩, by simp, rfl⟩)
    · rcases ht.kept t g host hi with hcl | ⟨a, hh⟩ | ⟨p, hp, rfl⟩
      · exact .inl hcl
      · exact .inr (.inl ⟨a, List.mem_cons_of_mem _ hh⟩)
      · -- a token in use is not drawn again
        refine .inr (.inr ⟨p, ?_, rfl⟩)
        rw [setPhase_pending, OrdMap.find?_insert, if_neg, hp]
        rintro rfl
        simp [hfree] at hp

theorem TokensOk.hand {s : State} {h : List Event} (ht : TokensOk s h) {c : Conn}
    {token : String} {p : Pending} (hc : s.phase c = .accepting token)
    (hp : s.pending.find? token = some p) :
    TokensOk ({ s with pending := s.pending.erase token }.setPhase c (.splicing p.conn))
      (.handed token p.conn c :: h) := by
  have hphase := @Step.phase_spent _ _ _ (Step.handed hc hp)
  have hsub : ∀ t q, (s.pending.erase token).find? t = some q →
      t ≠ token ∧ s.pending.find? t = some q := by
    intro t q hq
    rw [OrdMap.find?_erase] at hq
    split at hq
    · simp at hq
    · next hne => exact ⟨hne, hq⟩
  refine ⟨?_, ?_, ?_, ?_, ?_, ?_, ?_⟩
  · intro t q hq
    obtain ⟨r, hr, hi⟩ := ht.pend t q (hsub t q hq).2
    exact ⟨r, hr, List.mem_cons_of_mem _ hi⟩
  · intro t g host hi
    exact (hphase (ht.spent t g host (by simpa using hi))).1
  · intro t g a t' b hi hi'
    exact ht.once t g a t' b (by simpa using hi) (by simpa using hi')
  · intro t g a hh
    rcases List.mem_cons.mp hh with heq | hh
    · cases heq
      obtain ⟨r, -, hi⟩ := ht.pend token p hp
      exact ⟨r.ctl, List.mem_cons_of_mem _ hi⟩
    · obtain ⟨host, hi⟩ := ht.taken t g a hh
      exact ⟨host, List.mem_cons_of_mem _ hi⟩
  · intro t g a hh t' q hq hconn
    obtain ⟨hne, hq⟩ := hsub t' q hq
    rcases List.mem_cons.mp hh with heq | hh
    · cases heq
      exact hne (ht.token_unique hq hp hconn)
    · exact ht.gone t g a hh t' q hq hconn
  · intro host hs
    have hdone := ht.shut host (by simpa using hs)
    exact (hphase (.inl hdone)).2 hdone
  · intro t g host hi
    rcases ht.kept t g host (by simpa using hi) with hcl | ⟨a, hh⟩ | ⟨q, hq, rfl⟩
    · exact .inl hcl
    · exact .inr (.inl ⟨a, List.mem_cons_of_mem _ hh⟩)
    · by_cases htok : t = token
      · -- this is the guest that goes
        subst htok
        rw [hp] at hq
        obtain rfl := Option.some.inj hq
        exact .inr (.inl ⟨c, List.mem_cons_self⟩)
      · refine .inr (.inr ⟨q, ?_, rfl⟩)
        rw [setPhase_pending, OrdMap.find?_erase, if_neg htok, hq]

theorem TokensOk.purge {s : State} {h : List Event} (ht : TokensOk s h) (now : Int) :
    TokensOk (s.purgeLocked now) h :=
  ht.shrink rfl (fun _ hd => ⟨hd, fun h => h⟩) (fun _ => drop_closed _)
    (fun _ _ hp => ((drop_pending ..).mp hp).1) (fun _ _ => drop_kept _)

theorem Step.tokensOk {s s' : State} {es : List Event} (hs : Step s s' es) {h : List Event}
    (ht : TokensOk s h) : TokensOk s' (es ++ h) := by
  have hphase := @hs.phase_spent
  cases hs with
  | quiet _ hrooms hpending hclosed _ =>
    exact ht.shrink hrooms @hphase hclosed (fun _ _ hp => hpending ▸ hp)
      (fun _ _ hp => .inr (hpending ▸ hp))
  | opened hc hnone => exact ht.opened hc hnone
  | shut hc => exact ht.shutRoom hc
  | refused now hc =>
    exact (ht.purge now).shrink rfl @hphase (fun _ h => h) (fun _ _ h => h) (fun _ _ h => .inr h)
  | issued now since hc hroom hfree => exact (ht.purge now).issue hc hroom hfree
  | handed hc hp => exact ht.hand hc hp

/-! ## Section 5: The history -/

/-- The guest that was handed over. -/
def Event.taken : Event → Option Conn
  | .handed _ g _ => some g
  | _ => none

def Event.hands (t : String) : Event → Bool
  | .handed t' _ _ => t' = t
  | _ => false

def Event.issues (t : String) : Event → Bool
  | .issued t' _ _ => t' = t
  | _ => false

/-- One while some guest waits under `t`. -/
def waits (s : State) (t : String) : Nat := if s.pending.contains t then 1 else 0

/-- No guest of a room is handed over after the room has closed. -/
def ShutFinal (h : List Event) : Prop :=
  ∀ late early host, h = late ++ .shut host :: early →
    ∀ t g, Event.issued t g host ∈ h → ∀ t' a, Event.handed t' g a ∉ late

structure Inv (w : World) : Prop where
  rooms : RoomsOk w.1
  tokens : TokensOk w.1 w.2
  /-- A guest is handed over once. -/
  once : (w.2.filterMap Event.taken).Nodup
  /-- A token is handed over at most as often as it is issued. -/
  count : ∀ t, w.2.countP (Event.hands t) + waits w.1 t ≤ w.2.countP (Event.issues t)
  final : ShutFinal w.2

theorem Inv.init : Inv (init, []) where
  rooms := by
    intro code r
    simp [Relay.init, Phase.Hosts]
  tokens := by
    refine ⟨?_, ?_, ?_, ?_, ?_, ?_, ?_⟩ <;> simp [Relay.init]
  once := by simp
  count := by
    intro t
    simp [Relay.init, waits, OrdMap.contains]
  final := by
    intro late early host h
    simp at h

/-- A closed room is not in the map, under any code. -/
theorem Inv.shut_gone {w : World} (hw : Inv w) {host : Conn} (hs : Event.shut host ∈ w.2)
    (code : String) (r : Room) (hr : w.1.rooms.find? code = some r) : r.ctl ≠ host := by
  rintro rfl
  have hhost := (hw.rooms code r).mp hr
  rw [hw.tokens.shut _ hs] at hhost
  simp [Phase.Hosts] at hhost

/-- The guests of a closed room do not wait. -/
theorem Inv.shut_not_pending {w : World} (hw : Inv w) {host g : Conn} {t : String}
    (hs : Event.shut host ∈ w.2) (hi : Event.issued t g host ∈ w.2) (t' : String) (p : Pending)
    (hp : w.1.pending.find? t' = some p) : p.conn ≠ g := by
  rintro rfl
  obtain ⟨r, hr, hi'⟩ := hw.tokens.pend t' p hp
  exact hw.shut_gone hs _ r hr (hw.tokens.once _ _ _ _ _ hi' hi).2

theorem waits_of_sub {s s' : State} {t : String}
    (h : ∀ p, s'.pending.find? t = some p → s.pending.find? t = some p) : waits s' t ≤ waits s t := by
  unfold waits
  cases hs' : s'.pending.find? t with
  | none => simp [OrdMap.contains, hs']
  | some p => simp [OrdMap.contains, hs', h p hs']

theorem waits_drop (s : State) (q : Pending → Bool) (t : String) :
    waits (s.drop q) t ≤ waits s t :=
  waits_of_sub fun _ hp => ((drop_pending ..).mp hp).1

theorem Step.count_le {s s' : State} {es : List Event} (hs : Step s s' es) (t : String) :
    es.countP (Event.hands t) + waits s' t ≤ es.countP (Event.issues t) + waits s t := by
  cases hs with
  | quiet _ _ hpending _ _ => simp [waits, hpending]
  | opened _ _ => simp [Event.hands, waits]
  | @shut c code _ => exact Nat.add_le_add_left (waits_drop s (fun p => p.room = code) t) 0
  | refused now _ => exact Nat.add_le_add_left (waits_drop s _ t) 0
  | @issued c code token room now since _ _ _ =>
    have hle := waits_drop s (fun p => now - p.since > kPending) t
    simp only [List.countP_singleton, Event.hands, Event.issues]
    by_cases htok : token = t
    · simp [waits, htok, OrdMap.contains]
    · simpa [waits, htok, Ne.symm htok, OrdMap.contains, State.purgeLocked] using hle
  | @handed c token p _ hp =>
    simp only [List.countP_singleton, Event.hands, Event.issues]
    by_cases htok : token = t
    · subst htok
      simp [waits, OrdMap.contains, hp]
    · have hsame : (s.pending.erase token).contains t = s.pending.contains t := by
        simp [OrdMap.contains, Ne.symm htok]
      simp [waits, htok, hsame]

theorem Inv.shutFinal_step {w : World} (hw : Inv w) {s' : State} {es : List Event}
    (hs : Step w.1 s' es) : ShutFinal (es ++ w.2) := by
  have hold := hw.final
  -- an event in front of the history, with the closing further back
  have hcons : ∀ e, es = [e] →
      (∀ host t g, Event.shut host ∈ w.2 → e = Event.issued t g host → False) →
      (∀ host t g t' a, Event.shut host ∈ w.2 → Event.issued t g host ∈ w.2 →
        e = Event.handed t' g a → False) → ShutFinal (es ++ w.2) := by
    rintro e rfl hissue hhand late early host heq t g hi t' a hh
    cases late with
    | nil => simp at hh
    | cons e' late =>
      obtain ⟨rfl, hrest⟩ := List.cons.inj (show e :: w.2 = e' :: (late ++ _) from heq)
      have hshut : Event.shut host ∈ w.2 := by simp [hrest]
      rcases List.mem_cons.mp hi with hi | hi
      · exact hissue host t g hshut hi.symm
      · rcases List.mem_cons.mp hh with hh | hh
        · exact hhand host t g t' a hshut hi hh.symm
        · exact hold late early host hrest t g hi t' a hh
  cases hs with
  | quiet => exact hold
  | refused => exact hold
  | opened => exact hcons _ rfl (by simp) (by simp)
  | shut => exact hcons _ rfl (by simp) (by simp)
  | issued now since _ hroom _ =>
    refine hcons _ rfl ?_ (by simp)
    intro host t g hshut he
    cases he
    exact hw.shut_gone hshut _ _ hroom rfl
  | handed _ hp =>
    refine hcons _ rfl (by simp) ?_
    intro host t g t' a hshut hi he
    cases he
    exact hw.shut_not_pending hshut hi _ _ hp rfl

theorem Inv.step {w w' : World} {l : Label} (hw : Inv w) (hstep : relay.step w l w') : Inv w' := by
  obtain ⟨es, hs, hh⟩ := hstep
  obtain ⟨s', h'⟩ := w'
  obtain rfl : h' = es ++ w.2 := hh
  have hs := Step.of_step hs
  refine ⟨hs.roomsOk hw.rooms, hs.tokensOk hw.tokens, ?_, ?_, hw.shutFinal_step hs⟩
  · show ((es ++ w.2).filterMap Event.taken).Nodup
    have honce := hw.once
    cases hs with
    | handed _ hp =>
      -- the guest was waiting, so it had not been handed over
      refine List.nodup_cons.mpr ⟨?_, honce⟩
      intro hmem
      obtain ⟨e, he, htaken⟩ := List.mem_filterMap.mp hmem
      cases e with
      | handed t g a =>
        obtain rfl := Option.some.inj htaken
        exact hw.tokens.gone t _ a he _ _ hp rfl
      | _ => simp [Event.taken] at htaken
    | _ => exact honce
  · intro t
    have hnew : _ + waits s' t ≤ _ + waits w.1 t := hs.count_le t
    have hold := hw.count t
    rw [List.countP_append, List.countP_append]
    show _ + waits s' t ≤ _
    omega

theorem reachable_inv {w : World} (h : relay.Reachable w) : Inv w :=
  h.invariant Inv (by rintro w rfl; exact .init) fun _ _ _ _ hw hs => hw.step hs

/-- **Rooms and tokens.** In every interleaving of the handlers: a guest waits
    only for an open room; live rooms have different codes and waiting guests
    different tokens, and neither is ever taken from its owner; a token is
    handed over at most once for each time it is issued, each guest to one
    connection; and once a room has closed, its guests neither wait nor are
    handed over. -/
theorem rooms_and_tokens {w : World} (h : relay.Reachable w) :
    (∀ t p, w.1.pending.find? t = some p → ∃ r, w.1.rooms.find? p.room = some r) ∧
    (∀ code c d, (w.1.phase c).Hosts code → (w.1.phase d).Hosts code → c = d) ∧
    (∀ t t' p p', w.1.pending.find? t = some p → w.1.pending.find? t' = some p' →
      p.conn = p'.conn → t = t') ∧
    (∀ t g host, Event.issued t g host ∈ w.2 →
      w.1.closed g = true ∨ (∃ a, Event.handed t g a ∈ w.2) ∨
        ∃ p, w.1.pending.find? t = some p ∧ p.conn = g) ∧
    (∀ t, w.2.countP (Event.hands t) ≤ w.2.countP (Event.issues t)) ∧
    (w.2.filterMap Event.taken).Nodup ∧
    (∀ host t g, Event.shut host ∈ w.2 → Event.issued t g host ∈ w.2 →
      ∀ t' p, w.1.pending.find? t' = some p → p.conn ≠ g) ∧
    ShutFinal w.2 := by
  have hw := reachable_inv h
  refine ⟨?_, ?_, ?_, hw.tokens.kept, ?_, hw.once, ?_, hw.final⟩
  · intro t p hp
    obtain ⟨r, hr, -⟩ := hw.tokens.pend t p hp
    exact ⟨r, hr⟩
  · intro code c d hc hd
    have hc := (hw.rooms code ⟨c⟩).mpr hc
    rw [(hw.rooms code ⟨d⟩).mpr hd] at hc
    exact (Room.mk.inj (Option.some.inj hc)).symm
  · intro t t' p p' hp hp' hconn
    exact hw.tokens.token_unique hp hp' hconn
  · intro t
    exact (Nat.le_add_right ..).trans (hw.count t)
  · intro host t g hs hi t' p hp
    exact hw.shut_not_pending hs hi t' p hp

/-- Run a list of labels. -/
def exec (w : World) : List Label → Option World
  | [] => some w
  | l :: ls => (step w.1 l).bind fun r => exec (r.1, r.2 ++ w.2) ls

theorem exec_reachable {w w' : World} {ls : List Label} (hw : relay.Reachable w)
    (h : exec w ls = some w') : relay.Reachable w' := by
  induction ls generalizing w with
  | nil =>
    obtain rfl : w = w' := Option.some.inj h
    exact hw
  | cons l ls ih =>
    obtain ⟨⟨s, es⟩, hs, hrest⟩ := Option.bind_eq_some_iff.mp h
    exact ih (hw.step ⟨es, hs, rfl⟩) hrest

/-- A host, two guests: one is handed over, the other still waits when the
    room closes, before the host has been told of it. -/
def closing : List Label :=
  [.connect 0, .recv 0 .open, .openRoom 0 "ABCDEF", .announce 0,
    .connect 1, .recv 1 (.join "ABCDEF"), .joinRoom 1 0 0 "ABCDEFGHJKMNPQRS", .notify 1,
    .connect 2, .recv 2 (.join "ABCDEF"), .joinRoom 2 5 6 "BBCDEFGHJKMNPQRS",
    .connect 3, .recv 3 (.accept "ABCDEFGHJKMNPQRS"), .acceptGuest 3,
    .closeRoom 0, .notify 2]

theorem rooms_and_tokens_closing :
    ∃ w, relay.Reachable w ∧ Event.shut 0 ∈ w.2 ∧
      Event.issued "BBCDEFGHJKMNPQRS" 2 0 ∈ w.2 ∧
      (w.2.filterMap Event.taken).Nodup ∧
      ∀ t p, w.1.pending.find? t = some p → p.conn ≠ 2 := by
  obtain ⟨w, hw, hs, hi⟩ : ∃ w, exec (init, []) closing = some w ∧ Event.shut 0 ∈ w.2 ∧
      Event.issued "BBCDEFGHJKMNPQRS" 2 0 ∈ w.2 := by
    have h : (exec (init, []) closing).map Prod.snd = some
        [.shut 0, .handed "ABCDEFGHJKMNPQRS" 1 3, .issued "BBCDEFGHJKMNPQRS" 2 0,
          .issued "ABCDEFGHJKMNPQRS" 1 0, .opened 0 "ABCDEF"] := by decide
    obtain ⟨w, hw, hh⟩ := Option.map_eq_some_iff.mp h
    exact ⟨w, hw, by simp [hh], by simp [hh]⟩
  have hr : relay.Reachable w := exec_reachable (.of_init rfl) hw
  obtain ⟨-, -, -, -, -, honce, hgone, -⟩ := rooms_and_tokens hr
  exact ⟨w, hr, hs, hi, honce, hgone 0 _ 2 hs hi⟩

end Relay
