import Kestrel64.Savestate.Format

/-! # Rewind: the Session

    The tape and the machine together: `serviceStateReq` of `core/system.cpp`
    loads states and steps back, `onField` takes snapshots of the machine as it
    runs.

    The tape holds bytes. The abstract model is the list of the machines that
    the snapshots were taken of, newest first. `rewind_resumes` says that a
    step back puts one of these machines back, in every session.

    A session is one run of the emulator with one cartridge: the guest changes
    every field, but not the sizes of the memories. `KESTREL_REWIND_RTT`, which
    loads each snapshot as soon as it is taken, is not set.
-/

namespace Rewind

open LTS Patch Savestate

/-! ## Section 1: Steps of a session -/

structure Session where
  machine : Machine
  tape : Tape
  /-- The machines of the snapshots, newest first. -/
  past : List Machine

namespace Session

/-- A new session. -/
def start (m : Machine) : Session := ⟨m, ⟨Engine.start, []⟩, []⟩

/-- `Engine::stepBack` on the machine. -/
def stepBack (s : Session) : Except String Session :=
  match s.tape.engine.stepBack fun data => (restoreState s.machine data).map fun _ => () with
  | .error err => .error err
  | .ok e =>
    match restoreState s.machine e.cur with
    | .error err => .error err
    | .ok m => .ok ⟨m, ⟨e, s.tape.history.tail⟩, s.past.tail⟩

/-- The loop of `serviceStateReq`: the steps that were done, and the session. -/
def rewind : Nat → Session → Nat × Session
  | 0, s => (0, s)
  | n + 1, s =>
    match s.stepBack with
    | .error _ => (0, s)
    | .ok s' => ((rewind n s').1 + 1, (rewind n s').2)

inductive Label where
  /-- The guest runs, and leaves the machine `m`. -/
  | run (m : Machine)
  /-- A video field closes: `onField`. -/
  | field
  /-- `n` steps back are asked for. -/
  | rewind (n : Nat)
  /-- A state is loaded from a file; one that is refused leaves `m`. -/
  | load (data : Bytes) (m : Machine)
  | configure (on : Bool) (mb fields : Nat)

def step (hot : Bool) (s : Session) : Label → Session
  | .run m => { s with machine := m }
  | .field =>
    { s with
      tape := s.tape.call hot (.onField (pieces s.machine))
      past := if s.tape.engine.due then s.machine :: s.past else s.past }
  | .rewind n => (s.rewind n).2
  | .load data m =>
    match restoreState s.machine data with
    | .error _ => { s with machine := m }
    | .ok m' => ⟨m', s.tape.call hot .clear, []⟩
  | .configure on mb fields => { s with tape := s.tape.call hot (.configure on mb fields), past := [] }

end Session

/-- The sessions that begin with the machine `m`. -/
def session (hot : Bool) (m : Machine) : System Session Session.Label :=
  .ofFun (Session.start m) (Session.step hot)

/-- The same cartridge, and memories of the same sizes. -/
structure Alike (m m' : Machine) : Prop where
  crc1 : m.crc1 = m'.crc1
  crc2 : m.crc2 = m'.crc2
  sizes : sizes m = sizes m'

/-- The machine stays the same one, and a snapshot is below 2 GB. -/
def Session.Good (s : Session) : Session.Label → Prop
  | .run m => Alike m s.machine
  | .field => (Savestate.captureState s.machine).length < 2 ^ 31
  | .load _ m => Alike m s.machine
  | _ => True

/-! ## Section 2: One step -/

theorem Alike.refl (m : Machine) : Alike m m := ⟨rfl, rfl, rfl⟩

theorem Alike.symm {m m' : Machine} (h : Alike m m') : Alike m' m :=
  ⟨h.crc1.symm, h.crc2.symm, h.sizes.symm⟩

theorem Alike.trans {m m' m'' : Machine} (h : Alike m m') (h' : Alike m' m'') : Alike m m'' :=
  ⟨h.crc1.trans h'.crc1, h.crc2.trans h'.crc2, h.sizes.trans h'.sizes⟩

/-- The state of a machine like this one can be loaded. -/
theorem Alike.restoreState {m₀ m : Machine} (h : Alike m m₀) :
    restoreState m₀ (Savestate.captureState m) = .ok (loaded m₀ m) := by
  have hlen : ¬ (Savestate.captureState m).length < Header.size := by
    rw [captureState_eq, List.length_append, Header.length_bytes]
    omega
  have hcrc : ¬ (m.crc1 ≠ m₀.crc1 ∨ m.crc2 ≠ m₀.crc2) :=
    not_or.mpr ⟨not_not.mpr h.crc1, not_not.mpr h.crc2⟩
  have hsize : (m.val (.ram .rdram)).1.length = (m₀.val (.ram .rdram)).1.length :=
    (List.cons.inj h.sizes).1
  have htake := restoreState_take m₀ m (Savestate.captureState m).length
  rw [List.take_length, if_neg hlen, if_neg hcrc, if_neg (not_not.mpr hsize),
    if_pos ⟨Nat.le_refl _, h.sizes⟩] at htake
  exact htake

/-- The tape is well, and holds the machines of the past. -/
structure SessionInv (s : Session) : Prop where
  tape : TapeInv s.tape
  history : s.tape.history = s.past.map Savestate.captureState
  alike : ∀ m ∈ s.past, Alike m s.machine

/-- The RAMs of the Game Boy cartridges have the same sizes. -/
def SameCarts (m m' : Machine) : Prop :=
  ∀ p, (m.val (.port p .ram)).1.length = (m'.val (.port p .ram)).1.length

/-- The memories are those of the state. -/
theorem loaded_ram (m₀ m : Machine) (r : RamField) :
    (loaded m₀ m).val (.ram r) = m.val (.ram r) := by
  refine (resumed_loaded m₀ m).copied (.ram r) ?_ ?_ ?_
  · cases r <;> trivial
  · intro h
    cases h
  · intro h
    cases h

theorem loaded_alike {m₀ m : Machine} (h : Alike m m₀) : Alike (loaded m₀ m) m₀ where
  crc1 := rfl
  crc2 := rfl
  sizes := by
    rw [← h.sizes]
    simp only [Savestate.sizes, loaded_ram]

theorem loaded_sameCarts (m₀ m : Machine) : SameCarts (loaded m₀ m) m₀ := by
  intro p
  rw [(resumed_loaded m₀ m).gbRam p]
  split_ifs with h
  · exact h
  · rfl

/-- Nothing to step back to. -/
theorem stepBack_none {s : Session} (h : s.tape.engine.enabled = false ∨ s.tape.engine.deltas = []) :
    ∃ err, s.stepBack = .error err := by
  unfold Session.stepBack Engine.stepBack
  by_cases hon : s.tape.engine.enabled = false
  · exact ⟨_, by rw [if_pos hon]⟩
  · have hnone : s.tape.engine.deltas.getLast? = none := by
      rw [h.resolve_left hon, List.getLast?_nil]
    exact ⟨_, by rw [if_neg hon, hnone]⟩

/-- **One step back.** While there is tape it succeeds, and the machine is the
    one of the snapshot before the last. -/
theorem stepBack_some {hot : Bool} {s : Session} (h : SessionInv s)
    (hon : s.tape.engine.enabled = true) (hd : s.tape.engine.deltas ≠ []) :
    ∃ m s', s.past[1]? = some m ∧ s.stepBack = .ok s' ∧ s'.machine = loaded s.machine m ∧
      s'.past = s.past.tail ∧ s'.tape.engine.enabled = true ∧
      s'.tape.engine.steps + 1 = s.tape.engine.steps ∧ SessionInv s' := by
  obtain ⟨d, hlast⟩ : ∃ d, s.tape.engine.deltas.getLast? = some d :=
    ⟨_, List.getLast?_eq_some_getLast hd⟩
  have hrev : s.tape.engine.deltas.reverse = d :: s.tape.engine.deltas.dropLast.reverse := by
    conv_lhs => rw [← List.dropLast_append_getLast? d hlast]
    rw [List.reverse_append, List.reverse_singleton, List.singleton_append]
  have hsteps : s.tape.engine.deltas.length = s.tape.engine.deltas.dropLast.length + 1 := by
    conv_lhs => rw [← List.dropLast_append_getLast? d hlast]
    rw [List.length_append, List.length_singleton]
  -- the newest delta leads to the snapshot of the machine below
  have hbelow := h.tape.unwinds.below
  rw [hrev, hsteps] at hbelow
  obtain ⟨data, l, hl, happ, -⟩ := unwind_cons_inv hbelow
  obtain ⟨m₁, m, rest, hpast⟩ : ∃ m₁ m rest, s.past = m₁ :: m :: rest := by
    rcases hp : s.past with _ | ⟨m₁, _ | ⟨m, rest⟩⟩
    · rw [h.history, hp] at hl
      exact absurd hl nofun
    · rw [h.history, hp] at hl
      exact absurd hl nofun
    · exact ⟨m₁, m, rest, rfl⟩
  have hdata : data = Savestate.captureState m := by
    rw [h.history, hpast] at hl
    exact (List.cons.inj hl).1.symm
  have halike : Alike m s.machine := h.alike m (by rw [hpast]; simp)
  have hload : Savestate.restoreState s.machine data = .ok (loaded s.machine m) := by
    rw [hdata]
    exact halike.restoreState
  obtain ⟨e, hback, hcur, hon', hdeltas⟩ : ∃ e, s.tape.engine.stepBack
      (fun data => (Savestate.restoreState s.machine data).map fun _ => ()) = .ok e ∧
      e.cur = data ∧ e.enabled = true ∧ e.deltas = s.tape.engine.deltas.dropLast := by
    unfold Engine.stepBack
    rw [if_neg (by rw [hon]; decide), hlast]
    dsimp only
    rw [happ]
    dsimp only
    rw [hload]
    exact ⟨_, rfl, rfl, hon, rfl⟩
  have htape := @stepBack_inv hot _ h.tape
    fun data => (Savestate.restoreState s.machine data).map fun _ => ()
  unfold Tape.call at htape
  dsimp only at htape
  rw [hback] at htape
  refine ⟨m, ⟨loaded s.machine m, ⟨e, s.tape.history.tail⟩, s.past.tail⟩, by rw [hpast]; rfl, ?_, rfl,
    rfl, hon', ?_, htape, ?_, ?_⟩
  · unfold Session.stepBack
    rw [hback]
    dsimp only
    rw [hcur, hload]
  · rw [Engine.steps, Engine.steps, hdeltas, hsteps]
  · show s.tape.history.tail = s.past.tail.map _
    rw [h.history, List.map_tail]
  · intro x hx
    exact (h.alike x (List.mem_of_mem_tail hx)).trans (loaded_alike halike).symm

/-- The steps that `n` requests get. -/
def Session.available (s : Session) (n : Nat) : Nat :=
  if s.tape.engine.enabled then min n s.tape.engine.steps else 0

/-- The loop goes back as far as it was asked and as there is tape. -/
theorem rewind_spec {hot : Bool} {s : Session} (h : SessionInv s) (n : Nat) :
    (s.rewind n).1 = s.available n ∧ (s.rewind n).2.past = s.past.drop (s.available n) ∧
      SessionInv (s.rewind n).2 ∧
      (0 < s.available n → ∃ m m₁, s.past[s.available n]? = some m ∧ SameCarts m₁ s.machine ∧
        (s.rewind n).2.machine = loaded m₁ m) ∧
      (s.available n = 0 → (s.rewind n).2 = s) := by
  induction n generalizing s with
  | zero =>
    have hnone : s.available 0 = 0 := by
      unfold Session.available
      split_ifs <;> omega
    rw [hnone]
    exact ⟨rfl, rfl, h, fun h0 => absurd h0 (Nat.lt_irrefl 0), fun _ => rfl⟩
  | succ n ih =>
    by_cases hend : s.tape.engine.enabled = false ∨ s.tape.engine.deltas = []
    · have hnone : s.available (n + 1) = 0 := by
        unfold Session.available
        rcases hend with hon | hd
        · rw [if_neg (by rw [hon]; decide)]
        · rw [Engine.steps, hd]
          split_ifs <;> rfl
      obtain ⟨err, herr⟩ := stepBack_none hend
      have hrewind : s.rewind (n + 1) = (0, s) := by
        rw [Session.rewind, herr]
      rw [hnone, hrewind]
      exact ⟨rfl, rfl, h, fun h0 => absurd h0 (Nat.lt_irrefl 0), fun _ => rfl⟩
    · obtain ⟨hon, hd⟩ := not_or.mp hend
      have hon : s.tape.engine.enabled = true := by simpa using hon
      obtain ⟨m, s', hm, hback, hmachine, hpast, hon', hsteps, hinv⟩ :=
        @stepBack_some hot _ h hon hd
      obtain ⟨hcount, hdrop, hinv', hsome, hzero⟩ := ih hinv
      have havail : s.available (n + 1) = s'.available n + 1 := by
        rw [Session.available, Session.available, if_pos hon, if_pos hon', ← hsteps]
        omega
      have hrewind : s.rewind (n + 1) = ((s'.rewind n).1 + 1, (s'.rewind n).2) := by
        rw [Session.rewind, hback]
      rw [havail, hrewind]
      refine ⟨by rw [hcount], ?_, hinv', fun _ => ?_, fun h0 => absurd h0 (Nat.succ_ne_zero _)⟩
      · rw [hdrop, hpast, List.drop_tail]
      · by_cases hlast : s'.available n = 0
        · rw [hlast, hzero hlast]
          exact ⟨m, s.machine, hm, fun _ => rfl, hmachine⟩
        · obtain ⟨m', m₁, hm', hcarts, hloaded⟩ := hsome (Nat.pos_of_ne_zero hlast)
          refine ⟨m', m₁, ?_, fun p => ?_, hloaded⟩
          · rw [← hm', hpast, List.getElem?_tail]
          · rw [hcarts p, hmachine]
            exact loaded_sameCarts s.machine m p

/-! ## Section 3: Every session -/

theorem SessionInv.field {hot : Bool} {s : Session} (h : SessionInv s)
    (hfit : (Savestate.captureState s.machine).length < 2 ^ 31) : SessionInv (s.step hot .field) where
  tape := onField_inv h.tape hfit
  history := by
    show (if s.tape.engine.due then captureState (pieces s.machine) :: s.tape.history
      else s.tape.history) = (if s.tape.engine.due then s.machine :: s.past else s.past).map _
    rw [h.history]
    split_ifs <;> rfl
  alike := by
    intro m hm
    simp only [Session.step] at hm
    split_ifs at hm with hdue
    · rcases List.mem_cons.mp hm with rfl | hm
      · exact Alike.refl _
      · exact h.alike m hm
    · exact h.alike m hm

/-- Another machine of the same kind does not change the tape. -/
theorem SessionInv.run {s : Session} (h : SessionInv s) {m : Machine} (hm : Alike m s.machine) :
    SessionInv { s with machine := m } where
  tape := h.tape
  history := h.history
  alike := fun x hx => (h.alike x hx).trans hm.symm

theorem sessionInv_run {hot : Bool} {m₀ : Machine} {tr : List (Session × Session.Label)} {s : Session}
    (hr : (session hot m₀).Run tr s) (hgood : ∀ p ∈ tr, p.1.Good p.2) : SessionInv s := by
  refine hr.invariant_of SessionInv Session.Good ?_ ?_ hgood
  · rintro s rfl
    exact ⟨start_inv, rfl, nofun⟩
  · rintro s c s' - h hgood rfl
    cases c with
    | run m => exact h.run hgood
    | field => exact h.field hgood
    | rewind n => exact (@rewind_spec hot _ h n).2.2.1
    | load data m =>
      unfold Session.step
      dsimp only
      split
      · exact h.run hgood
      · exact ⟨clear_inv s.tape.engine, rfl, nofun⟩
    | configure on mb fields => exact ⟨configure_inv s.tape.engine on mb fields, rfl, nofun⟩

/-- **Going back in time.** In every session a request for `n` steps back goes
    back as many snapshots as there is tape for, and never fails before. The
    machine resumes where the snapshot was taken: every field that is saved
    has its value of that moment. -/
theorem rewind_resumes {hot : Bool} {m₀ : Machine} {tr : List (Session × Session.Label)} {s : Session}
    (hr : (session hot m₀).Run tr s) (hgood : ∀ p ∈ tr, p.1.Good p.2) (n : Nat) :
    (s.rewind n).1 = s.available n ∧
      (0 < s.available n → ∃ m m₁, s.past[s.available n]? = some m ∧ SameCarts m₁ s.machine ∧
        Resumed m₁ m (s.rewind n).2.machine) ∧
      (s.available n = 0 → (s.rewind n).2 = s) := by
  obtain ⟨hcount, -, -, hsome, hzero⟩ := @rewind_spec hot _ (sessionInv_run hr hgood) n
  refine ⟨hcount, fun hpos => ?_, hzero⟩
  obtain ⟨m, m₁, hm, hcarts, hloaded⟩ := hsome hpos
  exact ⟨m, m₁, hm, hcarts, hloaded ▸ resumed_loaded m₁ m⟩

/-- A delta is not larger than nine times the snapshot it goes back to. -/
theorem length_deltaBody_le (nueva vieja : Bytes) (i : Nat) :
    (deltaBody nueva vieja i).length ≤ 9 * (vieja.length - i) := by
  fun_induction deltaBody nueva vieja i with
  | case1 i hlt j e ih =>
    have hij : i ≤ j := sameEnd_ge nueva vieja _ i
    have hprog : i < e := diffEnd_sameEnd_gt nueva vieja _ i hlt
    have hlit : (slice vieja j (e - j)).length ≤ min (e - j) (vieja.length - j) := by
      rw [slice, List.length_take, List.length_drop]
    have hhead : (putU32 (putU32 [] (j - i)) (e - j)).length = 8 := by simp [putU32]
    rw [List.length_append, List.length_append, hhead]
    omega
  | case2 i hge => exact Nat.zero_le _

/-- A machine without memories, all of whose fields are zero. -/
def zeroVal : (κ : Kind) → κ.Val
  | .raw n => ⟨List.replicate n 0, List.length_replicate⟩
  | .blob n => ⟨List.replicate n 0, List.length_replicate⟩
  | .fixed => ⟨[], by decide⟩
  | .vec => ⟨[], by decide⟩
  | .gbRam => ⟨[], by decide⟩
  | .pend => 0
  | .polls => {}

def blank : Machine := ⟨0, 0, 0, [], fun f => zeroVal f.kind⟩

theorem length_blank : (Savestate.captureState blank).length = 48253 := by
  rw [length_captureState]
  decide +kernel

/-- Rewinding is switched on, and two fields close. -/
def twoFields (m : Machine) : Session :=
  [.configure true 0 1, .field, .field].foldl (Session.step false) (Session.start m)

theorem past_twoFields (m : Machine) : (twoFields m).past = [m, m] := rfl

theorem machine_twoFields (m : Machine) : (twoFields m).machine = m := rfl

theorem available_twoFields {m : Machine} (h : (Savestate.captureState m).length < 2 ^ 19) :
    (twoFields m).available 3 = 1 := by
  have hfits : (makeDelta (Savestate.captureState m) (Savestate.captureState m)).length ≤
      8 * 2 ^ 20 := by
    have hbody := length_deltaBody_le (Savestate.captureState m) (Savestate.captureState m) 0
    rw [makeDelta, List.length_append, length_putU64]
    omega
  show min 3 (Engine.evict (8 * 2 ^ 20) [makeDelta _ _] (0 + _)).1.length = 1
  rw [Engine.evict, if_neg (by rw [Nat.zero_add]; exact Nat.not_lt.mpr hfits)]
  rfl

theorem run_twoFields {m : Machine} (h : (Savestate.captureState m).length < 2 ^ 19) :
    ∃ tr, (session false m).Run tr (twoFields m) ∧ ∀ p ∈ tr, p.1.Good p.2 := by
  have hshort : (Savestate.captureState m).length < 2 ^ 31 := h.trans (by decide)
  let s₁ := (Session.start m).step false (.configure true 0 1)
  refine ⟨[(s₁.step false .field, .field), (s₁, .field), (Session.start m, .configure true 0 1)],
    .step (.step (.step (.init rfl) rfl) rfl) rfl, fun p hp => ?_⟩
  simp only [List.mem_cons, List.not_mem_nil, or_false] at hp
  rcases hp with rfl | rfl | rfl
  · exact hshort
  · exact hshort
  · trivial

theorem rewind_resumes_twoFields :
    ((twoFields blank).rewind 3).1 = 1 ∧
      ∃ m₁, SameCarts m₁ blank ∧ Resumed m₁ blank ((twoFields blank).rewind 3).2.machine := by
  have hshort : (Savestate.captureState blank).length < 2 ^ 19 := by
    rw [length_blank]
    decide
  obtain ⟨tr, hr, hgood⟩ := run_twoFields hshort
  obtain ⟨hcount, hsome, -⟩ := rewind_resumes hr hgood 3
  rw [available_twoFields hshort] at hcount hsome
  obtain ⟨m, m₁, hm, hcarts, hres⟩ := hsome Nat.one_pos
  rw [past_twoFields] at hm
  rw [machine_twoFields] at hcarts
  obtain rfl : blank = m := Option.some.inj hm
  exact ⟨hcount, m₁, hcarts, hres⟩

end Rewind
