import Kestrel64.Lib.Transition
import Kestrel64.Rewind.DeltaSink

/-! # Rewind: the Tape

    `Engine` of `core/rewind.hpp` and `core/rewind.cpp`, with `captureState`
    and `captureDelta` of `core/savestate.cpp`. Every few video fields the
    engine takes a snapshot; it keeps the last one whole and the earlier ones
    as deltas, and pays for its memory budget from the old end.

    The machine is a list of pieces, the blocks that `visitAll` hands out in
    order (with the header in front). Taking a snapshot whole and feeding it
    to the sink both walk this list.

    The abstract model is a stack of whole snapshots, `history`. The engine
    refines it: `cur` is the top of the stack, and unwinding the deltas gives
    the snapshots right below, as far as the tape goes.
-/

namespace Rewind

open LTS Patch

/-! ## Section 1: Taking a snapshot -/

/-- The blocks of the machine's state in the order of `visitAll`. -/
abbrev Pieces := List Bytes

def captureState (sys : Pieces) : Bytes := sys.flatten

/-- What `captureDelta` leaves in its arguments, and its result. -/
structure Capture where
  ok : Bool
  sinkPos : Nat
  cur : Bytes
  delta : Bytes

/-- `captureDelta`. The size is counted first, because the sink overwrites
    `cur` as it goes. -/
def captureDelta (sys : Pieces) (cur : Bytes) : Capture :=
  if (sys.map List.length).sum ≠ cur.length then ⟨false, 0, cur, []⟩
  else
    let sink := sys.foldl DeltaSink.feed (DeltaSink.begin cur)
    match sink.finish with
    | some sink => ⟨true, sink.pos, sink.base, sink.out⟩
    | none => ⟨false, sink.pos, sink.base, sink.out⟩

/-- On equal sizes the hot delta succeeds, leaves the new snapshot in `cur`,
    and its delta goes back to the old one. -/
theorem captureDelta_spec {sys : Pieces} {cur : Bytes}
    (h : (captureState sys).length = cur.length) (hlen : cur.length ≤ 2 ^ 31) :
    (captureDelta sys cur).ok = true ∧ (captureDelta sys cur).cur = captureState sys ∧
      applyDelta (captureState sys) (captureDelta sys cur).delta = some cur := by
  have hsize : (sys.map List.length).sum = cur.length := by
    rw [← h, captureState, List.length_flatten]
  have hall : slice (captureState sys) 0 sys.flatten.length = sys.flatten :=
    slice_zero_length (captureState sys)
  have hfit : 0 + sys.flatten.length ≤ (captureState sys).length := by
    rw [captureState, Nat.zero_add]
  obtain ⟨hinv, hpos⟩ := (DeltaSink.SinkInv.begin (captureState sys) cur).feedAll h sys hall hfit
  have hend : (sys.foldl DeltaSink.feed (DeltaSink.begin cur)).pos = cur.length := by
    rw [hpos, ← h]
    exact Nat.zero_add _
  obtain ⟨sink, hfin, hbase, rs, hout, hdesc⟩ := hinv.finish h hend
  unfold captureDelta
  rw [if_neg (not_not.mpr hsize)]
  simp only [hfin]
  refine ⟨trivial, hbase, ?_⟩
  rw [hout]
  exact applyDelta_encode hdesc hlen

/-- On different sizes nothing is touched. -/
theorem captureDelta_size {sys : Pieces} {cur : Bytes}
    (h : (captureState sys).length ≠ cur.length) :
    captureDelta sys cur = ⟨false, 0, cur, []⟩ := by
  rw [captureState, List.length_flatten] at h
  rw [captureDelta, if_pos h]

/-! ## Section 2: The engine -/

structure Engine where
  enabled : Bool
  /-- Video fields from one snapshot to the next. -/
  interval : Nat
  budget : Nat
  /-- The latest snapshot, whole. -/
  cur : Bytes
  /-- Deltas backwards, the newest last. -/
  deltas : List Bytes
  used : Nat
  sinceLast : Nat
  primed : Bool

namespace Engine

/-- A new engine, before `init`. -/
def start : Engine where
  enabled := false
  interval := 2
  budget := 0
  cur := []
  deltas := []
  used := 0
  sinceLast := 0
  primed := false

def steps (e : Engine) : Nat := e.deltas.length

def clear (e : Engine) : Engine :=
  { e with deltas := [], cur := [], used := 0, sinceLast := 0, primed := false }

def configure (e : Engine) (on : Bool) (mb fields : Nat) : Engine :=
  let e := { clear e with enabled := on }
  if on = false then e
  else
    { e with
      budget := max mb 8 * 2 ^ 20
      interval := if fields ≠ 0 then fields else 1 }

/-- `while(used > budget && !deltas.empty())`: drop the oldest. -/
def evict (budget : Nat) : List Bytes → Nat → List Bytes × Nat
  | [], used => ([], used)
  | d :: ds, used => if budget < used then evict budget ds (used - d.length) else (d :: ds, used)

def push (e : Engine) (d : Bytes) : Engine :=
  let kept := evict e.budget (e.deltas ++ [d]) (e.used + d.length)
  { e with deltas := kept.1, used := kept.2 }

/-- The whole snapshot and `makeDelta`: the first snapshot, a size that
    changed, or the hot delta switched off. -/
def photo (e : Engine) (sys : Pieces) : Engine :=
  let scratch := captureState sys
  if e.primed = false then { e with cur := scratch, primed := true }
  else push { e with cur := scratch } (makeDelta scratch e.cur)

/-- The field closes the interval, so `onField` takes a snapshot. -/
def due (e : Engine) : Bool := e.enabled && decide (e.interval ≤ e.sinceLast + 1)

/-- `onField`. `hot` says that neither `KESTREL_REWIND_RTT` nor
    `KESTREL_REWIND_NOSINK` is set; the reload that the former asks for does
    not touch the engine. -/
def onField (hot : Bool) (e : Engine) (sys : Pieces) : Engine :=
  if e.enabled = false then e
  else if e.sinceLast + 1 < e.interval then { e with sinceLast := e.sinceLast + 1 }
  else
    let e : Engine := { e with sinceLast := 0 }
    if e.primed = true ∧ hot = true then
      let c := captureDelta sys e.cur
      let e := { e with cur := c.cur }
      if c.ok = true then push e c.delta
      else if c.sinkPos ≠ 0 then photo (clear e) sys
      else photo e sys
    else photo e sys

/-- `stepBack`: the engine after it, or its error. `restoreState` loads a
    snapshot into the machine. -/
def stepBack (restoreState : Bytes → Except String Unit) (e : Engine) : Except String Engine :=
  if e.enabled = false then .error "el rebobinado no esta activo (KESTREL_REWIND=1)"
  else
    match e.deltas.getLast? with
    | none => .error "no queda cinta hacia atras"
    | some d =>
      match applyDelta e.cur d with
      | none => .error "diferencia de rebobinado corrupta"
      | some scratch =>
        match restoreState scratch with
        | .error err => .error err
        | .ok () =>
          .ok { e with
            used := e.used - d.length
            deltas := e.deltas.dropLast
            cur := scratch
            sinceLast := 0 }

end Engine

/-! ## Section 3: The system -/

/-- A call on the engine. -/
inductive Call where
  | onField (sys : Pieces)
  | stepBack (restoreState : Bytes → Except String Unit)
  | clear
  | configure (on : Bool) (mb fields : Nat)

/-- The engine beside the stack of snapshots it stands for, newest first. -/
structure Tape where
  engine : Engine
  history : List Bytes

namespace Tape

/-- One call. The stack takes a snapshot when the field is due, loses one
    when a step back succeeds, and is emptied with the tape. -/
def call (hot : Bool) (t : Tape) : Call → Tape
  | .onField sys =>
    ⟨t.engine.onField hot sys,
      if t.engine.due then captureState sys :: t.history else t.history⟩
  | .stepBack restoreState =>
    match t.engine.stepBack restoreState with
    | .ok e => ⟨e, t.history.tail⟩
    | .error _ => t
  | .clear => ⟨t.engine.clear, []⟩
  | .configure on mb fields => ⟨t.engine.configure on mb fields, []⟩

end Tape

/-- All sequences of calls on a new engine. -/
def tape (hot : Bool) : System Tape Call := .ofFun ⟨Engine.start, []⟩ (Tape.call hot)

/-- A snapshot that the call can take is below 2 GB. -/
def Call.Fits : Call → Prop
  | .onField sys => (captureState sys).length < 2 ^ 31
  | _ => True

/-! ## Section 4: The invariant -/

/-- `used` counts the deltas and is within the budget. -/
structure Accounted (e : Engine) : Prop where
  used_eq : e.used = (e.deltas.map List.length).sum
  used_le : e.used ≤ e.budget

/-- `cur` is the top of the stack and the deltas unwind to the snapshots
    below it. -/
structure Unwinds (e : Engine) (history : List Bytes) : Prop where
  top : history.head? = if e.primed then some e.cur else none
  fits : ∀ s ∈ history, s.length < 2 ^ 31
  below : unwind applyDelta e.cur e.deltas.reverse = some (history.tail.take e.deltas.length)

structure TapeInv (t : Tape) : Prop where
  accounted : Accounted t.engine
  unwinds : Unwinds t.engine t.history

/-- Eviction keeps a suffix, the newest deltas. -/
theorem evict_spec (budget : Nat) (ds : List Bytes) (used : Nat)
    (h : used = (ds.map List.length).sum) :
    (Engine.evict budget ds used).2 = ((Engine.evict budget ds used).1.map List.length).sum ∧
      (Engine.evict budget ds used).2 ≤ budget ∧
      ∃ old, ds = old ++ (Engine.evict budget ds used).1 := by
  induction ds generalizing used with
  | nil =>
    subst h
    exact ⟨rfl, Nat.zero_le _, [], rfl⟩
  | cons d ds ih =>
    rw [List.map_cons, List.sum_cons] at h
    unfold Engine.evict
    split_ifs with hb
    · obtain ⟨hsum, hle, old, hold⟩ := ih (used - d.length) (by omega)
      exact ⟨hsum, hle, d :: old, by rw [List.cons_append, ← hold]⟩
    · refine ⟨?_, Nat.le_of_not_lt hb, [], rfl⟩
      rw [List.map_cons, List.sum_cons, h]

/-- The deltas that `push` keeps, newest first. -/
theorem push_deltas {e : Engine} (h : Accounted e) (d : Bytes) :
    ∃ k, (e.push d).deltas.reverse = (d :: e.deltas.reverse).take k ∧
      (e.push d).deltas.length = min k (e.deltas.length + 1) := by
  obtain ⟨-, -, old, hold⟩ := evict_spec e.budget (e.deltas ++ [d]) (e.used + d.length)
    (by simp [h.used_eq])
  have hrev : d :: e.deltas.reverse = (e.push d).deltas.reverse ++ old.reverse := by
    have := congrArg List.reverse hold
    rwa [List.reverse_append, List.reverse_append] at this
  have hlen := congrArg List.length hrev
  rw [List.length_append, List.length_cons, List.length_reverse, List.length_reverse] at hlen
  refine ⟨(e.push d).deltas.length, ?_, by omega⟩
  rw [hrev, ← @List.length_reverse _ (e.push d).deltas, List.take_left]

theorem push_accounted {e : Engine} (h : Accounted e) (d : Bytes) : Accounted (e.push d) := by
  obtain ⟨hsum, hle, -⟩ := evict_spec e.budget (e.deltas ++ [d]) (e.used + d.length)
    (by simp [h.used_eq])
  exact ⟨hsum, hle⟩

/-- A delta from the new snapshot to `cur` extends the tape. -/
theorem push_unwinds {e : Engine} {history : List Bytes} {new d : Bytes}
    (ha : Accounted e) (h : Unwinds e history) (hp : e.primed = true)
    (hnew : new.length < 2 ^ 31) (hd : applyDelta new d = some e.cur) :
    Unwinds (Engine.push { e with cur := new } d) (new :: history) := by
  obtain ⟨k, hrev, hk⟩ := push_deltas (e := { e with cur := new }) ⟨ha.used_eq, ha.used_le⟩ d
  have htop : history.head? = some e.cur := by
    rw [h.top, if_pos hp]
  obtain ⟨below, rfl⟩ : ∃ below, history = e.cur :: below := by
    cases history with
    | nil => exact absurd htop (by simp)
    | cons s below =>
      obtain rfl : s = e.cur := by simpa using htop
      exact ⟨below, rfl⟩
  refine ⟨?_, ?_, ?_⟩
  · show some new = if e.primed then some new else none
    rw [if_pos hp]
  · intro s hs
    rcases List.mem_cons.mp hs with rfl | hs
    · exact hnew
    · exact h.fits s hs
  · have hall : unwind applyDelta new (d :: e.deltas.reverse) =
        some ((e.cur :: below).take (e.deltas.length + 1)) := unwind_cons hd h.below
    show unwind applyDelta new (Engine.push { e with cur := new } d).deltas.reverse = _
    rw [hrev, unwind_take hall k, hk, List.take_take]
    rfl

theorem push_inv {e : Engine} {history : List Bytes} {new d : Bytes} (h : TapeInv ⟨e, history⟩)
    (hp : e.primed = true) (hnew : new.length < 2 ^ 31) (hd : applyDelta new d = some e.cur) :
    TapeInv ⟨Engine.push { e with cur := new } d, new :: history⟩ where
  accounted := push_accounted (e := { e with cur := new })
    ⟨h.accounted.used_eq, h.accounted.used_le⟩ d
  unwinds := push_unwinds h.accounted h.unwinds hp hnew hd

theorem TapeInv.cur_fits {e : Engine} {history : List Bytes} (h : TapeInv ⟨e, history⟩)
    (hp : e.primed = true) : e.cur.length ≤ 2 ^ 31 := by
  have htop : history.head? = some e.cur := by
    rw [h.unwinds.top, if_pos hp]
  exact Nat.le_of_lt (h.unwinds.fits _ (List.mem_of_mem_head? htop))

theorem start_inv : TapeInv ⟨Engine.start, []⟩ :=
  ⟨⟨rfl, Nat.le_refl _⟩, rfl, nofun, rfl⟩

/-- After `clear` the tape is empty, whatever it was. -/
theorem clear_inv (e : Engine) : TapeInv ⟨e.clear, []⟩ :=
  ⟨⟨rfl, Nat.zero_le _⟩, rfl, nofun, rfl⟩

theorem configure_inv (e : Engine) (on : Bool) (mb fields : Nat) :
    TapeInv ⟨e.configure on mb fields, []⟩ := by
  cases on with
  | false => exact ⟨⟨rfl, Nat.zero_le _⟩, rfl, nofun, rfl⟩
  | true => exact ⟨⟨rfl, Nat.zero_le _⟩, rfl, nofun, rfl⟩

/-- A whole snapshot, the first one or on top of others. -/
theorem photo_inv {e : Engine} {history : List Bytes} (h : TapeInv ⟨e, history⟩) {sys : Pieces}
    (hfit : (captureState sys).length < 2 ^ 31) :
    TapeInv ⟨e.photo sys, captureState sys :: history⟩ := by
  have ha : Accounted e := h.accounted
  have hu : Unwinds e history := h.unwinds
  by_cases hp : e.primed = true
  · have hphoto : e.photo sys =
        Engine.push { e with cur := captureState sys } (makeDelta (captureState sys) e.cur) := by
      simp [Engine.photo, hp]
    obtain ⟨rs, henc, hdesc⟩ := makeDelta_describes (captureState sys) e.cur
    have hd : applyDelta (captureState sys) (makeDelta (captureState sys) e.cur) = some e.cur := by
      rw [henc]
      exact applyDelta_encode hdesc (h.cur_fits hp)
    rw [hphoto]
    exact push_inv h hp hfit hd
  · -- the first snapshot: nothing below it yet
    have hphoto : e.photo sys = { e with cur := captureState sys, primed := true } := by
      simp [Engine.photo, hp]
    have hnil : history = [] := by
      rw [← List.head?_eq_none_iff, hu.top, if_neg hp]
    have hds : e.deltas = [] := by
      have hlen := length_unwind hu.below
      rw [hnil, List.length_reverse, List.tail_nil, List.take_nil] at hlen
      exact List.length_eq_zero_iff.mp hlen.symm
    subst hnil
    rw [hphoto]
    refine ⟨⟨ha.used_eq, ha.used_le⟩, rfl, ?_, ?_⟩
    · intro s hs
      obtain rfl : s = captureState sys := by simpa using hs
      exact hfit
    · show unwind applyDelta (captureState sys) e.deltas.reverse = some ([].take _)
      rw [hds]
      rfl

theorem onField_inv {hot : Bool} {t : Tape} (h : TapeInv t) {sys : Pieces}
    (hfit : (captureState sys).length < 2 ^ 31) : TapeInv (t.call hot (.onField sys)) := by
  obtain ⟨e, history⟩ := t
  have ha : Accounted e := h.accounted
  have hu : Unwinds e history := h.unwinds
  show TapeInv ⟨e.onField hot sys, if e.due then captureState sys :: history else history⟩
  unfold Engine.onField
  by_cases hon : e.enabled = false
  · have hdue : e.due = false := by simp [Engine.due, hon]
    rw [if_pos hon, hdue]
    exact h
  rw [if_neg hon]
  by_cases hwait : e.sinceLast + 1 < e.interval
  · have hdue : e.due = false := by simp [Engine.due, hwait]
    rw [if_pos hwait, hdue]
    exact ⟨⟨ha.used_eq, ha.used_le⟩, hu.top, hu.fits, hu.below⟩
  have hdue : e.due = true := by
    simp only [Engine.due, Bool.and_eq_true, decide_eq_true_eq]
    exact ⟨by simpa using hon, Nat.le_of_not_lt hwait⟩
  rw [if_neg hwait, hdue, if_pos rfl]
  -- resetting the field counter does not touch the tape
  have h0 : TapeInv ⟨{ e with sinceLast := 0 }, history⟩ :=
    ⟨⟨ha.used_eq, ha.used_le⟩, hu.top, hu.fits, hu.below⟩
  dsimp only
  by_cases hhot : e.primed = true ∧ hot = true
  · rw [if_pos hhot]
    by_cases hsize : (captureState sys).length = e.cur.length
    · obtain ⟨hok, hc, hd⟩ := captureDelta_spec hsize (h.cur_fits hhot.1)
      rw [if_pos hok, hc]
      exact push_inv h0 hhot.1 hfit hd
    · rw [captureDelta_size hsize]
      exact photo_inv h0 hfit
  · rw [if_neg hhot]
    exact photo_inv h0 hfit

/-- What a successful step back did. -/
theorem stepBack_ok {restoreState : Bytes → Except String Unit} {e e' : Engine}
    (h : e.stepBack restoreState = .ok e') :
    ∃ d scratch, e.deltas.getLast? = some d ∧ applyDelta e.cur d = some scratch ∧
      e' = { e with
        used := e.used - d.length
        deltas := e.deltas.dropLast
        cur := scratch
        sinceLast := 0 } := by
  unfold Engine.stepBack at h
  split_ifs at h
  cases hlast : e.deltas.getLast? with
  | none =>
    rw [hlast] at h
    exact absurd h nofun
  | some d =>
    rw [hlast] at h
    dsimp only at h
    cases happ : applyDelta e.cur d with
    | none =>
      rw [happ] at h
      exact absurd h nofun
    | some scratch =>
      rw [happ] at h
      dsimp only at h
      split at h
      · exact absurd h nofun
      · exact ⟨d, scratch, rfl, happ, (Except.ok.inj h).symm⟩

theorem stepBack_inv {hot : Bool} {t : Tape} (h : TapeInv t)
    (restoreState : Bytes → Except String Unit) :
    TapeInv (t.call hot (.stepBack restoreState)) := by
  obtain ⟨e, history⟩ := t
  have ha : Accounted e := h.accounted
  have hu : Unwinds e history := h.unwinds
  unfold Tape.call
  cases hback : e.stepBack restoreState with
  | error err =>
    dsimp only
    rw [hback]
    exact h
  | ok e' =>
    dsimp only
    rw [hback]
    obtain ⟨d, scratch, hlast, happ, rfl⟩ := stepBack_ok hback
    have hsplit : e.deltas = e.deltas.dropLast ++ [d] :=
      (List.dropLast_append_getLast? d hlast).symm
    have hrev : e.deltas.reverse = d :: e.deltas.dropLast.reverse := by
      conv_lhs => rw [hsplit]
      rw [List.reverse_append, List.reverse_singleton, List.singleton_append]
    have hlen : e.deltas.length = e.deltas.dropLast.length + 1 := by
      conv_lhs => rw [hsplit]
      rw [List.length_append, List.length_singleton]
    have hsum : (e.deltas.map List.length).sum =
        (e.deltas.dropLast.map List.length).sum + d.length := by
      conv_lhs => rw [hsplit]
      rw [List.map_append, List.sum_append, List.map_singleton, List.sum_singleton]
    -- the first find of the unwinding is the snapshot that was restored
    have hbelow := hu.below
    rw [hrev, hlen] at hbelow
    obtain ⟨s, l, hl, hs, htail⟩ := unwind_cons_inv hbelow
    obtain rfl : scratch = s := Option.some.inj (happ.symm.trans hs)
    obtain ⟨rest, hrest⟩ : ∃ rest, history.tail = scratch :: rest := by
      cases ht : history.tail with
      | nil =>
        rw [ht, List.take_nil] at hl
        exact absurd hl nofun
      | cons s rest =>
        rw [ht, List.take_succ_cons] at hl
        exact ⟨rest, by rw [(List.cons.inj hl).1]⟩
    rw [hrest, List.take_succ_cons] at hl
    have hprimed : e.primed = true := by
      by_contra hp
      have htop := hu.top
      rw [if_neg hp, List.head?_eq_none_iff] at htop
      rw [htop, List.tail_nil] at hrest
      exact absurd hrest nofun
    refine ⟨⟨?_, ?_⟩, ?_, ?_, ?_⟩
    · show e.used - d.length = (e.deltas.dropLast.map List.length).sum
      have := ha.used_eq
      omega
    · show e.used - d.length ≤ e.budget
      have := ha.used_le
      omega
    · show history.tail.head? = if e.primed then some scratch else none
      rw [hrest, hprimed]
      rfl
    · exact fun s hs => hu.fits s (List.mem_of_mem_tail hs)
    · show unwind applyDelta scratch e.deltas.dropLast.reverse =
        some (history.tail.tail.take e.deltas.dropLast.length)
      rw [hrest, List.tail_cons, htail, (List.cons.inj hl).2]

/-! ## Section 5: Every run -/

theorem tapeInv_run {hot : Bool} {tr : List (Tape × Call)} {t : Tape} (hr : (tape hot).Run tr t)
    (hfits : ∀ p ∈ tr, p.2.Fits) : TapeInv t := by
  refine hr.invariant_of TapeInv (fun _ c => c.Fits) ?_ ?_ hfits
  · rintro t rfl
    exact start_inv
  · rintro t c t' - h hfit rfl
    cases c with
    | onField sys => exact onField_inv h hfit
    | stepBack restoreState => exact stepBack_inv h restoreState
    | clear => exact clear_inv t.engine
    | configure on mb fields => exact configure_inv t.engine on mb fields

/-- **The tape is the recent past.** After any sequence of calls whose
    snapshots are below 2 GB, in either mode of taking them: `used` is the
    size of the deltas and within the budget, `cur` is the latest snapshot
    that was not stepped over, and unwinding the deltas from the newest gives
    exactly the `steps` snapshots before it, newest first. -/
theorem tape_recent {hot : Bool} {tr : List (Tape × Call)} {t : Tape}
    (hr : (tape hot).Run tr t) (hfits : ∀ p ∈ tr, p.2.Fits) :
    t.engine.used = (t.engine.deltas.map List.length).sum ∧
    t.engine.used ≤ t.engine.budget ∧
    t.history.head? = (if t.engine.primed then some t.engine.cur else none) ∧
    t.engine.steps ≤ t.history.tail.length ∧
    unwind applyDelta t.engine.cur t.engine.deltas.reverse =
      some (t.history.tail.take t.engine.steps) := by
  have h := tapeInv_run hr hfits
  have hlen := length_unwind h.unwinds.below
  rw [List.length_take, List.length_reverse] at hlen
  refine ⟨h.accounted.used_eq, h.accounted.used_le, h.unwinds.top, ?_, h.unwinds.below⟩
  unfold Engine.steps
  omega

/-- Three snapshots, the last one of the size of the second: the first delta
    is made from whole snapshots, the second one hot. -/
def threeFields : List Call :=
  [.configure true 0 1, .onField [[1, 2]], .onField [[1], [2, 3]], .onField [[7], [2, 3]]]

theorem history_threeFields :
    (threeFields.foldl (Tape.call true) ⟨Engine.start, []⟩).history =
      [[7, 2, 3], [1, 2, 3], [1, 2]] := by
  simp [threeFields, Tape.call, Engine.onField, Engine.start, Engine.configure, Engine.clear,
    Engine.photo, Engine.due, captureState, Engine.push, captureDelta]

theorem steps_threeFields :
    (threeFields.foldl (Tape.call true) ⟨Engine.start, []⟩).engine.steps = 2 := by
  simp [threeFields, Tape.call, Engine.onField, Engine.start, Engine.configure, Engine.clear,
    Engine.photo, captureState, Engine.push, Engine.evict, captureDelta, makeDelta, deltaBody,
    sameEnd, diffEnd, commonWords, wordEq, slice, DeltaSink.begin, DeltaSink.feed,
    DeltaSink.feedLoop, DeltaSink.eqEnd, DeltaSink.skip, DeltaSink.neEnd, DeltaSink.passEq,
    DeltaSink.passNe, DeltaSink.eq, DeltaSink.ne, DeltaSink.flush, DeltaSink.finish,
    DeltaSink.pair, putU64, putU32, Bytes.le, overwrite, Engine.steps, DeltaSink.kGap]

theorem tape_recent_threeFields :
    let t := threeFields.foldl (Tape.call true) ⟨Engine.start, []⟩
    t.engine.used ≤ t.engine.budget ∧
    unwind applyDelta t.engine.cur t.engine.deltas.reverse = some [[1, 2, 3], [1, 2]] := by
  intro t
  obtain ⟨tr, hr, hl⟩ := System.run_foldl ⟨Engine.start, []⟩ (Tape.call true) threeFields
  have hfits : ∀ p ∈ tr, p.2.Fits := by
    intro p hp
    have hc : p.2 ∈ threeFields := by
      rw [← List.mem_reverse, ← hl]
      exact List.mem_map_of_mem hp
    simp only [threeFields, List.mem_cons, List.not_mem_nil, or_false] at hc
    rcases hc with hc | hc | hc | hc <;> rw [hc] <;> simp [Call.Fits, captureState]
  obtain ⟨-, hle, -, -, hun⟩ := tape_recent hr hfits
  refine ⟨hle, ?_⟩
  rw [hun, history_threeFields, steps_threeFields]
  rfl

end Rewind
