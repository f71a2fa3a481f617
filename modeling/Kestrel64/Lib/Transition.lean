import Mathlib.Data.List.Induction

/-! # Labelled Transition Systems

    States, labels and runs, with the rules that turn a per-step fact into
    a fact about every run:

    * `Reachable.invariant` — the ordinary induction rule for safety.
    * `Run.invariant_of` — the same rule for runs whose steps all meet a
      side condition on the state they are taken from.

    `System.ofFun` is the system of a step function; `System.run_foldl` is its
    run on a list of labels. `outputs_sim` compares a machine that puts
    something out at every step with one that it simulates; `outputs_eq` is
    the case of two runs of the same machine.

    A run is kept as the list of its (state, label) pairs, newest first, so
    that a property of a run can speak about the steps that produced it.
-/

namespace LTS

universe u v

variable {State : Type u} {Label : Type v}

/-- A labelled transition system. -/
structure System (State : Type u) (Label : Type v) where
  init : State → Prop
  step : State → Label → State → Prop

/-- `sys.Run tr s`: the steps `tr` (newest first) lead from an initial
    state to `s`. -/
inductive System.Run (sys : System State Label) : List (State × Label) → State → Prop where
  | init {s} : sys.init s → sys.Run [] s
  | step {tr s l s'} : sys.Run tr s → sys.step s l s' → sys.Run ((s, l) :: tr) s'

/-- The steps of a run with the states on both sides. -/
def stepsOf : List (State × Label) → State → List (State × Label × State)
  | [], _ => []
  | (s₀, l) :: tr, s => (s₀, l, s) :: stepsOf tr s₀

theorem System.Run.steps {sys : System State Label} {tr : List (State × Label)} {s : State}
    (h : sys.Run tr s) : ∀ t ∈ stepsOf tr s, sys.step t.1 t.2.1 t.2.2 := by
  induction h with
  | init _ => exact fun _ ht => absurd ht List.not_mem_nil
  | step hr hs ih =>
    intro t ht
    rcases List.mem_cons.mp ht with rfl | ht
    · exact hs
    · exact ih t ht

/-- A state at the end of some run. -/
def System.Reachable (sys : System State Label) (s : State) : Prop :=
  ∃ tr, sys.Run tr s

variable {sys : System State Label}

theorem System.Reachable.of_init {s : State} (h : sys.init s) : sys.Reachable s :=
  ⟨[], .init h⟩

theorem System.Reachable.step {s s' : State} {l : Label} (h : sys.Reachable s)
    (hs : sys.step s l s') : sys.Reachable s' := by
  obtain ⟨tr, hr⟩ := h
  exact ⟨(s, l) :: tr, .step hr hs⟩

theorem System.Run.reachable {tr : List (State × Label)} {s : State}
    (h : sys.Run tr s) : sys.Reachable s := ⟨tr, h⟩

/-- **Conditional invariant rule.** `Inv` holds at the end of every run all
    of whose steps meet `good`. -/
theorem System.Run.invariant_of (Inv : State → Prop) (good : State → Label → Prop)
    (hinit : ∀ s, sys.init s → Inv s)
    (hstep : ∀ s l s', sys.Reachable s → Inv s → good s l → sys.step s l s' → Inv s')
    {tr : List (State × Label)} {s : State} (hr : sys.Run tr s)
    (hgood : ∀ p ∈ tr, good p.1 p.2) : Inv s := by
  induction hr with
  | init h => exact hinit _ h
  | step hr hs ih =>
    rename_i tr s l s'
    have hInv : Inv s := ih (fun p hp => hgood p (List.mem_cons_of_mem _ hp))
    exact hstep s l s' ⟨_, hr⟩ hInv (hgood (s, l) (List.mem_cons_self ..)) hs

/-- **Invariant rule.** A predicate that holds initially and is preserved by
    every step from a reachable state holds in every reachable state. -/
theorem System.Reachable.invariant (Inv : State → Prop)
    (hinit : ∀ s, sys.init s → Inv s)
    (hstep : ∀ s l s', sys.Reachable s → Inv s → sys.step s l s' → Inv s')
    {s : State} (h : sys.Reachable s) : Inv s := by
  obtain ⟨tr, hr⟩ := h
  exact hr.invariant_of Inv (fun _ _ => True) hinit
    (fun s l s' hreach hInv _ hs => hstep s l s' hreach hInv hs) (fun _ _ => trivial)

/-- The system whose step is a function of the state and the label. -/
def System.ofFun (s₀ : State) (f : State → Label → State) : System State Label where
  init := fun s => s = s₀
  step := fun s l s' => s' = f s l

theorem System.run_foldl (s₀ : State) (f : State → Label → State) (ls : List Label) :
    ∃ tr, (System.ofFun s₀ f).Run tr (ls.foldl f s₀) ∧ tr.map Prod.snd = ls.reverse := by
  induction ls using List.reverseRecOn with
  | nil => exact ⟨[], .init rfl, rfl⟩
  | append_singleton ls l ih =>
    obtain ⟨tr, hr, hl⟩ := ih
    refine ⟨(ls.foldl f s₀, l) :: tr, ?_, ?_⟩
    · rw [List.foldl_append]
      exact .step hr rfl
    · rw [List.map_cons, hl, List.reverse_append]
      rfl

/-- The steps a partial step function takes on a list of labels, newest first,
    and where they lead. -/
def trace (f : State → Label → Option State) :
    List (State × Label) → State → List Label → Option (List (State × Label) × State)
  | tr, s, [] => some (tr, s)
  | tr, s, l :: ls => (f s l).bind fun s' => trace f ((s, l) :: tr) s' ls

theorem System.Run.trace {f : State → Label → Option State}
    (hf : ∀ s l s', f s l = some s' → sys.step s l s') {tr tr' : List (State × Label)}
    {s s' : State} {ls : List Label} (hr : sys.Run tr s)
    (h : LTS.trace f tr s ls = some (tr', s')) : sys.Run tr' s' := by
  induction ls generalizing tr s with
  | nil =>
    obtain ⟨rfl, rfl⟩ := Prod.mk.inj (Option.some.inj h)
    exact hr
  | cons l ls ih =>
    obtain ⟨t, ht, hrest⟩ := Option.bind_eq_some_iff.mp h
    exact ih (hr.step (hf s l t ht)) hrest

/-- A concrete run and what is computed of it. -/
theorem System.exists_run (sys : System State Label) {f : State → Label → Option State}
    (hf : ∀ s l s', f s l = some s' → sys.step s l s') {s : State} (hs : sys.init s)
    {ls : List Label} {p : List (State × Label) × State → Bool}
    (h : (LTS.trace f [] s ls).any p = true) : ∃ tr s', sys.Run tr s' ∧ p (tr, s') = true := by
  cases ht : LTS.trace f [] s ls with
  | none => simp [ht] at h
  | some r =>
    refine ⟨r.1, r.2, System.Run.trace hf (.init hs) ht, ?_⟩
    simpa [ht] using h

/-! Machines with outputs. -/

/-- What a machine puts out on a list of inputs. -/
def outputs {In Out : Type} (f : State → In → State × Out) : State → List In → List Out
  | _, [] => []
  | s, i :: is => (f s i).2 :: outputs f (f s i).1 is

/-- The state a machine is left in. -/
def after {In Out : Type} (f : State → In → State × Out) : State → List In → State
  | s, [] => s
  | s, i :: is => after f (f s i).1 is

/-- Every input is admissible in the state that meets it. -/
def Along {In Out : Type} (ok : State → In → Prop) (f : State → In → State × Out) :
    State → List In → Prop
  | _, [] => True
  | s, i :: is => ok s i ∧ Along ok f (f s i).1 is

/-- **Simulation rule.** A machine that stays related to another on its
    admissible inputs puts out what the other does, and ends related to it. -/
theorem outputs_sim {Abs : Type u} {In Out : Type} {f : State → In → State × Out}
    {g : Abs → In → Abs × Out} (ok : State → In → Prop) (R : State → Abs → Prop)
    (hstep : ∀ s t i, R s t → ok s i → (f s i).2 = (g t i).2 ∧ R (f s i).1 (g t i).1)
    {s : State} {t : Abs} (h : R s t) {is : List In} (hok : Along ok f s is) :
    outputs f s is = outputs g t is ∧ R (after f s is) (after g t is) := by
  induction is generalizing s t with
  | nil => exact ⟨rfl, h⟩
  | cons i is ih =>
    obtain ⟨hout, hrel⟩ := hstep s t i h hok.1
    obtain ⟨hrest, hend⟩ := ih hrel hok.2
    refine ⟨?_, hend⟩
    unfold outputs
    rw [hout, hrest]

theorem along_true {In Out : Type} (f : State → In → State × Out) (s : State) (is : List In) :
    Along (fun _ _ => True) f s is := by
  induction is generalizing s with
  | nil => trivial
  | cons i is ih => exact ⟨trivial, ih _⟩

/-- **Two-run rule.** Two states that put out the same, and stay related,
    put out the same for good. -/
theorem outputs_eq {In Out : Type} {f : State → In → State × Out} (R : State → State → Prop)
    (hstep : ∀ s t i, R s t → (f s i).2 = (f t i).2 ∧ R (f s i).1 (f t i).1) {s t : State}
    (h : R s t) (is : List In) : outputs f s is = outputs f t is :=
  (outputs_sim (fun _ _ => True) R (fun s t i hr _ => hstep s t i hr) h (along_true f s is)).1

end LTS
