import Mathlib.Data.List.Basic
import Mathlib.Data.List.GetD

/-! # Extents

    A number line is given out in contiguous pieces, one behind the other, and
    the piece that holds a number is found by binary search.

    * `upperBound` is the search: the first element that is past a mark.
    * `Packed a xs b` says that the pieces `xs` fill the numbers from `a` up to
      `b`. Then `find` gives the one piece that holds a number (`find_mem`), and
      none outside (`find_out`).
-/

universe u

namespace Extents

variable {α : Type u}

/-! ## Section 1: Binary search -/

/-- The first of the `len` elements from `lo` on that is past the mark; each
    round takes the lower or the upper half. -/
def upperBound (past : α → Bool) (xs : List α) : Nat → Nat → Nat → Nat
  | 0, lo, _ => lo
  | fuel + 1, lo, len =>
    if len = 0 then lo
    else
      match xs[lo + len / 2]? with
      | none => lo
      | some x =>
        if past x then upperBound past xs fuel lo (len / 2)
        else upperBound past xs fuel (lo + len / 2 + 1) (len - len / 2 - 1)

theorem upperBound_eq {past : α → Bool} {as bs : List α} (has : ∀ x ∈ as, past x = false)
    (hbs : ∀ x ∈ bs, past x = true) {fuel lo len : Nat} (hfuel : len ≤ fuel)
    (hlo : lo ≤ as.length) (hhi : as.length ≤ lo + len) (hlen : lo + len ≤ (as ++ bs).length) :
    upperBound past (as ++ bs) fuel lo len = as.length := by
  induction fuel generalizing lo len with
  | zero =>
    rw [upperBound]
    omega
  | succ fuel ih =>
    rw [upperBound]
    by_cases hzero : len = 0
    · rw [if_pos hzero]
      omega
    · rw [if_neg hzero, List.getElem?_eq_getElem (by omega)]
      dsimp only
      by_cases hmid : lo + len / 2 < as.length
      · have hmem : (as ++ bs)[lo + len / 2] ∈ as := by
          rw [List.getElem_append_left hmid]
          exact List.getElem_mem hmid
        rw [has _ hmem, if_neg Bool.false_ne_true]
        exact ih (by omega) (by omega) (by omega) (by omega)
      · have hmem : (as ++ bs)[lo + len / 2] ∈ bs := by
          rw [List.getElem_append_right (by omega)]
          exact List.getElem_mem _
        rw [hbs _ hmem, if_pos rfl]
        exact ih (by omega) (by omega) (by omega) (by omega)

/-! ## Section 2: Packed pieces -/

section Pieces

variable (first stop : α → Nat)

/-- The last piece that begins at or before `c`, if it reaches beyond `c`. -/
def find (xs : List α) (c : Nat) : Option α :=
  match upperBound (fun x => decide (c < first x)) xs xs.length 0 xs.length with
  | 0 => none
  | i + 1 => xs[i]?.filter fun x => decide (c < stop x)

/-- The pieces fill the numbers from `a` up to `b`. -/
def Packed : Nat → List α → Nat → Prop
  | a, [], b => a = b
  | a, x :: xs, b => first x = a ∧ a < stop x ∧ Packed (stop x) xs b

/-- Pieces that begin at or before `c` in front of pieces that begin past it. -/
theorem find_split {as bs : List α} {c : Nat} (has : ∀ x ∈ as, first x ≤ c) (hbs : ∀ x ∈ bs, c < first x) :
    find first stop (as ++ bs) c =
      as.getLast?.filter fun x => decide (c < stop x) := by
  have hbound : upperBound (fun x => decide (c < first x)) (as ++ bs) (as ++ bs).length 0
      (as ++ bs).length = as.length := by
    refine upperBound_eq ?_ ?_ (Nat.le_refl _) (Nat.zero_le _) ?_ (by omega)
    · exact fun x hx => decide_eq_false (Nat.not_lt.mpr (has x hx))
    · exact fun x hx => decide_eq_true (hbs x hx)
    · rw [List.length_append]
      omega
  rw [find, hbound]
  rcases List.eq_nil_or_concat as with rfl | ⟨as', x, rfl⟩
  · rfl
  · rw [List.concat_eq_append, List.length_append, List.length_singleton]
    simp

variable {first stop} {xs : List α} {a b c : Nat}

theorem Packed.le (h : Packed first stop a xs b) : a ≤ b := by
  induction xs generalizing a with
  | nil => exact Nat.le_of_eq h
  | cons x xs ih =>
    obtain ⟨-, hlt, hrest⟩ := h
    have hle := ih hrest
    omega

theorem Packed.mem (h : Packed first stop a xs b) {x : α} (hx : x ∈ xs) :
    a ≤ first x ∧ first x < stop x ∧ stop x ≤ b := by
  induction xs generalizing a with
  | nil => cases hx
  | cons y xs ih =>
    obtain ⟨hfirst, hlt, hrest⟩ := h
    have hle := hrest.le
    rcases List.mem_cons.mp hx with rfl | hx
    · omega
    · have hin := ih hrest hx
      omega

theorem Packed.append {ys : List α} (h : Packed first stop a (xs ++ ys) b) :
    ∃ m, Packed first stop a xs m ∧ Packed first stop m ys b := by
  induction xs generalizing a with
  | nil => exact ⟨a, rfl, h⟩
  | cons x xs ih =>
    obtain ⟨hfirst, hlt, hrest⟩ := h
    obtain ⟨m, hxs, hys⟩ := ih hrest
    exact ⟨m, ⟨hfirst, hlt, hxs⟩, hys⟩

/-- A number inside of a piece. -/
theorem find_mem (h : Packed first stop a xs b) {x : α} (hx : x ∈ xs) (hlo : first x ≤ c)
    (hhi : c < stop x) : find first stop xs c = some x := by
  obtain ⟨as, bs, rfl⟩ := List.append_of_mem hx
  obtain ⟨m, has, hfirst, hlt, hbs⟩ := h.append
  have hbefore : ∀ y ∈ as ++ [x], first y ≤ c := by
    intro y hy
    rcases List.mem_append.mp hy with hy | hy
    · have hin := has.mem hy
      omega
    · rwa [List.mem_singleton.mp hy]
  have hafter : ∀ y ∈ bs, c < first y := by
    intro y hy
    have hin := hbs.mem hy
    omega
  have hsplit := find_split first stop hbefore hafter
  rw [List.append_assoc, List.singleton_append] at hsplit
  rw [hsplit, List.getLast?_concat, Option.filter, if_pos (decide_eq_true hhi)]

/-- A number outside of all pieces. -/
theorem find_out (h : Packed first stop a xs b) (hc : c < a ∨ b ≤ c) :
    find first stop xs c = none := by
  have hnone : ∀ y ∈ ([] : List α), False := fun y hy => nomatch hy
  rcases hc with hc | hc
  · have hafter : ∀ y ∈ xs, c < first y := fun y hy => Nat.lt_of_lt_of_le hc (h.mem hy).1
    exact find_split first stop (fun y hy => (hnone y hy).elim) hafter
  · have hbefore : ∀ y ∈ xs, first y ≤ c := by
      intro y hy
      have hin := h.mem hy
      omega
    have hsplit := find_split first stop hbefore fun y hy => (hnone y hy).elim
    rw [List.append_nil] at hsplit
    rw [hsplit]
    cases hlast : xs.getLast? with
    | none => rfl
    | some x =>
      have hin := h.mem (List.mem_of_getLast? hlast)
      rw [Option.filter, if_neg]
      simp only [decide_eq_true_eq]
      omega

/-- Every number between the ends is in a piece. -/
theorem Packed.cover (h : Packed first stop a xs b) (hlo : a ≤ c) (hhi : c < b) :
    ∃ x ∈ xs, first x ≤ c ∧ c < stop x := by
  induction xs generalizing a with
  | nil =>
    obtain rfl : a = b := h
    omega
  | cons x xs ih =>
    obtain ⟨hfirst, hlt, hrest⟩ := h
    by_cases hc : c < stop x
    · exact ⟨x, List.mem_cons_self .., by omega, hc⟩
    · obtain ⟨y, hy, hin⟩ := ih hrest (by omega)
      exact ⟨y, List.mem_cons_of_mem _ hy, hin⟩

/-- What is found holds the number. -/
theorem find_some (h : Packed first stop a xs b) {x : α} (hx : find first stop xs c = some x) :
    x ∈ xs ∧ first x ≤ c ∧ c < stop x := by
  by_cases hin : a ≤ c ∧ c < b
  · obtain ⟨y, hy, hlo, hhi⟩ := h.cover hin.1 hin.2
    obtain rfl := Option.some.inj (hx.symm.trans (find_mem h hy hlo hhi))
    exact ⟨hy, hlo, hhi⟩
  · rw [find_out h (by omega)] at hx
    cases hx

/-- No number is in two pieces. -/
theorem Packed.inj (h : Packed first stop a xs b) {x y : α} (hx : x ∈ xs) (hy : y ∈ xs)
    (hcx : first x ≤ c ∧ c < stop x) (hcy : first y ≤ c ∧ c < stop y) :
    x = y := by
  have hfx := find_mem h hx hcx.1 hcx.2
  have hfy := find_mem h hy hcy.1 hcy.2
  exact Option.some.inj (hfx.symm.trans hfy)

end Pieces

end Extents
