import Mathlib.Data.List.Basic
import Mathlib.Data.List.TakeWhile

/-! # Units

    A stream of words holds units one behind the other. The first word of a
    unit tells how many words it has, and the last unit may be incomplete.

    * `cut` takes the units off the front of a list, and leaves the rest.
    * `cut_append` — a stream can be cut as it arrives: what is left of the first
      part goes before the second.
    * `span` reads the words of a memory between two places, eight bytes each.
-/

universe u

namespace Units

variable {W : Type u}

/-! ## Section 1: Cutting a list -/

/-- At most `n` units, and what is left. -/
def cut (len : W → Nat) : Nat → List W → List (List W) × List W
  | 0, xs => ([], xs)
  | _ + 1, [] => ([], [])
  | n + 1, w :: ws =>
    if len w ≤ (w :: ws).length then
      let r := cut len n ((w :: ws).drop (len w))
      ((w :: ws).take (len w) :: r.1, r.2)
    else ([], w :: ws)

section Cut

variable {len : W → Nat}

@[simp] theorem cut_nil (n : Nat) : cut len n [] = ([], []) := by
  cases n <;> rfl

/-- A unit and the rest of the list. -/
theorem cut_cons_le {n : Nat} {w : W} {ws : List W} (h : len w ≤ (w :: ws).length) :
    cut len (n + 1) (w :: ws) =
      ((w :: ws).take (len w) :: (cut len n ((w :: ws).drop (len w))).1,
        (cut len n ((w :: ws).drop (len w))).2) := if_pos h

/-- A unit that is not complete. -/
theorem cut_cons_lt {n : Nat} {w : W} {ws : List W} (h : (w :: ws).length < len w) :
    cut len n (w :: ws) = ([], w :: ws) := by
  cases n with
  | zero => rfl
  | succ n => exact if_neg (by omega)

/-- Nothing is lost. -/
theorem cut_flatten (n : Nat) (xs : List W) : (cut len n xs).1.flatten ++ (cut len n xs).2 = xs := by
  fun_induction cut len n xs with
  | case1 xs => rfl
  | case2 n => rfl
  | case3 n w ws hle r ih =>
    rw [List.flatten_cons, List.append_assoc, ih]
    exact List.take_append_drop _ _
  | case4 n w ws hlt => rfl

/-- What is left is the end of the list. -/
theorem cut_rest (n : Nat) (xs : List W) :
    (cut len n xs).2.length ≤ xs.length ∧
      (cut len n xs).2 = xs.drop (xs.length - (cut len n xs).2.length) := by
  have hall := @cut_flatten _ len n xs
  have hlen := congrArg List.length hall
  rw [List.length_append] at hlen
  refine ⟨by omega, ?_⟩
  conv_rhs => rw [← hall]
  exact (List.drop_left' (by rw [hall]; omega)).symm

variable (hlen : ∀ w, 0 < len w)
include hlen

/-- What is left is shorter than the unit it begins, if no other limit stops
    the cutting. -/
theorem cut_rest_lt {n : Nat} {xs : List W} (hn : xs.length ≤ n) :
    ∀ w ∈ (cut len n xs).2.head?, (cut len n xs).2.length < len w := by
  fun_induction cut len n xs with
  | case1 xs => simp [List.length_eq_zero_iff.mp (Nat.le_zero.mp hn)]
  | case2 n => simp
  | case3 n w ws hle r ih =>
    have hpos := hlen w
    refine ih ?_
    rw [List.length_drop]
    omega
  | case4 n w ws hlt =>
    simp only [List.head?_cons, Option.mem_some_iff, forall_eq']
    omega

/-- More than enough rounds change nothing. -/
theorem cut_enough {m n : Nat} {xs : List W} (hm : xs.length ≤ m) (hn : xs.length ≤ n) :
    cut len m xs = cut len n xs := by
  induction m generalizing n xs with
  | zero => rw [List.length_eq_zero_iff.mp (Nat.le_zero.mp hm), cut_nil, cut_nil]
  | succ m ih =>
    cases xs with
    | nil => rw [cut_nil, cut_nil]
    | cons w ws =>
      have hpos := hlen w
      by_cases hle : len w ≤ (w :: ws).length
      · obtain ⟨n, rfl⟩ := Nat.exists_eq_succ_of_ne_zero (show n ≠ 0 by simp at hn; omega)
        rw [cut_cons_le hle, cut_cons_le hle, ih (n := n)]
        · rw [List.length_drop]
          omega
        · rw [List.length_drop]
          omega
      · rw [cut_cons_lt (by omega), cut_cons_lt (by omega)]

/-- **Cutting.** A stream in two parts: what the first leaves comes before the
    second. -/
theorem cut_append {n : Nat} {xs ys : List W} (hn : xs.length + ys.length ≤ n) :
    cut len n (xs ++ ys) =
      ((cut len n xs).1 ++ (cut len n ((cut len n xs).2 ++ ys)).1,
        (cut len n ((cut len n xs).2 ++ ys)).2) := by
  fun_induction cut len n xs with
  | case1 xs =>
    obtain rfl := List.length_eq_zero_iff.mp (show xs.length = 0 by omega)
    rfl
  | case2 n => rfl
  | case3 n w ws hle r ih =>
    have hpos := hlen w
    have hfit : len w ≤ (w :: (ws ++ ys)).length := by
      rw [← List.cons_append, List.length_append]
      omega
    have hshort : ((w :: ws).drop (len w)).length + ys.length ≤ n := by
      rw [List.length_drop]
      omega
    have hrest : r.2.length ≤ ((w :: ws).drop (len w)).length := (cut_rest n _).1
    -- a round has been used up
    have hmore : cut len (n + 1) (r.2 ++ ys) = cut len n (r.2 ++ ys) := by
      refine cut_enough hlen ?_ ?_ <;> rw [List.length_append] <;> omega
    rw [List.cons_append, cut_cons_le hfit, ← List.cons_append, List.drop_append_of_le_length hle,
      List.take_append_of_le_length hle, ih hshort, hmore]
    rfl
  | case4 n w ws hlt => rfl

end Cut

/-! ## Section 2: Memory -/

/-- The words from `lo` to `hi`. -/
def span (fetch : Nat → W) (lo hi : Nat) : List W :=
  (List.range ((hi - lo) / 8)).map fun i => fetch (lo + 8 * i)

section Span

variable {fetch fetch' : Nat → W} {lo mid hi : Nat}

@[simp] theorem length_span : (span fetch lo hi).length = (hi - lo) / 8 := by
  rw [span, List.length_map, List.length_range]

theorem span_nil (h : hi ≤ lo) : span fetch lo hi = [] := by
  rw [span, Nat.sub_eq_zero_of_le h]
  rfl

theorem span_congr (h : ∀ i < (hi - lo) / 8, fetch (lo + 8 * i) = fetch' (lo + 8 * i)) :
    span fetch lo hi = span fetch' lo hi :=
  List.map_congr_left fun i hi => h i (List.mem_range.mp hi)

theorem drop_span (k : Nat) : (span fetch lo hi).drop k = span fetch (lo + 8 * k) hi := by
  unfold span
  refine List.ext_getElem ?_ fun i _ _ => ?_
  · rw [List.length_drop, List.length_map, List.length_map, List.length_range, List.length_range]
    omega
  · rw [List.getElem_drop, List.getElem_map, List.getElem_map, List.getElem_range,
      List.getElem_range, Nat.mul_add, Nat.add_assoc]

theorem take_span {k : Nat} (h : k ≤ (hi - lo) / 8) :
    (span fetch lo hi).take k = (List.range k).map fun i => fetch (lo + 8 * i) := by
  unfold span
  rw [← List.map_take, List.take_range, Nat.min_eq_left h]

theorem span_append (hlo : lo % 8 = 0) (hmid : mid % 8 = 0) (h : lo ≤ mid) (h' : mid ≤ hi) :
    span fetch lo hi = span fetch lo mid ++ span fetch mid hi := by
  have htake : (span fetch lo hi).take ((mid - lo) / 8) = span fetch lo mid := take_span (by omega)
  have hdrop := @drop_span _ fetch lo hi ((mid - lo) / 8)
  rw [show lo + 8 * ((mid - lo) / 8) = mid by omega] at hdrop
  rw [← htake, ← hdrop, List.take_append_drop]

end Span

end Units
