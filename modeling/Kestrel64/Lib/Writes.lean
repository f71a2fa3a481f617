import Mathlib.Data.List.Basic
import Mathlib.Data.List.Lattice
import Mathlib.Logic.Function.Basic

/-! # Lists of Writes

    A memory is a function of its cells. A list of writes is made in its order.

    * `write_write` — a list covers up what another one wrote in its cells.
    * `write_comm` — lists that have no cell in common may be swapped.
-/

namespace Writes

universe u v

variable {ι : Type u} {α : Type v} [DecidableEq ι]

def write (ws : List (ι × α)) (m : ι → α) : ι → α :=
  ws.foldl (fun m w => Function.update m w.1 w.2) m

def cells (ws : List (ι × α)) : List ι := ws.map Prod.fst

variable {ws vs : List (ι × α)} {m m' : ι → α} {a : ι}

@[simp] theorem write_nil (m : ι → α) : write [] m = m := rfl

theorem write_cons (w : ι × α) (ws : List (ι × α)) (m : ι → α) :
    write (w :: ws) m = write ws (Function.update m w.1 w.2) := rfl

theorem write_append (ws vs : List (ι × α)) (m : ι → α) :
    write (ws ++ vs) m = write vs (write ws m) := List.foldl_append

omit [DecidableEq ι] in
@[simp] theorem cells_append (ws vs : List (ι × α)) : cells (ws ++ vs) = cells ws ++ cells vs :=
  List.map_append

theorem write_of_notMem (h : a ∉ cells ws) : write ws m a = m a := by
  induction ws generalizing m with
  | nil => rfl
  | cons w ws ih =>
    obtain ⟨hw, hws⟩ := List.ne_and_not_mem_of_not_mem_cons h
    rw [write_cons, ih hws, Function.update_of_ne hw]

/-- What a cell ends with depends on what was in that cell only. -/
theorem write_congr (h : m a = m' a) : write ws m a = write ws m' a := by
  induction ws generalizing m m' with
  | nil => exact h
  | cons w ws ih =>
    rw [write_cons, write_cons]
    refine ih ?_
    by_cases hw : a = w.1
    · rw [hw, Function.update_self, Function.update_self]
    · rw [Function.update_of_ne hw, Function.update_of_ne hw, h]

/-- In a cell of the list it does not matter what was there. -/
theorem write_of_mem (h : a ∈ cells ws) : write ws m a = write ws m' a := by
  induction ws generalizing m m' with
  | nil => exact absurd h List.not_mem_nil
  | cons w ws ih =>
    by_cases hw : a = w.1
    · rw [write_cons, write_cons]
      refine write_congr ?_
      rw [hw, Function.update_self, Function.update_self]
    · exact ih ((List.mem_cons.mp h).resolve_left hw)

theorem write_write (h : cells vs ⊆ cells ws) (m : ι → α) :
    write ws (write vs m) = write ws m := by
  funext a
  by_cases ha : a ∈ cells ws
  · exact write_of_mem ha
  · rw [write_of_notMem ha, write_of_notMem ha, write_of_notMem fun hv => ha (h hv)]

theorem write_comm (h : (cells ws).Disjoint (cells vs)) (m : ι → α) :
    write ws (write vs m) = write vs (write ws m) := by
  funext a
  by_cases hws : a ∈ cells ws
  · have hvs : a ∉ cells vs := fun hvs => h hws hvs
    rw [write_of_notMem hvs, write_congr (write_of_notMem hvs)]
  · rw [write_of_notMem hws]
    exact (write_congr (write_of_notMem hws)).symm

end Writes
