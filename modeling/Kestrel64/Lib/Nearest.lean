import Mathlib.Order.MinMax

/-! # The Nearest of Many

    A picture of cells, each with a key. A mark has a place and a key, and is
    drawn if its key is less than that of the cell. A cell with the greatest
    key is empty; it may take any mark (`fills`). A mark that is drawn takes
    the cell over as a whole.

    * `step_comm`, `foldl_perm` — the order of the marks does not matter, if
      two marks for one cell have two keys.
    * `draw_foldl` — every cell shows the mark that has it: to draw that one
      once more changes nothing.

    `Painting` says what a picture has to be like, so that a picture may be
    anything: a function, a memory, or an abstraction of one.
-/

namespace Nearest

universe u v w x

variable {σ : Type u} {φ : Type v} {ι : Type w} {κ : Type x} [LinearOrder κ]

/-- Drawing marks `φ` into pictures `σ`, with a cell for each place `ι`. -/
structure Painting (σ : Type u) (φ : Type v) (ι : Type w) (κ : Type x) [LinearOrder κ] where
  place : φ → ι
  key : φ → κ
  /-- The key of an empty cell. -/
  top : κ
  /-- An empty cell takes a mark that has the greatest key as well. -/
  fills : Bool
  code : ι → σ → κ
  draw : φ → σ → σ
  key_le : ∀ f, key f ≤ top
  code_draw : ∀ f s, code (place f) (draw f s) = key f
  code_other : ∀ {f i} s, i ≠ place f → code i (draw f s) = code i s
  draw_draw : ∀ {f g} s, place f = place g → draw f (draw g s) = draw f s
  draw_comm : ∀ {f g} s, place f ≠ place g → draw f (draw g s) = draw g (draw f s)

namespace Painting

variable (P : Painting σ φ ι κ)

def Passes (f : φ) (s : σ) : Prop :=
  (P.fills = true ∧ P.code (P.place f) s = P.top) ∨ P.key f < P.code (P.place f) s

instance (f : φ) (s : σ) : Decidable (P.Passes f s) := instDecidableOr

def step (s : σ) (f : φ) : σ := if P.Passes f s then P.draw f s else s

variable {P} {f g : φ} {s : σ} {i : ι}

theorem code_step_self : P.code (P.place f) (P.step s f) =
    if P.Passes f s then P.key f else P.code (P.place f) s := by
  unfold step
  split_ifs
  · exact P.code_draw f s
  · rfl

theorem code_step_other (h : i ≠ P.place f) : P.code i (P.step s f) = P.code i s := by
  unfold step
  split_ifs
  · exact P.code_other s h
  · rfl

theorem passes_congr {s' : σ} (h : P.code (P.place f) s' = P.code (P.place f) s) :
    P.Passes f s' ↔ P.Passes f s := by
  unfold Passes
  rw [h]

/-! ### Two marks in one cell -/

/-- What passes behind `f` passes in front of it. -/
theorem Passes.of_lt (hplace : P.place f = P.place g) (hkey : P.key f < P.key g)
    (h : P.Passes g s) : P.Passes f s := by
  unfold Passes at h ⊢
  rw [hplace]
  exact h.imp_right hkey.trans

theorem not_passes_draw (hplace : P.place f = P.place g) (hkey : P.key f < P.key g) :
    ¬ P.Passes g (P.draw f s) := by
  unfold Passes
  rw [← hplace, P.code_draw]
  rintro (⟨-, htop⟩ | hlt)
  · exact absurd (htop ▸ hkey) (not_lt.mpr (P.key_le g))
  · exact lt_asymm hkey hlt

theorem passes_draw (hplace : P.place f = P.place g) (hkey : P.key f < P.key g) :
    P.Passes f (P.draw g s) := by
  unfold Passes
  rw [hplace, P.code_draw]
  exact .inr hkey

/-- The nearer mark wins, in either order. -/
theorem step_comm_lt (hplace : P.place f = P.place g) (hkey : P.key f < P.key g) :
    P.step (P.step s f) g = P.step (P.step s g) f := by
  unfold step
  by_cases hf : P.Passes f s
  · rw [if_pos hf, if_neg (not_passes_draw hplace hkey)]
    by_cases hg : P.Passes g s
    · rw [if_pos hg, if_pos (passes_draw hplace hkey), P.draw_draw s hplace]
    · rw [if_neg hg, if_pos hf]
  · have hg : ¬ P.Passes g s := fun hg => hf (hg.of_lt hplace hkey)
    rw [if_neg hf, if_neg hg, if_neg hf]

theorem step_comm_place (hplace : P.place f ≠ P.place g) :
    P.step (P.step s f) g = P.step (P.step s g) f := by
  have hg : P.Passes g (P.step s f) ↔ P.Passes g s := passes_congr (code_step_other hplace.symm)
  have hf : P.Passes f (P.step s g) ↔ P.Passes f s := passes_congr (code_step_other hplace)
  rw [step, if_congr hg rfl rfl, step, step, if_congr hf rfl rfl, step]
  split_ifs
  · exact (P.draw_comm s hplace).symm
  · rfl
  · rfl
  · rfl

theorem step_comm (h : P.place f = P.place g → P.key f ≠ P.key g) :
    P.step (P.step s f) g = P.step (P.step s g) f := by
  by_cases hplace : P.place f = P.place g
  · rcases lt_or_gt_of_ne (h hplace) with hlt | hgt
    · exact step_comm_lt hplace hlt
    · exact (step_comm_lt hplace.symm hgt).symm
  · exact step_comm_place hplace

/-! ### Many marks -/

/-- **The order does not matter.** -/
theorem foldl_perm {l l' : List φ} (hperm : l.Perm l')
    (hkeys : ∀ f ∈ l, ∀ g ∈ l, f ≠ g → P.place f = P.place g → P.key f ≠ P.key g) (s : σ) :
    l.foldl P.step s = l'.foldl P.step s := by
  refine hperm.foldl_eq' (fun f hf g hg s => ?_) s
  by_cases hfg : f = g
  · rw [hfg]
  · exact step_comm (hkeys f hf g hg hfg)

/-- Another mark of the list leaves the nearest one where it is. -/
theorem draw_step (hshown : P.draw f s = s)
    (hnear : g ≠ f → P.place g = P.place f → P.key f < P.key g) :
    P.draw f (P.step s g) = P.step s g := by
  unfold step
  split_ifs with hpass
  · by_cases hplace : P.place g = P.place f
    · by_cases hgf : g = f
      · rw [hgf, P.draw_draw s rfl]
      · rw [← hshown] at hpass
        exact absurd hpass (not_passes_draw hplace.symm (hnear hgf hplace))
    · rw [P.draw_comm s (Ne.symm hplace), hshown]
  · exact hshown

/-- **Every cell shows its nearest mark.** -/
theorem draw_foldl {l : List φ} (hf : f ∈ l)
    (hnear : ∀ g ∈ l, g ≠ f → P.place g = P.place f → P.key f < P.key g)
    (hpass : P.key f < P.code (P.place f) s) : P.draw f (l.foldl P.step s) = l.foldl P.step s := by
  -- from the time it is drawn it stays
  have hstays (l : List φ) (s : σ) (hshown : P.draw f s = s)
      (hnear : ∀ g ∈ l, g ≠ f → P.place g = P.place f → P.key f < P.key g) :
      P.draw f (l.foldl P.step s) = l.foldl P.step s := by
    induction l generalizing s with
    | nil => exact hshown
    | cons g l ih =>
      rw [List.forall_mem_cons] at hnear
      exact ih _ (draw_step hshown hnear.1) hnear.2
  induction l generalizing s with
  | nil => exact absurd hf List.not_mem_nil
  | cons g l ih =>
    rw [List.forall_mem_cons] at hnear
    rw [List.foldl_cons]
    by_cases hgf : g = f
    · refine hstays l _ ?_ hnear.2
      rw [hgf, step, if_pos (show P.Passes f s from .inr hpass), P.draw_draw s rfl]
    · refine ih ((List.mem_cons.mp hf).resolve_left (Ne.symm hgf)) hnear.2 ?_
      by_cases hplace : P.place g = P.place f
      · rw [← hplace, code_step_self]
        split_ifs
        · exact hnear.1 hgf hplace
        · rwa [hplace]
      · rwa [code_step_other (Ne.symm hplace)]

end Painting

end Nearest
