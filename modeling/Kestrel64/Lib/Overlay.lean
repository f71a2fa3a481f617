import Mathlib.Logic.Function.Basic
import Mathlib.Data.List.Basic

/-! # Overlays

    A write to a memory `Nat → α` that does not depend on what was there is an
    *overlay*: the value it puts at each address, or nothing. `paint` makes
    one, `paintAll` makes a list of them in order.

    * Making the first part of a list once more before the whole list changes
      nothing (`paintAll_again`).
    * `chunkLoop` is a loop that copies a row in blocks, as long as the next
      discontinuity allows. It is the overlay of the whole row
      (`chunkLoop_eq_paint`), whatever the blocks were.
    * `rowsPart` is a transfer of several rows.
-/

namespace Overlay

universe u

variable {α : Type u}

/-- Write `o` over `f`. -/
def paint (o : Nat → Option α) (f : Nat → α) : Nat → α := fun x => (o x).getD (f x)

def paintAll (os : List (Nat → Option α)) (f : Nat → α) : Nat → α :=
  os.foldl (fun f o => paint o f) f

@[simp] theorem paintAll_nil (f : Nat → α) : paintAll [] f = f := rfl

@[simp] theorem paintAll_cons (o : Nat → Option α) (os : List (Nat → Option α)) (f : Nat → α) :
    paintAll (o :: os) f = paintAll os (paint o f) := rfl

theorem paintAll_append (os ps : List (Nat → Option α)) (f : Nat → α) :
    paintAll (os ++ ps) f = paintAll ps (paintAll os f) := List.foldl_append

/-- What is painted at an address depends on what was at that address only. -/
theorem paintAll_congr (os : List (Nat → Option α)) {f g : Nat → α} {x : Nat} (h : f x = g x) :
    paintAll os f x = paintAll os g x := by
  induction os generalizing f g with
  | nil => exact h
  | cons o os ih =>
    refine ih ?_
    show (o x).getD (f x) = (o x).getD (g x)
    rw [h]

theorem paintAll_of_none {os : List (Nat → Option α)} {f : Nat → α} {x : Nat}
    (h : ∀ o ∈ os, o x = none) : paintAll os f x = f x := by
  induction os generalizing f with
  | nil => rfl
  | cons o os ih =>
    rw [List.forall_mem_cons] at h
    rw [paintAll_cons, ih h.2, paint, h.1]
    rfl

/-- An address some overlay writes ends with what the last of them puts
    there, whatever was there before. -/
theorem paintAll_of_some {os : List (Nat → Option α)} {f g : Nat → α} {x : Nat}
    (h : ∃ o ∈ os, o x ≠ none) : paintAll os f x = paintAll os g x := by
  induction os generalizing f g with
  | nil => simp at h
  | cons o os ih =>
    by_cases hx : o x = none
    · obtain ⟨p, hp, hpx⟩ := h
      rcases List.mem_cons.mp hp with rfl | hp
      · exact absurd hx hpx
      · exact ih ⟨p, hp, hpx⟩
    · refine paintAll_congr os ?_
      obtain ⟨a, ha⟩ := Option.ne_none_iff_exists'.mp hx
      simp [paint, ha]

/-- Painting a prefix first and then everything. -/
theorem paintAll_again (os ps : List (Nat → Option α)) (f : Nat → α) :
    paintAll (os ++ ps) (paintAll os f) = paintAll (os ++ ps) f := by
  funext x
  by_cases h : ∃ o ∈ os, o x ≠ none
  · obtain ⟨o, ho, hx⟩ := h
    exact paintAll_of_some ⟨o, List.mem_append_left _ ho, hx⟩
  · push Not at h
    exact paintAll_congr _ (paintAll_of_none h)

/-! ### Rows copied in blocks -/

/-- Element `k` of a row lands at the addresses `x` with `idx x = some k`. The
    part of the row from element `i` to element `j`. -/
def part (idx : Nat → Option Nat) (v : Nat → α) (i j : Nat) : Nat → Option α :=
  fun x => (idx x).bind fun k => if i ≤ k ∧ k < j then some (v k) else none

@[simp] theorem paint_part_self (idx : Nat → Option Nat) (v : Nat → α) (i : Nat) (f : Nat → α) :
    paint (part idx v i i) f = f := by
  funext x
  have hno : ∀ k, ¬ (i ≤ k ∧ k < i) := by
    intro k
    omega
  cases hx : idx x <;> simp [paint, part, hx, hno]

theorem paint_part_part {idx : Nat → Option Nat} {v : Nat → α} {i j k : Nat} (hij : i ≤ j)
    (hjk : j ≤ k) (f : Nat → α) :
    paint (part idx v j k) (paint (part idx v i j) f) = paint (part idx v i k) f := by
  funext x
  unfold paint part
  cases idx x with
  | none => rfl
  | some m =>
    by_cases h1 : m < j
    · simp [show ¬ j ≤ m by omega, h1, show m < k by omega]
    · simp [h1, show j ≤ m by omega, show i ≤ m by omega]

/-- Element `k` of a row that starts at `base` lands at `base + k`, if that is
    inside the window `[lo, hi)`. -/
def spanIdx (base lo hi x : Nat) : Option Nat :=
  if base ≤ x ∧ lo ≤ x ∧ x < hi then some (x - base) else none

/-- Rows `c₀` to `c₁` of a transfer: `length` elements each, every `stride`,
    the first row at `base`. Inside the window they take the elements `v` in
    turn. -/
def rowsPart (lo hi base length stride : Nat) (v : Nat → α) (c₀ c₁ : Nat) : Nat → Option α :=
  fun x =>
    if base ≤ x ∧ lo ≤ x ∧ x < hi ∧ c₀ ≤ (x - base) / stride ∧ (x - base) / stride < c₁ ∧
        (x - base) % stride < length then
      some (v ((x - base) / stride * length + (x - base) % stride))
    else none

theorem part_spanIdx (lo hi base : Nat) {length stride : Nat} (c : Nat) (v : Nat → α) (hpos : 0 < stride)
    (hls : length ≤ stride) :
    part (spanIdx (base + c * stride) lo hi) (fun k => v (c * length + k)) 0 length =
      rowsPart lo hi base length stride v c (c + 1) := by
  funext x
  unfold part spanIdx rowsPart
  by_cases hx : base + c * stride ≤ x
  · obtain ⟨y, rfl⟩ := Nat.exists_eq_add_of_le hx
    have hsub : base + c * stride + y - base = c * stride + y := by omega
    have hsub' : base + c * stride + y - (base + c * stride) = y := by omega
    have hb : base ≤ base + c * stride + y := by omega
    rw [hsub, hsub']
    by_cases hy : y < stride
    · have hdiv : (c * stride + y) / stride = c := by
        rw [Nat.mul_comm, Nat.mul_add_div (by omega), Nat.div_eq_of_lt hy, Nat.add_zero]
      have hmod : (c * stride + y) % stride = y := by
        rw [Nat.mul_comm, Nat.mul_add_mod, Nat.mod_eq_of_lt hy]
      rw [hdiv, hmod]
      by_cases hw : lo ≤ base + c * stride + y ∧ base + c * stride + y < hi
      · simp [hw, hb]
      · simp [hw, hb]
        intro h1 h2
        exact absurd ⟨h1, h2⟩ hw
    · -- past the end of the row, in a later one or between two
      have hdiv : c + 1 ≤ (c * stride + y) / stride := by
        rw [Nat.le_div_iff_mul_le hpos, Nat.succ_mul]
        omega
      have hno : ¬ y < length := by omega
      have hno' : ¬ (c * stride + y) / stride < c + 1 := by omega
      simp only [hno', false_and, and_false, if_false]
      split <;> simp [hno]
  · have hno : ¬ (base ≤ x ∧ lo ≤ x ∧ x < hi ∧ c ≤ (x - base) / stride ∧
        (x - base) / stride < c + 1 ∧ (x - base) % stride < length) := by
      rintro ⟨h1, -, -, h2, -, -⟩
      have := Nat.mul_le_of_le_div stride c (x - base) h2
      omega
    rw [if_neg hno, if_neg (by omega)]
    rfl

/-- Only the elements of the rows matter. -/
theorem rowsPart_congr {lo hi base length stride : Nat} {v w : Nat → α} {c₀ c₁ : Nat}
    (h : ∀ j < length * c₁, v j = w j) :
    rowsPart lo hi base length stride v c₀ c₁ = rowsPart lo hi base length stride w c₀ c₁ := by
  funext x
  unfold rowsPart
  split
  · next hx =>
    have hj : (x - base) / stride * length + (x - base) % stride < length * c₁ := by
      have := Nat.mul_le_mul_left length (show (x - base) / stride + 1 ≤ c₁ from hx.2.2.2.2.1)
      rw [Nat.mul_succ, Nat.mul_comm] at this
      omega
    rw [h _ hj]
  · rfl

/-- A transfer stays inside its window and its span. -/
theorem of_rowsPart {lo hi base length stride c : Nat} {v : Nat → α} {x : Nat}
    (hpos : 0 < stride) (h : rowsPart lo hi base length stride v 0 c x ≠ none) :
    base ≤ x ∧ x < base + stride * c ∧ lo ≤ x ∧ x < hi := by
  unfold rowsPart at h
  split at h
  · next hx =>
    have := (Nat.div_lt_iff_lt_mul hpos).mp hx.2.2.2.2.1
    rw [Nat.mul_comm] at this
    omega
  · simp at h

theorem paint_rowsPart {lo hi base length stride : Nat} {v : Nat → α} {a b c : Nat} (hab : a ≤ b)
    (hbc : b ≤ c) (f : Nat → α) :
    paint (rowsPart lo hi base length stride v b c)
        (paint (rowsPart lo hi base length stride v a b) f) =
      paint (rowsPart lo hi base length stride v a c) f := by
  funext x
  unfold paint rowsPart
  by_cases hx : base ≤ x ∧ lo ≤ x ∧ x < hi ∧ (x - base) % stride < length
  · by_cases h1 : (x - base) / stride < b
    · have h2 : ¬ b ≤ (x - base) / stride := by omega
      have h3 : (x - base) / stride < c := by omega
      simp [hx, h1, h2, h3]
    · have h2 : a ≤ (x - base) / stride := by omega
      have h3 : b ≤ (x - base) / stride := by omega
      simp [hx, h1, h2, h3]
  · have hno : ∀ m n, ¬ (base ≤ x ∧ lo ≤ x ∧ x < hi ∧ m ≤ (x - base) / stride ∧
        (x - base) / stride < n ∧ (x - base) % stride < length) := by
      rintro m n ⟨h1, h2, h3, -, -, h4⟩
      exact hx ⟨h1, h2, h3, h4⟩
    rw [if_neg (hno b c), if_neg (hno a b), if_neg (hno a c)]
    rfl

@[simp] theorem paint_rowsPart_self (lo hi base length stride : Nat) (v : Nat → α) (c : Nat)
    (f : Nat → α) : paint (rowsPart lo hi base length stride v c c) f = f := by
  funext x
  unfold paint rowsPart
  rw [if_neg (by omega)]
  rfl

/-- `while(i < len) { n = min(len - i, lim i); body; i += n; }` -/
def chunkLoop {σ : Type u} (lim : Nat → Nat) (body : Nat → Nat → σ → σ) (len i : Nat) (s : σ) :
    σ :=
  if i < len ∧ 0 < lim i then
    let n := min (len - i) (lim i)
    chunkLoop lim body len (i + n) (body i n s)
  else s
termination_by len - i

/-- A loop whose blocks are parts of a row copies the row. -/
theorem chunkLoop_eq_paint {lim : Nat → Nat} {body : Nat → Nat → (Nat → α) → Nat → α} {len : Nat}
    {idx : Nat → Option Nat} {v : Nat → α} (hlim : ∀ i < len, 0 < lim i)
    (hbody : ∀ i n f, 0 < n → n ≤ lim i → i + n ≤ len →
      body i n f = paint (part idx v i (i + n)) f) (f : Nat → α) {i : Nat} (hi : i ≤ len) :
    chunkLoop lim body len i f = paint (part idx v i len) f := by
  fun_induction chunkLoop lim body len i f with
  | case1 i f h n ih =>
    have hn : 0 < n ∧ n ≤ lim i ∧ i + n ≤ len := by omega
    rw [ih hn.2.2, hbody i n f hn.1 hn.2.1 hn.2.2,
      paint_part_part (Nat.le_add_right i n) hn.2.2]
  | case2 i f h =>
    have hil : i = len := by
      by_contra hne
      exact h ⟨by omega, hlim i (by omega)⟩
    rw [hil, paint_part_self]

/-! ### Blocks against single steps -/

section Block

variable {σ : Type u} {n : Nat → Nat} {body : Nat → Nat → σ → σ} {step : σ → Nat → σ} {len : Nat}

/-- `for(i < len) { body; i += n; }`, with fuel. -/
def blockLoop (n : Nat → Nat) (body : Nat → Nat → σ → σ) (len : Nat) : Nat → Nat → σ → Option σ
  | 0, i, s => if i < len then none else some s
  | fuel + 1, i, s =>
    if i < len then blockLoop n body len fuel (i + n i) (body i (n i) s) else some s

/-- A loop whose blocks are so many single steps ends, and takes all the
    steps. -/
theorem blockLoop_eq_foldl (hpos : ∀ i < len, 0 < n i) (hle : ∀ i < len, i + n i ≤ len)
    (hbody : ∀ i < len, ∀ s, body i (n i) s = (List.range' i (n i)).foldl step s) {fuel i : Nat}
    (hi : i ≤ len) (hfuel : len - i ≤ fuel) (s : σ) :
    blockLoop n body len fuel i s = some ((List.range' i (len - i)).foldl step s) := by
  have hend {i : Nat} (hi : ¬ i < len) (s : σ) :
      some s = some ((List.range' i (len - i)).foldl step s) := by
    rw [show len - i = 0 by omega]
    rfl
  induction fuel generalizing i s with
  | zero =>
    have hdone : ¬ i < len := by omega
    unfold blockLoop
    rw [if_neg hdone]
    exact hend hdone s
  | succ fuel ih =>
    unfold blockLoop
    split_ifs with hlt
    · have hn := hpos i hlt
      have hin := hle i hlt
      have hsplit : List.range' i (len - i) =
          List.range' i (n i) ++ List.range' (i + n i) (len - (i + n i)) := by
        rw [List.range'_append_1]
        congr 1
        omega
      rw [ih hin (by omega), hbody i hlt, hsplit, List.foldl_append]
    · exact hend hlt s

end Block

end Overlay
