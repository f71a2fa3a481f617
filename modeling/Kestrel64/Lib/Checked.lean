import Mathlib.Data.List.GetD
import Kestrel64.Lib.Patch

/-! # Checked Programs

    A program that checks every index: it stops with a fault where it would
    read or write outside of an array, or when a loop has used up its fuel.

    * `read`, `write`, `push` and `range` are the checked operations.
    * `Safe x P` says that `x` ends without a fault, with a result in `P`.
    * `Yields x P` says that `x` has no result outside of `P`.
-/

inductive Fault
  | index
  | fuel
  deriving DecidableEq, Repr

abbrev Checked := Except Fault

namespace Checked

open Patch

variable {α β : Type}

/-! ## Section 1: Operations -/

def read (xs : List α) (i : Nat) : Checked α :=
  match xs[i]? with
  | some x => .ok x
  | none => .error .index

def write (xs : List α) (i : Nat) (x : α) : Checked (List α) :=
  if i < xs.length then .ok (xs.set i x) else .error .index

/-- The next element of an array with room for `cap`, of which `xs` is filled. -/
def push (cap : Nat) (xs : List α) (x : α) : Checked (List α) :=
  if xs.length < cap then .ok (xs ++ [x]) else .error .index

/-- The elements from `i` up to `i + n`. -/
def range (xs : List α) (i n : Nat) : Checked (List α) :=
  if i + n ≤ xs.length then .ok (slice xs i n) else .error .index

/-- The difference of two unsigned numbers. -/
def minus (a b : Nat) : Checked Nat := if b ≤ a then .ok (a - b) else .error .index

@[simp] theorem ok_bind (a : α) (f : α → Checked β) : (Except.ok a >>= f) = f a := rfl

@[simp] theorem pure_eq (a : α) : (pure a : Checked α) = .ok a := rfl

theorem read_eq {xs : List α} {i : Nat} (h : i < xs.length) (d : α) :
    read xs i = .ok (xs.getD i d) := by
  rw [read, List.getElem?_eq_getElem h, List.getD_eq_getElem _ _ h]

theorem write_eq {xs : List α} {i : Nat} (h : i < xs.length) (x : α) :
    write xs i x = .ok (xs.set i x) := if_pos h

theorem push_eq {cap : Nat} {xs : List α} (h : xs.length < cap) (x : α) :
    push cap xs x = .ok (xs ++ [x]) := if_pos h

theorem range_eq {xs : List α} {i n : Nat} (h : i + n ≤ xs.length) :
    range xs i n = .ok (slice xs i n) := if_pos h

theorem minus_eq {a b : Nat} (h : b ≤ a) : minus a b = .ok (a - b) := if_pos h

/-- A fold over a list whose elements are all admissible. -/
theorem foldlM_eq {f : β → α → Checked β} {g : β → α → β} {P : β → Prop} {Q : α → Prop}
    (hstep : ∀ b a, P b → Q a → f b a = .ok (g b a) ∧ P (g b a)) {xs : List α}
    (hxs : ∀ x ∈ xs, Q x) {b : β} (hb : P b) :
    xs.foldlM f b = .ok (xs.foldl g b) ∧ P (xs.foldl g b) := by
  induction xs generalizing b with
  | nil => exact ⟨rfl, hb⟩
  | cons x xs ih =>
    rw [List.forall_mem_cons] at hxs
    obtain ⟨hok, hnext⟩ := hstep b x hb hxs.1
    obtain ⟨hrest, hend⟩ := ih hxs.2 hnext
    rw [List.foldlM_cons, hok, ok_bind, List.foldl_cons]
    exact ⟨hrest, hend⟩

/-! ## Section 2: Programs without a fault -/

/-- `x` ends without a fault, with a result in `P`. -/
def Safe (x : Checked α) (P : α → Prop) : Prop := ∃ a, x = .ok a ∧ P a

variable {x : Checked α} {P Q : α → Prop}

theorem Safe.ok {a : α} (h : P a) : Safe (.ok a) P := ⟨a, rfl, h⟩

theorem Safe.bind {R : β → Prop} {f : α → Checked β} (hx : Safe x P)
    (hf : ∀ a, P a → Safe (f a) R) : Safe (x >>= f) R := by
  obtain ⟨a, rfl, ha⟩ := hx
  exact hf a ha

theorem Safe.mono (hx : Safe x P) (h : ∀ a, P a → Q a) : Safe x Q := by
  obtain ⟨a, ha, hp⟩ := hx
  exact ⟨a, ha, h a hp⟩

theorem Safe.read {xs : List α} {i : Nat} (h : i < xs.length) : Safe (read xs i) fun _ => True := by
  rw [read_eq h xs[i]]
  exact .ok trivial

/-- A loop whose steps keep `I`. -/
theorem Safe.foldlM {I : β → Prop} {f : β → α → Checked β} {xs : List α}
    (hstep : ∀ b, ∀ a ∈ xs, I b → Safe (f b a) I) {b : β} (hb : I b) : Safe (xs.foldlM f b) I := by
  induction xs generalizing b with
  | nil => exact .ok hb
  | cons a xs ih =>
    rw [List.foldlM_cons]
    refine (hstep b a List.mem_cons_self hb).bind fun b' hb' => ?_
    exact ih (fun b a ha => hstep b a (List.mem_cons_of_mem _ ha)) hb'

theorem Safe.mapM {f : α → Checked β} {xs : List α} (h : ∀ a ∈ xs, Safe (f a) fun _ => True) :
    Safe (xs.mapM f) fun _ => True := by
  induction xs with
  | nil => exact .ok trivial
  | cons a xs ih =>
    rw [List.mapM_cons]
    refine (h a List.mem_cons_self).bind fun b _ => ?_
    exact (ih fun a ha => h a (List.mem_cons_of_mem _ ha)).bind fun _ _ => .ok trivial

/-! ## Section 3: Results -/

/-- A result of `x`, if it ends without a fault, is in `P`. -/
def Yields (x : Checked α) (P : α → Prop) : Prop := ∀ a, x = .ok a → P a

theorem Yields.ok {a : α} (h : P a) : Yields (.ok a) P := by
  rintro _ ⟨⟩
  exact h

theorem Yields.error {f : Fault} : Yields (.error f) P := by
  rintro _ ⟨⟩

theorem Yields.trivial (x : Checked α) : Yields x fun _ => True := fun _ _ => True.intro

theorem Yields.bind {R : β → Prop} {f : α → Checked β} (hx : Yields x P)
    (hf : ∀ a, P a → Yields (f a) R) : Yields (x >>= f) R := by
  cases x with
  | error _ => exact .error
  | ok a => exact hf a (hx a rfl)

theorem Yields.mono (hx : Yields x P) (h : ∀ a, P a → Q a) : Yields x Q :=
  fun a ha => h a (hx a ha)

/-- A loop whose steps keep `I`. -/
theorem Yields.foldlM {I : β → Prop} {f : β → α → Checked β} {xs : List α}
    (hstep : ∀ b a, I b → Yields (f b a) I) {b : β} (hb : I b) : Yields (xs.foldlM f b) I := by
  induction xs generalizing b with
  | nil => exact .ok hb
  | cons a xs ih =>
    rw [List.foldlM_cons]
    exact (hstep b a hb).bind fun b' hb' => ih hb'

end Checked
