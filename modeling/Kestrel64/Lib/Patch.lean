import Mathlib.Data.List.Basic

/-! # Backward Patches

    A patch rebuilds an old sequence from a new one. It is a list of records
    read from left to right: copy some elements from the new sequence at the
    same position, then take some literally.

    * `slice` and `overwrite` are the block operations on sequences.
    * `splice` is a sequence that is being rewritten from left to right.
    * `Describes new old i rs j` says that the records `rs` account for the
      positions `i .. j` of `old`. Patches compose end to end
      (`Describes.append`), and each record adds its part of `old` to what
      has been rebuilt so far (`Rec.Gives.step`).
    * `unwind` applies a tape of patches, newest first, and lists what it
      finds. Dropping the oldest patches drops the oldest finds
      (`unwind_take`).
-/

universe u

namespace Patch

variable {α : Type u}

/-! ### Blocks -/

/-- `n` elements from position `i`. -/
def slice (l : List α) (i n : Nat) : List α := (l.drop i).take n

/-- Write `src` over `l` from position `i`. -/
def overwrite (l : List α) (i : Nat) (src : List α) : List α :=
  l.take i ++ src ++ l.drop (i + src.length)

theorem length_slice {l : List α} {i n : Nat} (h : i + n ≤ l.length) :
    (slice l i n).length = n := by
  unfold slice
  rw [List.length_take, List.length_drop]
  omega

theorem slice_add (l : List α) (i m n : Nat) :
    slice l i (m + n) = slice l i m ++ slice l (i + m) n := by
  unfold slice
  rw [List.take_add, List.drop_drop]

theorem take_append_slice (l : List α) (i n : Nat) :
    l.take i ++ slice l i n = l.take (i + n) := by
  unfold slice
  rw [List.take_add]

@[simp] theorem slice_zero_length (l : List α) : slice l 0 l.length = l := by
  simp [slice]

/-- A block in the middle, given by the lengths around it. -/
theorem slice_mid {l a b c : List α} {i n : Nat} (h : l = a ++ b ++ c) (hi : i = a.length)
    (hn : n = b.length) : slice l i n = b := by
  subst h hi hn
  unfold slice
  rw [List.append_assoc, List.drop_left, List.take_left]

theorem length_overwrite {l b : List α} {i : Nat} (h : i + b.length ≤ l.length) :
    (overwrite l i b).length = l.length := by
  unfold overwrite
  rw [List.length_append, List.length_append, List.length_take, List.length_drop]
  omega

theorem take_overwrite {l b : List α} {i : Nat} (h : i ≤ l.length) :
    (overwrite l i b).take (i + b.length) = l.take i ++ b := by
  unfold overwrite
  have hlen : (l.take i ++ b).length = i + b.length := by
    rw [List.length_append, List.length_take]
    omega
  rw [← hlen]
  exact List.take_left ..

/-- Overwriting from the end of a front part on. -/
theorem overwrite_mid {l a c : List α} {i : Nat} (h : l = a ++ c) (hi : i = a.length)
    (src : List α) : overwrite l i src = a ++ src ++ c.drop src.length := by
  subst h hi
  unfold overwrite
  rw [List.take_left, ← List.drop_drop, List.drop_left]

/-- What comes after the overwritten block stays. -/
theorem slice_overwrite_after {l b : List α} {i j n : Nat} (hi : i + b.length ≤ l.length)
    (hj : i + b.length ≤ j) : slice (overwrite l i b) j n = slice l j n := by
  have hlen : (l.take i ++ b).length = i + b.length := by
    rw [List.length_append, List.length_take]
    omega
  unfold slice overwrite
  rw [List.drop_append, List.drop_eq_nil_of_le (by omega), List.nil_append, hlen,
    List.drop_drop, show i + b.length + (j - (i + b.length)) = j by omega]

theorem overwrite_append {l a b : List α} {i : Nat} (h : i + a.length ≤ l.length) :
    overwrite (overwrite l i a) (i + a.length) b = overwrite l i (a ++ b) := by
  have hdrop : (overwrite l i a).drop (i + a.length + b.length) =
      l.drop (i + a.length + b.length) := by
    have hlen : (l.take i ++ a).length = i + a.length := by
      rw [List.length_append, List.length_take]
      omega
    unfold overwrite
    rw [List.drop_append, List.drop_eq_nil_of_le (by omega), List.nil_append, hlen,
      List.drop_drop]
    congr 1
    omega
  rw [overwrite, take_overwrite (by omega), hdrop, overwrite, List.length_append,
    List.append_assoc (l.take i), Nat.add_assoc]

/-! ### A sequence that is half rewritten -/

/-- `new` up to position `p`, `old` from there on. -/
def splice (new old : List α) (p : Nat) : List α := new.take p ++ old.drop p

@[simp] theorem splice_zero (new old : List α) : splice new old 0 = old := by
  simp [splice]

theorem splice_length {new old : List α} (hn : new.length = old.length) :
    splice new old old.length = new := by
  unfold splice
  rw [List.drop_length, List.append_nil, ← hn, List.take_length]

theorem slice_splice_before {new old : List α} {p i n : Nat} (hp : p ≤ new.length)
    (h : i + n ≤ p) : slice (splice new old p) i n = slice new i n := by
  have hlen : (new.take p).length = p := by
    rw [List.length_take]
    omega
  unfold slice splice
  rw [List.drop_append_of_le_length (by omega),
    List.take_append_of_le_length (by rw [List.length_drop]; omega), List.drop_take,
    List.take_take, Nat.min_eq_left (by omega)]

theorem slice_splice_after {new old : List α} {p i n : Nat} (hp : p ≤ new.length)
    (h : p ≤ i) : slice (splice new old p) i n = slice old i n := by
  have hlen : (new.take p).length = p := by
    rw [List.length_take]
    omega
  unfold slice splice
  rw [List.drop_append, List.drop_eq_nil_of_le (by omega), List.nil_append, hlen,
    List.drop_drop, show p + (i - p) = i by omega]

/-- Overwriting the next block with the new one moves the border. -/
theorem overwrite_splice {new old : List α} {p n : Nat} (h : p + n ≤ new.length) :
    overwrite (splice new old p) p (slice new p n) = splice new old (p + n) := by
  have hlen : (new.take p).length = p := by
    rw [List.length_take]
    omega
  have htake : (splice new old p).take p = new.take p := by
    unfold splice
    rw [List.take_append_of_le_length (by omega), List.take_take, Nat.min_self]
  have hdrop : (splice new old p).drop (p + n) = old.drop (p + n) := by
    unfold splice
    rw [List.drop_append, List.drop_eq_nil_of_le (by omega), List.nil_append, hlen,
      List.drop_drop, show p + (p + n - p) = p + n by omega]
  unfold overwrite
  rw [length_slice h, htake, hdrop, take_append_slice, splice]

/-- Where the next block is the same in both, the border moves by itself. -/
theorem splice_of_slice_eq {new old : List α} {p n : Nat} (h : slice new p n = slice old p n) :
    splice new old p = splice new old (p + n) := by
  have hold : old.drop p = slice old p n ++ old.drop (p + n) := by
    unfold slice
    rw [← List.drop_drop, List.take_append_drop]
  unfold splice
  rw [hold, ← h, ← List.append_assoc, take_append_slice]

/-! ### Records -/

/-- Copy `same` elements, then the literal `lit`. -/
structure Rec (α : Type u) where
  same : Nat
  lit : List α

/-- The number of positions a record accounts for. -/
def Rec.len (r : Rec α) : Nat := r.same + r.lit.length

/-- `new` and `old` agree on the `n` positions from `i`. -/
structure Agree (new old : List α) (i n : Nat) : Prop where
  new_le : i + n ≤ new.length
  old_le : i + n ≤ old.length
  eq : slice new i n = slice old i n

theorem Agree.zero {new old : List α} {i : Nat} (hn : i ≤ new.length) (ho : i ≤ old.length) :
    Agree new old i 0 := ⟨hn, ho, by simp [slice]⟩

theorem Agree.append {new old : List α} {i m n : Nat} (h₁ : Agree new old i m)
    (h₂ : Agree new old (i + m) n) : Agree new old i (m + n) where
  new_le := by have := h₂.new_le; omega
  old_le := by have := h₂.old_le; omega
  eq := by rw [slice_add, slice_add, h₁.eq, h₂.eq]

/-- Record `r` gives the `r.len` positions of `old` from `i`. -/
structure Rec.Gives (new old : List α) (i : Nat) (r : Rec α) : Prop where
  copy : Agree new old i r.same
  lit_le : i + r.len ≤ old.length
  lit_eq : r.lit = slice old (i + r.same) r.lit.length

/-- The records account for the positions of `old` from `i` to `j`; none of
    them is empty. -/
inductive Describes (new old : List α) : Nat → List (Rec α) → Nat → Prop where
  | nil (i) : Describes new old i [] i
  | cons {i j r rs} : 0 < r.len → r.Gives new old i →
      Describes new old (i + r.len) rs j → Describes new old i (r :: rs) j

theorem Describes.append {new old : List α} {i j k : Nat} {rs qs : List (Rec α)}
    (h₁ : Describes new old i rs j) (h₂ : Describes new old j qs k) :
    Describes new old i (rs ++ qs) k := by
  induction h₁ with
  | nil i => exact h₂
  | cons hpos hg _ ih => exact .cons hpos hg (ih h₂)

theorem Describes.snoc {new old : List α} {i j : Nat} {r : Rec α} {rs : List (Rec α)}
    (h : Describes new old i rs j) (hpos : 0 < r.len) (hg : r.Gives new old j) :
    Describes new old i (rs ++ [r]) (j + r.len) :=
  h.append (.cons hpos hg (.nil _))

/-- A record adds its part of `old` to what has been rebuilt. -/
theorem Rec.Gives.step {new old : List α} {i : Nat} {r : Rec α} (h : r.Gives new old i) :
    old.take i ++ slice new i r.same ++ r.lit = old.take (i + r.len) := by
  rw [h.copy.eq, take_append_slice, h.lit_eq, Rec.len, ← Nat.add_assoc]
  exact take_append_slice old (i + r.same) r.lit.length

/-! ### Tapes -/

section Tape

variable {S D : Type u} (apply : S → D → Option S)

/-- Apply the patches one after the other; the states passed on the way. -/
def unwind : S → List D → Option (List S)
  | _, [] => some []
  | s, d :: ds => (apply s d).bind fun t => (unwind t ds).map (t :: ·)

variable {apply}

theorem unwind_cons {s t : S} {d : D} {ds : List D} {l : List S} (hd : apply s d = some t)
    (hds : unwind apply t ds = some l) : unwind apply s (d :: ds) = some (t :: l) := by
  rw [unwind, hd, Option.bind_some, hds, Option.map_some]

theorem unwind_cons_inv {s : S} {d : D} {ds : List D} {l : List S}
    (h : unwind apply s (d :: ds) = some l) :
    ∃ t l', l = t :: l' ∧ apply s d = some t ∧ unwind apply t ds = some l' := by
  rw [unwind, Option.bind_eq_some_iff] at h
  obtain ⟨t, ht, h⟩ := h
  rw [Option.map_eq_some_iff] at h
  obtain ⟨l', hl', rfl⟩ := h
  exact ⟨t, l', rfl, ht, hl'⟩

theorem unwind_take {s : S} {ds : List D} {l : List S} (h : unwind apply s ds = some l)
    (k : Nat) : unwind apply s (ds.take k) = some (l.take k) := by
  induction ds generalizing s l k with
  | nil =>
    obtain rfl : [] = l := by simpa [unwind] using h
    simp [unwind]
  | cons d ds ih =>
    obtain ⟨t, l', rfl, ht, hl'⟩ := unwind_cons_inv h
    cases k with
    | zero => rfl
    | succ k => exact unwind_cons ht (ih hl' k)

theorem length_unwind {s : S} {ds : List D} {l : List S} (h : unwind apply s ds = some l) :
    l.length = ds.length := by
  induction ds generalizing s l with
  | nil =>
    obtain rfl : [] = l := by simpa [unwind] using h
    rfl
  | cons d ds ih =>
    obtain ⟨t, l', rfl, _, hl'⟩ := unwind_cons_inv h
    rw [List.length_cons, List.length_cons, ih hl']

end Tape

end Patch
