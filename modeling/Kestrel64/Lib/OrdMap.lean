import Mathlib.Order.Lattice
import Mathlib.Data.List.Basic

/-! # Ordered Maps

    A finite map kept as a list of entries in strictly increasing key
    order, in the manner of `std::map`: iteration goes from the smallest
    key up, and the order is what "the first entry" and "everything before
    this key" mean.

    Every operation has one lookup lemma, tagged for `simp`. Proofs about a
    map go through these and never look at the entry list.
-/

universe u v

/-- A map with its entries in strictly increasing key order. -/
structure OrdMap (κ : Type u) (α : Type v) [LinearOrder κ] where
  entries : List (κ × α)
  sorted : entries.Pairwise (fun a b => a.1 < b.1)
deriving DecidableEq

namespace OrdMap

variable {κ : Type u} {α : Type v} [LinearOrder κ]

/-! ### Entry lists -/

/-- The value stored under `k`. -/
def lookupEntry (k : κ) : List (κ × α) → Option α
  | [] => none
  | e :: es => if e.1 = k then some e.2 else lookupEntry k es

/-- Ordered insertion, replacing an entry with the same key. -/
def insertEntry (k : κ) (a : α) : List (κ × α) → List (κ × α)
  | [] => [(k, a)]
  | e :: es =>
    if k < e.1 then (k, a) :: e :: es
    else if e.1 = k then (k, a) :: es
    else e :: insertEntry k a es

theorem mem_insertEntry {k : κ} {a : α} {es : List (κ × α)} {x : κ × α}
    (h : x ∈ insertEntry k a es) : x = (k, a) ∨ x ∈ es := by
  induction es with
  | nil => simpa [insertEntry] using h
  | cons e es ih =>
    unfold insertEntry at h
    split at h
    · simpa using h
    · split at h
      · rcases List.mem_cons.mp h with h | h
        · exact .inl h
        · exact .inr (List.mem_cons_of_mem _ h)
      · rcases List.mem_cons.mp h with h | h
        · exact .inr (by simp [h])
        · rcases ih h with h | h
          · exact .inl h
          · exact .inr (List.mem_cons_of_mem _ h)

theorem sorted_insertEntry (k : κ) (a : α) {es : List (κ × α)}
    (h : es.Pairwise (fun a b => a.1 < b.1)) :
    (insertEntry k a es).Pairwise (fun a b => a.1 < b.1) := by
  induction es with
  | nil => simp [insertEntry]
  | cons e es ih =>
    obtain ⟨he, hes⟩ := List.pairwise_cons.mp h
    unfold insertEntry
    split
    · next hlt =>
      refine List.pairwise_cons.mpr ⟨?_, h⟩
      intro x hx
      rcases List.mem_cons.mp hx with rfl | hx
      · exact hlt
      · exact lt_trans hlt (he x hx)
    · next hge =>
      split
      · next heq =>
        exact List.pairwise_cons.mpr ⟨fun x hx => heq ▸ he x hx, hes⟩
      · next hne =>
        refine List.pairwise_cons.mpr ⟨?_, ih hes⟩
        intro x hx
        rcases mem_insertEntry hx with rfl | hx
        · exact lt_of_le_of_ne (not_lt.mp hge) hne
        · exact he x hx

theorem lookupEntry_insertEntry (k k' : κ) (a : α) (es : List (κ × α)) :
    lookupEntry k' (insertEntry k a es) = if k' = k then some a else lookupEntry k' es := by
  induction es with
  | nil => simp [insertEntry, lookupEntry, eq_comm]
  | cons e es ih =>
    unfold insertEntry
    split
    · simp [lookupEntry, eq_comm]
    · split
      · next heq =>
        by_cases hk : k' = k
        · simp [lookupEntry, hk]
        · have : ¬ e.1 = k' := fun h => hk (h ▸ heq ▸ rfl)
          have : ¬ k = k' := fun h => hk h.symm
          simp [lookupEntry, *]
      · next hne =>
        by_cases hk : k' = k
        · subst hk
          simp [lookupEntry, hne, ih]
        · simp [lookupEntry, hk, ih]

theorem lookupEntry_filter (p : κ → Bool) (k : κ) (es : List (κ × α)) :
    lookupEntry k (es.filter (fun e => p e.1)) = if p k then lookupEntry k es else none := by
  induction es with
  | nil => simp [lookupEntry]
  | cons e es ih =>
    by_cases he : p e.1
    · by_cases hk : e.1 = k
      · subst hk; simp [lookupEntry, he]
      · simp [lookupEntry, he, hk, ih]
    · by_cases hk : e.1 = k
      · subst hk; simp [he, ih]
      · simp [lookupEntry, he, hk, ih]

theorem lookupEntry_eq_none_of_lt {k : κ} {es : List (κ × α)} (h : ∀ e ∈ es, k < e.1) :
    lookupEntry k es = none := by
  induction es with
  | nil => rfl
  | cons e es ih =>
    rw [List.forall_mem_cons] at h
    rw [lookupEntry, if_neg (ne_of_gt h.1), ih h.2]

/-- Filtering by value: a key that loses its entry has no other one. -/
theorem lookupEntry_filter_value (p : α → Bool) (k : κ) {es : List (κ × α)}
    (h : es.Pairwise (fun a b => a.1 < b.1)) :
    lookupEntry k (es.filter (fun e => p e.2)) = (lookupEntry k es).filter p := by
  induction es with
  | nil => rfl
  | cons e es ih =>
    obtain ⟨he, hes⟩ := List.pairwise_cons.mp h
    by_cases hp : p e.2
    · by_cases hk : e.1 = k
      · simp [lookupEntry, hp, hk, Option.filter]
      · simp [lookupEntry, hp, hk, ih hes]
    · by_cases hk : e.1 = k
      · have hnone : lookupEntry k es = none := lookupEntry_eq_none_of_lt (hk ▸ he)
        simp [lookupEntry, hp, hk, ih hes, hnone, Option.filter]
      · simp [lookupEntry, hp, hk, ih hes]

/-- A key behind all others goes to the end. -/
theorem insertEntry_last {k : κ} (a : α) {es : List (κ × α)} (h : ∀ e ∈ es, e.1 < k) :
    insertEntry k a es = es ++ [(k, a)] := by
  induction es with
  | nil => rfl
  | cons e es ih =>
    rw [List.forall_mem_cons] at h
    rw [insertEntry, if_neg (not_lt_of_gt h.1), if_neg (ne_of_lt h.1), ih h.2, List.cons_append]

theorem mem_of_lookupEntry {k : κ} {a : α} {es : List (κ × α)}
    (h : lookupEntry k es = some a) : (k, a) ∈ es := by
  induction es with
  | nil => simp [lookupEntry] at h
  | cons e es ih =>
    unfold lookupEntry at h
    split at h
    · next hk =>
      obtain rfl := Option.some.inj h
      rw [← hk]
      exact List.mem_cons_self
    · exact List.mem_cons_of_mem _ (ih h)

theorem mem_keys_iff_lookupEntry (k : κ) (es : List (κ × α)) :
    k ∈ es.map Prod.fst ↔ (lookupEntry k es).isSome := by
  induction es with
  | nil => simp [lookupEntry]
  | cons e es ih =>
    by_cases hk : e.1 = k
    · simp [lookupEntry, hk]
    · have : ¬ k = e.1 := fun h => hk h.symm
      rw [List.map_cons, List.mem_cons, ih]
      simp [lookupEntry, hk, this]

/-! ### Operations -/

/-- The empty map. -/
def empty : OrdMap κ α := ⟨[], List.Pairwise.nil⟩

instance : EmptyCollection (OrdMap κ α) := ⟨empty⟩

/-- `m.find(k)`. -/
def find? (m : OrdMap κ α) (k : κ) : Option α := lookupEntry k m.entries

/-- `m.count(k)` as a truth value. -/
def contains (m : OrdMap κ α) (k : κ) : Bool := (m.find? k).isSome

/-- `m[k] = a`. -/
def insert (m : OrdMap κ α) (k : κ) (a : α) : OrdMap κ α :=
  ⟨insertEntry k a m.entries, sorted_insertEntry k a m.sorted⟩

/-- `m.emplace(k, a)`: an entry that is already there stays. -/
def emplace (m : OrdMap κ α) (k : κ) (a : α) : OrdMap κ α :=
  if m.contains k then m else m.insert k a

/-- `m.erase(k)`. -/
def erase (m : OrdMap κ α) (k : κ) : OrdMap κ α :=
  ⟨m.entries.filter (fun e => e.1 ≠ k), m.sorted.filter _⟩

/-- `m.erase(m.begin(), m.find(k))` for a key that is present: everything
    before `k` goes. -/
def eraseBefore (m : OrdMap κ α) (k : κ) : OrdMap κ α :=
  ⟨m.entries.filter (fun e => k ≤ e.1), m.sorted.filter _⟩

/-- `m.erase(m.begin())`. -/
def eraseFirst (m : OrdMap κ α) : OrdMap κ α :=
  ⟨m.entries.tail, m.sorted.tail⟩

/-- The loop that erases every entry whose value meets `p`. -/
def eraseIf (m : OrdMap κ α) (p : α → Bool) : OrdMap κ α :=
  ⟨m.entries.filter (fun e => !p e.2), m.sorted.filter _⟩

/-- `m.size()`. -/
def size (m : OrdMap κ α) : Nat := m.entries.length

/-- The keys, smallest first. -/
def keys (m : OrdMap κ α) : List κ := m.entries.map Prod.fst

/-! ### Lookup lemmas -/

@[simp] theorem find?_empty (k : κ) : (∅ : OrdMap κ α).find? k = none := rfl

@[simp] theorem find?_insert (m : OrdMap κ α) (k k' : κ) (a : α) :
    (m.insert k a).find? k' = if k' = k then some a else m.find? k' :=
  lookupEntry_insertEntry k k' a m.entries

@[simp] theorem find?_emplace (m : OrdMap κ α) (k k' : κ) (a : α) :
    (m.emplace k a).find? k' =
      if k' = k then some ((m.find? k).getD a) else m.find? k' := by
  unfold emplace contains
  cases hk : m.find? k with
  | none => simp
  | some b =>
    by_cases h : k' = k
    · subst h; simp [hk]
    · simp [h]

@[simp] theorem find?_erase (m : OrdMap κ α) (k k' : κ) :
    (m.erase k).find? k' = if k' = k then none else m.find? k' := by
  have h := lookupEntry_filter (fun e => decide (e ≠ k)) k' m.entries
  by_cases hk : k' = k <;> simpa [find?, erase, hk] using h

@[simp] theorem find?_eraseBefore (m : OrdMap κ α) (k k' : κ) :
    (m.eraseBefore k).find? k' = if k ≤ k' then m.find? k' else none := by
  simpa [find?, eraseBefore] using lookupEntry_filter (fun e => decide (k ≤ e)) k' m.entries

@[simp] theorem find?_eraseIf (m : OrdMap κ α) (p : α → Bool) (k : κ) :
    (m.eraseIf p).find? k = (m.find? k).filter (fun a => !p a) :=
  lookupEntry_filter_value (fun a => !p a) k m.sorted

theorem mem_keys {m : OrdMap κ α} {k : κ} : k ∈ m.keys ↔ (m.find? k).isSome :=
  mem_keys_iff_lookupEntry k m.entries

@[simp] theorem contains_eq_true {m : OrdMap κ α} {k : κ} :
    m.contains k = true ↔ (m.find? k).isSome := Iff.rfl

end OrdMap
