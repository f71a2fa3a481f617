import Mathlib.Data.BitVec

/-! # Library: Raw Bytes

    Copying between arrays of bytes through words: a word is loaded from one
    array, changed, and stored in another. An array is a function with a
    size, and an access that is not inside of it has no result.

    `twin` is the other byte of an aligned pair. A word that is loaded from a
    place and stored at another of the same parity moves bytes as they are;
    with the bytes of each pair swapped in between, byte `i` comes from the
    twin of `i`.
-/

namespace RawBytes

/-! ## Section 1: Words -/

/-- The word of `k` bytes, lowest first. -/
def word : (k : Nat) → (Nat → BitVec 8) → BitVec (8 * k)
  | 0, _ => 0
  | k + 1, f => (f k ++ word k f).cast (by omega)

def byteAt {k : Nat} (w : BitVec (8 * k)) (i : Nat) : BitVec 8 := w.extractLsb' (8 * i) 8

theorem byteAt_getLsbD {k : Nat} (w : BitVec (8 * k)) (i b : Nat) (hb : b < 8) :
    (byteAt w i).getLsbD b = w.getLsbD (8 * i + b) := by
  simp [byteAt, hb]

theorem word_getLsbD (k : Nat) (f : Nat → BitVec 8) {i b : Nat} (hi : i < k) (hb : b < 8) :
    (word k f).getLsbD (8 * i + b) = (f i).getLsbD b := by
  induction k with
  | zero => omega
  | succ k ih =>
    rw [word, BitVec.getLsbD_cast, BitVec.getLsbD_append]
    by_cases h : i < k
    · rw [if_pos (by omega), ih h]
    · obtain rfl : i = k := by omega
      rw [if_neg (by omega), Nat.add_sub_cancel_left]

theorem byteAt_word {k i : Nat} (f : Nat → BitVec 8) (hi : i < k) : byteAt (word k f) i = f i := by
  apply BitVec.eq_of_getLsbD_eq
  intro b hb
  rw [byteAt_getLsbD _ _ _ hb, word_getLsbD _ _ hi hb]

/-! ## Section 2: Loads and stores -/

/-- `k` bytes at `off` of an array of `N`. -/
def load (N : Nat) (p : Nat → BitVec 8) (off k : Nat) : Option (BitVec (8 * k)) :=
  if off + k ≤ N then some (word k fun i => p (off + i)) else none

def store (N : Nat) (p : Nat → BitVec 8) (off k : Nat) (w : BitVec (8 * k)) :
    Option (Nat → BitVec 8) :=
  if off + k ≤ N then
    some fun x => if off ≤ x ∧ x < off + k then byteAt w (x - off) else p x
  else none

/-! ## Section 3: Pairs -/

/-- The other byte of the pair. -/
def twin (i : Nat) : Nat := if i % 2 = 0 then i + 1 else i - 1

theorem twin_twin (i : Nat) : twin (twin i) = i := by
  unfold twin
  split <;> split <;> omega

theorem twin_add {e : Nat} (he : e % 2 = 0) (i : Nat) : twin (e + i) = e + twin i := by
  unfold twin
  split <;> split <;> omega

theorem twin_lt {n i : Nat} (hn : n % 2 = 0) (hi : i < n) : twin i < n := by
  unfold twin
  split <;> omega

/-- A function that swaps the bytes of each pair of a word. -/
def Swaps {k : Nat} (s : BitVec (8 * k) → BitVec (8 * k)) : Prop :=
  ∀ w i, i < k → byteAt (s w) i = byteAt w (twin i)

/-- `q` is `p` with the `n` bytes at `e` taken from `src` at `a`, the bytes of
    each pair swapped. -/
def Copied (src : Nat → BitVec 8) (a : Nat) (p : Nat → BitVec 8) (e n : Nat)
    (q : Nat → BitVec 8) : Prop :=
  ∀ x, q x = if e ≤ x ∧ x < e + n then src (a + twin (x - e)) else p x

/-- One word, loaded, swapped and stored. -/
theorem Copied.word {k : Nat} {s : BitVec (8 * k) → BitVec (8 * k)} (hs : Swaps s)
    (hk : k % 2 = 0) {N M a e : Nat} (ha : a + k ≤ N) (he : e + k ≤ M)
    (src p : Nat → BitVec 8) :
    ∃ w q, load N src a k = some w ∧ store M p e k (s w) = some q ∧ Copied src a p e k q := by
  refine ⟨_, _, if_pos ha, if_pos he, ?_⟩
  intro x
  by_cases hx : e ≤ x ∧ x < e + k
  · simp only [if_pos hx]
    rw [hs _ _ (by omega), byteAt_word _ (twin_lt hk (by omega))]
  · simp only [if_neg hx]

/-- Copies of even length, one after the other. -/
theorem Copied.append {src p q r : Nat → BitVec 8} {a e n m : Nat} (hn : n % 2 = 0)
    (h : Copied src a p e n q) (h' : Copied src (a + n) q (e + n) m r) :
    Copied src a p e (n + m) r := by
  intro x
  rw [h' x, h x]
  by_cases h1 : e + n ≤ x ∧ x < e + n + m
  · rw [if_pos h1, if_pos (by omega), show x - e = n + (x - (e + n)) by omega, twin_add hn,
      Nat.add_assoc]
  · rw [if_neg h1]
    by_cases h2 : e ≤ x ∧ x < e + n
    · rw [if_pos h2, if_pos (by omega)]
    · rw [if_neg h2, if_neg (by omega)]

theorem Copied.nil (src p : Nat → BitVec 8) (a e : Nat) : Copied src a p e 0 p := by
  intro x
  rw [if_neg (by omega)]

end RawBytes
