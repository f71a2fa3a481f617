import Mathlib.Algebra.Order.Ring.Nat
import Mathlib.Data.List.GetD
import Kestrel64.Lib.BitStream

/-! # Canonical Prefix Codes

    A canonical code is given by its code lengths alone (length 0: the symbol
    has no code).  Codes of one length are consecutive numbers in symbol order,
    and the first code of a length follows the last one of the length before,
    shifted left.  `walk` is the table-free decoder: it adds one bit at a time
    and compares with the first code of each length.
-/

namespace CanonicalCode

open BitStream

/-- How many codes have length `L`. -/
def codes (lens : List Nat) (L : Nat) : Nat := if L = 0 then 0 else lens.count L

/-- The first code of length `L`. -/
def firstCode (lens : List Nat) : Nat → Nat
  | 0 => 0
  | L + 1 => 2 * (firstCode lens L + codes lens L)

/-- How many symbols have shorter codes: where the symbols of length `L` start
    when all symbols are listed by length and then by number. -/
def start (lens : List Nat) (L : Nat) : Nat := lens.countP fun l => decide (0 < l ∧ l < L)

/-- The symbols before `sym` with the same code length. -/
def rank (lens : List Nat) (sym : Nat) : Nat := (lens.take sym).count (lens.getD sym 0)

/-- The place of `sym` in the list by length and number. -/
def slot (lens : List Nat) (sym : Nat) : Nat := start lens (lens.getD sym 0) + rank lens sym

/-- The code word of `sym`, as it goes onto the stream. -/
def word (lens : List Nat) (sym : Nat) : List Bool :=
  msb (lens.getD sym 0) (firstCode lens (lens.getD sym 0) + rank lens sym)

/-- The share of a code of length `l` among the words of `L` bits. -/
def share (L l : Nat) : Nat := if 0 < l ∧ l ≤ L then 2 ^ (L - l) else 0

/-- The words of `L` bits that begin with a code. -/
def used (lens : List Nat) (L : Nat) : Nat := (lens.map (share L)).sum

/-- Kraft's inequality, for code lengths up to `L`: such a prefix-free code exists. -/
structure Kraft (L : Nat) (lens : List Nat) : Prop where
  le : ∀ l ∈ lens, l ≤ L
  sum : used lens L ≤ 2 ^ L

instance (L : Nat) (lens : List Nat) : Decidable (Kraft L lens) :=
  decidable_of_iff ((∀ l ∈ lens, l ≤ L) ∧ used lens L ≤ 2 ^ L)
    ⟨fun h => ⟨h.1, h.2⟩, fun h => ⟨h.le, h.sum⟩⟩

section Counting

variable {lens : List Nat} {L : Nat}

theorem start_succ : start lens (L + 1) = start lens L + codes lens L := by
  by_cases hL : L = 0
  · have hnone : ∀ l : Nat, ¬ (0 < l ∧ l < 1) := by omega
    subst hL
    simp only [start, codes, Nat.zero_add, hnone, Nat.not_lt_zero, and_false, if_true, Nat.add_zero]
  · simp only [codes, if_neg hL, start]
    induction lens with
    | nil => rfl
    | cons l lens ih =>
      simp only [List.countP_cons, List.count_cons, ih, decide_eq_true_eq, beq_iff_eq]
      split_ifs <;> omega

@[simp] theorem start_one : start lens 1 = 0 := by
  have hnone : ∀ l : Nat, ¬ (0 < l ∧ l < 1) := by omega
  simp only [start, hnone, decide_false, List.countP_false, Function.const_apply]

theorem start_mono (lens : List Nat) {M : Nat} (h : L ≤ M) : start lens L ≤ start lens M :=
  List.countP_mono_left fun l _ hl => by
    simp only [decide_eq_true_eq] at hl ⊢
    omega

theorem start_le_length : start lens L ≤ lens.length := List.countP_le_length

@[simp] theorem used_zero : used lens 0 = 0 := by
  induction lens with
  | nil => rfl
  | cons l lens ih =>
    have hshare : share 0 l = 0 := if_neg (by omega)
    simp only [used, List.map_cons, List.sum_cons] at ih ⊢
    rw [hshare, ih]

theorem used_succ : used lens (L + 1) = 2 * used lens L + lens.count (L + 1) := by
  induction lens with
  | nil => rfl
  | cons l lens ih =>
    have hshare : share (L + 1) l = 2 * share L l + if l = L + 1 then 1 else 0 := by
      unfold share
      by_cases hl : 0 < l ∧ l ≤ L
      · have hexp : L + 1 - l = L - l + 1 := by omega
        rw [if_pos hl, if_pos (by omega), if_neg (by omega), hexp, Nat.pow_succ]
        omega
      · rw [if_neg hl]
        by_cases htop : l = L + 1
        · simp [htop]
        · rw [if_neg (by omega), if_neg htop]
    simp only [used, List.map_cons, List.sum_cons, List.count_cons, beq_iff_eq] at ih ⊢
    rw [ih, hshare]
    omega

/-- The codes up to length `L` fill the words of `L` bits from the bottom. -/
theorem firstCode_add_codes (lens : List Nat) (L : Nat) :
    firstCode lens L + codes lens L = used lens L := by
  induction L with
  | zero =>
    rw [used_zero]
    rfl
  | succ L ih =>
    rw [used_succ, ← ih]
    simp [firstCode, codes]

/-- A code of length `L` lies above every shorter code, cut to the shorter length. -/
theorem used_mul_le_firstCode {k : Nat} :
    used lens L * 2 ^ (k + 1) ≤ firstCode lens (L + (k + 1)) := by
  induction k with
  | zero =>
    show _ ≤ 2 * (firstCode lens L + codes lens L)
    rw [firstCode_add_codes]
    omega
  | succ k ih =>
    show _ ≤ 2 * (firstCode lens (L + (k + 1)) + codes lens (L + (k + 1)))
    rw [Nat.pow_succ, ← Nat.mul_assoc]
    omega

theorem used_le (hk : used lens (L + 1) ≤ 2 ^ (L + 1)) : used lens L ≤ 2 ^ L := by
  rw [used_succ, Nat.pow_succ] at hk
  omega

theorem used_le_two_pow {M : Nat} (hM : used lens M ≤ 2 ^ M) (hL : L ≤ M) :
    used lens L ≤ 2 ^ L := by
  induction M with
  | zero => rwa [Nat.le_zero.mp hL]
  | succ M ih =>
    by_cases h : L = M + 1
    · rwa [h]
    · exact ih (used_le hM) (by omega)

theorem used_mono_le {M : Nat} (hle : ∀ l ∈ lens, l ≤ L) (hL : used lens L ≤ 2 ^ L) (h : L ≤ M) :
    used lens M ≤ 2 ^ M := by
  induction M with
  | zero => rwa [← Nat.le_zero.mp h]
  | succ M ih =>
    by_cases htop : L = M + 1
    · rwa [← htop]
    · -- No code is as long as `M + 1`, so the words only double.
      have hnone : lens.count (M + 1) = 0 :=
        List.count_eq_zero.mpr fun hmem => by
          have := hle _ hmem
          omega
      have := ih (by omega)
      rw [used_succ, hnone, Nat.pow_succ]
      omega

/-- A code that fits shorter words fits longer ones. -/
theorem Kraft.mono {M : Nat} (hk : Kraft L lens) (h : L ≤ M) : Kraft M lens :=
  ⟨fun l hl => Nat.le_trans (hk.le l hl) h, used_mono_le hk.le hk.sum h⟩

end Counting

section Symbols

variable {lens : List Nat} {sym : Nat}

theorem lt_length_of_getD (h : lens.getD sym 0 ≠ 0) : sym < lens.length := by
  by_contra hge
  exact h (List.getD_eq_default _ _ (by omega))

theorem rank_lt (h : lens.getD sym 0 ≠ 0) : rank lens sym < codes lens (lens.getD sym 0) := by
  have hlt := lt_length_of_getD h
  have hsplit : lens = lens.take sym ++ lens.getD sym 0 :: lens.drop (sym + 1) := by
    rw [List.getD_eq_getElem _ _ hlt, List.getElem_cons_drop, List.take_append_drop]
  have hcount := congrArg (List.count (lens.getD sym 0)) hsplit
  rw [List.count_append, List.count_cons_self] at hcount
  rw [codes, if_neg h, rank]
  omega

theorem slot_lt (h : lens.getD sym 0 ≠ 0) : slot lens sym < lens.length := by
  have hrank := rank_lt h
  have hle : start lens (lens.getD sym 0 + 1) ≤ lens.length := start_le_length
  rw [start_succ] at hle
  unfold slot
  omega

theorem rank_lt_rank {sym' : Nat} (h : lens.getD sym 0 ≠ 0) (hlt : sym < sym')
    (heq : lens.getD sym' 0 = lens.getD sym 0) : rank lens sym < rank lens sym' := by
  have hlen := lt_length_of_getD h
  have hsplit : lens.take sym' =
      lens.take sym ++ lens.getD sym 0 :: (lens.take sym').drop (sym + 1) := by
    have hin : sym < (lens.take sym').length := by rw [List.length_take]; omega
    have hval : lens.getD sym 0 = (lens.take sym')[sym] := by
      rw [List.getD_eq_getElem _ _ hlen, List.getElem_take]
    rw [hval, List.getElem_cons_drop, ← List.take_append_drop sym (lens.take sym'), List.take_take,
      Nat.min_eq_left (by omega), List.drop_append_of_le_length (by rw [List.length_take]; omega)]
    simp
  have hcount := congrArg (List.count (lens.getD sym 0)) hsplit
  rw [List.count_append, List.count_cons_self] at hcount
  unfold rank
  rw [heq]
  omega

/-- A code word is never empty. -/
theorem word_pos (h : lens.getD sym 0 ≠ 0) : 0 < (word lens sym).length := by
  rw [word, length_msb]
  exact Nat.pos_of_ne_zero h

/-- Different symbols have different places. -/
theorem slot_ne {sym' : Nat} (h : lens.getD sym 0 ≠ 0) (h' : lens.getD sym' 0 ≠ 0)
    (hlt : sym < sym') : slot lens sym ≠ slot lens sym' := by
  have hrank := rank_lt h
  have hrank' := rank_lt h'
  unfold slot
  rcases Nat.lt_trichotomy (lens.getD sym 0) (lens.getD sym' 0) with hl | hl | hl
  · have hmono := start_mono lens (Nat.succ_le_of_lt hl)
    rw [Nat.succ_eq_add_one, start_succ] at hmono
    omega
  · have := rank_lt_rank h hlt hl.symm
    rw [hl]
    omega
  · have hmono := start_mono lens (Nat.succ_le_of_lt hl)
    rw [Nat.succ_eq_add_one, start_succ] at hmono
    omega

/-- Every rank below the number of codes is that of a symbol. -/
theorem exists_rank {L r : Nat} (h : r < lens.count L) :
    ∃ sym, sym < lens.length ∧ lens.getD sym 0 = L ∧ rank lens sym = r := by
  induction lens generalizing r with
  | nil => exact absurd h (Nat.not_lt_zero _)
  | cons l lens ih =>
    by_cases hl : l = L
    · subst hl
      cases r with
      | zero => exact ⟨0, Nat.succ_pos _, rfl, by simp [rank]⟩
      | succ r =>
        rw [List.count_cons_self] at h
        obtain ⟨sym, hsym, hget, hrank⟩ := ih (Nat.lt_of_succ_lt_succ h)
        refine ⟨sym + 1, Nat.succ_lt_succ hsym, hget, ?_⟩
        unfold rank at hrank ⊢
        rw [List.getD_cons_succ, List.take_succ_cons, ← hrank, hget, List.count_cons_self]
    · rw [List.count_cons_of_ne hl] at h
      obtain ⟨sym, hsym, hget, hrank⟩ := ih h
      refine ⟨sym + 1, Nat.succ_lt_succ hsym, hget, ?_⟩
      unfold rank at hrank ⊢
      rw [List.getD_cons_succ, List.take_succ_cons, ← hrank, hget, List.count_cons_of_ne hl]

end Symbols

/-- The decoder over `count`, the number of codes of each length: the place of
    the symbol read and what is left of the stream. -/
def walk (count : Nat → Nat) : Nat → Nat → Nat → Nat → Nat → List Bool → Option (Nat × List Bool)
  | 0, _, _, _, _, _ => none
  | _ + 1, _, _, _, _, [] => none
  | fuel + 1, len, code, first, index, bit :: bits =>
    let code := code + bit.toNat
    if code < first + count len then some (index + (code - first), bits)
    else walk count fuel (len + 1) (2 * code) (2 * (first + count len)) (index + count len) bits

section Walk

variable {lens : List Nat}

theorem walk_msb {c L k : Nat} (fuel : Nat) (rest : List Bool) (hlow : firstCode lens L ≤ c)
    (hhigh : c < firstCode lens L + codes lens L) (hk : k < L) (hfuel : k < fuel) :
    walk (codes lens) fuel (L - k) (2 * (c / 2 ^ (k + 1))) (firstCode lens (L - k))
      (start lens (L - k)) (msb (k + 1) c ++ rest) =
      some (start lens L + (c - firstCode lens L), rest) := by
  -- Induction on the bits still to come; the code so far is the front of `c`.
  induction k generalizing fuel with
  | zero =>
    obtain ⟨f, rfl⟩ := Nat.exists_eq_succ_of_ne_zero (Nat.ne_of_gt hfuel)
    have hbit : (decide (c % 2 = 1)).toNat = c % 2 := by
      rcases Nat.mod_two_eq_zero_or_one c with h | h <;> simp [h]
    have hcode : 2 * (c / 2) + c % 2 = c := by omega
    simp [walk, msb, hbit, hcode, hhigh]
  | succ k ih =>
    obtain ⟨f, rfl⟩ := Nat.exists_eq_succ_of_ne_zero (Nat.ne_of_gt (Nat.lt_of_le_of_lt (Nat.zero_le _) hfuel))
    have hbit : (decide (c / 2 ^ (k + 1) % 2 = 1)).toNat = c / 2 ^ (k + 1) % 2 := by
      rcases Nat.mod_two_eq_zero_or_one (c / 2 ^ (k + 1)) with h | h <;> simp [h]
    have hcode : 2 * (c / 2 ^ (k + 1 + 1)) + c / 2 ^ (k + 1) % 2 = c / 2 ^ (k + 1) := by
      rw [Nat.pow_succ _ (k + 1), ← Nat.div_div_eq_div_mul]
      omega
    have hlen : L - (k + 1) + (k + 1) = L := by omega
    -- The front of `c` lies above all the codes of this length.
    have hmiss : ¬ c / 2 ^ (k + 1) < firstCode lens (L - (k + 1)) + codes lens (L - (k + 1)) := by
      rw [firstCode_add_codes, Nat.not_lt, Nat.le_div_iff_mul_le (Nat.two_pow_pos _)]
      have : used lens (L - (k + 1)) * 2 ^ (k + 1) ≤ firstCode lens (L - (k + 1) + (k + 1)) :=
        used_mul_le_firstCode
      rw [hlen] at this
      exact Nat.le_trans this hlow
    have hnext : L - (k + 1) + 1 = L - k := by omega
    have hfirst : 2 * (firstCode lens (L - (k + 1)) + codes lens (L - (k + 1))) =
        firstCode lens (L - k) := by rw [← hnext]; rfl
    have hstart : start lens (L - (k + 1)) + codes lens (L - (k + 1)) = start lens (L - k) := by
      rw [← hnext, start_succ]
    have hstep := ih f (by omega) (by omega)
    rw [msb, List.cons_append, walk, hbit, hcode]
    simp only [if_neg hmiss, hfirst, hstart, hnext]
    exact hstep

/-- Reading a code word finds the place of its symbol. -/
theorem walk_word {M sym : Nat} {rest : List Bool} (hk : Kraft M lens)
    (h : lens.getD sym 0 ≠ 0) :
    walk (codes lens) M 1 0 0 0 (word lens sym ++ rest) = some (slot lens sym, rest) := by
  have hrank := rank_lt h
  have hmem : lens.getD sym 0 ∈ lens := by
    rw [List.getD_eq_getElem _ _ (lt_length_of_getD h)]
    exact List.getElem_mem _
  have hle := hk.le _ hmem
  unfold word slot
  generalize hL : lens.getD sym 0 = L at *
  -- The code fits its length, so nothing of it is cut off.
  have hfit : firstCode lens L + rank lens sym < 2 ^ L :=
    calc firstCode lens L + rank lens sym
      _ < firstCode lens L + codes lens L := by omega
      _ = used lens L := firstCode_add_codes lens L
      _ ≤ 2 ^ L := used_le_two_pow hk.sum hle
  obtain ⟨k, rfl⟩ := Nat.exists_eq_add_one_of_ne_zero h
  have hone : k + 1 - k = 1 := by omega
  have hwalk := walk_msb M rest (Nat.le_add_right _ (rank lens sym))
    (Nat.add_lt_add_left hrank _) (Nat.lt_succ_self k) hle
  rw [Nat.div_eq_of_lt hfit, hone, start_one, Nat.add_sub_cancel_left] at hwalk
  exact hwalk

/-- Where the walk ends, the bits taken are a number between the first code of a
    length and the one after its last. -/
theorem walk_code {fuel len c i : Nat} {bits rest : List Bool} (hlow : firstCode lens len ≤ 2 * c)
    (h : walk (codes lens) fuel len (2 * c) (firstCode lens len) (start lens len) bits =
      some (i, rest)) :
    ∃ k c', c' / 2 ^ (k + 1) = c ∧ bits = msb (k + 1) c' ++ rest ∧
      firstCode lens (len + k) ≤ c' ∧ c' < firstCode lens (len + k) + codes lens (len + k) ∧
      i = start lens (len + k) + (c' - firstCode lens (len + k)) := by
  induction fuel generalizing len c bits with
  | zero => cases h
  | succ fuel ih =>
    cases bits with
    | nil => cases h
    | cons bit bits =>
      have hbit : bit.toNat < 2 := Bool.toNat_lt bit
      have hlast : decide ((2 * c + bit.toNat) % 2 = 1) = bit := by
        cases bit <;> simp
      rw [walk] at h
      split at h
      · next hlt =>
        obtain ⟨rfl, rfl⟩ := Prod.mk.inj (Option.some.inj h)
        refine ⟨0, 2 * c + bit.toNat, ?_, ?_, ?_, hlt, rfl⟩
        · rw [Nat.zero_add, Nat.pow_one]
          omega
        · rw [msb, msb, Nat.pow_zero, Nat.div_one, hlast]
          rfl
        · exact Nat.le_trans hlow (Nat.le_add_right _ _)
      · next hge =>
        have hfirst : 2 * (firstCode lens len + codes lens len) = firstCode lens (len + 1) := rfl
        rw [hfirst, ← start_succ] at h
        obtain ⟨k, c', hdiv, hbits, hrange⟩ := ih (by rw [← hfirst]; omega) h
        rw [show len + 1 + k = len + (k + 1) by omega] at hrange
        refine ⟨k + 1, c', ?_, ?_, hrange⟩
        · rw [Nat.pow_succ, ← Nat.div_div_eq_div_mul, hdiv]
          omega
        · rw [msb, hdiv, hlast, hbits, List.cons_append]

/-- What the walk reads is the word of a symbol, and it finds the place of this symbol. -/
theorem word_of_walk {fuel i : Nat} {bits rest : List Bool}
    (h : walk (codes lens) fuel 1 0 0 0 bits = some (i, rest)) :
    ∃ sym, lens.getD sym 0 ≠ 0 ∧ bits = word lens sym ++ rest ∧ i = slot lens sym := by
  have hzero : firstCode lens 1 = 0 := rfl
  have hwalk : walk (codes lens) fuel 1 (2 * 0) (firstCode lens 1) (start lens 1) bits =
      some (i, rest) := by
    rw [hzero, start_one]
    exact h
  obtain ⟨k, c, -, hbits, hlow, hhigh, hi⟩ := walk_code (Nat.le_of_eq hzero) hwalk
  have hlen : 1 + k ≠ 0 := by omega
  have hcount : c - firstCode lens (1 + k) < lens.count (1 + k) := by
    rw [codes, if_neg hlen] at hhigh
    omega
  obtain ⟨sym, -, hget, hrank⟩ := exists_rank hcount
  refine ⟨sym, ?_, ?_, ?_⟩
  · rw [hget]
    exact hlen
  · rw [word, hget, hrank, Nat.add_sub_cancel' hlow, Nat.add_comm 1 k]
    exact hbits
  · rw [slot, hget, hrank]
    exact hi

end Walk

end CanonicalCode
