import Mathlib.Data.List.Basic
import Kestrel64.Lib.Bytes

/-! # Unicode Encodings

    A text is a list of scalar values, which is what `Char` is. `utf8` and
    `utf16` are its two encodings; the first is that of the core library, as
    bytes.
-/

namespace Utf

/-- The bytes of a character. -/
def utf8Char (c : Char) : Bytes := (String.utf8EncodeChar c).map UInt8.toBitVec

def utf8 (cs : List Char) : Bytes := cs.flatMap utf8Char

/-- The units of a character: one, or a pair of surrogates. -/
def utf16Char (c : Char) : List (BitVec 16) :=
  if c.toNat < 0x10000 then [BitVec.ofNat 16 c.toNat]
  else
    [BitVec.ofNat 16 (0xd800 + (c.toNat - 0x10000) / 0x400),
      BitVec.ofNat 16 (0xdc00 + (c.toNat - 0x10000) % 0x400)]

def utf16 (cs : List Char) : List (BitVec 16) := cs.flatMap utf16Char

theorem toNat_lt (c : Char) : c.toNat < 0x110000 := by
  have h := c.valid
  simp only [UInt32.isValidChar, Nat.isValidChar] at h
  show c.val.toNat < 0x110000
  omega

/-- The four lengths of UTF-8. -/
theorem utf8Char_eq (c : Char) :
    utf8Char c =
      if c.toNat < 0x80 then [BitVec.ofNat 8 c.toNat]
      else if c.toNat < 0x800 then
        [BitVec.ofNat 8 (0xc0 + c.toNat / 2 ^ 6), BitVec.ofNat 8 (0x80 + c.toNat % 2 ^ 6)]
      else if c.toNat < 0x10000 then
        [BitVec.ofNat 8 (0xe0 + c.toNat / 2 ^ 12), BitVec.ofNat 8 (0x80 + c.toNat / 2 ^ 6 % 2 ^ 6),
          BitVec.ofNat 8 (0x80 + c.toNat % 2 ^ 6)]
      else
        [BitVec.ofNat 8 (0xf0 + c.toNat / 2 ^ 18), BitVec.ofNat 8 (0x80 + c.toNat / 2 ^ 12 % 2 ^ 6),
          BitVec.ofNat 8 (0x80 + c.toNat / 2 ^ 6 % 2 ^ 6), BitVec.ofNat 8 (0x80 + c.toNat % 2 ^ 6)] := by
  have hlt := toNat_lt c
  have hval : c.val.toNat = c.toNat := rfl
  unfold utf8Char String.utf8EncodeChar
  simp only [hval]
  by_cases h1 : c.toNat < 0x80
  · rw [if_pos (by omega), if_pos h1]
    rfl
  by_cases h2 : c.toNat < 0x800
  · rw [if_neg (by omega), if_pos (by omega), if_neg h1, if_pos h2,
      show c.toNat / 64 % 0x20 + 0xc0 = 0xc0 + c.toNat / 2 ^ 6 by omega,
      show c.toNat % 0x40 + 0x80 = 0x80 + c.toNat % 2 ^ 6 by omega]
    rfl
  by_cases h3 : c.toNat < 0x10000
  · rw [if_neg (by omega), if_neg (by omega), if_pos (by omega), if_neg h1, if_neg h2, if_pos h3,
      show c.toNat / 4096 % 0x10 + 0xe0 = 0xe0 + c.toNat / 2 ^ 12 by omega,
      show c.toNat / 64 % 0x40 + 0x80 = 0x80 + c.toNat / 2 ^ 6 % 2 ^ 6 by omega,
      show c.toNat % 0x40 + 0x80 = 0x80 + c.toNat % 2 ^ 6 by omega]
    rfl
  · rw [if_neg (by omega), if_neg (by omega), if_neg (by omega), if_neg h1, if_neg h2, if_neg h3,
      show c.toNat / 262144 % 0x08 + 0xf0 = 0xf0 + c.toNat / 2 ^ 18 by omega,
      show c.toNat / 4096 % 0x40 + 0x80 = 0x80 + c.toNat / 2 ^ 12 % 2 ^ 6 by omega,
      show c.toNat / 64 % 0x40 + 0x80 = 0x80 + c.toNat / 2 ^ 6 % 2 ^ 6 by omega,
      show c.toNat % 0x40 + 0x80 = 0x80 + c.toNat % 2 ^ 6 by omega]
    rfl

theorem length_le_utf8 (cs : List Char) : cs.length ≤ (utf8 cs).length := by
  induction cs with
  | nil => exact Nat.zero_le _
  | cons c cs ih =>
    have hcons : utf8 (c :: cs) = utf8Char c ++ utf8 cs := List.flatMap_cons
    have hpos : 0 < (utf8Char c).length := by
      rw [utf8Char_eq]
      split_ifs <;> exact Nat.zero_lt_succ _
    rw [hcons, List.length_append, List.length_cons]
    omega

/-- No byte of a character is 0, but for U+0000. -/
theorem zero_not_mem_utf8Char {c : Char} (h : c.toNat ≠ 0) : (0 : Byte) ∉ utf8Char c := by
  have hlt := toNat_lt c
  have hne : ∀ n, 0 < n → n < 256 → (0 : Byte) ≠ BitVec.ofNat 8 n := by
    intro n hpos hn heq
    have hto := congrArg BitVec.toNat heq
    rw [BitVec.toNat_ofNat, Nat.mod_eq_of_lt (by omega)] at hto
    simp at hto
    omega
  intro hmem
  rw [utf8Char_eq] at hmem
  split_ifs at hmem <;> simp only [List.mem_cons, List.not_mem_nil, or_false] at hmem
  · exact hne _ (by omega) (by omega) hmem
  · rcases hmem with hmem | hmem <;> exact hne _ (by omega) (by omega) hmem
  · rcases hmem with hmem | hmem | hmem <;> exact hne _ (by omega) (by omega) hmem
  · rcases hmem with hmem | hmem | hmem | hmem <;> exact hne _ (by omega) (by omega) hmem

/-- No unit of a character is 0, but for U+0000. -/
theorem zero_not_mem_utf16Char {c : Char} (h : c.toNat ≠ 0) : (0 : BitVec 16) ∉ utf16Char c := by
  have hlt := toNat_lt c
  have hne : ∀ n, 0 < n → n < 0x10000 → (0 : BitVec 16) ≠ BitVec.ofNat 16 n := by
    intro n hpos hn heq
    have hto := congrArg BitVec.toNat heq
    rw [BitVec.toNat_ofNat, Nat.mod_eq_of_lt (by omega)] at hto
    simp at hto
    omega
  intro hmem
  unfold utf16Char at hmem
  split_ifs at hmem with hsmall <;> simp only [List.mem_cons, List.not_mem_nil, or_false] at hmem
  · exact hne _ (by omega) hsmall hmem
  · rcases hmem with hmem | hmem <;> exact hne _ (by omega) (by omega) hmem

end Utf
