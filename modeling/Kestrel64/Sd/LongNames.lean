import Kestrel64.Lib.Fat
import Kestrel64.Lib.Utf
import Kestrel64.Sd.Directory
import Kestrel64.Sd.ShortNames

/-! # SD Card: Directories Are Read Back

    A reader of FAT32 finds in the bytes of a directory its children in
    order, each with its long name if it has one. The parts of a long name
    are compared with the name padded to whole parts (`padded`).
-/

namespace Sd

open Patch

/-! ## Section 1: UTF-16 -/

theorem utf16Loop_cons (fuel : Nat) (b : Byte) (s : Bytes) :
    utf16Loop (fuel + 1) (b :: s) =
      units ((s.take (charLen b.toNat - 1)).foldl (fun c b => c * 2 ^ 6 + b.toNat % 2 ^ 6)
        (if 1 < charLen b.toNat then b.toNat % (0x40 / 2 ^ (charLen b.toNat - 1)) else b.toNat)) ++
      utf16Loop fuel (s.drop (charLen b.toNat - 1)) := rfl

/-- One character in front is read as its units. -/
theorem utf16Loop_char (c : Char) (fuel : Nat) (s : Bytes) :
    utf16Loop (fuel + 1) (Utf.utf8Char c ++ s) = Utf.utf16Char c ++ utf16Loop fuel s := by
  have hlt := Utf.toNat_lt c
  have hto : ∀ n, n < 256 → (BitVec.ofNat 8 n).toNat = n := by
    intro n hn
    rw [BitVec.toNat_ofNat, Nat.mod_eq_of_lt (by omega)]
  have hunits : units c.toNat = Utf.utf16Char c := by
    unfold units Utf.utf16Char
    by_cases h : c.toNat < 0x10000
    · rw [if_neg (by omega), if_pos h]
    · rw [if_pos (by omega), if_neg h]
      rfl
  rw [Utf.utf8Char_eq, ← hunits]
  by_cases h1 : c.toNat < 0x80
  · have hlen : charLen c.toNat = 1 := if_pos h1
    rw [if_pos h1, List.singleton_append, utf16Loop_cons, hto _ (by omega), hlen]
    rfl
  by_cases h2 : c.toNat < 0x800
  · have hlen : charLen (0xc0 + c.toNat / 2 ^ 6) = 2 := by
      unfold charLen
      rw [if_neg (by omega), if_pos (by omega)]
    have hc : (0xc0 + c.toNat / 2 ^ 6) % (0x40 / 2 ^ (2 - 1)) * 2 ^ 6 +
        (0x80 + c.toNat % 2 ^ 6) % 2 ^ 6 = c.toNat := by omega
    rw [if_neg h1, if_pos h2, List.cons_append, utf16Loop_cons, hto _ (by omega), hlen]
    simp only [List.cons_append, List.take_succ_cons, List.take_zero, List.drop_succ_cons,
      List.drop_zero, List.foldl_cons, List.foldl_nil, List.nil_append, Nat.lt_add_one, if_true,
      hto (0x80 + c.toNat % 2 ^ 6) (by omega), hc, Nat.add_one_sub_one]
  by_cases h3 : c.toNat < 0x10000
  · have hlen : charLen (0xe0 + c.toNat / 2 ^ 12) = 3 := by
      unfold charLen
      rw [if_neg (by omega), if_neg (by omega), if_pos (by omega)]
    have hc : ((0xe0 + c.toNat / 2 ^ 12) % (0x40 / 2 ^ (3 - 1)) * 2 ^ 6 +
        (0x80 + c.toNat / 2 ^ 6 % 2 ^ 6) % 2 ^ 6) * 2 ^ 6 + (0x80 + c.toNat % 2 ^ 6) % 2 ^ 6 =
          c.toNat := by omega
    rw [if_neg h1, if_neg h2, if_pos h3, List.cons_append, utf16Loop_cons, hto _ (by omega), hlen]
    simp only [List.cons_append, List.take_succ_cons, List.take_zero, List.drop_succ_cons,
      List.drop_zero, List.foldl_cons, List.foldl_nil, List.nil_append, Nat.reduceLT, if_true,
      hto (0x80 + c.toNat / 2 ^ 6 % 2 ^ 6) (by omega), hto (0x80 + c.toNat % 2 ^ 6) (by omega), hc,
      Nat.reduceSub]
  · have hlen : charLen (0xf0 + c.toNat / 2 ^ 18) = 4 := by
      unfold charLen
      rw [if_neg (by omega), if_neg (by omega), if_neg (by omega)]
    have hc : (((0xf0 + c.toNat / 2 ^ 18) % (0x40 / 2 ^ (4 - 1)) * 2 ^ 6 +
        (0x80 + c.toNat / 2 ^ 12 % 2 ^ 6) % 2 ^ 6) * 2 ^ 6 +
        (0x80 + c.toNat / 2 ^ 6 % 2 ^ 6) % 2 ^ 6) * 2 ^ 6 + (0x80 + c.toNat % 2 ^ 6) % 2 ^ 6 =
          c.toNat := by omega
    rw [if_neg h1, if_neg h2, if_neg h3, List.cons_append, utf16Loop_cons, hto _ (by omega), hlen]
    simp only [List.cons_append, List.take_succ_cons, List.take_zero, List.drop_succ_cons,
      List.drop_zero, List.foldl_cons, List.foldl_nil, List.nil_append, Nat.reduceLT, if_true,
      hto (0x80 + c.toNat / 2 ^ 12 % 2 ^ 6) (by omega),
      hto (0x80 + c.toNat / 2 ^ 6 % 2 ^ 6) (by omega), hto (0x80 + c.toNat % 2 ^ 6) (by omega), hc,
      Nat.reduceSub]

theorem utf16Loop_utf8 (cs : List Char) {fuel : Nat} (h : cs.length ≤ fuel) :
    utf16Loop fuel (Utf.utf8 cs) = Utf.utf16 cs := by
  induction cs generalizing fuel with
  | nil => cases fuel <;> rfl
  | cons c cs ih =>
    obtain ⟨f, rfl⟩ := Nat.exists_eq_add_one_of_ne_zero (n := fuel) (by
      rw [List.length_cons] at h
      omega)
    have h8 : Utf.utf8 (c :: cs) = Utf.utf8Char c ++ Utf.utf8 cs := List.flatMap_cons
    have h16 : Utf.utf16 (c :: cs) = Utf.utf16Char c ++ Utf.utf16 cs := List.flatMap_cons
    rw [h8, h16, utf16Loop_char, ih (by simpa using h)]

/-- The conversion of a name in UTF-8. -/
theorem utf16_utf8 (cs : List Char) : utf16 (Utf.utf8 cs) = Utf.utf16 cs :=
  utf16Loop_utf8 cs (Utf.length_le_utf8 cs)

/-! ## Section 2: The parts of a long name -/

theorem checksum_eq (sfn : Bytes) : lfnSum sfn = Fat.checksum sfn := by
  have hstep : ∀ s : Byte, ((s &&& 1) <<< 7) + (s >>> 1) = s.rotateRight 1 := by decide
  unfold lfnSum Fat.checksum
  congr 1
  funext s c
  rw [hstep]

/-- The first `n` units of a long name with its padding. -/
def padded (lfn : List (BitVec 16)) (n : Nat) : List (BitVec 16) :=
  (List.range n).map (lfnUnit lfn)

theorem padded_add (lfn : List (BitVec 16)) (m n : Nat) :
    padded lfn (m + n) = padded lfn m ++ (List.range n).map fun i => lfnUnit lfn (m + i) := by
  simp [padded, List.range_add]

theorem padded_length (lfn : List (BitVec 16)) : padded lfn lfn.length = lfn := by
  apply List.ext_getElem
  · simp [padded]
  · intro i h1 h2
    simp [padded, lfnUnit, h2]

/-- Behind the name come a 0 and then `0xffff`. -/
theorem padded_past (lfn : List (BitVec 16)) (k : Nat) :
    padded lfn (lfn.length + (k + 1)) = lfn ++ 0 :: List.replicate k 0xffff := by
  have hzero : lfnUnit lfn (lfn.length + 0) = 0 := by simp [lfnUnit]
  have hrest : ∀ i, lfnUnit lfn (lfn.length + (i + 1)) = 0xffff := by
    intro i
    have hnone : lfn[lfn.length + (i + 1)]? = none := List.getElem?_eq_none (by omega)
    simp only [lfnUnit, hnone]
    exact if_neg (by omega)
  rw [padded_add, padded_length, List.range_succ_eq_map, List.map_cons, hzero, List.map_map]
  congr 2
  rw [List.eq_replicate_iff]
  constructor
  · simp
  · intro u hu
    obtain ⟨i, -, rfl⟩ := List.mem_map.mp hu
    exact hrest i

/-- A unit of a name, as its two bytes and back. -/
theorem ofNat_ofLe_unit (u : BitVec 16) :
    BitVec.ofNat 16 (Bytes.ofLe [BitVec.ofNat 8 u.toNat, BitVec.ofNat 8 (u.toNat / 256)]) = u := by
  have hle : Bytes.ofLe (Bytes.le 2 u.toNat) = u.toNat := Bytes.ofLe_le_of_lt u.isLt
  rw [show [BitVec.ofNat 8 u.toNat, BitVec.ofNat 8 (u.toNat / 256)] = Bytes.le 2 u.toNat from rfl,
    hle, BitVec.ofNat_toNat, BitVec.setWidth_eq]

theorem units_longSlot (sum : Byte) (lfn : List (BitVec 16)) (parts part : Nat) :
    Fat.units (longSlot sum lfn parts part) =
      (List.range 13).map fun k => lfnUnit lfn ((part - 1) * 13 + k) := by
  simp only [Fat.units, Bytes.field, longSlot, lfnUnits, Bytes.le, List.range_succ,
    List.range_zero, List.nil_append, List.cons_append, List.flatMap_cons, List.flatMap_nil,
    List.map_cons, List.map_nil, List.drop_succ_cons, List.drop_zero, List.take_succ_cons,
    List.take_zero, ofNat_ofLe_unit, Nat.zero_add, Nat.add_zero, Nat.reduceAdd]

theorem length_lfnUnits (lfn : List (BitVec 16)) (part k n : Nat) :
    (lfnUnits lfn part k n).length = n * 2 := by
  simp [lfnUnits]

theorem length_longSlot (sum : Byte) (lfn : List (BitVec 16)) (parts part : Nat) :
    (longSlot sum lfn parts part).length = 32 := by
  simp [longSlot, length_lfnUnits]

/-- What a reader checks in a part. -/
theorem fields_longSlot (sum : Byte) (lfn : List (BitVec 16)) (parts : Nat) {part : Nat}
    (h : part < 64) :
    Bytes.field (longSlot sum lfn parts part) 0 1 = part + (if part = parts then 0x40 else 0) ∧
      Bytes.field (longSlot sum lfn parts part) 11 1 = 0x0f ∧
      Bytes.field (longSlot sum lfn parts part) 12 1 = 0 ∧
      Bytes.field (longSlot sum lfn parts part) 13 1 = sum.toNat ∧
      Bytes.field (longSlot sum lfn parts part) 26 2 = 0 := by
  have hmark : ∀ p < 64, p ||| 0x40 = p + 0x40 := by decide
  have hord : (BitVec.ofNat 8 (part ||| if part = parts then 0x40 else 0)).toNat =
      part + (if part = parts then 0x40 else 0) := by
    rw [BitVec.toNat_ofNat]
    split
    · rw [hmark part h]
      exact Nat.mod_eq_of_lt (by omega)
    · rw [Nat.or_zero]
      exact Nat.mod_eq_of_lt (by omega)
  simp only [Bytes.field, longSlot, lfnUnits, Bytes.le, Bytes.ofLe, List.range_succ,
    List.range_zero, List.nil_append, List.cons_append, List.flatMap_cons, List.flatMap_nil,
    List.drop_succ_cons, List.drop_zero, List.take_succ_cons, List.take_zero, hord,
    Nat.mul_zero, Nat.add_zero, Nat.zero_div]
  decide

theorem length_longSlotsFrom (sum : Byte) (lfn : List (BitVec 16)) (parts part : Nat) :
    (longSlotsFrom sum lfn parts part).length = part := by
  induction part with
  | zero => rfl
  | succ part ih => rw [longSlotsFrom, List.length_cons, ih]

theorem partsOk_longSlotsFrom (sum : Byte) (lfn : List (BitVec 16)) {parts part : Nat}
    (hparts : parts < 64) (h : part ≤ parts) :
    Fat.partsOk sum (part = parts) (longSlotsFrom sum lfn parts part) = true := by
  induction part with
  | zero => rfl
  | succ part ih =>
    obtain ⟨h0, h11, h12, h13, h26⟩ :=
      fields_longSlot sum lfn parts (show part + 1 < 64 by omega)
    have hrest := ih (by omega)
    have hfirst : decide (part = parts) = false := decide_eq_false (by omega)
    rw [hfirst] at hrest
    rw [longSlotsFrom, Fat.partsOk, hrest, h0, h11, h12, h13, h26, length_longSlotsFrom]
    simp

theorem units_longSlotsFrom (sum : Byte) (lfn : List (BitVec 16)) (parts part : Nat) :
    (longSlotsFrom sum lfn parts part).reverse.flatMap Fat.units = padded lfn (part * 13) := by
  induction part with
  | zero => rfl
  | succ part ih =>
    rw [longSlotsFrom, List.reverse_cons, List.flatMap_append, ih, List.flatMap_singleton,
      units_longSlot, Nat.succ_mul, padded_add, Nat.add_sub_cancel]

theorem takeWhile_units {lfn : List (BitVec 16)} (h : (0 : BitVec 16) ∉ lfn)
    (rest : List (BitVec 16)) (hrest : rest = [] ∨ rest.head? = some 0) :
    (lfn ++ rest).takeWhile (· ≠ 0) = lfn := by
  have hne : ∀ u ∈ lfn, decide (u ≠ 0) = true := by
    intro u hu
    rw [decide_eq_true_eq]
    rintro rfl
    exact h hu
  rw [List.takeWhile_append_of_pos hne]
  rcases hrest with rfl | hrest
  · simp
  · cases rest with
    | nil => simp
    | cons u rest =>
      rw [Option.some.inj hrest]
      simp

/-- The parts of a long name are read back as the name. -/
theorem longName_longSlots {lfn : List (BitVec 16)} (hne : lfn ≠ []) (hlen : lfn.length ≤ 255)
    (hzero : (0 : BitVec 16) ∉ lfn) (sfn : Bytes) :
    Fat.longName sfn (longSlots sfn lfn) = some lfn := by
  have hpos := List.length_pos_iff.mpr hne
  have hparts : (lfn.length + 12) / 13 ≠ 0 := by omega
  have hcons : longSlots sfn lfn ≠ [] := by
    intro hnil
    have hl := congrArg List.length hnil
    rw [longSlots, length_longSlotsFrom] at hl
    exact hparts hl
  have hok : Fat.partsOk (Fat.checksum sfn) true (longSlots sfn lfn) = true := by
    have h := partsOk_longSlotsFrom (lfnSum sfn) lfn (show (lfn.length + 12) / 13 < 64 by omega)
      (le_refl _)
    rw [decide_eq_true rfl] at h
    rw [← checksum_eq]
    exact h
  have hunits : (longSlots sfn lfn).reverse.flatMap Fat.units =
      padded lfn ((lfn.length + 12) / 13 * 13) := units_longSlotsFrom ..
  unfold Fat.longName
  dsimp only
  rw [hunits, if_neg (by simp [hcons, hok])]
  by_cases hfull : lfn.length % 13 = 0
  · rw [show (lfn.length + 12) / 13 * 13 = lfn.length by omega, padded_length]
    have htake : lfn.takeWhile (· ≠ 0) = lfn := by
      simpa using takeWhile_units hzero [] (.inl rfl)
    rw [htake, List.drop_length, if_pos (.inl rfl)]
  · obtain ⟨k, hk⟩ : ∃ k, (lfn.length + 12) / 13 * 13 = lfn.length + (k + 1) :=
      ⟨(lfn.length + 12) / 13 * 13 - lfn.length - 1, by omega⟩
    rw [hk, padded_past, takeWhile_units hzero _ (.inr rfl), List.drop_left]
    apply if_pos
    refine .inr ⟨?_, ?_⟩
    · rw [List.length_cons, List.length_replicate]
      omega
    · simp

/-! ## Section 3: Short names are read back -/

/-- A short name no reader takes for a mark. -/
structure Readable (sfn : Bytes) : Prop where
  length : sfn.length = 11
  not_end : Bytes.field sfn 0 1 ≠ 0
  not_deleted : Bytes.field sfn 0 1 ≠ 0xe5

/-- The bytes of a name that are neither 0 nor outside ASCII. -/
def Ascii (c : Byte) : Prop := c.toNat ≠ 0 ∧ c.toNat < 0x80

theorem readable_of_head {b : Byte} {bs : Bytes} (hlen : (b :: bs).length = 11) (h : Ascii b) :
    Readable (b :: bs) := by
  have hfield : Bytes.field (b :: bs) 0 1 = b.toNat := by
    simp [Bytes.field, Bytes.ofLe]
  obtain ⟨hzero, hlt⟩ := h
  refine ⟨hlen, ?_, ?_⟩
  · rw [hfield]
    exact hzero
  · rw [hfield]
    omega

theorem ascii_of_isPlain {c : Byte} (h : isPlain c = true) (h0 : c ≠ 0) : Ascii c := by
  have hall : ∀ c : Byte, isPlain c = true → c ≠ 0 → c.toNat ≠ 0 ∧ c.toNat < 0x80 := by decide
  exact hall c h h0

theorem ascii_of_keep {c d : Byte} (h : keep c = some d) : Ascii d := by
  unfold keep at h
  split_ifs at h with hlower hrest
  · simp only [isLower, Bool.and_eq_true, decide_eq_true_eq] at hlower
    rw [← Option.some.inj h, Ascii, BitVec.toNat_sub]
    simp
    omega
  · rw [← Option.some.inj h]
    simp only [isUpper, Decimal.isDigit, Bool.or_eq_true, Bool.and_eq_true,
      decide_eq_true_eq] at hrest
    constructor <;> omega

theorem ascii_of_digit {c : Byte} (h : Decimal.isDigit c = true) : Ascii c := by
  simp only [Decimal.isDigit, Bool.and_eq_true, decide_eq_true_eq] at h
  constructor <;> omega

theorem ascii_aliasBase {n : Bytes} {s : Nat} : ∀ c ∈ aliasBase n s, Ascii c := by
  have hbase : ∀ c ∈ (if (basePart n).filterMap keep = [] then [underscore]
      else (basePart n).filterMap keep), Ascii c := by
    intro c hc
    split at hc
    · rw [List.mem_singleton.mp hc]
      exact ⟨by decide, by decide⟩
    · obtain ⟨d, -, hd⟩ := List.mem_filterMap.mp hc
      exact ascii_of_keep hd
  intro c hc
  unfold aliasBase at hc
  dsimp only at hc
  rcases List.mem_append.mp hc with hc | hc
  · split at hc
    · exact hbase c (List.mem_of_mem_take hc)
    · exact hbase c hc
  · rcases List.mem_cons.mp hc with rfl | hc
    · exact ⟨by decide, by decide⟩
    · exact ascii_of_digit (Decimal.isDigit_of_mem_text hc)

theorem readable_alias {n a : Bytes} {s : Nat} (h : alias83 n s = some a) : Readable a := by
  have hlen := length_alias83 h
  cases hb : aliasBase n s with
  | nil =>
    unfold aliasBase at hb
    simp at hb
  | cons b bs =>
    have hascii := ascii_aliasBase (n := n) (s := s) b (by
      rw [hb]
      exact List.mem_cons_self ..)
    unfold alias83 at h
    dsimp only at h
    split_ifs at h
    have ha := (Option.some.inj h).symm
    rw [hb] at ha
    simp only [overwrite, List.take_zero, List.nil_append, List.cons_append,
      List.take_succ_cons] at ha
    subst ha
    exact readable_of_head hlen hascii

theorem readable_plain {n sfn : Bytes} (h : plain83 n = some sfn) (hzero : (0 : Byte) ∉ n) :
    Readable sfn := by
  have hlen := length_plain83 h
  obtain ⟨hsfn, -, -, hplain, -⟩ := plain83_eq_some h
  cases hb : basePart n with
  | nil =>
    unfold plain83 at h
    simp [hb] at h
  | cons b bs =>
    have hmem : b ∈ basePart n := by
      rw [hb]
      exact List.mem_cons_self ..
    have hbn : b ∈ n := by
      rcases parts n with ⟨-, hn, -⟩ | ⟨-, hn⟩
      · rw [hn]
        exact hmem
      · rw [hn]
        exact List.mem_append_left _ hmem
    have hb0 : b ≠ 0 := by
      rintro rfl
      exact hzero hbn
    rw [hb] at hsfn
    simp only [pad, List.cons_append] at hsfn
    subst hsfn
    exact readable_of_head hlen (ascii_of_isPlain (hplain b hmem) hb0)

/-! ## Section 4: A child -/

theorem length_dirEntry {sfn : Bytes} (h : sfn.length = 11) (dir : Bool) (clus size : Nat) :
    (dirEntry sfn dir clus size).length = 32 := by
  simp [dirEntry, h]

/-- What a reader finds in a short entry. -/
def recOf (sfn : Bytes) (dir : Bool) (clus size : Nat) (long : Option (List (BitVec 16))) :
    Fat.Rec where
  sfn := sfn
  attr := if dir then 0x10 else 0x20
  cluster := clus % 2 ^ 32
  size := if dir then 0 else size % 2 ^ 32
  long := long

theorem records_dirEntry {sfn : Bytes} (h : Readable sfn) (dir : Bool) (clus size : Nat)
    (parts ss : List Bytes) :
    Fat.records parts (dirEntry sfn dir clus size :: ss) =
      (Fat.records [] ss).map fun rs => recOf sfn dir clus size (Fat.longName sfn parts) :: rs := by
  have hlen := h.length
  obtain ⟨rest, hrest⟩ : ∃ rest, rest = [if dir then 0x10 else 0x20, 0, 0] ++
      Bytes.le 2 time ++ Bytes.le 2 date ++ Bytes.le 2 date ++ Bytes.le 2 (clus / 2 ^ 16) ++
      Bytes.le 2 time ++ Bytes.le 2 date ++ Bytes.le 2 clus ++
      Bytes.le 4 (if dir then 0 else size) := ⟨_, rfl⟩
  have hsplit : dirEntry sfn dir clus size = sfn ++ rest := by
    simp only [hrest, dirEntry, List.append_assoc]
  have hhead : Bytes.field (dirEntry sfn dir clus size) 0 1 = Bytes.field sfn 0 1 := by
    rw [hsplit, Bytes.field, Bytes.field, List.drop_zero, List.drop_zero,
      List.take_append_of_le_length (by omega)]
  have hname : (dirEntry sfn dir clus size).take 11 = sfn := by
    rw [hsplit, List.take_left' hlen]
  have hattr : Bytes.field (dirEntry sfn dir clus size) 11 1 = if dir then 0x10 else 0x20 := by
    rw [hsplit, Bytes.field_append hlen 0, hrest]
    cases dir <;> rfl
  have hclus : Bytes.field (dirEntry sfn dir clus size) 26 2 +
      Bytes.field (dirEntry sfn dir clus size) 20 2 * 2 ^ 16 = clus % 2 ^ 32 := by
    rw [hsplit, Bytes.field_append hlen 15, Bytes.field_append hlen 9, hrest]
    simp [Bytes.field, Bytes.le, Bytes.ofLe]
    omega
  have hsize : Bytes.field (dirEntry sfn dir clus size) 28 4 = if dir then 0 else size % 2 ^ 32 := by
    rw [hsplit, Bytes.field_append hlen 17, hrest]
    cases dir
    · simp [Bytes.field, Bytes.le, Bytes.ofLe]
      omega
    · simp [Bytes.field, Bytes.le, Bytes.ofLe]
  have hnolong : ¬ Bytes.field (dirEntry sfn dir clus size) 11 1 = 0x0f := by
    rw [hattr]
    cases dir <;> decide
  rw [Fat.records, hhead, if_neg h.not_end, if_neg h.not_deleted, if_neg hnolong, hname, hattr, hclus,
    hsize]
  cases Fat.records [] ss <;> rfl

/-- A long name a part can hold. -/
structure Storable (lfn : List (BitVec 16)) : Prop where
  nonempty : lfn ≠ []
  length : lfn.length ≤ 255
  noNul : (0 : BitVec 16) ∉ lfn

theorem mem_longSlotsFrom {sum : Byte} {lfn : List (BitVec 16)} {parts part : Nat} {s : Bytes}
    (h : s ∈ longSlotsFrom sum lfn parts part) :
    ∃ k < part, s = longSlot sum lfn parts (k + 1) := by
  induction part with
  | zero => cases h
  | succ part ih =>
    rcases List.mem_cons.mp h with rfl | h
    · exact ⟨part, Nat.lt_succ_self _, rfl⟩
    · obtain ⟨k, hk, rfl⟩ := ih h
      exact ⟨k, Nat.lt_succ_of_lt hk, rfl⟩

theorem records_longSlots {lfn : List (BitVec 16)} (h : lfn.length ≤ 255) (sfn : Bytes)
    (ss : List Bytes) :
    Fat.records [] (longSlots sfn lfn ++ ss) = Fat.records (longSlots sfn lfn) ss := by
  rw [Fat.records_parts, List.nil_append]
  intro s hs
  obtain ⟨k, hk, rfl⟩ := mem_longSlotsFrom hs
  obtain ⟨h0, h11, -⟩ := fields_longSlot (lfnSum sfn) lfn ((lfn.length + 12) / 13)
    (show k + 1 < 64 by omega)
  refine ⟨?_, ?_, h11⟩
  · omega
  · rw [h0]
    split <;> omega

theorem longName_nil (sfn : Bytes) : Fat.longName sfn [] = none := by
  simp [Fat.longName]

/-- What a reader finds of a child. -/
def childRec (c : Child) : Fat.Rec :=
  recOf c.entry.sfn c.dir c.first c.size (if c.entry.needLfn then some c.entry.lfn else none)

theorem records_child {c : Child} (hsfn : Readable c.entry.sfn)
    (hlfn : c.entry.needLfn = true → Storable c.entry.lfn) (ss : List Bytes) :
    Fat.records [] (childSlots c ++ ss) = (Fat.records [] ss).map (childRec c :: ·) := by
  unfold childSlots childRec
  cases hneed : c.entry.needLfn with
  | true =>
    have hstore := hlfn hneed
    simp only [if_true]
    rw [List.append_assoc, records_longSlots hstore.length, List.singleton_append,
      records_dirEntry hsfn, longName_longSlots hstore.nonempty hstore.length hstore.noNul]
  | false =>
    simp only [Bool.false_eq_true, if_false, List.nil_append]
    rw [List.singleton_append, records_dirEntry hsfn, longName_nil]

/-! ## Section 5: A directory -/

/-- The records of `.` and `..`. -/
def dotRecs : Option (Nat × Nat) → List Fat.Rec
  | none => []
  | some (self, parent) =>
    [recOf (pad 11 [dot]) true self 0 none, recOf (pad 11 [dot, dot]) true parent 0 none]

theorem readable_dots (s : Bytes) (h : s = [dot] ∨ s = [dot, dot]) : Readable (pad 11 s) := by
  rcases h with rfl | rfl <;> exact ⟨by decide, by decide, by decide⟩

theorem records_dots (up : Option (Nat × Nat)) (ss : List Bytes) :
    Fat.records [] (dotSlots up ++ ss) = (Fat.records [] ss).map (dotRecs up ++ ·) := by
  cases up with
  | none => simp [dotSlots, dotRecs]
  | some up =>
    simp only [dotSlots, dotRecs, List.cons_append, List.nil_append,
      records_dirEntry (readable_dots [dot] (.inl rfl)),
      records_dirEntry (readable_dots [dot, dot] (.inr rfl)), longName_nil, Option.map_map]
    rfl

theorem records_children {cs : List Child}
    (h : ∀ c ∈ cs, Readable c.entry.sfn ∧ (c.entry.needLfn = true → Storable c.entry.lfn))
    (ss : List Bytes) :
    Fat.records [] (cs.flatMap childSlots ++ ss) =
      (Fat.records [] ss).map (cs.map childRec ++ ·) := by
  induction cs with
  | nil => simp
  | cons c cs ih =>
    rw [List.forall_mem_cons] at h
    rw [List.flatMap_cons, List.append_assoc, records_child h.1.1 h.1.2, ih h.2, Option.map_map]
    rfl

theorem length_childSlots (c : Child) : (childSlots c).length = entrySlots c.entry := by
  unfold childSlots entrySlots
  rw [List.length_append, List.length_singleton, Nat.add_comm]
  congr 1
  split
  · exact length_longSlotsFrom ..
  · rfl

/-- As many slots are written as a directory is sized for. -/
theorem length_dirSlots (up : Option (Nat × Nat)) (cs : List Child) :
    (dirSlots up cs).length = slotCount up.isNone (cs.map Child.entry) := by
  have hdots : (dotSlots up).length = if up.isNone then 0 else 2 := by
    cases up <;> rfl
  rw [dirSlots, slotCount, List.length_append, hdots, List.length_flatMap, List.map_map]
  congr 3
  funext c
  exact length_childSlots c

theorem length_of_mem_dirSlots {up : Option (Nat × Nat)} {cs : List Child}
    (h : ∀ c ∈ cs, Readable c.entry.sfn) {s : Bytes} (hs : s ∈ dirSlots up cs) : s.length = 32 := by
  rcases List.mem_append.mp hs with hs | hs
  · cases up with
    | none => cases hs
    | some up =>
      rcases List.mem_cons.mp hs with rfl | hs
      · exact length_dirEntry (by decide) ..
      · rw [List.mem_singleton.mp hs]
        exact length_dirEntry (by decide) ..
  · obtain ⟨c, hc, hs⟩ := List.mem_flatMap.mp hs
    rcases List.mem_append.mp hs with hs | hs
    · split at hs
      · obtain ⟨k, -, rfl⟩ := mem_longSlotsFrom hs
        exact length_longSlot ..
      · cases hs
    · rw [List.mem_singleton.mp hs]
      exact length_dirEntry (h c hc).length ..

/-- Slots that fit are written one after another, and zeros stay behind them. -/
theorem putSlots_zeros {ss : List Bytes} (hss : ∀ s ∈ ss, s.length = 32) (a : Bytes) {n : Nat}
    (h : ss.length * 32 ≤ n) :
    putSlots (a ++ List.replicate n 0) a.length ss =
      some (a ++ ss.flatten ++ List.replicate (n - ss.length * 32) 0) := by
  induction ss generalizing a n with
  | nil => simp [putSlots]
  | cons s ss ih =>
    rw [List.forall_mem_cons] at hss
    rw [List.length_cons, Nat.succ_mul] at h
    have hroom : a.length + 32 ≤ (a ++ List.replicate n (0 : Byte)).length := by
      rw [List.length_append, List.length_replicate]
      omega
    have hlen : a.length + 32 = (a ++ s).length := by rw [List.length_append, hss.1]
    rw [putSlots, if_pos hroom, overwrite_mid rfl rfl, hss.1, List.drop_replicate, hlen,
      ih hss.2 (a ++ s) (by omega), List.flatten_cons, List.length_cons, Nat.succ_mul,
      List.append_assoc a s, show n - 32 - ss.length * 32 = n - (ss.length * 32 + 32) by omega]

/-- The bytes of a directory with room for its slots and the end mark. -/
theorem dirBytes_read {count : Nat} (up : Option (Nat × Nat)) {cs : List Child}
    (h : ∀ c ∈ cs, Readable c.entry.sfn ∧ (c.entry.needLfn = true → Storable c.entry.lfn))
    (hcount : ((dirSlots up cs).length + 1) * 32 ≤ count * kClus) :
    ∃ bytes, dirBytes count up cs = some bytes ∧ bytes.length = count * kClus ∧
      Bytes.field bytes ((dirSlots up cs).length * 32) 1 = 0 ∧
      Fat.readDir bytes = some (dotRecs up ++ cs.map childRec) := by
  have hslots : ∀ s ∈ dirSlots up cs, s.length = 32 :=
    fun s hs => length_of_mem_dirSlots (fun c hc => (h c hc).1) hs
  have hflat : (dirSlots up cs).flatten.length = (dirSlots up cs).length * 32 := by
    rw [List.length_flatten, List.map_congr_left hslots, List.map_const', List.sum_replicate_nat]
  have hk : count * kClus = 32 * (count * 128) := by
    rw [show kClus = 128 * 32 from rfl, ← Nat.mul_assoc, Nat.mul_comm]
  have hput := putSlots_zeros hslots [] (n := count * kClus) (by omega)
  obtain ⟨m, hm⟩ : ∃ m, count * 128 = (dirSlots up cs).length + (m + 1) :=
    ⟨count * 128 - (dirSlots up cs).length - 1, by omega⟩
  have hrest : count * kClus - (dirSlots up cs).length * 32 = 32 * (m + 1) := by omega
  rw [List.nil_append, List.nil_append, List.length_nil, hrest] at hput
  have hlen : ((dirSlots up cs).flatten ++ List.replicate (32 * (m + 1)) (0 : Byte)).length =
      count * kClus := by
    rw [List.length_append, hflat, List.length_replicate]
    omega
  refine ⟨_, hput, hlen, ?_, ?_⟩
  · have hend : Bytes.field _ ((dirSlots up cs).length * 32) 1 =
        Bytes.field (List.replicate (32 * (m + 1)) 0) 0 1 := Bytes.field_append hflat 0 1
    rw [hend, Nat.mul_succ, Nat.add_comm, List.replicate_add]
    rfl
  · have hpieces : ((dirSlots up cs).flatten ++ List.replicate (32 * (m + 1)) (0 : Byte)).length / 32 =
        (dirSlots up cs).length + (m + 1) := by
      rw [hlen]
      omega
    have hmark : ∀ ss, Fat.records [] (List.replicate 32 0 :: ss) = some [] :=
      fun ss => if_pos (by decide)
    rw [Fat.readDir, hpieces, Fat.pieces_append hslots, Fat.pieces_replicate, dirSlots,
      List.append_assoc, records_dots, records_children h, List.replicate_succ, hmark]
    simp

/-! ## Section 6: The names of the host -/

/-- A file name of the host. A host has no empty names and no 0 in a name. -/
structure FileName where
  chars : List Char
  nonempty : chars ≠ []
  noNul : ∀ c ∈ chars, c.toNat ≠ 0
  length : (Utf.utf16 chars).length ≤ 255

def FileName.bytes (f : FileName) : Bytes := Utf.utf8 f.chars

/-- A child of a directory. -/
structure Kid where
  name : FileName
  dir : Bool
  first : Nat
  size : Nat

/-- The children of a directory. Nodes have an `int` for number. -/
structure Kids where
  list : List Kid
  numbered : list.length < 2 ^ 31

def Kids.names (ks : Kids) : List Bytes := ks.list.map fun k => k.name.bytes

/-- A child with its entry. -/
def Kid.child (k : Kid) (e : Entry) : Child :=
  { entry := e, dir := k.dir, first := k.first, size := k.size }

/-- What a reader has to find of a child. -/
def Kid.record (k : Kid) (e : Entry) : Fat.Rec :=
  recOf e.sfn k.dir k.first k.size
    (if plain83 k.name.bytes = none then some (Utf.utf16 k.name.chars) else none)

theorem FileName.zero_not_mem (f : FileName) : (0 : Byte) ∉ f.bytes := by
  intro h
  obtain ⟨c, hc, hzero⟩ := List.mem_flatMap.mp h
  exact Utf.zero_not_mem_utf8Char (f.noNul c hc) hzero

theorem FileName.storable (f : FileName) : Storable (utf16 f.bytes) := by
  have hutf : utf16 f.bytes = Utf.utf16 f.chars := utf16_utf8 f.chars
  rw [hutf]
  refine ⟨?_, f.length, ?_⟩
  · intro hnil
    obtain ⟨c, hc⟩ := List.exists_mem_of_ne_nil _ f.nonempty
    have hempty : Utf.utf16Char c = [] := List.flatMap_eq_nil_iff.mp hnil c hc
    unfold Utf.utf16Char at hempty
    split at hempty <;> cases hempty
  · intro h
    obtain ⟨c, hc, hzero⟩ := List.mem_flatMap.mp h
    exact Utf.zero_not_mem_utf16Char (f.noNul c hc) hzero

theorem readable_of_names {f : FileName} {e : Entry} (h : Names f.bytes e) :
    Readable e.sfn ∧ (e.needLfn = true → Storable e.lfn) := by
  rcases h with ⟨hplain, hneed⟩ | ⟨-, -, hlfn, s, halias⟩
  · refine ⟨readable_plain hplain f.zero_not_mem, ?_⟩
    rw [hneed]
    intro hfalse
    cases hfalse
  · refine ⟨readable_alias halias, ?_⟩
    intro _
    rw [hlfn]
    exact f.storable

theorem childRec_child {k : Kid} {e : Entry} (h : Names k.name.bytes e) :
    childRec (k.child e) = k.record e := by
  rcases h with ⟨hplain, hneed⟩ | ⟨hplain, hneed, hlfn, -⟩
  · simp [childRec, Kid.record, Kid.child, hplain, hneed]
  · have hutf : utf16 k.name.bytes = Utf.utf16 k.name.chars := utf16_utf8 k.name.chars
    simp [childRec, Kid.record, Kid.child, hplain, hneed, hlfn, hutf]

/-- The entries stand at their children. -/
theorem children_of_names {ks : List Kid} {es : List Entry}
    (h : List.Forall₂ Names (ks.map fun k => k.name.bytes) es) :
    (∀ c ∈ List.zipWith Kid.child ks es,
        Readable c.entry.sfn ∧ (c.entry.needLfn = true → Storable c.entry.lfn)) ∧
      (List.zipWith Kid.child ks es).map childRec = List.zipWith Kid.record ks es ∧
      (List.zipWith Kid.child ks es).map Child.entry = es := by
  induction ks generalizing es with
  | nil =>
    cases h
    simp
  | cons k ks ih =>
    rw [List.map_cons] at h
    cases h with
    | @cons _ e _ es hk hks =>
      obtain ⟨hread, hrec, hentry⟩ := ih hks
      simp only [List.zipWith_cons_cons, List.forall_mem_cons, List.map_cons]
      refine ⟨⟨readable_of_names hk, hread⟩, ?_, ?_⟩
      · rw [childRec_child hk, hrec]
      · rw [hentry]
        rfl

/-- At most 20 parts and the short entry. -/
theorem sum_entrySlots {names : List Bytes} {es : List Entry} (h : List.Forall₂ Names names es)
    (hstore : ∀ e ∈ es, e.needLfn = true → Storable e.lfn) :
    (es.map entrySlots).sum ≤ 21 * names.length := by
  induction h with
  | nil => simp
  | @cons n e names es _ _ ih =>
    rw [List.forall_mem_cons] at hstore
    have hslots : entrySlots e ≤ 21 := by
      unfold entrySlots
      split
      · next hneed =>
        have hlen := (hstore.1 hneed).length
        omega
      · omega
    have hrest := ih hstore.2
    rw [List.map_cons, List.sum_cons, List.length_cons]
    omega

/-- The clusters of a directory hold its slots and the end mark. -/
theorem clusterCount_holds {n : Nat} (h : n < 2 ^ 36) : (n + 1) * 32 ≤
    clusterCount true ((n + 1) * 32) * kClus := by
  have hk : kClus = 4096 := rfl
  have hcount : ((n + 1) * 32 + kClus - 1) / kClus % 2 ^ 32 = ((n + 1) * 32 + 4095) / 4096 := by
    rw [hk]
    omega
  unfold clusterCount
  rw [hcount, hk]
  dsimp only
  split <;> omega

/-! ## Section 7: Directories are read back -/

/-- The bytes of a directory have room for the slots of its children and the end
    mark, and from them the children are read, each with its long name. -/
theorem directory_read (up : Option (Nat × Nat)) (kids : Kids) (es : List Entry)
    (h : entriesOf kids.names = some es) :
    (dirSlots up (List.zipWith Kid.child kids.list es)).length = slotCount up.isNone es ∧
      ∃ bytes, dirBytes (clusterCount true ((slotCount up.isNone es + 1) * 32)) up
          (List.zipWith Kid.child kids.list es) = some bytes ∧
        (slotCount up.isNone es + 1) * 32 ≤ bytes.length ∧
        Bytes.field bytes (slotCount up.isNone es * 32) 1 = 0 ∧
        Fat.readDir bytes = some (dotRecs up ++ List.zipWith Kid.record kids.list es) := by
  have hnames := names_entriesOf h
  obtain ⟨hread, hrec, hentry⟩ := children_of_names hnames
  have hslots := length_dirSlots up (List.zipWith Kid.child kids.list es)
  rw [hentry] at hslots
  have hstore : ∀ e ∈ es, e.needLfn = true → Storable e.lfn := by
    intro e he
    rw [← hentry] at he
    obtain ⟨c, hc, rfl⟩ := List.mem_map.mp he
    exact (hread c hc).2
  have hroom : slotCount up.isNone es < 2 ^ 36 := by
    have hsum := sum_entrySlots hnames hstore
    have hnum := kids.numbered
    rw [Kids.names, List.length_map] at hsum
    unfold slotCount
    split <;> omega
  have hfit := clusterCount_holds hroom
  obtain ⟨bytes, hbytes, hlen, hend, hdir⟩ := dirBytes_read up hread (by
    rw [hslots]
    exact hfit)
  rw [hslots] at hend
  rw [hrec] at hdir
  refine ⟨hslots, bytes, hbytes, ?_, hend, hdir⟩
  rw [hlen]
  exact hfit

/-- `A` -/
def plainName : FileName := ⟨[Char.ofNat 0x41], by decide, by simp, by decide⟩

/-- `é.txt` -/
def accentedName : FileName :=
  ⟨[0xe9, 0x2e, 0x74, 0x78, 0x74].map Char.ofNat, by decide, by simp, by decide⟩

/-- A directory with the files `A` and `é.txt`. -/
def accented : Kids where
  list := [
    { name := plainName, dir := false, first := 3, size := 8 },
    { name := accentedName, dir := false, first := 4, size := 8 }]
  numbered := by decide

def accentedEntries : List Entry :=
  [{ sfn := [0x41, 0x20, 0x20, 0x20, 0x20, 0x20, 0x20, 0x20, 0x20, 0x20, 0x20], needLfn := false },
    { sfn := [0x5f, 0x7e, 0x31, 0x20, 0x20, 0x20, 0x20, 0x20, 0x54, 0x58, 0x54]
      lfn := [0xe9, 0x2e, 0x74, 0x78, 0x74], needLfn := true }]

theorem directory_read_accented :
    entriesOf accented.names = some accentedEntries ∧
      ∃ bytes, dirBytes 1 none (List.zipWith Kid.child accented.list accentedEntries) = some bytes ∧
        Fat.readDir bytes =
          some (List.zipWith Kid.record accented.list accentedEntries) := by
  have hentries : entriesOf accented.names = some accentedEntries := by decide +kernel
  obtain ⟨-, bytes, hbytes, -, -, hdir⟩ := directory_read none accented accentedEntries hentries
  exact ⟨hentries, bytes, hbytes, hdir⟩

end Sd
