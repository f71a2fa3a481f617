import Kestrel64.Lib.CanonicalCode
import Kestrel64.Archive.Inflate

/-! # The Decoder's Reader and Tables

    The bit reader as a stream of bits still to be read, and the Huffman tables
    as canonical codes: reading a field gives the number that was written, and
    decoding a code word gives its symbol.
-/

namespace Archive

open BitStream CanonicalCode

-- ================================================================
-- Section 1: Fields
-- ================================================================

namespace Bits

/-- The reader holds `bits`, taken from `inp`. -/
structure Holds (b : Bits) (inp : Bytes) (bits : List Bool) : Prop where
  src : b.inp = inp
  err : b.err = false
  pos : b.pos ≤ inp.length
  buf : b.buf < 2 ^ b.cnt
  room : bits.length ≤ 8 * inp.length
  bits : bits = lsb b.cnt b.buf ++ ofBytes (inp.drop b.pos)

/-- Between two reads less than a byte is left in the buffer. -/
structure Reads (b : Bits) (inp : Bytes) (bits : List Bool) : Prop extends b.Holds inp bits where
  cnt : b.cnt < 8

variable {b : Bits} {inp : Bytes} {bits : List Bool}

theorem reads_start (inp : Bytes) : Reads { inp } inp (ofBytes inp) where
  src := rfl
  err := rfl
  pos := Nat.zero_le _
  buf := Nat.one_pos
  bits := rfl
  room := by simp
  cnt := Nat.zero_lt_succ _

theorem Holds.length (h : b.Holds inp bits) : bits.length = b.cnt + 8 * (inp.length - b.pos) := by
  rw [h.bits, List.length_append, length_lsb, length_ofBytes, List.length_drop]

/-- One more byte in the buffer. -/
theorem Holds.push (h : b.Holds inp bits) (hpos : b.pos < inp.length) :
    Holds { b with buf := b.buf ||| ((b.inp.getD b.pos 0).toNat <<< b.cnt)
                   pos := b.pos + 1
                   cnt := b.cnt + 8 } inp bits := by
  have hbyte : b.inp.getD b.pos 0 = inp[b.pos] := by
    rw [h.src, List.getD_eq_getElem _ _ hpos]
  have hadd : b.buf ||| ((b.inp.getD b.pos 0).toNat <<< b.cnt) =
      2 ^ b.cnt * inp[b.pos].toNat + b.buf := by
    rw [hbyte, Nat.or_comm, Nat.shiftLeft_eq, Nat.mul_comm,
      Nat.two_pow_add_eq_or_of_lt h.buf]
  refine ⟨h.src, h.err, hpos, ?_, h.room, ?_⟩
  · show b.buf ||| _ < 2 ^ (b.cnt + 8)
    have hlt := inp[b.pos].isLt
    have hmul : 2 ^ b.cnt * (inp[b.pos].toNat + 1) ≤ 2 ^ b.cnt * 2 ^ 8 :=
      Nat.mul_le_mul_left _ hlt
    have hbuf := h.buf
    rw [hadd, Nat.pow_add]
    rw [Nat.mul_add, Nat.mul_one] at hmul
    omega
  · show bits = lsb (b.cnt + 8) (b.buf ||| _) ++ ofBytes (inp.drop (b.pos + 1))
    have hlow : lsb b.cnt (2 ^ b.cnt * inp[b.pos].toNat + b.buf) = lsb b.cnt b.buf := by
      rw [← lsb_mod, Nat.mul_add_mod, lsb_mod]
    have hhigh : (2 ^ b.cnt * inp[b.pos].toNat + b.buf) / 2 ^ b.cnt = inp[b.pos].toNat := by
      rw [Nat.mul_add_div (Nat.two_pow_pos _), Nat.div_eq_of_lt h.buf, Nat.add_zero]
    rw [hadd, lsb_add, hlow, hhigh, h.bits, List.drop_eq_getElem_cons hpos, ofBytes_cons,
      List.append_assoc]

/-- The loop fills the buffer when the stream is long enough. -/
theorem Holds.fill (need fuel : Nat) (h : b.Holds inp bits) (hlen : need ≤ bits.length)
    (hfuel : need ≤ b.cnt + fuel) (hcnt : b.cnt < need + 8) :
    (b.fill need fuel).Holds inp bits ∧ need ≤ (b.fill need fuel).cnt ∧
      (b.fill need fuel).cnt < need + 8 := by
  induction fuel generalizing b with
  | zero => exact ⟨h, hfuel, hcnt⟩
  | succ fuel ih =>
    by_cases hneed : b.cnt < need
    · have hpos : b.pos < inp.length := by
        have := h.length
        omega
      have hin : ¬ b.inp.length ≤ b.pos := by rw [h.src]; omega
      simp only [Bits.fill, if_pos hneed, if_neg hin]
      exact ih (h.push hpos) (by show need ≤ b.cnt + 8 + fuel; omega)
        (by show b.cnt + 8 < need + 8; omega)
    · simp only [Bits.fill, if_neg hneed]
      exact ⟨h, Nat.not_lt.mp hneed, hcnt⟩

/-- Reading a field gives the number that was written into it. -/
theorem Reads.get {need x : Nat} {rest : List Bool} (h : b.Reads inp (lsb need x ++ rest))
    (hx : x < 2 ^ need) : (b.get need).1 = x ∧ (b.get need).2.Reads inp rest := by
  obtain ⟨hf, hge, hlt⟩ := h.toHolds.fill need need (by simp) (by omega)
    (by have := h.cnt; omega)
  revert hf hge hlt
  generalize hb' : b.fill need need = b'
  intro hf hge hlt
  have hsplit : lsb b'.cnt b'.buf = lsb need b'.buf ++ lsb (b'.cnt - need) (b'.buf / 2 ^ need) := by
    rw [← lsb_add, Nat.add_sub_cancel' hge]
  have hbits := hf.bits
  rw [hsplit, List.append_assoc] at hbits
  obtain ⟨hfield, hrest⟩ := List.append_inj hbits (by simp)
  have hval : b'.buf &&& (2 ^ need - 1) = x := by
    rw [Nat.and_two_pow_sub_one_eq_mod, ← ofLsb_lsb, ← hfield, ofLsb_lsb, Nat.mod_eq_of_lt hx]
  simp only [Bits.get, hb', if_neg (Nat.not_lt.mpr hge)]
  refine ⟨hval, ⟨hf.src, hf.err, hf.pos, ?_, ?_, ?_⟩, ?_⟩
  · show b'.buf >>> need < 2 ^ (b'.cnt - need)
    rw [Nat.shiftRight_eq_div_pow, Nat.div_lt_iff_lt_mul (Nat.two_pow_pos _), ← Nat.pow_add,
      Nat.sub_add_cancel hge]
    exact hf.buf
  · have := h.room
    rw [List.length_append] at this
    omega
  · rw [hrest, ← Nat.shiftRight_eq_div_pow]
  · show b'.cnt - need < 8
    omega

/-- After `align` the reader is at the next byte. -/
theorem Reads.align {pad rest : List Bool} (h : b.Reads inp (pad ++ rest)) (hpad : pad.length < 8)
    (hrest : rest.length % 8 = 0) :
    b.align.inp = inp ∧ b.align.err = false ∧ b.align.cnt = 0 ∧ b.align.buf = 0 ∧
      b.align.pos ≤ inp.length ∧ rest = ofBytes (inp.drop b.align.pos) := by
  have hlen := h.length
  have hcnt := h.cnt
  rw [List.length_append] at hlen
  have heq : pad.length = b.cnt := by omega
  have hback : b.cnt / 8 = 0 := by omega
  obtain ⟨-, htail⟩ := List.append_inj h.bits (by simpa using heq)
  refine ⟨h.src, h.err, rfl, rfl, ?_, ?_⟩
  · show b.pos - b.cnt / 8 ≤ inp.length
    have := h.pos
    omega
  · show rest = ofBytes (inp.drop (b.pos - b.cnt / 8))
    rw [hback, Nat.sub_zero, htail]

end Bits

-- ================================================================
-- Section 2: Tables
-- ================================================================

/-- The table serves the canonical code of `lens`. -/
structure Huff.Serves (h : Huff) (lens : List Nat) : Prop where
  count : ∀ L, 0 < L → L < 16 → h.count.getD L 0 = codes lens L
  symbol : ∀ sym, lens.getD sym 0 ≠ 0 → h.symbol.getD (slot lens sym) 0 = sym

/-- Decoding the word of any symbol below `n` gives the symbol. -/
def Huff.Decodes (h : Huff) (lens : List Nat) (n : Nat) : Prop :=
  ∀ ⦃inp : Bytes⦄ ⦃b : Bits⦄ ⦃rest : List Bool⦄ (sym : Nat), sym < n → lens.getD sym 0 ≠ 0 →
    b.Reads inp (word lens sym ++ rest) → ∃ b', decode b h = (some sym, b') ∧ b'.Reads inp rest

theorem getD_set_self {l : List Nat} {i x : Nat} (h : i < l.length) : (l.set i x).getD i 0 = x := by
  rw [List.getD_eq_getElem _ _ (by simpa using h), List.getElem_set_self]

theorem getD_set_ne {l : List Nat} {i j x : Nat} (h : i ≠ j) :
    (l.set i x).getD j 0 = l.getD j 0 := by
  simp only [List.getD_eq_getElem?_getD, List.getElem?_set_ne h]

theorem countLens_spec {lens : List Nat} (h : ∀ l ∈ lens, l ≤ 15) :
    (countLens lens).length = 16 ∧ ∀ L < 16, (countLens lens).getD L 0 = lens.count L := by
  -- The counters start at zero and each length adds one to its own.
  suffices hgen : ∀ (done : List Nat) (count : List Nat), count.length = 16 →
      (∀ L < 16, count.getD L 0 = done.count L) →
      (lens.foldl (fun count l => count.set l (count.getD l 0 + 1)) count).length = 16 ∧
        ∀ L < 16, (lens.foldl (fun count l => count.set l (count.getD l 0 + 1)) count).getD L 0 =
          (done ++ lens).count L by
    refine hgen [] (List.replicate 16 0) (by simp) fun L hL => ?_
    rw [List.getD_eq_getElem _ _ (by simpa using hL), List.getElem_replicate]
    rfl
  induction lens with
  | nil => exact fun done count hlen hc => ⟨hlen, by simpa using hc⟩
  | cons l lens ih =>
    intro done count hlen hc
    have hl : l < 16 := Nat.lt_succ_of_le (h l (List.mem_cons_self ..))
    have hstep := ih (fun x hx => h x (List.mem_cons_of_mem _ hx)) (done ++ [l])
      (count.set l (count.getD l 0 + 1)) (by simpa using hlen) (fun L hL => by
        by_cases he : l = L
        · subst he
          rw [getD_set_self (by omega), hc l hl, List.count_append, List.count_singleton_self]
        · rw [getD_set_ne he, hc L hL, List.count_append, List.count_singleton,
            if_neg (by simpa using he), Nat.add_zero])
    simpa using hstep

theorem leftOver_of_kraft {lens count : List Nat} (k len : Nat) {left : Int}
    (hc : ∀ L, 0 < L → L < 16 → count.getD L 0 = codes lens L)
    (hused : ∀ L < 16, used lens L ≤ 2 ^ L)
    (hleft : left = 2 ^ len - used lens len) (hlen : len + k < 16) :
    leftOver count (List.range' (len + 1) k) left = true := by
  induction k generalizing len left with
  | zero => rfl
  | succ k ih =>
    have hnext : 2 * left - (count.getD (len + 1) 0 : Int) = 2 ^ (len + 1) - used lens (len + 1) := by
      rw [hc (len + 1) (by omega) (by omega), used_succ, hleft, codes, if_neg (by omega), Int.pow_succ]
      push_cast
      ring
    have hpos : ¬ 2 * left - (count.getD (len + 1) 0 : Int) < 0 := by
      have h := hused (len + 1) (by omega)
      rw [hnext]
      have : (used lens (len + 1) : Int) ≤ 2 ^ (len + 1) := by exact_mod_cast h
      omega
    rw [List.range'_succ, leftOver]
    simp only [if_neg hpos]
    exact ih (len + 1) hnext (by omega)

theorem offsets_spec {lens count : List Nat}
    (hc : ∀ L, 0 < L → L < 16 → count.getD L 0 = codes lens L) :
    (offsets count).length = 16 ∧ ∀ L, 0 < L → L < 16 → (offsets count).getD L 0 = start lens L := by
  -- After the round for `len` the entries up to `len + 1` are final.
  suffices hgen : ∀ (k len : Nat) (offs : List Nat), 0 < len → len + k = 15 → offs.length = 16 →
      (∀ L, 0 < L → L ≤ len → offs.getD L 0 = start lens L) →
      ((List.range' len k).foldl
        (fun offs len => offs.set (len + 1) (offs.getD len 0 + count.getD len 0)) offs).length = 16 ∧
      ∀ L, 0 < L → L < 16 → ((List.range' len k).foldl
        (fun offs len => offs.set (len + 1) (offs.getD len 0 + count.getD len 0)) offs).getD L 0 =
          start lens L by
    refine hgen 14 1 _ Nat.one_pos rfl (by simp) fun L h0 h1 => ?_
    obtain rfl : L = 1 := by omega
    rw [start_one]
    rfl
  intro k
  induction k with
  | zero =>
    intro len offs _ hk hlen ho
    exact ⟨hlen, fun L h0 h1 => ho L h0 (by omega)⟩
  | succ k ih =>
    intro len offs hpos hk hlen ho
    rw [List.range'_succ, List.foldl_cons]
    refine ih (len + 1) _ (by omega) (by omega) (by simpa using hlen) fun L h0 h1 => ?_
    by_cases he : len + 1 = L
    · subst he
      rw [getD_set_self (by omega), ho len hpos (Nat.le_refl _), hc len hpos (by omega), start_succ]
    · rw [getD_set_ne he, ho L h0 (by omega)]

theorem place_spec {lens : List Nat} (todo done : List Nat) {offs symbol : List Nat} (hall : done ++ todo = lens)
    (hle : ∀ l ∈ lens, l ≤ 15) (hlong : lens.length ≤ 288) (holen : offs.length = 16)
    (hoffs : ∀ L, 0 < L → L < 16 → offs.getD L 0 = start lens L + done.count L)
    (hslen : symbol.length = 288)
    (hdone : ∀ sym < done.length, lens.getD sym 0 ≠ 0 → symbol.getD (slot lens sym) 0 = sym) :
    ∀ sym, lens.getD sym 0 ≠ 0 →
      (place todo done.length offs symbol).getD (slot lens sym) 0 = sym := by
  -- Induction on the symbols still to be placed; the offset of a length is the next free place.
  induction todo generalizing done offs symbol with
  | nil =>
    intro sym hsym
    rw [List.append_nil] at hall
    exact hdone sym (by rw [hall]; exact lt_length_of_getD hsym) hsym
  | cons l todo ih =>
    have hsnoc : done ++ [l] ++ todo = lens := by rw [List.append_assoc]; exact hall
    have hget : lens.getD done.length 0 = l := by
      rw [← hall, List.getD_eq_getElem _ _ (by simp)]
      simp
    have htake : lens.take done.length = done := by rw [← hall, List.take_left]
    have hl : l < 16 := Nat.lt_succ_of_le (hle l (by rw [← hall]; simp))
    have hcut : (done ++ [l]).length = done.length + 1 := by simp
    by_cases hz : l = 0
    · rw [place, if_pos hz, ← hcut]
      refine ih (done ++ [l]) hsnoc holen (fun L h0 h1 => ?_) hslen (fun sym hsym hne => ?_)
      · have hcount : (done ++ [l]).count L = done.count L := by
          rw [List.count_append, List.count_singleton, if_neg (by simp; omega), Nat.add_zero]
        rw [hcount]
        exact hoffs L h0 h1
      · rw [hcut] at hsym
        rcases Nat.lt_succ_iff_lt_or_eq.mp hsym with h | h
        · exact hdone sym h hne
        · rw [h, hget] at hne
          exact absurd hz hne
    · have hne : lens.getD done.length 0 ≠ 0 := by rwa [hget]
      have hslot : offs.getD l 0 = slot lens done.length := by
        rw [hoffs l (Nat.pos_of_ne_zero hz) hl, slot, rank, hget, htake]
      have hin : slot lens done.length < symbol.length := by
        have := slot_lt hne
        omega
      rw [place, if_neg hz, ← hcut, hslot]
      refine ih (done ++ [l]) hsnoc (by simpa using holen) (fun L h0 h1 => ?_) (by simpa using hslen)
        (fun sym hsym hsne => ?_)
      · rw [List.count_append, List.count_singleton]
        by_cases he : l = L
        · subst he
          rw [getD_set_self (by omega), ← hslot, hoffs l h0 h1, if_pos (by simp)]
          omega
        · rw [getD_set_ne he, hoffs L h0 h1, if_neg (by simpa using he), Nat.add_zero]
      · rw [hcut] at hsym
        rcases Nat.lt_succ_iff_lt_or_eq.mp hsym with h | h
        · rw [getD_set_ne (slot_ne hsne hne h).symm]
          exact hdone sym h hsne
        · rw [h, getD_set_self hin]

/-- A set of lengths of a prefix-free code with some symbol gives its table. -/
theorem build_serves {lens : List Nat} (hk : Kraft 15 lens) (hlong : lens.length ≤ 288)
    {sym : Nat} (hsym : lens.getD sym 0 ≠ 0) : ∃ h, build lens = (h, true) ∧ h.Serves lens := by
  obtain ⟨hclen, hcount⟩ := countLens_spec hk.le
  have hcodes : ∀ L, 0 < L → L < 16 → (countLens lens).getD L 0 = codes lens L := by
    intro L h0 h1
    rw [hcount L h1, codes, if_neg (by omega)]
  have hsome : ¬ (countLens lens).getD 0 0 = lens.length := by
    rw [hcount 0 (by omega), List.count_eq_length]
    intro hall
    have hmem : lens.getD sym 0 ∈ lens := by
      rw [List.getD_eq_getElem _ _ (lt_length_of_getD hsym)]
      exact List.getElem_mem _
    exact hsym (hall _ hmem).symm
  have hleft : leftOver (countLens lens) (List.range' 1 15) 1 = true :=
    leftOver_of_kraft 15 0 hcodes (fun L hL => used_le_two_pow hk.sum (by omega)) (by simp)
      (by omega)
  obtain ⟨holen, hoffs⟩ := offsets_spec hcodes
  refine ⟨_, by rw [build, if_neg hsome, hleft]; rfl, hcodes, ?_⟩
  exact place_spec lens [] rfl hk.le hlong holen hoffs List.length_replicate
    (fun sym hlt => absurd hlt (Nat.not_lt_zero _))

/-- A table without any code, as an empty distance alphabet leaves it, serves it too. -/
theorem build_serves_any {lens : List Nat} (hk : Kraft 15 lens) (hlong : lens.length ≤ 288) :
    (build lens).1.Serves lens := by
  by_cases hex : ∃ sym, lens.getD sym 0 ≠ 0
  · obtain ⟨sym, hsym⟩ := hex
    obtain ⟨h, hb, hs⟩ := build_serves hk hlong hsym
    rwa [hb]
  · obtain ⟨hclen, hcount⟩ := countLens_spec hk.le
    have hfst : (build lens).1.count = countLens lens := by
      simp only [build]
      split_ifs <;> rfl
    refine ⟨fun L h0 h1 => ?_, fun sym hsym => absurd ⟨sym, hsym⟩ hex⟩
    rw [hfst, hcount L h1, codes, if_neg (by omega)]

-- ================================================================
-- Section 3: Symbols
-- ================================================================

theorem decodeFrom_walk {h : Huff} {count : Nat → Nat} {inp : Bytes} {bits rest : List Bool}
    {fuel len c first index i : Nat} {b : Bits}
    (hcount : ∀ L, len ≤ L → L < len + fuel → h.count.getD L 0 = count L)
    (hb : b.Reads inp bits)
    (hw : walk count fuel len (2 * c) first index bits = some (i, rest)) :
    (decodeFrom h fuel len (2 * c) first index b).1 = some (h.symbol.getD i 0) ∧
      (decodeFrom h fuel len (2 * c) first index b).2.Reads inp rest := by
  induction fuel generalizing len c first index b bits with
  | zero => simp [walk] at hw
  | succ fuel ih =>
    cases bits with
    | nil => simp [walk] at hw
    | cons bit bits =>
      have hfield : bit :: bits = lsb 1 bit.toNat ++ bits := by cases bit <;> rfl
      rw [hfield] at hb
      obtain ⟨hbit, hb'⟩ := hb.get (by cases bit <;> decide)
      have hor : 2 * c ||| bit.toNat = 2 * c + bit.toNat := by
        have := Nat.two_pow_add_eq_or_of_lt (i := 1) (b := bit.toNat) (by cases bit <;> decide) c
        rwa [Nat.pow_one, eq_comm] at this
      have hc := hcount len (Nat.le_refl _) (by omega)
      simp only [walk] at hw
      simp only [decodeFrom, hbit, hb'.err, hor, hc, Bool.false_eq_true, if_false]
      by_cases hlt : 2 * c + bit.toNat < first + count len
      · rw [if_pos hlt] at hw
        simp only [Option.some.injEq, Prod.mk.injEq] at hw
        obtain ⟨rfl, rfl⟩ := hw
        simp only [if_pos hlt, true_and]
        exact hb'
      · rw [if_neg hlt] at hw
        simp only [if_neg hlt, Nat.shiftLeft_eq, Nat.pow_one, Nat.mul_comm _ 2]
        exact ih (fun L h0 h1 => hcount L (by omega) (by omega)) hb' hw

theorem Huff.Serves.decodes {h : Huff} {lens : List Nat} (hs : h.Serves lens) (hk : Kraft 15 lens)
    (n : Nat) : h.Decodes lens n := by
  intro inp b rest sym _ hsym hb
  obtain ⟨hval, hrest⟩ := decodeFrom_walk (c := 0)
    (fun L h0 h1 => hs.count L (by omega) (by omega)) hb (walk_word hk hsym)
  rw [hs.symbol sym hsym] at hval
  exact ⟨_, Prod.ext hval rfl, hrest⟩

end Archive
