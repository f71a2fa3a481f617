import Kestrel64.Archive.BitReader
import Kestrel64.Archive.Written

/-! # Inflate Is Complete

    `inflate` on the bits of a legal stream gives the bytes the stream stands
    for.  One lemma for each layer: a token, the tokens of a block, the header
    of a dynamic block, a block, the stream.
-/

namespace Archive

open BitStream CanonicalCode Deflate

variable {inp : Bytes} {b : Bits} {out : Bytes} {rest : List Bool}

-- ================================================================
-- Section 1: Tokens
-- ================================================================

theorem lenTables : ∀ i < 29, kLenBase.getD i 0 = (lengthRows.getD i (0, 0)).1 ∧
    kLenExtra.getD i 0 = (lengthRows.getD i (0, 0)).2 := by decide

theorem distTables : ∀ i < 30, kDistBase.getD i 0 = (distRows.getD i (0, 0)).1 ∧
    kDistExtra.getD i 0 = (distRows.getD i (0, 0)).2 := by decide

/-- The source copies from a fixed place on, the format from `d` back each time. -/
theorem copyFrom_eq_again {from_ k d : Nat} (len : Nat) (h : out.length = from_ + k + d) :
    copyFrom from_ k len out = again d len out := by
  induction len generalizing k out with
  | zero => rfl
  | succ len ih =>
    have hback : out.length - d = from_ + k := by omega
    rw [copyFrom, again, hback]
    exact ih (by rw [List.length_append, h, List.length_singleton]; omega)

section Tokens

variable {litH distH : Huff} {lit dist : List Nat}

/-- One token of a block, by one round of the loop. -/
theorem symbols_token {t : Token} {bits : List Bool} {fuel : Nat} (hl : litH.Decodes lit 288)
    (hd : distH.Decodes dist 30) (ht : t.Written lit dist out bits)
    (hb : b.Reads inp (bits ++ rest)) :
    ∃ b', symbols litH distH (fuel + 1) b out = symbols litH distH fuel b' (t.expand out) ∧
      b'.Reads inp rest := by
  cases t with
  | literal c =>
    obtain ⟨hcode, rfl⟩ := ht
    have hc : c.toNat < 256 := c.isLt
    obtain ⟨b', hdec, hb'⟩ := hl c.toNat (by omega) hcode hb
    refine ⟨b', ?_, hb'⟩
    simp only [symbols, hdec, if_pos hc, BitVec.ofNat_toNat, BitVec.setWidth_eq, Token.expand]
  | copy len d =>
    obtain ⟨hreach, i, x, j, y, hlen, hdist, hlsym, hdsym, rfl⟩ := ht
    have hi : i < 29 := hlen.code
    have hj : j < 30 := hdist.code
    have hisum := hlen.value
    have hjsum := hdist.value
    obtain ⟨hlbase, hlextra⟩ := lenTables i hi
    obtain ⟨hdbase, hdextra⟩ := distTables j hj
    have hd0 : d ≠ 0 := by
      have hpos : ∀ j < 30, (distRows.getD j (0, 0)).1 ≠ 0 := by decide
      have hne := hpos j hj
      omega
    -- The four fields of a copy, one after the other.
    simp only [copyBits, List.append_assoc] at hb
    obtain ⟨b₁, hdec₁, hb₁⟩ := hl (257 + i) (by omega) hlsym hb
    obtain ⟨hget₂, hb₂⟩ := hb₁.get hlen.extra
    obtain ⟨b₃, hdec₃, hb₃⟩ := hd j hj hdsym hb₂
    obtain ⟨hget₄, hb₄⟩ := hb₃.get hdist.extra
    refine ⟨_, ?_, hb₄⟩
    have hnbad : ¬ (d = 0 ∨ out.length < d) := by omega
    have hback : out.length = out.length - d + 0 + d := by omega
    have hcopy : copySymbol distH i b₁ out =
        .ok ((b₃.get (distRows.getD j (0, 0)).2).2, again d len out) := by
      simp only [copySymbol, if_neg (Nat.not_le.mpr hi), hlextra, hlbase, hget₂, hisum, hdec₃,
        if_neg (Nat.not_le.mpr hj), hdextra, hdbase, hget₄, hjsum, hb₄.err, Bool.false_eq_true,
        if_false, if_neg hnbad]
      rw [copyFrom_eq_again len hback]
    have hsym : 257 + i - 257 = i := by omega
    have hnlit : ¬ 257 + i < 256 := by omega
    have hnend : ¬ 257 + i = 256 := by omega
    simp only [symbols, hdec₁, if_neg hnlit, if_neg hnend, hsym, hcopy, Token.expand]

/-- The tokens of a block, up to its end. -/
theorem symbols_tokens {toks : List Token} {bits : List Bool} (fuel : Nat)
    (hl : litH.Decodes lit 288) (hd : distH.Decodes dist 30) (ht : Tokens lit dist out toks bits)
    (hfuel : toks.length < fuel) (hb : b.Reads inp (bits ++ rest)) :
    ∃ b', symbols litH distH fuel b out = .ok (b', toks.foldl Token.expand out) ∧
      b'.Reads inp rest := by
  induction ht generalizing b fuel with
  | stop hstop =>
    obtain ⟨f, rfl⟩ := Nat.exists_eq_add_one_of_ne_zero (Nat.ne_of_gt hfuel)
    obtain ⟨b', hdec, hb'⟩ := hl 256 (by omega) hstop hb
    refine ⟨b', ?_, hb'⟩
    simp [symbols, hdec]
  | token ht _ ih =>
    obtain ⟨f, rfl⟩ := Nat.exists_eq_add_one_of_ne_zero (Nat.ne_zero_of_lt hfuel)
    rw [List.append_assoc] at hb
    obtain ⟨b₁, hstep, hb₁⟩ := symbols_token hl hd ht hb
    rw [hstep]
    exact ih f (Nat.lt_of_succ_lt_succ hfuel) hb₁

/-- Every token takes at least a bit, so the fuel lasts. -/
theorem length_le_tokens {toks : List Token} {bits : List Bool}
    (ht : Tokens lit dist out toks bits) : toks.length ≤ bits.length := by
  induction ht with
  | stop _ => exact Nat.zero_le _
  | @token out t _ bits _ ht _ ih =>
    have hpos : 0 < bits.length := by
      cases t with
      | literal c =>
        rw [ht.2]
        exact word_pos ht.1
      | copy len d =>
        obtain ⟨-, i, x, j, y, -, -, hlsym, -, rfl⟩ := ht
        have hword := word_pos hlsym
        simp only [copyBits, List.length_append]
        omega
    rw [List.length_cons, List.length_append]
    omega

end Tokens

-- ================================================================
-- Section 2: The header of a dynamic block
-- ================================================================

section Header

theorem readCodeLens_spec {cl os : List Nat} (clens : List Nat) (hcl : ∀ s, cl.getD s 0 < 2 ^ 3)
    (hos : ∀ s ∈ os, s < clens.length)
    (hb : b.Reads inp (os.flatMap (fun s => lsb 3 (cl.getD s 0)) ++ rest)) :
    (readCodeLens os b clens).1.length = clens.length ∧
      (∀ s, (readCodeLens os b clens).1.getD s 0 =
        if s ∈ os then cl.getD s 0 else clens.getD s 0) ∧
      (readCodeLens os b clens).2.Reads inp rest := by
  induction os generalizing b clens with
  | nil => exact ⟨rfl, fun s => by simp [readCodeLens], hb⟩
  | cons o os ih =>
    rw [List.flatMap_cons, List.append_assoc] at hb
    obtain ⟨hget, hb'⟩ := hb.get (hcl o)
    have ho := hos o (List.mem_cons_self ..)
    obtain ⟨hlen, hval, hrest⟩ := ih (clens.set o (cl.getD o 0))
      (fun s hs => by rw [List.length_set]; exact hos s (List.mem_cons_of_mem _ hs)) hb'
    simp only [readCodeLens, hget]
    refine ⟨by rw [hlen, List.length_set], fun s => ?_, hrest⟩
    rw [hval s]
    by_cases hs : s ∈ os
    · simp [hs]
    · by_cases he : o = s
      · subst he
        rw [if_neg hs, getD_set_self ho, if_pos (List.mem_cons_self ..)]
      · rw [if_neg hs, getD_set_ne he, if_neg (by simp [hs, Ne.symm he])]

/-- The lengths of the length code arrive as they were sent. -/
theorem readCodeLens_header {h : Header} (hl : h.Announced)
    (hb : b.Reads inp ((sendOrder.take h.sent).flatMap (fun s => lsb 3 (h.cl.getD s 0)) ++ rest)) :
    (readCodeLens (ord.take h.sent) b (List.replicate 19 0)).1 = h.cl ∧
      (readCodeLens (ord.take h.sent) b (List.replicate 19 0)).2.Reads inp rest := by
  have hmem : ∀ s ∈ sendOrder, s < 19 := by decide
  have hall : ∀ s < 19, s ∈ sendOrder := by decide
  have hcl : ∀ s, h.cl.getD s 0 < 2 ^ 3 := by
    intro s
    by_cases hs : s < h.cl.length
    · rw [List.getD_eq_getElem _ _ hs]
      exact Nat.lt_succ_of_le (hl.clKraft.le _ (List.getElem_mem _))
    · rw [List.getD_eq_default _ _ (by omega)]
      exact Nat.two_pow_pos _
  obtain ⟨hlen, hval, hrest⟩ := readCodeLens_spec (List.replicate 19 0) hcl
    (fun s hs => by rw [List.length_replicate]; exact hmem s (List.mem_of_mem_take hs)) hb
  refine ⟨?_, hrest⟩
  rw [List.length_replicate] at hlen
  refine List.ext_getElem (by rw [hl.cl]; exact hlen) fun s h₁ h₂ => ?_
  have hs : s < 19 := by rwa [hl.cl] at h₂
  rw [← List.getD_eq_getElem _ 0 h₁, ← List.getD_eq_getElem _ 0 h₂, show ord = sendOrder from rfl,
    hval s]
  split
  · rfl
  · rename_i hnot
    -- What is not sent has length zero on both sides.
    have hdrop : s ∈ sendOrder.drop h.sent := by
      have := hall s hs
      rw [← List.take_append_drop h.sent sendOrder, List.mem_append] at this
      exact this.resolve_left hnot
    rw [hl.unsent s hdrop, List.getD_eq_getElem _ _ (by simpa using hs), List.getElem_replicate]

/-- One symbol of the run-length coding, by one round of the loop. -/
theorem readLens_sym {codeH : Huff} {cl lens : List Nat} {s : LenSym} {total fuel : Nat}
    (hd : codeH.Decodes cl 19) (hs : s.Legal cl lens) (htotal : (s.expand lens).length ≤ total)
    (hb : b.Reads inp (s.encode cl ++ rest)) :
    ∃ b', readLens codeH total (fuel + 1) b lens = readLens codeH total fuel b' (s.expand lens) ∧
      b'.Reads inp rest := by
  obtain ⟨hrange, hcode⟩ := hs
  cases s with
  | len l =>
    have hl : l < 16 := Nat.lt_succ_of_le hrange
    have hroom : lens.length < total := by
      simp only [LenSym.expand, List.length_append, List.length_singleton] at htotal
      omega
    obtain ⟨b', hdec, hb'⟩ := hd l (by omega) hcode hb
    exact ⟨b', by simp only [readLens, if_pos hroom, hdec, if_pos hl, LenSym.expand], hb'⟩
  | again n =>
    obtain ⟨⟨hlo, hhi⟩, hne⟩ := hrange
    simp only [LenSym.expand, List.length_append, List.length_replicate] at htotal
    rw [LenSym.encode, List.append_assoc] at hb
    obtain ⟨b₁, hdec, hb₁⟩ := hd 16 (by omega) hcode hb
    obtain ⟨hget, hb₂⟩ := hb₁.get (by omega)
    refine ⟨_, ?_, hb₂⟩
    have hroom : lens.length < total := by omega
    have hfirst : ¬ lens.length = 0 := fun h => hne (List.eq_nil_of_length_eq_zero h)
    have hrep : 3 + (n - 3) = n := by omega
    have hfit : ¬ total < lens.length + n := by omega
    simp [readLens, hroom, hdec, hfirst, hget, hrep, hb₂.err, hfit, LenSym.expand]
  | zeros n =>
    obtain ⟨hlo, hhi⟩ := hrange
    simp only [LenSym.expand, List.length_append, List.length_replicate] at htotal
    rw [LenSym.encode, List.append_assoc] at hb
    obtain ⟨b₁, hdec, hb₁⟩ := hd 17 (by omega) hcode hb
    obtain ⟨hget, hb₂⟩ := hb₁.get (by omega)
    refine ⟨_, ?_, hb₂⟩
    have hroom : lens.length < total := by omega
    have hrep : 3 + (n - 3) = n := by omega
    have hfit : ¬ total < lens.length + n := by omega
    simp [readLens, hroom, hdec, hget, hrep, hb₂.err, hfit, LenSym.expand]
  | manyZeros n =>
    obtain ⟨hlo, hhi⟩ := hrange
    simp only [LenSym.expand, List.length_append, List.length_replicate] at htotal
    rw [LenSym.encode, List.append_assoc] at hb
    obtain ⟨b₁, hdec, hb₁⟩ := hd 18 (by omega) hcode hb
    obtain ⟨hget, hb₂⟩ := hb₁.get (by omega)
    refine ⟨_, ?_, hb₂⟩
    have hroom : lens.length < total := by omega
    have hrep : 11 + (n - 11) = n := by omega
    have hfit : ¬ total < lens.length + n := by omega
    simp [readLens, hroom, hdec, hget, hrep, hb₂.err, hfit, LenSym.expand]

theorem length_lt_expand {cl lens : List Nat} {s : LenSym} (hs : s.Legal cl lens) :
    lens.length < (s.expand lens).length := by
  have hrange := hs.1
  cases s <;> simp only [LenSym.InRange, LenSym.expand, List.length_append, List.length_replicate,
    List.length_singleton] at hrange ⊢ <;> omega

theorem length_le_foldl {cl lens : List Nat} {syms : List LenSym}
    (hs : Along (LenSym.Legal cl) LenSym.expand lens syms) :
    lens.length ≤ (syms.foldl LenSym.expand lens).length := by
  induction syms generalizing lens with
  | nil => exact Nat.le_refl _
  | cons s syms ih => exact Nat.le_trans (Nat.le_of_lt (length_lt_expand hs.1)) (ih hs.2)

/-- The run-length coding gives back the lengths, across the border of the two alphabets. -/
theorem readLens_syms {codeH : Huff} {cl lens : List Nat} {syms : List LenSym} {total fuel : Nat}
    (hd : codeH.Decodes cl 19) (hs : Along (LenSym.Legal cl) LenSym.expand lens syms)
    (htotal : (syms.foldl LenSym.expand lens).length = total) (hfuel : total ≤ lens.length + fuel)
    (hb : b.Reads inp (syms.flatMap (LenSym.encode cl) ++ rest)) :
    ∃ b', readLens codeH total fuel b lens = .ok (syms.foldl LenSym.expand lens, b') ∧
      b'.Reads inp rest := by
  induction syms generalizing b lens fuel with
  | nil =>
    refine ⟨b, ?_, hb⟩
    cases fuel with
    | zero => rfl
    | succ fuel => rw [readLens, if_neg (by rw [← htotal]; exact Nat.lt_irrefl _), List.foldl_nil]
  | cons s syms ih =>
    have hgrow := length_lt_expand hs.1
    have hle := length_le_foldl hs.2
    rw [List.foldl_cons] at htotal
    obtain ⟨f, rfl⟩ := Nat.exists_eq_add_one_of_ne_zero (show fuel ≠ 0 by omega)
    rw [List.flatMap_cons, List.append_assoc] at hb
    have hfit : (s.expand lens).length ≤ total := by omega
    obtain ⟨b₁, hstep, hb₁⟩ := readLens_sym hd hs.1 hfit hb
    rw [hstep, List.foldl_cons]
    exact ih hs.2 htotal (by omega) hb₁

theorem header_fields {h : Header} (hl : h.Announced) (hb : b.Reads inp (h.encode ++ rest)) :
    (b.get 5).1 = h.lit.length - 257 ∧ ((b.get 5).2.get 5).1 = h.dist.length - 1 ∧
      (((b.get 5).2.get 5).2.get 4).1 = h.sent - 4 ∧
      (((b.get 5).2.get 5).2.get 4).2.Reads inp
        ((sendOrder.take h.sent).flatMap (fun s => lsb 3 (h.cl.getD s 0)) ++
          (h.syms.flatMap (LenSym.encode h.cl) ++ rest)) := by
  simp only [Header.encode, List.append_assoc] at hb
  obtain ⟨h₁, hb₁⟩ := hb.get (by have := hl.lit; omega)
  obtain ⟨h₂, hb₂⟩ := hb₁.get (by have := hl.dist; omega)
  obtain ⟨h₃, hb₃⟩ := hb₂.get (by have := hl.sent; omega)
  exact ⟨h₁, h₂, h₃, hb₃⟩

/-- The code lengths of both alphabets, as the header announces them. -/
theorem readLens_header {h : Header} (hl : h.Announced) (hb : b.Reads inp (h.encode ++ rest)) :
    ∃ codeH b', build (readCodeLens (ord.take h.sent) (((b.get 5).2.get 5).2.get 4).2
        (List.replicate 19 0)).1 = (codeH, true) ∧
      readLens codeH (h.lit.length + h.dist.length) (h.lit.length + h.dist.length)
        (readCodeLens (ord.take h.sent) (((b.get 5).2.get 5).2.get 4).2 (List.replicate 19 0)).2 [] =
        .ok (h.lit ++ h.dist, b') ∧ b'.Reads inp rest := by
  obtain ⟨-, -, -, hb₁⟩ := header_fields hl hb
  obtain ⟨hcl, hb₂⟩ := readCodeLens_header hl hb₁
  have htotal : (h.syms.foldl LenSym.expand []).length = h.lit.length + h.dist.length := by
    rw [hl.coded, List.length_append]
  -- Some symbol of the length code is in use, as there are lengths to send.
  have hused : ∃ sym, h.cl.getD sym 0 ≠ 0 := by
    cases hsyms : h.syms with
    | nil =>
      rw [hsyms] at htotal
      have := hl.lit
      simp only [List.foldl_nil, List.length_nil] at htotal
      omega
    | cons s syms =>
      have hlegal := hl.syms
      rw [hsyms] at hlegal
      exact ⟨s.sym, hlegal.1.2⟩
  obtain ⟨sym, hsym⟩ := hused
  have hclKraft : Kraft 15 h.cl := hl.clKraft.mono (by omega)
  obtain ⟨codeH, hcode, hserves⟩ := build_serves hclKraft (by have := hl.cl; omega) hsym
  obtain ⟨b₃, hlens, hb₃⟩ := readLens_syms (hserves.decodes hclKraft 19) hl.syms htotal
    (Nat.le_add_left _ _) hb₂
  rw [hl.coded] at hlens
  exact ⟨codeH, b₃, by rw [hcl, hcode], hlens, hb₃⟩

/-- The tables of a dynamic block decode the codes its header announces. -/
theorem dynamicTables_header {h : Header} (hl : h.Legal) (hfits : h.dist.length ≤ 30)
    (hb : b.Reads inp (h.encode ++ rest)) :
    ∃ litH distH b', dynamicTables b = .ok (litH, distH, b') ∧ litH.Decodes h.lit 288 ∧
      distH.Decodes h.dist 30 ∧ b'.Reads inp rest := by
  obtain ⟨hhlit, hhdist, hhclen, hb₁⟩ := header_fields hl.announced hb
  obtain ⟨codeH, b₃, hcode, hlens, hb₃⟩ := readLens_header hl.announced hb
  have hnlen : h.lit.length - 257 + 257 = h.lit.length := Nat.sub_add_cancel hl.lit.1
  have hndist : h.dist.length - 1 + 1 = h.dist.length := Nat.sub_add_cancel hl.dist.1
  have hncode : h.sent - 4 + 4 = h.sent := Nat.sub_add_cancel hl.sent.1
  obtain ⟨litH, hlit, hlserves⟩ := build_serves hl.litKraft (by have := hl.lit; omega) hl.stop
  have hdserves := build_serves_any hl.distKraft (by omega)
  refine ⟨litH, (build h.dist).1, b₃, ?_, hlserves.decodes hl.litKraft 288,
    hdserves.decodes hl.distKraft 30, hb₃⟩
  have hlitFits : ¬ 286 < h.lit.length := Nat.not_lt.mpr hl.lit.2
  have hok : ((((b.get 5).2.get 5).2.get 4).2.err || decide (286 < h.lit.length) ||
      decide (30 < h.dist.length)) = false := by
    simp [hb₁.err, hlitFits, hfits]
  simp only [dynamicTables, hhlit, hhdist, hhclen, hnlen, hndist, hncode, hok, hcode, hlens,
    List.take_left, List.drop_left, hlit, Bool.false_eq_true, if_false]

/-- More than 30 distance codes are refused, whatever comes after them. -/
theorem dynamicTables_refused {h : Header} (hl : h.Announced) (hmany : 30 < h.dist.length)
    (hb : b.Reads inp (h.encode ++ rest)) :
    dynamicTables b = .error "deflate: cabecera dinamica invalida" := by
  obtain ⟨hhlit, hhdist, hhclen, hb₁⟩ := header_fields hl hb
  have hndist : h.dist.length - 1 + 1 = h.dist.length := Nat.sub_add_cancel hl.dist.1
  simp [dynamicTables, hhdist, hndist, hmany]

end Header

-- ================================================================
-- Section 3: Blocks
-- ================================================================

section Blocks

theorem rd16_le {pos x : Nat} {tail : Bytes} (h : inp.drop pos = Bytes.le 2 x ++ tail)
    (hx : x < 2 ^ 16) : rd16 inp pos = x := by
  have hlo : inp.getD pos 0 = BitVec.ofNat 8 x := by
    have := congrArg (fun l => l.getD 0 0) h
    simpa [List.getD_eq_getElem?_getD, Bytes.le] using this
  have hhi : inp.getD (pos + 1) 0 = BitVec.ofNat 8 (x / 256) := by
    have := congrArg (fun l => l.getD 1 0) h
    simpa [List.getD_eq_getElem?_getD, Bytes.le] using this
  have hlt : x / 256 < 2 ^ 8 := by omega
  rw [rd16, hlo, hhi, BitVec.toNat_ofNat, BitVec.toNat_ofNat, Nat.mod_eq_of_lt hlt,
    Nat.shiftLeft_eq, Nat.or_comm, Nat.mul_comm, ← Nat.two_pow_add_eq_or_of_lt (by omega)]
  omega

theorem xor_ffff {x : Nat} (h : x < 2 ^ 16) : x ^^^ 0xffff = 0xffff - x := by
  have hnot : (BitVec.ofNat 16 x ^^^ BitVec.allOnes 16).toNat = (~~~ BitVec.ofNat 16 x).toNat := by
    rw [BitVec.xor_allOnes]
  rwa [BitVec.toNat_xor, BitVec.toNat_not, BitVec.toNat_ofNat, BitVec.toNat_allOnes,
    Nat.mod_eq_of_lt h] at hnot

/-- A stored block: its padding is skipped and its bytes are copied. -/
theorem storedBlock_stored {pad : List Bool} {data : Bytes} (hpad : pad.length < 8)
    (hlen : data.length ≤ 0xffff) (hrest : rest.length % 8 = 0)
    (hb : b.Reads inp ((Block.stored pad data).body ++ rest)) :
    ∃ b', storedBlock b out = .ok (b', out ++ data) ∧ b'.Reads inp rest := by
  -- Past the padding the stream is a string of bytes.
  have hbytes : (Block.stored pad data).body ++ rest = pad ++
      (ofBytes (Bytes.le 2 data.length ++ (Bytes.le 2 (0xffff - data.length) ++ data)) ++ rest) := by
    simp [Block.body, ofBytes_le, List.append_assoc]
  rw [hbytes] at hb
  obtain ⟨hsrc, herr, hcnt, hbuf, hpos, hbits⟩ := hb.align hpad (by
    rw [List.length_append, length_ofBytes]
    omega)
  obtain ⟨htake, hdrop⟩ := take_of_ofBytes hbits.symm
  generalize hb₁ : b.align = b₁ at *
  simp only [List.length_append, Bytes.length_le] at htake hdrop
  have hroom : 2 + (2 + data.length) ≤ inp.length - b₁.pos := by
    have := congrArg List.length htake
    simp only [List.length_take, List.length_drop, List.length_append, Bytes.length_le] at this
    omega
  have hat : inp.drop b₁.pos = Bytes.le 2 data.length ++
      (Bytes.le 2 (0xffff - data.length) ++ data ++ inp.drop (b₁.pos + (2 + (2 + data.length)))) := by
    rw [← List.take_append_drop (2 + (2 + data.length)) (inp.drop b₁.pos), htake, List.drop_drop]
    simp [List.append_assoc]
  have hat₂ : inp.drop (b₁.pos + 2) = Bytes.le 2 (0xffff - data.length) ++
      (data ++ inp.drop (b₁.pos + (2 + (2 + data.length)))) := by
    rw [← List.drop_drop, hat, List.drop_left' (Bytes.length_le 2 _), List.append_assoc]
  have hat₄ : inp.drop (b₁.pos + 4) = data ++ inp.drop (b₁.pos + (2 + (2 + data.length))) := by
    rw [show b₁.pos + 4 = b₁.pos + 2 + 2 by omega, ← List.drop_drop, hat₂,
      List.drop_left' (Bytes.length_le 2 _)]
  have hlen16 : rd16 inp b₁.pos = data.length := rd16_le hat (by omega)
  have hnlen16 : rd16 inp (b₁.pos + 2) = 0xffff - data.length := rd16_le hat₂ (by omega)
  have hcheck : ¬ data.length ^^^ 0xffff ≠ 0xffff - data.length := by
    rw [xor_ffff (by omega)]
    simp
  refine ⟨{ b₁ with pos := b₁.pos + 4 + data.length }, ?_, ⟨hsrc, herr, ?_, ?_, ?_, ?_⟩, ?_⟩
  · have h4 : ¬ inp.length < b₁.pos + 4 := by omega
    have hdata : ¬ inp.length < b₁.pos + 4 + data.length := by omega
    simp only [storedBlock, hb₁, hsrc, if_neg h4, hlen16, hnlen16, if_neg hcheck, if_neg hdata, hat₄,
      List.take_left]
  · show b₁.pos + 4 + data.length ≤ inp.length
    omega
  · show b₁.buf < 2 ^ b₁.cnt
    rw [hcnt, hbuf]
    exact Nat.one_pos
  · have := hb.room
    simp only [List.length_append] at this
    omega
  · show rest = lsb b₁.cnt b₁.buf ++ ofBytes (inp.drop (b₁.pos + 4 + data.length))
    rw [hcnt, ← hdrop, List.drop_drop]
    show _ = ofBytes _
    congr 2
    omega
  · show b₁.cnt < 8
    omega

theorem fixedLit_serves : fixedLit.Serves fixedLitLens :=
  build_serves_any fixed_lens.1 fixed_lens.2.1

theorem fixedDist_serves : fixedDist.Serves (List.replicate 30 5) :=
  build_serves_any fixed_lens.2.2.2.1 (by simp)

theorem fixedLit_decodes : fixedLit.Decodes fixedLitLens 288 :=
  fixedLit_serves.decodes fixed_lens.1 288

theorem fixedDist_decodes : fixedDist.Decodes fixedDistLens 30 := by
  obtain ⟨-, -, -, hk, hsame⟩ := fixed_lens
  intro inp b rest sym hlt _ hb
  rw [(hsame sym hlt).1] at hb
  have hlen : (List.replicate 30 5).getD sym 0 ≠ 0 := by
    rw [List.getD_replicate _ hlt]
    decide
  exact fixedDist_serves.decodes hk 30 sym hlt hlen hb

/-- A block that announces at most 30 distance codes. -/
theorem block_written {blk : Block} {body : List Bool} {pos : Nat} (hl : blk.Written pos out body)
    (hfits : blk.distCodes ≤ 30) (hpos : (pos + 3 + (body ++ rest).length) % 8 = 0)
    (hb : b.Reads inp (body ++ rest)) :
    ∃ b', block blk.type b out = .ok (b', blk.expand out) ∧ b'.Reads inp rest := by
  have hroom := hb.room
  rw [List.length_append] at hroom hpos
  cases blk with
  | stored pad data =>
    obtain ⟨⟨hpad, halign, hlen⟩, rfl⟩ := hl
    refine storedBlock_stored hpad hlen ?_ hb
    simp only [Block.body, List.length_append, length_lsb, length_ofBytes] at hpos
    omega
  | fixed toks =>
    have hfuel := length_le_tokens hl
    exact symbols_tokens _ fixedLit_decodes fixedDist_decodes hl (by rw [hb.src]; omega) hb
  | dynamic h toks =>
    obtain ⟨hh, tail, htail, rfl⟩ := hl
    have hfuel := length_le_tokens htail
    rw [List.length_append] at hroom
    rw [List.append_assoc] at hb
    obtain ⟨litH, distH, b₁, htables, hlit, hdist, hb₁⟩ := dynamicTables_header hh hfits hb
    obtain ⟨b₂, htoks, hb₂⟩ := symbols_tokens (8 * b.inp.length + 1) hlit hdist htail
      (by rw [hb.src]; omega) hb₁
    exact ⟨b₂, by simp [block, Block.type, htables, htoks, Block.expand], hb₂⟩

theorem block_refused {blk : Block} {body : List Bool} {pos : Nat} (hl : blk.Written pos out body)
    (hmany : 30 < blk.distCodes) (hb : b.Reads inp (body ++ rest)) :
    block blk.type b out = .error "deflate: cabecera dinamica invalida" := by
  cases blk with
  | stored pad data => exact absurd hmany (by simp [Block.distCodes])
  | fixed toks => exact absurd hmany (by simp [Block.distCodes])
  | dynamic h toks =>
    obtain ⟨hh, tail, -, rfl⟩ := hl
    rw [List.append_assoc] at hb
    simp [block, Block.type, dynamicTables_refused hh.announced hmany hb]

end Blocks

-- ================================================================
-- Section 4: Streams
-- ================================================================

theorem three_le_encode (last : Bool) (blk : Block) :
    (blk.encode last).length = 3 + blk.body.length := by
  simp [Block.encode]
  omega

theorem length_le_encode (bs : List Block) : bs.length ≤ (encode bs).length := by
  match bs with
  | [] => exact Nat.le_refl _
  | [blk] =>
    have := three_le_encode true blk
    rw [encode, List.length_singleton]
    omega
  | blk :: blk' :: bs =>
    have := three_le_encode false blk
    have := length_le_encode (blk' :: bs)
    rw [encode_cons_cons, List.length_append, List.length_cons]
    omega

/-- The three bits in front of a block. -/
theorem block_header {last : Bool} {blk : Block} (hb : b.Reads inp (blk.encode last ++ rest)) :
    (b.get 1).1 = last.toNat ∧ ((b.get 1).2.get 2).1 = blk.type ∧
      ((b.get 1).2.get 2).2.Reads inp (blk.body ++ rest) := by
  have hsplit : blk.encode last ++ rest =
      lsb 1 last.toNat ++ (lsb 2 blk.type ++ (blk.body ++ rest)) := by
    cases last <;> simp [Block.encode, lsb]
  rw [hsplit] at hb
  obtain ⟨hlast, hb₁⟩ := hb.get (by cases last <;> decide)
  obtain ⟨htype, hb₂⟩ := hb₁.get (by cases blk <;> simp [Block.type])
  exact ⟨hlast, htype, hb₂⟩

/-- One round of the block loop. -/
theorem blocks_round {last : Bool} {blk : Block} {pos : Nat} (fuel : Nat) (hl : blk.Legal pos out)
    (hpos : (pos + (blk.encode last ++ rest).length) % 8 = 0)
    (hb : b.Reads inp (blk.encode last ++ rest)) :
    if blk.distCodes ≤ 30 then
      ∃ b', blocks (fuel + 1) b out =
          (if last then .ok (blk.expand out) else blocks fuel b' (blk.expand out)) ∧
        b'.Reads inp rest
    else blocks (fuel + 1) b out = .error "deflate: cabecera dinamica invalida" := by
  obtain ⟨hlast, htype, hbody⟩ := block_header hb
  rw [List.length_append, three_le_encode] at hpos
  split
  case isTrue hfits =>
    obtain ⟨b', hblock, hb'⟩ := block_written (Block.written_body hl) hfits
      (by rw [List.length_append, ← hpos]; congr 1; omega) hbody
    refine ⟨b', ?_, hb'⟩
    cases last <;> simp [blocks, hlast, htype, hbody.err, hblock]
  case isFalse hmany =>
    simp [blocks, htype, hbody.err, block_refused (Block.written_body hl) (Nat.not_le.mp hmany) hbody]

theorem blocks_stream {bs : List Block} {pos fuel : Nat} (hne : bs ≠ []) (hl : Legal pos out bs)
    (hfuel : bs.length ≤ fuel) (hpos : (pos + (encode bs ++ rest).length) % 8 = 0)
    (hb : b.Reads inp (encode bs ++ rest)) :
    blocks fuel b out = if ∀ blk ∈ bs, blk.distCodes ≤ 30 then .ok (expand bs out)
      else .error "deflate: cabecera dinamica invalida" := by
  -- Induction on the blocks; the first one either goes through or stops the decoder.
  induction bs generalizing b out pos fuel with
  | nil => exact absurd rfl hne
  | cons blk bs ih =>
    obtain ⟨f, rfl⟩ := Nat.exists_eq_add_one_of_ne_zero (Nat.ne_zero_of_lt hfuel)
    cases bs with
    | nil =>
      have hround := blocks_round f hl.1 hpos hb
      by_cases hfits : blk.distCodes ≤ 30
      · rw [if_pos hfits] at hround
        obtain ⟨b', hrun, -⟩ := hround
        have hall : ∀ c ∈ [blk], c.distCodes ≤ 30 := by simpa using hfits
        rw [if_pos hall]
        exact hrun
      · rw [if_neg hfits] at hround
        have hnot : ¬ ∀ c ∈ [blk], c.distCodes ≤ 30 := by simpa using hfits
        rw [if_neg hnot]
        exact hround
    | cons blk' bs =>
      rw [encode_cons_cons, List.append_assoc] at hb hpos
      have hround := blocks_round f hl.1 hpos hb
      by_cases hfits : blk.distCodes ≤ 30
      · rw [if_pos hfits] at hround
        obtain ⟨b', hrun, hb'⟩ := hround
        have htail := ih (by simp) hl.2 (Nat.le_of_succ_le_succ hfuel) (by
          rw [List.length_append, three_le_encode] at hpos
          rw [← hpos]
          congr 1
          omega) hb'
        rw [hrun]
        simp only [Bool.false_eq_true, if_false, htail]
        by_cases hall : ∀ c ∈ blk' :: bs, c.distCodes ≤ 30
        · have hcons : ∀ c ∈ blk :: blk' :: bs, c.distCodes ≤ 30 :=
            List.forall_mem_cons.mpr ⟨hfits, hall⟩
          rw [if_pos hall, if_pos hcons]
          rfl
        · rw [if_neg hall, if_neg fun h => hall (List.forall_mem_cons.mp h).2]
      · rw [if_neg hfits] at hround
        rw [hround, if_neg fun h => hfits (h blk (List.mem_cons_self ..))]

/-- **Completeness**: on a legal stream, whatever follows it, `inflate` succeeds
    with the bytes of the stream, unless a dynamic block announces more than 30
    distance codes; then it refuses the header. -/
theorem inflate_complete (bs : List Block) (inp : Bytes) (rest : List Bool) (hne : bs ≠ [])
    (hl : Legal 0 [] bs) (hin : ofBytes inp = encode bs ++ rest) :
    inflate inp = if ∀ blk ∈ bs, blk.distCodes ≤ 30 then .ok (expand bs [])
      else .error "deflate: cabecera dinamica invalida" := by
  have hb := Bits.reads_start inp
  have hlen := congrArg List.length hin
  rw [length_ofBytes, List.length_append] at hlen
  have hfuel := length_le_encode bs
  rw [hin] at hb
  refine blocks_stream hne hl (by omega) ?_ hb
  rw [List.length_append, ← hlen]
  omega

/-- A header with `n` distance codes, all of five bits as in a fixed block. -/
def evenDistances (n : Nat) (syms : List LenSym) : Header where
  lit := List.replicate 65 0 ++ [1] ++ List.replicate 190 0 ++ [1]
  dist := List.replicate n 5
  cl := [0, 2, 0, 0, 0, 2, 0, 0, 0, 0, 0, 0, 0, 0, 0, 0, 2, 0, 2]
  sent := 18
  syms := [.manyZeros 65, .len 1, .manyZeros 138, .manyZeros 52, .len 1, .len 5, .again 6, .again 6,
    .again 6, .again 6] ++ syms

/-- A block of each type: a copy that runs into itself, two stored bytes after
    padding that is not zero, and a dynamic block with 30 distance codes. -/
def threeBlocks : List Block :=
  [.fixed [.literal 1, .literal 7, .copy 5 2],
    .stored [true, false, true, true, false, true, true] [3, 4],
    .dynamic (evenDistances 30 [.again 5]) [.literal 65]]

/-- The bytes of `threeBlocks`, and two more. -/
def threeBlocksBytes : Bytes :=
  [98, 100, 7, 67, 0, 218, 2, 0, 253, 255, 3, 4, 5, 221, 5, 1, 0, 32, 0, 0, 160, 109, 252, 63, 133,
    221, 221, 41, 77, 88]

theorem inflate_complete_three :
    (threeBlocks ≠ [] ∧ Legal 0 [] threeBlocks) ∧
      inflate threeBlocksBytes = .ok [1, 7, 1, 7, 1, 7, 1, 3, 4, 65] := by
  have hl : Legal 0 [] threeBlocks := by decide +kernel
  have hin : ofBytes threeBlocksBytes =
      encode threeBlocks ++ (ofBytes threeBlocksBytes).drop (encode threeBlocks).length := by
    decide +kernel
  have h := inflate_complete threeBlocks threeBlocksBytes _ (by simp [threeBlocks]) hl hin
  have hfits : ∀ blk ∈ threeBlocks, blk.distCodes ≤ 30 := by decide +kernel
  have hout : expand threeBlocks [] = [1, 7, 1, 7, 1, 7, 1, 3, 4, 65] := by decide +kernel
  rw [if_pos hfits, hout] at h
  exact ⟨⟨by simp [threeBlocks], hl⟩, h⟩

/-- The byte 65 in a dynamic block with 32 distance codes. -/
def allDistances : List Block :=
  [.dynamic (evenDistances 32 [.again 6, .len 5]) [.literal 65]]

def allDistancesBytes : Bytes :=
  [5, 223, 5, 1, 0, 32, 0, 0, 160, 109, 252, 63, 133, 221, 221, 173]

/-- The format lets a block announce 31 or 32 distance codes; the decoder does not. -/
theorem inflate_refuses_all_distances :
    ¬ ∀ (bs : List Block) (inp : Bytes) (rest : List Bool), bs ≠ [] → Legal 0 [] bs →
      ofBytes inp = encode bs ++ rest → inflate inp = .ok (expand bs []) := by
  intro hall
  have h := hall allDistances allDistancesBytes [] (by simp [allDistances]) (by decide +kernel)
    (by decide +kernel)
  have hrefused : (inflate allDistancesBytes).isOk = false := by decide +kernel
  rw [h] at hrefused
  exact Bool.noConfusion hrefused

end Archive
