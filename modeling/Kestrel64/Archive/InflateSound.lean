import Kestrel64.Archive.InflateComplete
import Kestrel64.Archive.InflateHalts

/-! # What Inflate Accepts

    The decoder read backwards: whatever it takes from the input is what the
    format has there. The one table nobody looks at again is that of the
    distances, so that the bits it accepts are a stream unless a block brings
    distance lengths that are not those of a prefix-free code.
-/

namespace Archive

open BitStream CanonicalCode Deflate

variable {inp : Bytes} {b b' : Bits} {out : Bytes} {bits : List Bool}

/-! ## Section 1: Fields -/

namespace Bits

theorem fill_keeps_err {need fuel : Nat} {b : Bits} (h : b.err = true) :
    (b.fill need fuel).err = true := by
  induction fuel generalizing b with
  | zero => exact h
  | succ fuel ih =>
    simp only [fill]
    split
    · split
      · rfl
      · exact ih h
    · exact h

/-- An error stays. -/
theorem get_keeps_err {need : Nat} (h : b.err = true) : (b.get need).2.err = true := by
  have hfill : (b.fill need need).err = true := fill_keeps_err h
  simp only [get]
  split <;> exact hfill

theorem err_of_get {need : Nat} (h : (b.get need).2.err = false) : b.err = false := by
  cases hb : b.err with
  | false => rfl
  | true =>
    rw [get_keeps_err hb] at h
    cases h

/-- A field that is read without an error is on the stream. -/
theorem Reads.get_ok {need : Nat} (hb : b.Reads inp bits) (herr : (b.get need).2.err = false) :
    ∃ rest, bits = lsb need (b.get need).1 ++ rest ∧ (b.get need).1 < 2 ^ need ∧
      (b.get need).2.Reads inp rest := by
  have hleft := (past_get_ok herr).left
  have hlen := hb.length
  unfold left at hleft
  rw [hb.src] at hleft
  have htake : (bits.take need).length = need := by
    rw [List.length_take]
    omega
  have hlt : ofLsb (bits.take need) < 2 ^ need := by
    have h := ofLsb_lt (bits.take need)
    rwa [htake] at h
  have hfield : lsb need (ofLsb (bits.take need)) = bits.take need := by
    have h := lsb_ofLsb (bits.take need)
    rwa [htake] at h
  have hsplit : bits = lsb need (ofLsb (bits.take need)) ++ bits.drop need := by
    rw [hfield, List.take_append_drop]
  have hreads := hb
  rw [hsplit] at hreads
  obtain ⟨hval, hrest⟩ := hreads.get hlt
  refine ⟨bits.drop need, ?_, ?_, hrest⟩
  · rw [hval]
    exact hsplit
  · rw [hval]
    exact hlt

end Bits

theorem err_of_decodeFrom {h : Huff} {fuel len code first index sym : Nat}
    (hdec : decodeFrom h fuel len code first index b = (some sym, b')) : b.err = false := by
  cases fuel with
  | zero => cases hdec
  | succ fuel =>
    simp only [decodeFrom] at hdec
    split at hdec
    · cases hdec
    · next herr => exact Bits.err_of_get (Bool.eq_false_of_not_eq_true herr)

theorem err_of_decode {h : Huff} {sym : Nat} (hdec : decode b h = (some sym, b')) :
    b.err = false := err_of_decodeFrom hdec

/-! ## Section 2: Symbols -/

/-- What the table decodes is the word of the symbol it gives. -/
def Huff.Spells (h : Huff) (lens : List Nat) : Prop :=
  ∀ ⦃inp : Bytes⦄ ⦃b b' : Bits⦄ ⦃bits : List Bool⦄ ⦃sym : Nat⦄, b.Reads inp bits →
    decode b h = (some sym, b') →
    ∃ rest, bits = word lens sym ++ rest ∧ lens.getD sym 0 ≠ 0 ∧ b'.Reads inp rest

theorem decodeFrom_read {h : Huff} {count : Nat → Nat} {fuel len c first index sym : Nat}
    (hcount : ∀ L, len ≤ L → L < len + fuel → h.count.getD L 0 = count L) (hb : b.Reads inp bits)
    (hdec : decodeFrom h fuel len (2 * c) first index b = (some sym, b')) :
    ∃ i rest, walk count fuel len (2 * c) first index bits = some (i, rest) ∧
      sym = h.symbol.getD i 0 ∧ b'.Reads inp rest := by
  induction fuel generalizing len c first index b bits with
  | zero => cases hdec
  | succ fuel ih =>
    simp only [decodeFrom] at hdec
    split at hdec
    · cases hdec
    · next herr =>
      obtain ⟨rest, hbits, hlt, hrest⟩ := hb.get_ok (Bool.eq_false_of_not_eq_true herr)
      -- The bit that was read, as a bit of the stream.
      obtain ⟨bit, hbit⟩ : ∃ bit : Bool, bit.toNat = (b.get 1).1 := by
        rcases Nat.lt_succ_iff_lt_or_eq.mp hlt with h0 | h1
        · exact ⟨false, by simp; omega⟩
        · exact ⟨true, h1.symm⟩
      have hcons : bits = bit :: rest := by
        rw [hbits, ← hbit]
        cases bit <;> rfl
      have hor : 2 * c ||| (b.get 1).1 = 2 * c + bit.toNat := by
        rw [← hbit]
        have h := Nat.two_pow_add_eq_or_of_lt (i := 1) (b := bit.toNat) (by cases bit <;> decide) c
        rwa [Nat.pow_one, eq_comm] at h
      have hc := hcount len (Nat.le_refl _) (by omega)
      rw [hor, hc] at hdec
      rw [hcons]
      simp only [walk]
      split at hdec
      · next hin =>
        obtain ⟨hsym, rfl⟩ := Prod.mk.inj hdec
        rw [if_pos hin]
        exact ⟨_, _, rfl, (Option.some.inj hsym).symm, hrest⟩
      · next hout =>
        rw [if_neg hout]
        simp only [Nat.shiftLeft_eq, Nat.pow_one, Nat.mul_comm _ 2] at hdec
        exact ih (fun L h0 h1 => hcount L (by omega) (by omega)) hrest hdec

theorem Huff.Serves.spells {h : Huff} {lens : List Nat} (hs : h.Serves lens) : h.Spells lens := by
  intro inp b b' bits sym hb hdec
  obtain ⟨i, rest, hwalk, hsym, hrest⟩ := decodeFrom_read (c := 0)
    (fun L h0 h1 => hs.count L (by omega) (by omega)) hb hdec
  obtain ⟨sym', hne, hword, rfl⟩ := word_of_walk hwalk
  rw [hs.symbol sym' hne] at hsym
  subst hsym
  exact ⟨rest, hword, hne, hrest⟩

theorem used_of_leftOver {lens count : List Nat} (k len : Nat) {left : Int}
    (hc : ∀ L, 0 < L → L < 16 → count.getD L 0 = codes lens L)
    (hleft : left = 2 ^ len - used lens len) (hnow : used lens len ≤ 2 ^ len) (hlen : len + k < 16)
    (h : leftOver count (List.range' (len + 1) k) left = true) :
    used lens (len + k) ≤ 2 ^ (len + k) := by
  induction k generalizing len left with
  | zero => exact hnow
  | succ k ih =>
    have hnext : 2 * left - (count.getD (len + 1) 0 : Int) = 2 ^ (len + 1) - used lens (len + 1) := by
      rw [hc (len + 1) (by omega) (by omega), used_succ, hleft, codes, if_neg (by omega), Int.pow_succ]
      push_cast
      ring
    rw [List.range'_succ, leftOver] at h
    split at h
    · cases h
    · next hpos =>
      rw [hnext] at hpos h
      have hfits : used lens (len + 1) ≤ 2 ^ (len + 1) := by
        have hcast : (used lens (len + 1) : Int) ≤ 2 ^ (len + 1) := by omega
        exact_mod_cast hcast
      have hrest := ih (len + 1) rfl hfits (by omega) h
      rwa [show len + 1 + k = len + (k + 1) by omega] at hrest

/-- A table that is built serves a prefix-free code. -/
theorem build_ok {lens : List Nat} {h : Huff} (hle : ∀ l ∈ lens, l ≤ 15) (hlong : lens.length ≤ 288)
    (hb : build lens = (h, true)) : Kraft 15 lens ∧ h.Serves lens := by
  obtain ⟨-, hcount⟩ := countLens_spec hle
  have hcodes : ∀ L, 0 < L → L < 16 → (countLens lens).getD L 0 = codes lens L := by
    intro L h0 h1
    rw [hcount L h1, codes, if_neg (by omega)]
  have hleft : leftOver (countLens lens) (List.range' 1 15) 1 = true := by
    cases hover : leftOver (countLens lens) (List.range' 1 15) 1 with
    | true => rfl
    | false =>
      simp only [build, hover, if_true] at hb
      split at hb <;> cases hb
  have hk : Kraft 15 lens := by
    refine ⟨hle, ?_⟩
    have hused := used_of_leftOver 15 0 hcodes (by simp) (by simp) (by omega) hleft
    rwa [Nat.zero_add] at hused
  have hserves := build_serves_any hk hlong
  rw [hb] at hserves
  exact ⟨hk, hserves⟩

/-! ## Section 3: Tokens -/

section Tokens

variable {litH distH : Huff} {lit dist : List Nat}

theorem copySymbol_read {i : Nat} {out' : Bytes} (hd : distH.Spells dist) (hb : b.Reads inp bits)
    (hok : copySymbol distH i b out = .ok (b', out')) :
    ∃ x j y len d rest, Stands lengthRows i x len ∧ Stands distRows j y d ∧
      dist.getD j 0 ≠ 0 ∧ d ≤ out.length ∧ out' = again d len out ∧
      bits = lsb (lengthRows.getD i (0, 0)).2 x ++ word dist j ++
        lsb (distRows.getD j (0, 0)).2 y ++ rest ∧ b'.Reads inp rest := by
  simp only [copySymbol] at hok
  split at hok
  · cases hok
  · next hi =>
    have hi29 : i < 29 := Nat.not_le.mp hi
    obtain ⟨hlbase, hlextra⟩ := lenTables i hi29
    split at hok
    · cases hok
    · next ds b₂ hdec =>
      obtain ⟨rest₁, hbits, hx, hb₁⟩ := hb.get_ok (err_of_decode hdec)
      obtain ⟨rest₂, hbits₁, hcode, hb₂⟩ := hd hb₁ hdec
      split at hok
      · cases hok
      · next hds =>
        have hds30 : ds < 30 := Nat.not_le.mp hds
        obtain ⟨hdbase, hdextra⟩ := distTables ds hds30
        split at hok
        · cases hok
        · next herr =>
          obtain ⟨rest₃, hbits₂, hy, hb₃⟩ := hb₂.get_ok (Bool.eq_false_of_not_eq_true herr)
          split at hok
          · cases hok
          · next hreach =>
            obtain ⟨rfl, rfl⟩ := Prod.mk.inj (Except.ok.inj hok)
            rw [hlextra] at hbits hx
            rw [hdextra] at hbits₂ hy
            refine ⟨_, ds, _, _, _, rest₃, ⟨hi29, hx, rfl⟩, ⟨hds30, hy, rfl⟩, hcode, ?_, ?_, ?_, hb₃⟩
            · rw [← hdbase, ← hdextra]
              omega
            · rw [copyFrom_eq_again _ (d := kDistBase.getD ds 0 + (b₂.get (kDistExtra.getD ds 0)).1)
                (by omega), hlbase, hlextra, hdbase, hdextra]
            · rw [hbits, hbits₁, hbits₂]
              simp only [List.append_assoc]

/-- The symbols up to the end of a block are tokens. -/
theorem symbols_read {fuel : Nat} {out' : Bytes} (hl : litH.Spells lit) (hd : distH.Spells dist)
    (hb : b.Reads inp bits) (hok : symbols litH distH fuel b out = .ok (b', out')) :
    ∃ toks tail rest, Tokens lit dist out toks tail ∧ out' = toks.foldl Token.expand out ∧
      bits = tail ++ rest ∧ b'.Reads inp rest := by
  induction fuel generalizing b bits out with
  | zero => cases hok
  | succ fuel ih =>
    rw [symbols] at hok
    split at hok
    · cases hok
    · next sym b₁ hdec =>
      obtain ⟨rest₁, hbits, hcode, hb₁⟩ := hl hb hdec
      split at hok
      · next hlit =>
        obtain ⟨toks, tail, rest, htoks, hout, htail, hrest⟩ := ih hb₁ hok
        have hval : (BitVec.ofNat 8 sym).toNat = sym := by
          rw [BitVec.toNat_ofNat, Nat.mod_eq_of_lt (by omega)]
        have hwritten : (Token.literal (BitVec.ofNat 8 sym)).Written lit dist out (word lit sym) := by
          refine ⟨?_, ?_⟩ <;> rw [hval]
          exact hcode
        refine ⟨_, _, rest, .token hwritten htoks, hout, ?_, hrest⟩
        rw [hbits, htail, List.append_assoc]
      · next hlit =>
        split at hok
        · next hstop =>
          obtain ⟨rfl, rfl⟩ := Prod.mk.inj (Except.ok.inj hok)
          rw [hstop] at hcode hbits
          exact ⟨[], _, rest₁, .stop hcode, rfl, hbits, hb₁⟩
        · next hstop =>
          split at hok
          · cases hok
          · next b₂ out₂ hcopy =>
            obtain ⟨x, j, y, len, d, rest₂, hlen, hdist, hdcode, hreach, rfl, hbits₁, hb₂⟩ :=
              copySymbol_read hd hb₁ hcopy
            obtain ⟨toks, tail, rest, htoks, hout, htail, hrest⟩ := ih hb₂ hok
            have hsym : 257 + (sym - 257) = sym := by omega
            have hwritten : (Token.copy len d).Written lit dist out
                (copyBits lit dist (sym - 257) x j y) := by
              refine ⟨hreach, _, x, j, y, hlen, hdist, ?_, hdcode, rfl⟩
              rw [hsym]
              exact hcode
            refine ⟨_, _, rest, .token hwritten htoks, hout, ?_, hrest⟩
            rw [hbits, hbits₁, htail, copyBits, hsym]
            simp only [List.append_assoc]

end Tokens

/-! ## Section 4: The header of a dynamic block -/

section Header

theorem err_of_readCodeLens {os clens : List Nat} (h : (readCodeLens os b clens).2.err = false) :
    b.err = false := by
  induction os generalizing b clens with
  | nil => exact h
  | cons o os ih => exact Bits.err_of_get (ih h)

theorem readCodeLens_read {os : List Nat} (clens : List Nat) (hnd : os.Nodup)
    (hos : ∀ s ∈ os, s < clens.length) (hle : ∀ s, clens.getD s 0 ≤ 7) (hb : b.Reads inp bits)
    (herr : (readCodeLens os b clens).2.err = false) :
    (readCodeLens os b clens).1.length = clens.length ∧
      (∀ s, (readCodeLens os b clens).1.getD s 0 ≤ 7) ∧
      (∀ s, s ∉ os → (readCodeLens os b clens).1.getD s 0 = clens.getD s 0) ∧
      ∃ rest, bits = os.flatMap (fun s => lsb 3 ((readCodeLens os b clens).1.getD s 0)) ++ rest ∧
        (readCodeLens os b clens).2.Reads inp rest := by
  induction os generalizing b bits clens with
  | nil => exact ⟨rfl, hle, fun _ _ => rfl, bits, rfl, hb⟩
  | cons o os ih =>
    rw [List.nodup_cons] at hnd
    rw [List.forall_mem_cons] at hos
    have herr₁ : (readCodeLens os (b.get 3).2 (clens.set o (b.get 3).1)).2.err = false := herr
    obtain ⟨rest₁, hbits, hlt, hb₁⟩ := hb.get_ok (err_of_readCodeLens herr₁)
    have hset : ∀ s, (clens.set o (b.get 3).1).getD s 0 =
        if o = s then (b.get 3).1 else clens.getD s 0 := by
      intro s
      split
      · next he =>
        subst he
        exact getD_set_self hos.1
      · next he => exact getD_set_ne he
    obtain ⟨hlen, hle', hrest, rest, hbits₁, hreads⟩ := ih (clens.set o (b.get 3).1) hnd.2
      (by rw [List.length_set]; exact hos.2)
      (fun s => by rw [hset]; split; omega; exact hle s) hb₁ herr₁
    have ho : (readCodeLens os (b.get 3).2 (clens.set o (b.get 3).1)).1.getD o 0 = (b.get 3).1 := by
      rw [hrest o hnd.1, hset, if_pos rfl]
    refine ⟨?_, hle', ?_, rest, ?_, hreads⟩
    · rw [readCodeLens, hlen, List.length_set]
    · intro s hs
      rw [List.mem_cons, not_or] at hs
      rw [readCodeLens, hrest s hs.2, hset, if_neg (Ne.symm hs.1)]
    · rw [readCodeLens, List.flatMap_cons, ho, List.append_assoc, ← hbits₁]
      exact hbits

/-- The lengths of the length code, in the order they are sent. -/
theorem codeLens_read {n : Nat} (hb : b.Reads inp bits)
    (herr : (readCodeLens (ord.take n) b (List.replicate 19 0)).2.err = false) :
    (readCodeLens (ord.take n) b (List.replicate 19 0)).1.length = 19 ∧
      (∀ l ∈ (readCodeLens (ord.take n) b (List.replicate 19 0)).1, l ≤ 7) ∧
      (∀ s ∈ sendOrder.drop n,
        (readCodeLens (ord.take n) b (List.replicate 19 0)).1.getD s 0 = 0) ∧
      ∃ rest, bits = (sendOrder.take n).flatMap (fun s =>
          lsb 3 ((readCodeLens (ord.take n) b (List.replicate 19 0)).1.getD s 0)) ++ rest ∧
        (readCodeLens (ord.take n) b (List.replicate 19 0)).2.Reads inp rest := by
  have hnd : ord.Nodup := by decide
  have hmem : ∀ s ∈ ord.take n, s < (List.replicate 19 0).length := by
    have hall : ∀ s ∈ ord, s < (List.replicate 19 0).length := by decide
    exact fun s hs => hall s (List.mem_of_mem_take hs)
  have hzero : ∀ s, (List.replicate 19 0).getD s 0 = 0 := by
    intro s
    by_cases hs : s < 19
    · rw [List.getD_eq_getElem _ _ (by simpa using hs), List.getElem_replicate]
    · rw [List.getD_eq_default _ _ (by simpa using hs)]
  have hnone : ∀ s, (List.replicate 19 0).getD s 0 ≤ 7 := by
    intro s
    rw [hzero]
    exact Nat.zero_le _
  obtain ⟨hlen, hle, hunsent, hrest⟩ := readCodeLens_read (List.replicate 19 0)
    (hnd.sublist (List.take_sublist _ _)) hmem hnone hb herr
  rw [List.length_replicate] at hlen
  refine ⟨hlen, ?_, ?_, hrest⟩
  · intro l hl
    obtain ⟨i, hi, rfl⟩ := List.mem_iff_getElem.mp hl
    rw [← List.getD_eq_getElem _ 0 hi]
    exact hle i
  · intro s hs
    rw [← List.take_append_drop n ord, List.nodup_append] at hnd
    have hnot : s ∉ ord.take n := fun htake => hnd.2.2 s htake s hs rfl
    exact (hunsent s hnot).trans (hzero s)

/-- The field of a repeat and the check behind it. -/
theorem repeat_read {codeH : Huff} {lens lens' : List Nat} {total fuel w base val : Nat}
    (hb : b.Reads inp bits)
    (hok : (if ((b.get w).2.err || decide (total < lens.length + (base + (b.get w).1))) = true then
        .error "deflate: repeticion se sale"
      else readLens codeH total fuel (b.get w).2 (lens ++ List.replicate (base + (b.get w).1) val)) =
        .ok (lens', b')) :
    ∃ n rest, n < base + 2 ^ w ∧ base ≤ n ∧ lens.length + n ≤ total ∧
      bits = lsb w (n - base) ++ rest ∧ (b.get w).2.Reads inp rest ∧
      readLens codeH total fuel (b.get w).2 (lens ++ List.replicate n val) = .ok (lens', b') := by
  split at hok
  · cases hok
  · next hfit =>
    simp only [Bool.or_eq_true, decide_eq_true_eq, not_or, Nat.not_lt] at hfit
    obtain ⟨rest, hbits, hlt, hrest⟩ := hb.get_ok (Bool.eq_false_of_not_eq_true hfit.1)
    refine ⟨base + (b.get w).1, rest, by omega, by omega, hfit.2, ?_, hrest, hok⟩
    rw [Nat.add_sub_cancel_left]
    exact hbits

/-- What one symbol of the run-length coding adds. -/
theorem readLens_round {codeH : Huff} {cl lens lens' : List Nat} {total fuel : Nat}
    (hcl : cl.length = 19) (hd : codeH.Spells cl) (hroom : lens.length < total)
    (hb : b.Reads inp bits) (hok : readLens codeH total (fuel + 1) b lens = .ok (lens', b')) :
    ∃ (s : LenSym) (b₁ : Bits) (rest : List Bool), s.Legal cl lens ∧
      (s.expand lens).length ≤ total ∧ bits = s.encode cl ++ rest ∧ b₁.Reads inp rest ∧
      readLens codeH total fuel b₁ (s.expand lens) = .ok (lens', b') := by
  rw [readLens, if_pos hroom] at hok
  split at hok
  · cases hok
  · next sym b₁ hdec =>
    obtain ⟨rest₁, hbits, hcode, hb₁⟩ := hd hb hdec
    have hsym : sym < 19 := hcl ▸ lt_length_of_getD hcode
    split at hok
    · next hlen =>
      refine ⟨.len sym, b₁, rest₁, ⟨Nat.le_of_lt_succ hlen, hcode⟩, ?_, hbits, hb₁, hok⟩
      simp only [LenSym.expand, List.length_append, List.length_singleton]
      omega
    · next hlen =>
      split at hok
      · cases hok
      · next hfirst =>
        have hcases : sym = 16 ∨ sym = 17 ∨ sym = 18 := by omega
        rcases hcases with rfl | rfl | rfl
        · simp only [if_true] at hok
          obtain ⟨n, rest, hhi, hlo, hfit, hbits₁, hb₂, hok₁⟩ := repeat_read hb₁ hok
          have hne : lens ≠ [] := by
            rintro rfl
            exact hfirst ⟨rfl, rfl⟩
          refine ⟨.again n, _, rest, ⟨⟨⟨hlo, by omega⟩, hne⟩, hcode⟩, ?_, ?_, hb₂, hok₁⟩
          · simpa [LenSym.expand] using hfit
          · rw [LenSym.encode, hbits, hbits₁, List.append_assoc]
        · simp only [show ¬ 17 = 16 by omega, if_true, if_false] at hok
          obtain ⟨n, rest, hhi, hlo, hfit, hbits₁, hb₂, hok₁⟩ := repeat_read hb₁ hok
          refine ⟨.zeros n, _, rest, ⟨⟨hlo, by omega⟩, hcode⟩, ?_, ?_, hb₂, hok₁⟩
          · simpa [LenSym.expand] using hfit
          · rw [LenSym.encode, hbits, hbits₁, List.append_assoc]
        · simp only [show ¬ 18 = 16 by omega, show ¬ 18 = 17 by omega, if_false] at hok
          obtain ⟨n, rest, hhi, hlo, hfit, hbits₁, hb₂, hok₁⟩ := repeat_read hb₁ hok
          refine ⟨.manyZeros n, _, rest, ⟨⟨hlo, by omega⟩, hcode⟩, ?_, ?_, hb₂, hok₁⟩
          · simpa [LenSym.expand] using hfit
          · rw [LenSym.encode, hbits, hbits₁, List.append_assoc]

theorem err_of_readLens {codeH : Huff} {lens : List Nat} {r : List Nat × Bits} {total fuel : Nat}
    (hroom : lens.length < total) (hok : readLens codeH total (fuel + 1) b lens = .ok r) :
    b.err = false := by
  rw [readLens, if_pos hroom] at hok
  split at hok
  · cases hok
  · next hdec => exact err_of_decode hdec

theorem readLens_read {codeH : Huff} {cl lens lens' : List Nat} {total fuel : Nat}
    (hcl : cl.length = 19) (hd : codeH.Spells cl) (hfuel : total ≤ lens.length + fuel)
    (hle : lens.length ≤ total) (hb : b.Reads inp bits)
    (hok : readLens codeH total fuel b lens = .ok (lens', b')) :
    ∃ syms rest, Along (LenSym.Legal cl) LenSym.expand lens syms ∧
      syms.foldl LenSym.expand lens = lens' ∧ lens'.length = total ∧
      bits = syms.flatMap (LenSym.encode cl) ++ rest ∧ b'.Reads inp rest := by
  induction fuel generalizing b bits lens with
  | zero =>
    obtain ⟨rfl, rfl⟩ := Prod.mk.inj (Except.ok.inj hok)
    exact ⟨[], bits, trivial, rfl, by omega, rfl, hb⟩
  | succ fuel ih =>
    by_cases hroom : lens.length < total
    · obtain ⟨s, b₁, rest₁, hs, hfit, hbits, hb₁, hok₁⟩ := readLens_round hcl hd hroom hb hok
      have hgrow := length_lt_expand hs
      obtain ⟨syms, rest, hsyms, hlens, hlen, hbits₁, hrest⟩ := ih (by omega) hfit hb₁ hok₁
      refine ⟨s :: syms, rest, ⟨hs, hsyms⟩, hlens, hlen, ?_, hrest⟩
      rw [List.flatMap_cons, hbits, hbits₁, List.append_assoc]
    · rw [readLens, if_neg hroom] at hok
      obtain ⟨rfl, rfl⟩ := Prod.mk.inj (Except.ok.inj hok)
      exact ⟨[], bits, trivial, rfl, by omega, rfl, hb⟩

/-- The run-length coding only gives lengths up to 15. -/
theorem le_of_along {cl lens : List Nat} {syms : List LenSym}
    (hs : Along (LenSym.Legal cl) LenSym.expand lens syms) (hle : ∀ l ∈ lens, l ≤ 15) :
    ∀ l ∈ syms.foldl LenSym.expand lens, l ≤ 15 := by
  induction syms generalizing lens with
  | nil => exact hle
  | cons s syms ih =>
    have hlast : lens.getD (lens.length - 1) 0 ≤ 15 := by
      by_cases hin : lens.length - 1 < lens.length
      · rw [List.getD_eq_getElem _ _ hin]
        exact hle _ (List.getElem_mem _)
      · rw [List.getD_eq_default _ _ (by omega)]
        omega
    apply ih hs.2
    intro l hl
    have hrange := hs.1.1
    cases s <;> simp only [LenSym.InRange, LenSym.expand, List.mem_append, List.mem_singleton,
      List.mem_replicate] at hrange hl
    case len k =>
      rcases hl with hl | rfl
      · exact hle l hl
      · exact hrange
    case again n =>
      rcases hl with hl | ⟨-, rfl⟩
      · exact hle l hl
      · exact hlast
    all_goals
      rcases hl with hl | ⟨-, rfl⟩
      · exact hle l hl
      · omega

/-- The tables of a dynamic block are those of a header; only its distances are
    not looked at. -/
theorem dynamicTables_read {litH distH : Huff} (hb : b.Reads inp bits)
    (hok : dynamicTables b = .ok (litH, distH, b')) :
    ∃ (h : Header) (rest : List Bool), h.Announced ∧ Kraft 15 h.lit ∧ litH.Serves h.lit ∧ distH = (build h.dist).1 ∧
      (∀ l ∈ h.dist, l ≤ 15) ∧ bits = h.encode ++ rest ∧ b'.Reads inp rest := by
  simp only [dynamicTables] at hok
  split at hok
  · cases hok
  · next hhead =>
    simp only [Bool.or_eq_true, decide_eq_true_eq, not_or, Nat.not_lt] at hhead
    obtain ⟨⟨herr, hlit⟩, hdist⟩ := hhead
    have herr₃ := Bool.eq_false_of_not_eq_true herr
    have herr₂ := Bits.err_of_get herr₃
    obtain ⟨rest₁, hbits₁, hlt₁, hb₁⟩ := hb.get_ok (Bits.err_of_get herr₂)
    obtain ⟨rest₂, hbits₂, hlt₂, hb₂⟩ := hb₁.get_ok herr₂
    obtain ⟨rest₃, hbits₃, hlt₃, hb₃⟩ := hb₂.get_ok herr₃
    generalize hhlit : (b.get 5).1 = hlit' at *
    generalize hhdist : ((b.get 5).2.get 5).1 = hdist' at *
    generalize hhclen : (((b.get 5).2.get 5).2.get 4).1 = hclen' at *
    generalize hb₃' : (((b.get 5).2.get 5).2.get 4).2 = b₃ at *
    split at hok
    · cases hok
    · next codeH hcode =>
      split at hok
      · cases hok
      · next lens b₄ hlens =>
        split at hok
        · cases hok
        · next litH' hlitH =>
          obtain ⟨rfl, hrest⟩ := Prod.mk.inj (Except.ok.inj hok)
          obtain ⟨rfl, rfl⟩ := Prod.mk.inj hrest
          obtain ⟨hcl, hcl7, hunsent, rest₄, hbits₄, hb₄⟩ := codeLens_read hb₃
            (err_of_readLens (Nat.succ_pos _) hlens)
          generalize (readCodeLens (ord.take (hclen' + 4)) b₃ (List.replicate 19 0)).2 = b₅ at *
          generalize (readCodeLens (ord.take (hclen' + 4)) b₃ (List.replicate 19 0)).1 = cl at *
          obtain ⟨hclKraft, hclServes⟩ := build_ok
            (fun l hl => Nat.le_trans (hcl7 l hl) (by omega)) (by omega) hcode
          obtain ⟨syms, rest₅, hsyms, hcoded, htotal, hbits₅, hrest⟩ := readLens_read hcl
            hclServes.spells (Nat.le_add_left _ _) (Nat.zero_le _) hb₄ hlens
          have hle15 := le_of_along hsyms (by simp)
          rw [hcoded] at hle15
          obtain ⟨hlitKraft, hlitServes⟩ := build_ok
            (fun l hl => hle15 l (List.mem_of_mem_take hl)) (by rw [List.length_take]; omega) hlitH
          have hlen₁ : (lens.take (hlit' + 257)).length = hlit' + 257 := by
            rw [List.length_take]
            omega
          have hlen₂ : (lens.drop (hlit' + 257)).length = hdist' + 1 := by
            rw [List.length_drop]
            omega
          refine ⟨⟨lens.take (hlit' + 257), lens.drop (hlit' + 257), cl, hclen' + 4, syms⟩, rest₅,
            ?_, hlitKraft, hlitServes, rfl, fun l hl => hle15 l (List.mem_of_mem_drop hl), ?_, hrest⟩
          · refine ⟨?_, ?_, hcl, ⟨Nat.le_add_left _ _, ?_⟩, hunsent,
              ⟨hcl7, used_le_two_pow hclKraft.sum (by omega)⟩, hsyms, ?_⟩
            · rw [hlen₁]
              omega
            · rw [hlen₂]
              omega
            · dsimp only
              omega
            · rw [hcoded, List.take_append_drop]
          · rw [Header.encode, hlen₁, hlen₂, Nat.add_sub_cancel, Nat.add_sub_cancel,
              Nat.add_sub_cancel, hbits₁, hbits₂, hbits₃, hbits₄, hbits₅]
            simp only [List.append_assoc]

end Header

/-! ## Section 5: Blocks -/

theorem rd16_field {pos : Nat} (h : pos + 2 ≤ inp.length) :
    rd16 inp pos = Bytes.field inp pos 2 := by
  have htwo : (inp.drop pos).take 2 = [inp[pos], inp[pos + 1]] := by
    rw [List.drop_eq_getElem_cons (by omega), List.drop_eq_getElem_cons (by omega)]
    rfl
  have hlt := inp[pos].isLt
  rw [rd16, Bytes.field, htwo, List.getD_eq_getElem _ _ (by omega),
    List.getD_eq_getElem _ _ (by omega), Nat.shiftLeft_eq, Nat.or_comm, Nat.mul_comm,
    ← Nat.two_pow_add_eq_or_of_lt hlt, Bytes.ofLe, Bytes.ofLe, Bytes.ofLe]
  omega

theorem ofBytes_drop (inp : Bytes) (pos n : Nat) :
    ofBytes (inp.drop pos) = ofBytes ((inp.drop pos).take n) ++ ofBytes (inp.drop (pos + n)) := by
  rw [← ofBytes_append, ← List.drop_drop, List.take_append_drop]

/-- The two bytes `rd16` takes, as a field of the stream. -/
theorem drop_rd16 {pos : Nat} (h : pos + 2 ≤ inp.length) :
    rd16 inp pos < 2 ^ 16 ∧
      ofBytes (inp.drop pos) = lsb 16 (rd16 inp pos) ++ ofBytes (inp.drop (pos + 2)) := by
  have hlen : ((inp.drop pos).take 2).length = 2 := by
    rw [List.length_take, List.length_drop]
    omega
  have hlt := Bytes.ofLe_lt ((inp.drop pos).take 2)
  have hle := Bytes.le_ofLe ((inp.drop pos).take 2)
  have hfield : Bytes.ofLe ((inp.drop pos).take 2) = rd16 inp pos := (rd16_field h).symm
  rw [hlen, hfield] at hlt hle
  refine ⟨hlt, ?_⟩
  rw [ofBytes_drop inp pos 2, ← hle]
  congr 1
  exact ofBytes_le 2 _

/-- A stored block, after its padding. -/
theorem storedBlock_read {pos : Nat} {out' : Bytes} (hb : b.Reads inp bits)
    (hpos : pos + 3 + bits.length = 8 * inp.length) (hok : storedBlock b out = .ok (b', out')) :
    ∃ pad data rest, (Block.stored pad data).Legal pos out ∧ out' = out ++ data ∧
      bits = (Block.stored pad data).body ++ rest ∧ b'.Reads inp rest := by
  have hlen := hb.length
  have hcnt := hb.cnt
  have hin := hb.pos
  have hroom := hb.room
  have hback : b.align.pos = b.pos := by
    show b.pos - b.cnt / 8 = b.pos
    omega
  have hsrc : b.align.inp = inp := hb.src
  simp only [storedBlock, hsrc, hback] at hok
  split at hok
  · cases hok
  · next h4 =>
    split at hok
    · cases hok
    · next hcheck =>
      split at hok
      · cases hok
      · next hdata =>
        obtain ⟨rfl, rfl⟩ := Prod.mk.inj (Except.ok.inj hok)
        have hlen₂ : b.pos + 2 ≤ inp.length := by omega
        have hlen₄ : b.pos + 2 + 2 ≤ inp.length := by omega
        obtain ⟨hlt, hfield⟩ := drop_rd16 hlen₂
        obtain ⟨-, hfield₂⟩ := drop_rd16 hlen₄
        have hcomp : rd16 inp (b.pos + 2) = 0xffff - rd16 inp b.pos := by
          rw [← xor_ffff hlt]
          exact (not_not.mp hcheck).symm
        have hdlen : ((inp.drop (b.pos + 4)).take (rd16 inp b.pos)).length = rd16 inp b.pos := by
          rw [List.length_take, List.length_drop]
          omega
        have hrest := ofBytes_drop inp (b.pos + 4) (rd16 inp b.pos)
        refine ⟨lsb b.cnt b.buf, (inp.drop (b.pos + 4)).take (rd16 inp b.pos),
          ofBytes (inp.drop (b.pos + 4 + rd16 inp b.pos)), ⟨?_, ?_, ?_⟩, rfl, ?_,
          ⟨⟨rfl, hb.err, ?_, Nat.one_pos, ?_, rfl⟩, Nat.zero_lt_succ _⟩⟩
        · rw [length_lsb]
          exact hcnt
        · rw [length_lsb]
          omega
        · rw [hdlen]
          omega
        · rw [Block.body, hdlen, hb.bits, hfield, hfield₂, hcomp, hrest]
          simp only [List.append_assoc]
        · show b.pos + 4 + rd16 inp b.pos ≤ inp.length
          omega
        · rw [length_ofBytes, List.length_drop]
          omega

theorem fixedLit_spells : fixedLit.Spells fixedLitLens := fixedLit_serves.spells

/-- The 30 distance codes the source builds for a fixed block are among the 32. -/
theorem fixedDist_spells : fixedDist.Spells fixedDistLens := by
  obtain ⟨-, -, -, -, hsame⟩ := fixed_lens
  intro inp b b' bits sym hb hdec
  obtain ⟨rest, hbits, hne, hrest⟩ := fixedDist_serves.spells hb hdec
  have hlt : sym < 30 := by
    have h := lt_length_of_getD hne
    rwa [List.length_replicate] at h
  rw [← (hsame sym hlt).1] at hbits
  exact ⟨rest, hbits, (hsame sym hlt).2, hrest⟩

/-- A block that is accepted is one of the format, or a dynamic block whose
    distance lengths are not those of a prefix-free code. -/
theorem block_read {type pos : Nat} {out' : Bytes} (hb : b.Reads inp bits)
    (hpos : pos + 3 + bits.length = 8 * inp.length) (hok : block type b out = .ok (b', out')) :
    (∃ (blk : Block) (body rest : List Bool), blk.type = type ∧ blk.Written pos out body ∧
        out' = blk.expand out ∧ bits = body ++ rest ∧ b'.Reads inp rest) ∨
      type = 2 ∧ ∃ (h : Header) (rest : List Bool), h.Announced ∧ Kraft 15 h.lit ∧
        ¬ Kraft 15 h.dist ∧ bits = h.encode ++ rest := by
  simp only [block] at hok
  split at hok
  · next htype =>
    obtain ⟨pad, data, rest, hl, hout, hbits, hrest⟩ := storedBlock_read hb hpos hok
    exact .inl ⟨.stored pad data, _, rest, htype.symm, ⟨hl, rfl⟩, hout, hbits, hrest⟩
  · split at hok
    · next htype =>
      obtain ⟨toks, tail, rest, htoks, hout, hbits, hrest⟩ :=
        symbols_read fixedLit_spells fixedDist_spells hb hok
      exact .inl ⟨.fixed toks, tail, rest, htype.symm, htoks, hout, hbits, hrest⟩
    · split at hok
      · next htype =>
        split at hok
        · cases hok
        · next litH distH b₁ htables =>
          obtain ⟨h, rest, hh, hlitKraft, hlit, hdist, hle, hbits, hb₁⟩ :=
            dynamicTables_read hb htables
          by_cases hdistKraft : Kraft 15 h.dist
          · have hserves : distH.Serves h.dist := by
              rw [hdist]
              exact build_serves_any hdistKraft (by have := hh.dist; omega)
            obtain ⟨toks, tail, rest₂, htoks, hout, hbits₁, hrest⟩ :=
              symbols_read hlit.spells hserves.spells hb₁ hok
            have hl : h.Legal := ⟨hh.lit, hh.dist, hh.cl, hh.sent, hh.unsent, hlitKraft, hdistKraft,
              hh.clKraft, stop_of_tokens htoks, hh.syms, hh.coded⟩
            refine .inl ⟨.dynamic h toks, h.encode ++ tail, rest₂, htype.symm,
              ⟨hl, tail, htoks, rfl⟩, hout, ?_, hrest⟩
            rw [hbits, hbits₁, List.append_assoc]
          · exact .inr ⟨htype, h, rest, hh, hlitKraft, hdistKraft, hbits⟩
      · cases hok

/-! ## Section 6: Streams -/

/-- The three bits in front of a block. -/
theorem header_read (hb : b.Reads inp bits) (herr : ((b.get 1).2.get 2).2.err = false) :
    ∃ (last : Bool) (rest : List Bool), (b.get 1).1 = last.toNat ∧
      ((b.get 1).2.get 2).1 < 4 ∧ bits = last :: (lsb 2 ((b.get 1).2.get 2).1 ++ rest) ∧
      ((b.get 1).2.get 2).2.Reads inp rest := by
  obtain ⟨rest₁, hbits, hlt, hb₁⟩ := hb.get_ok (Bits.err_of_get herr)
  obtain ⟨rest, hbits₁, htype, hrest⟩ := hb₁.get_ok herr
  have hcases : (b.get 1).1 = 0 ∨ (b.get 1).1 = 1 := by omega
  rcases hcases with h | h
  · refine ⟨false, rest, h, htype, ?_, hrest⟩
    rw [hbits, h, hbits₁]
    rfl
  · refine ⟨true, rest, h, htype, ?_, hrest⟩
    rw [hbits, h, hbits₁]
    rfl

/-- One round of the block loop that is accepted. -/
theorem blocks_ok {fuel : Nat} {res : Bytes} (hok : blocks (fuel + 1) b out = .ok res) :
    ((b.get 1).2.get 2).2.err = false ∧ ∃ b₁ out₁,
      block ((b.get 1).2.get 2).1 ((b.get 1).2.get 2).2 out = .ok (b₁, out₁) ∧
        (if (b.get 1).1 ≠ 0 then (.ok out₁ : Except String Bytes) else blocks fuel b₁ out₁) =
          .ok res := by
  rw [blocks] at hok
  dsimp only at hok
  split at hok
  · cases hok
  · next herr =>
    split at hok
    · cases hok
    · next b₁ out₁ hblock => exact ⟨Bool.eq_false_of_not_eq_true herr, b₁, out₁, hblock, hok⟩

/-- What is accepted is a stream, up to a block whose distances are not looked at. -/
theorem blocks_read {fuel pos : Nat} {res : Bytes} (hb : b.Reads inp bits)
    (hpos : pos + bits.length = 8 * inp.length) (hok : blocks fuel b out = .ok res) :
    Stream pos out bits res ∨ Oversubscribed pos out bits := by
  induction fuel generalizing b bits out pos with
  | zero => cases hok
  | succ fuel ih =>
    obtain ⟨herr, b₁, out₁, hblock, hnext⟩ := blocks_ok hok
    obtain ⟨last, rest, hlast, -, hbits, hb₂⟩ := header_read hb herr
    have hlen : pos + 3 + rest.length = 8 * inp.length := by
      rw [hbits, List.length_cons, List.length_append, length_lsb] at hpos
      omega
    rcases block_read hb₂ hlen hblock with
      ⟨blk, body, rest₁, htype, hwritten, rfl, rfl, hb₁⟩ | ⟨htype, h, rest₁, hh, hlit, hdist, rfl⟩
    · rw [← htype] at hbits
      cases last with
      | true =>
        rw [hlast, if_pos (by decide)] at hnext
        rw [hbits, ← Except.ok.inj hnext]
        exact .inl (.last hwritten)
      | false =>
        rw [hlast, if_neg (by decide)] at hnext
        rw [List.length_append] at hlen
        have hnextPos : pos + 3 + body.length + rest₁.length = 8 * inp.length := by omega
        rw [hbits]
        rcases ih hb₁ hnextPos hnext with hstream | hover
        · exact .inl (.more hwritten hstream)
        · exact .inr (.later hwritten hover)
    · rw [htype] at hbits
      rw [hbits]
      exact .inr (.here hh hlit hdist)

/-- The reader has one string of bits. -/
theorem Bits.Reads.unique {bits' : List Bool} (h : b.Reads inp bits) (h' : b.Reads inp bits') :
    bits = bits' := h.bits.trans h'.bits.symm

/-- The block that was accepted is the one that is written there. -/
theorem block_unique {blk : Block} {body rest : List Bool} {pos : Nat} {b₁ : Bits} {out₁ : Bytes}
    (hl : blk.Written pos out body) (hpos : (pos + 3 + (body ++ rest).length) % 8 = 0)
    (hb : b.Reads inp (body ++ rest)) (hok : block blk.type b out = .ok (b₁, out₁)) :
    out₁ = blk.expand out ∧ b₁.Reads inp rest := by
  by_cases hfits : blk.distCodes ≤ 30
  · obtain ⟨b₂, hblock, hb₂⟩ := block_written hl hfits hpos hb
    rw [hblock] at hok
    obtain ⟨rfl, rfl⟩ := Prod.mk.inj (Except.ok.inj hok)
    exact ⟨rfl, hb₂⟩
  · rw [block_refused hl (Nat.not_le.mp hfits) hb] at hok
    cases hok

/-- A header announces one set of code lengths. -/
theorem header_unique {h h' : Header} {rest rest' : List Bool} (hh : h.Announced)
    (hh' : h'.Announced) (hb : b.Reads inp (h.encode ++ rest))
    (heq : h.encode ++ rest = h'.encode ++ rest') : h.dist = h'.dist := by
  have hb' := hb
  rw [heq] at hb'
  obtain ⟨hlit, hdist, hsent, -⟩ := header_fields hh hb
  obtain ⟨hlit', hdist', hsent', -⟩ := header_fields hh' hb'
  have hlits : h.lit.length = h'.lit.length := by
    have h₁ := hh.lit
    have h₂ := hh'.lit
    omega
  have hdists : h.dist.length = h'.dist.length := by
    have h₁ := hh.dist
    have h₂ := hh'.dist
    omega
  have hsents : h.sent = h'.sent := by
    have h₁ := hh.sent
    have h₂ := hh'.sent
    omega
  obtain ⟨codeH, b₁, hcode, hlens, -⟩ := readLens_header hh hb
  obtain ⟨codeH', b₁', hcode', hlens', -⟩ := readLens_header hh' hb'
  rw [← hsents, hcode] at hcode'
  obtain ⟨rfl, -⟩ := Prod.mk.inj hcode'
  rw [← hsents, ← hlits, ← hdists, hlens] at hlens'
  obtain ⟨hall, -⟩ := Prod.mk.inj (Except.ok.inj hlens')
  exact (List.append_inj hall hlits).2

/-- The type in front of a block, and what follows it. -/
theorem type_unique {t t' : Nat} {rest rest' : List Bool} (ht : t < 4) (ht' : t' < 4)
    (h : lsb 2 t ++ rest = lsb 2 t' ++ rest') : t = t' ∧ rest = rest' := by
  obtain ⟨htype, hrest⟩ := List.append_inj h (by simp)
  exact ⟨lsb_inj ht ht' htype, hrest⟩

theorem type_lt (blk : Block) : blk.type < 4 := by
  cases blk <;> simp [Block.type]

/-- Bits that bring such distance lengths are not a stream. -/
theorem not_stream {fuel pos : Nat} {res res' : Bytes} (hover : Oversubscribed pos out bits)
    (hstream : Stream pos out bits res') (hb : b.Reads inp bits)
    (hpos : (pos + bits.length) % 8 = 0) (hok : blocks fuel b out = .ok res) : False := by
  induction hover generalizing b fuel with
  | @here pos out last h rest hh hlit hdist =>
    cases fuel with
    | zero => cases hok
    | succ fuel =>
      obtain ⟨herr, -⟩ := blocks_ok hok
      obtain ⟨last₁, tail, -, -, hbits, hb₂⟩ := header_read hb herr
      obtain ⟨last₂, blk, body, rest', hwritten, hbits', -⟩ := stream_cases hstream
      obtain ⟨-, htail⟩ := List.cons.inj hbits
      obtain ⟨-, htail'⟩ := List.cons.inj hbits'
      obtain ⟨htype, hrest⟩ := type_unique (by omega) (type_lt blk) htail'
      obtain ⟨-, rfl⟩ := List.append_inj htail (by simp)
      cases blk with
      | stored pad data => cases htype
      | fixed toks => cases htype
      | dynamic h' toks =>
        obtain ⟨hl', tail', -, rfl⟩ := hwritten
        rw [List.append_assoc] at hrest
        have heq : h.dist = h'.dist := header_unique hh hl'.announced hb₂ hrest
        rw [heq] at hdist
        exact hdist hl'.distKraft
  | @later pos out blk body rest hwritten _ ih =>
    cases fuel with
    | zero => cases hok
    | succ fuel =>
      obtain ⟨herr, b₁, out₁, hblock, hnext⟩ := blocks_ok hok
      obtain ⟨last, tail, hlast, htlt, hbits, hb₂⟩ := header_read hb herr
      obtain ⟨last', blk', body', rest', hwritten', hbits', hstream'⟩ := stream_cases hstream
      obtain ⟨rfl, htail⟩ := List.cons.inj hbits
      obtain ⟨rfl, htail'⟩ := List.cons.inj hbits'
      obtain ⟨htype', hrest⟩ := type_unique (type_lt blk) (type_lt blk') htail'
      obtain ⟨htype, rfl⟩ := type_unique (type_lt blk) htlt htail
      have hlen : (pos + 3 + (body ++ rest).length) % 8 = 0 := by
        rw [List.length_cons, List.length_append, length_lsb] at hpos
        rw [← hpos]
        congr 1
        omega
      rw [← htype] at hblock
      obtain ⟨hout, hb₁⟩ := block_unique hwritten hlen hb₂ hblock
      have hb₂' := hb₂
      rw [htype'] at hblock
      rw [hrest] at hlen hb₂'
      obtain ⟨hout', hb₁'⟩ := block_unique hwritten' hlen hb₂' hblock
      obtain rfl := hb₁.unique hb₁'
      obtain rfl := List.append_cancel_right hrest
      rw [hlast, if_neg (by decide), hout] at hnext
      rw [List.length_append] at hlen
      have hstream₁ := hstream' rfl
      rw [← hout', hout] at hstream₁
      exact ih hstream₁ hb₁ (by rw [Nat.add_assoc]; exact hlen) hnext

theorem length_start (inp : Bytes) : 0 + (ofBytes inp).length = 8 * inp.length := by
  rw [length_ofBytes, Nat.zero_add]

theorem not_stream_start {inp out res : Bytes} (h : inflate inp = .ok out)
    (hover : Oversubscribed 0 [] (ofBytes inp)) : ¬ Stream 0 [] (ofBytes inp) res := by
  intro hstream
  have hlen := length_start inp
  exact not_stream hover hstream (Bits.reads_start inp) (by rw [hlen]; omega) h

/-- **Soundness**: the bits `inflate` accepts are a stream for the bytes it gives,
    if and only if no block brings distance lengths that are not those of a
    prefix-free code. -/
theorem inflate_sound_iff (inp out : Bytes) (h : inflate inp = .ok out) :
    Stream 0 [] (ofBytes inp) out ↔ ¬ Oversubscribed 0 [] (ofBytes inp) := by
  constructor
  · intro hstream hover
    exact not_stream_start h hover hstream
  · intro hnot
    exact (blocks_read (Bits.reads_start inp) (length_start inp) h).resolve_right hnot

theorem inflate_sound_three :
    inflate threeBlocksBytes = .ok [1, 7, 1, 7, 1, 7, 1, 3, 4, 65] ∧
      (Stream 0 [] (ofBytes threeBlocksBytes) [1, 7, 1, 7, 1, 7, 1, 3, 4, 65] ↔
        ¬ Oversubscribed 0 [] (ofBytes threeBlocksBytes)) := by
  have h : inflate threeBlocksBytes = .ok [1, 7, 1, 7, 1, 7, 1, 3, 4, 65] := by decide +kernel
  exact ⟨h, inflate_sound_iff _ _ h⟩

/-- Three distance codes of one bit each. -/
def tripleDistances : Header where
  lit := List.replicate 65 0 ++ [2] ++ List.replicate 190 0 ++ [2, 2]
  dist := [1, 1, 1]
  cl := [0, 2, 2, 0, 0, 0, 0, 0, 0, 0, 0, 0, 0, 0, 0, 0, 0, 0, 2]
  sent := 18
  syms := [.manyZeros 65, .len 2, .manyZeros 138, .manyZeros 52, .len 2, .len 2, .len 1, .len 1,
    .len 1]

/-- A block with this header, the byte 65 and a copy. -/
def tripleDistancesBytes : Bytes := [13, 194, 1, 1, 0, 0, 0, 128, 160, 108, 246, 47, 165, 0, 21]

theorem inflate_accepts_triple_distances :
    ¬ ∀ inp out : Bytes, inflate inp = .ok out → Stream 0 [] (ofBytes inp) out := by
  intro hall
  have h : inflate tripleDistancesBytes = .ok [65, 65, 65, 65] := by decide +kernel
  have hbits : ofBytes tripleDistancesBytes = true :: (lsb 2 2 ++ (tripleDistances.encode ++
      (ofBytes tripleDistancesBytes).drop (3 + tripleDistances.encode.length))) := by
    decide +kernel
  have hover : Oversubscribed 0 [] (ofBytes tripleDistancesBytes) := by
    rw [hbits]
    exact .here (by decide +kernel) (by decide +kernel) (by decide +kernel)
  exact not_stream_start h hover (hall _ _ h)

end Archive
