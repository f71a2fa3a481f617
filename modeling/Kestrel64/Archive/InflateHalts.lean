import Kestrel64.Archive.BitReader

/-! # Inflate Halts

    Every round of the decoder's loops takes at least a bit of the input, so on
    any input the loops end before their fuel does.
-/

namespace Archive

/-- The bits the reader has still to give. -/
def Bits.left (b : Bits) : Nat := b.cnt + 8 * (b.inp.length - b.pos)

/-- The reader has moved on by at least `k` bits of one input. -/
structure Bits.Past (k : Nat) (b b' : Bits) : Prop where
  inp : b'.inp = b.inp
  left : b'.left + k ≤ b.left

section Past

variable {b b' b'' : Bits} {j k : Nat}

theorem Bits.Past.refl (b : Bits) : Past 0 b b := ⟨rfl, Nat.le_refl _⟩

theorem Bits.Past.trans (h : Past j b b') (h' : Past k b' b'') : Past (j + k) b b'' := by
  have hl := h.left
  have hl' := h'.left
  exact ⟨h'.inp.trans h.inp, by omega⟩

theorem Bits.Past.weaken (h : Past k b b') (hj : j ≤ k) : Past j b b' := by
  have hl := h.left
  exact ⟨h.inp, by omega⟩

theorem Bits.past_fill (need fuel : Nat) (b : Bits) : Past 0 b (b.fill need fuel) := by
  induction fuel generalizing b with
  | zero => exact Past.refl b
  | succ fuel ih =>
    simp only [Bits.fill]
    split
    · split
      · exact ⟨rfl, Nat.le_refl _⟩
      · rename_i hpos
        have hpush : Past 0 b { b with buf := b.buf ||| ((b.inp.getD b.pos 0).toNat <<< b.cnt)
                                       pos := b.pos + 1
                                       cnt := b.cnt + 8 } := by
          refine ⟨rfl, ?_⟩
          simp only [Bits.left]
          omega
        exact hpush.trans (ih _)
    · exact Past.refl b

/-- The loop stops short only at the end of the input. -/
theorem Bits.fill_err {need fuel : Nat} {b : Bits} (hfuel : need ≤ b.cnt + fuel)
    (hshort : (b.fill need fuel).cnt < need) : (b.fill need fuel).err = true := by
  induction fuel generalizing b with
  | zero => exact absurd hshort (Nat.not_lt.mpr hfuel)
  | succ fuel ih =>
    simp only [Bits.fill] at hshort ⊢
    by_cases hneed : b.cnt < need
    · rw [if_pos hneed] at hshort ⊢
      by_cases hend : b.inp.length ≤ b.pos
      · rw [if_pos hend]
      · rw [if_neg hend] at hshort ⊢
        exact ih (by show need ≤ b.cnt + 8 + fuel; omega) hshort
    · rw [if_neg hneed] at hshort
      exact absurd hshort hneed

theorem Bits.past_get (b : Bits) (need : Nat) : Past 0 b (b.get need).2 := by
  have hfill := past_fill need need b
  simp only [Bits.get]
  split
  · exact hfill
  · refine hfill.trans (k := 0) ⟨rfl, ?_⟩
    simp only [Bits.left]
    omega

theorem Bits.past_get_ok {b : Bits} {need : Nat} (herr : (b.get need).2.err = false) :
    Past need b (b.get need).2 := by
  have hfill := past_fill need need b
  simp only [Bits.get] at herr ⊢
  split
  · rename_i hshort
    rw [if_pos hshort, fill_err (Nat.le_add_left _ _) hshort] at herr
    exact absurd herr (by decide)
  · rename_i hge
    have htake : Past need (b.fill need need) { b.fill need need with
        buf := (b.fill need need).buf >>> need, cnt := (b.fill need need).cnt - need } := by
      refine ⟨rfl, ?_⟩
      simp only [Bits.left]
      omega
    exact (hfill.trans htake).weaken (by omega)

theorem past_decodeFrom {h : Huff} {fuel len code first index sym : Nat} {b b' : Bits}
    (hdec : decodeFrom h fuel len code first index b = (some sym, b')) : b.Past 1 b' := by
  induction fuel generalizing len code first index b with
  | zero => simp [decodeFrom] at hdec
  | succ fuel ih =>
    simp only [decodeFrom] at hdec
    split at hdec
    · simp at hdec
    · rename_i herr
      have hstep := Bits.past_get_ok (Bool.eq_false_of_not_eq_true herr)
      split at hdec
      · simp only [Prod.mk.injEq] at hdec
        exact hdec.2 ▸ hstep
      · exact (hstep.trans (ih hdec)).weaken (by omega)

theorem past_decode {h : Huff} {sym : Nat} {b b' : Bits} (hdec : decode b h = (some sym, b')) :
    b.Past 1 b' := past_decodeFrom hdec

end Past

/-- A part of the decoder fails only with an error of its own, and never moves back. -/
def Sound {α : Type} (b : Bits) (at_ : α → Bits) : Except String α → Prop
  | .error e => e ≠ "fuel"
  | .ok r => b.Past 0 (at_ r)

theorem Sound.after {α : Type} {b b' : Bits} {k : Nat} {at_ : α → Bits} {r : Except String α}
    (hr : Sound b' at_ r) (h : b.Past k b') : Sound b at_ r := by
  cases r with
  | error e => exact hr
  | ok r => exact (h.trans hr).weaken (Nat.zero_le _)

theorem Sound.ne_fuel {α : Type} {b : Bits} {at_ : α → Bits} {r : Except String α} {e : String}
    (hr : Sound b at_ r) (h : r = .error e) : e ≠ "fuel" := by
  subst h
  exact hr

theorem Sound.past {α : Type} {b : Bits} {at_ : α → Bits} {r : Except String α} {x : α}
    (hr : Sound b at_ r) (h : r = .ok x) : b.Past 0 (at_ x) := by
  subst h
  exact hr

theorem sound_copySymbol (dist : Huff) (sym : Nat) (b : Bits) (out : Bytes) :
    Sound b Prod.fst (copySymbol dist sym b out) := by
  simp only [copySymbol]
  split
  · simp [Sound]
  · have hextra := b.past_get (kLenExtra.getD sym 0)
    split
    · simp [Sound]
    · rename_i ds b₁ hdec
      refine Sound.after ?_ (hextra.trans (past_decode hdec))
      split
      · simp [Sound]
      · split
        · simp [Sound]
        · split
          · simp [Sound]
          · exact b₁.past_get _

theorem sound_symbols {lit dist : Huff} {fuel : Nat} {b : Bits} {out : Bytes} (hfuel : b.left < fuel) :
    Sound b Prod.fst (symbols lit dist fuel b out) := by
  induction fuel generalizing b out with
  | zero => exact absurd hfuel (Nat.not_lt_zero _)
  | succ fuel ih =>
    rw [symbols]
    split
    · simp [Sound]
    · rename_i sym b₁ hdec
      have hsym := past_decode hdec
      have hleft := hsym.left
      refine Sound.after ?_ hsym
      split
      · exact ih (by omega)
      · split
        · exact Bits.Past.refl b₁
        · have hcopy := sound_copySymbol dist (sym - 257) b₁ out
          split
          · rename_i e herr
            exact hcopy.ne_fuel herr
          · rename_i b₂ out₂ hok
            have hpast : b₁.Past 0 b₂ := hcopy.past hok
            have hpleft := hpast.left
            exact (ih (by omega)).after hpast

theorem sound_storedBlock (b : Bits) (out : Bytes) : Sound b Prod.fst (storedBlock b out) := by
  have halign : b.Past 0 b.align := by
    refine ⟨rfl, ?_⟩
    simp only [Bits.left, Bits.align]
    omega
  simp only [storedBlock]
  refine Sound.after ?_ halign
  split
  · simp [Sound]
  · split
    · simp [Sound]
    · split
      · simp [Sound]
      · refine ⟨rfl, ?_⟩
        simp only [Bits.left]
        omega

theorem past_readCodeLens (os : List Nat) (b : Bits) (clens : List Nat) :
    b.Past 0 (readCodeLens os b clens).2 := by
  induction os generalizing b clens with
  | nil => exact Bits.Past.refl b
  | cons o os ih => exact (b.past_get 3).trans (ih _ _)

theorem sound_readLens {codeH : Huff} {total fuel : Nat} {b : Bits} {lens : List Nat} :
    Sound b Prod.snd (readLens codeH total fuel b lens) := by
  induction fuel generalizing b lens with
  | zero => exact Bits.Past.refl b
  | succ fuel ih =>
    rw [readLens]
    split
    · split
      · simp [Sound]
      · rename_i sym b₁ hdec
        refine Sound.after ?_ (past_decode hdec)
        split
        · exact ih
        · split
          · simp [Sound]
          · -- Which of the three repeats it is decides how many bits are read.
            by_cases h16 : sym = 16
            · simp only [if_pos h16]
              split
              · simp [Sound]
              · exact ih.after (b₁.past_get 2)
            · by_cases h17 : sym = 17
              · simp only [if_neg h16, if_pos h17]
                split
                · simp [Sound]
                · exact ih.after (b₁.past_get 3)
              · simp only [if_neg h16, if_neg h17]
                split
                · simp [Sound]
                · exact ih.after (b₁.past_get 7)
    · exact Bits.Past.refl b

theorem sound_dynamicTables (b : Bits) : Sound b (fun r => r.2.2) (dynamicTables b) := by
  have hfields := ((b.past_get 5).trans ((b.get 5).2.past_get 5)).trans
    (((b.get 5).2.get 5).2.past_get 4)
  simp only [dynamicTables]
  refine Sound.after ?_ hfields
  split
  · simp [Sound]
  · have hclens := past_readCodeLens (ord.take ((((b.get 5).2.get 5).2.get 4).1 + 4))
      (((b.get 5).2.get 5).2.get 4).2 (List.replicate 19 0)
    generalize readCodeLens _ _ _ = codeLens at hclens ⊢
    refine Sound.after ?_ hclens
    split
    · simp [Sound]
    · split
      · rename_i e herr
        exact sound_readLens.ne_fuel herr
      · rename_i lens b₁ hok
        split
        · simp [Sound]
        · have hpast := sound_readLens.past hok
          exact hpast

theorem sound_block (type : Nat) {b : Bits} (out : Bytes) (hroom : b.left ≤ 8 * b.inp.length) :
    Sound b Prod.fst (block type b out) := by
  simp only [block]
  split
  · exact sound_storedBlock b out
  · split
    · exact sound_symbols (Nat.lt_succ_of_le hroom)
    · split
      · split
        · rename_i e herr
          exact (sound_dynamicTables b).ne_fuel herr
        · rename_i litH distH b₁ hok
          have hpast : b.Past 0 b₁ := (sound_dynamicTables b).past hok
          have hleft := hpast.left
          exact (sound_symbols (by omega)).after hpast
      · simp [Sound]

theorem blocks_halts {fuel : Nat} {b : Bits} {out : Bytes} (hroom : b.left ≤ 8 * b.inp.length)
    (hfuel : b.left < fuel) : blocks fuel b out ≠ .error "fuel" := by
  induction fuel generalizing b out with
  | zero => exact absurd hfuel (Nat.not_lt_zero _)
  | succ fuel ih =>
    rw [blocks]
    by_cases herr : ((b.get 1).2.get 2).2.err = true
    · simp [herr]
    · have htype : (b.get 1).2.Past 2 ((b.get 1).2.get 2).2 :=
        Bits.past_get_ok (Bool.eq_false_of_not_eq_true herr)
      have hpast := (b.past_get 1).trans htype
      have hleft := hpast.left
      simp only [if_neg herr]
      have hblock := sound_block ((b.get 1).2.get 2).1 (b := ((b.get 1).2.get 2).2) out (by rw [hpast.inp]; omega)
      split
      · rename_i e hfail
        simpa using hblock.ne_fuel hfail
      · rename_i b₁ out₁ hok
        have hnext : Bits.Past 0 ((b.get 1).2.get 2).2 b₁ := hblock.past hok
        have hnleft := hnext.left
        split
        · simp
        · exact ih (by rw [hnext.inp, hpast.inp]; omega) (by omega)

/-- **Termination**: on any input the loops end by themselves. -/
theorem inflate_halts (inp : Bytes) : inflate inp ≠ .error "fuel" := by
  refine blocks_halts ?_ ?_ <;> simp [Bits.left]

end Archive
