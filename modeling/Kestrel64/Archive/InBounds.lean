import Kestrel64.Archive.Indexed

/-! # Inflate Stays in Bounds

    No index of the decoder is ever out of range: the checked decoder of
    `Indexed` gives, without a fault, what the decoder of `Inflate` gives. One
    lemma for each function, in the order of the source.
-/

namespace Archive

open Checked CanonicalCode

variable {b b' : Bits} {out : Bytes}

/-! ## Section 1: Bit reader -/

namespace Indexed

theorem fill_eq {need fuel : Nat} {b : Bits} (h : need ≤ b.cnt + 8 * fuel) :
    fill need fuel b = .ok (b.fill need fuel) := by
  induction fuel generalizing b with
  | zero =>
    rw [fill, if_neg (by omega)]
    rfl
  | succ fuel ih =>
    rw [fill, Bits.fill]
    by_cases hneed : b.cnt < need
    · rw [if_pos hneed, if_pos hneed]
      by_cases hend : b.inp.length ≤ b.pos
      · rw [if_pos hend, if_pos hend]
      · rw [if_neg hend, if_neg hend, read_eq (Nat.not_le.mp hend) 0, ok_bind]
        apply ih
        show need ≤ b.cnt + 8 + 8 * fuel
        omega
    · rw [if_neg hneed, if_neg hneed]

@[simp] theorem get_eq (b : Bits) (need : Nat) : get b need = .ok (b.get need) := by
  rw [get, fill_eq (by omega), ok_bind, Bits.get]
  split <;> rfl

/-- The bytes that go back were taken from the input. -/
theorem align_eq (hroom : b.left ≤ 8 * b.inp.length) : align b = .ok b.align := by
  have hback : b.cnt / 8 ≤ b.pos := by
    unfold Bits.left at hroom
    omega
  rw [align, minus_eq hback, ok_bind]
  rfl

end Indexed

theorem Bits.get_lt (b : Bits) (need : Nat) : (b.get need).1 < 2 ^ need := by
  have hpos := Nat.two_pow_pos need
  simp only [Bits.get]
  split
  · exact hpos
  · rw [Nat.and_two_pow_sub_one_eq_mod]
    exact Nat.mod_lt _ hpos

/-! ## Section 2: Huffman tables -/

/-- A table whose symbols have room for all its codes, whether or not the lengths
    are those of a prefix-free code. -/
structure Huff.Fits (h : Huff) (lens : List Nat) : Prop where
  lengths : h.count.length = 16
  count : ∀ L, 0 < L → L < 16 → h.count.getD L 0 = codes lens L
  symbol : h.symbol.length = 288
  long : lens.length ≤ 288

namespace Indexed

theorem countLens_eq {lens : List Nat} (hle : ∀ l ∈ lens, l ≤ 15) :
    countLens lens = .ok (Archive.countLens lens) := by
  have hstep : ∀ (count : List Nat) (l : Nat), count.length = 16 → l ≤ 15 →
      (do let c ← read count l; write count l (c + 1) : Checked (List Nat)) =
        .ok (count.set l (count.getD l 0 + 1)) ∧ (count.set l (count.getD l 0 + 1)).length = 16 := by
    intro count l hlen hl
    rw [read_eq (by omega) 0, ok_bind, write_eq (by omega), List.length_set]
    exact ⟨rfl, hlen⟩
  exact (foldlM_eq hstep hle (by simp)).1

theorem leftOver_eq {count : List Nat} (hlen : count.length = 16) {ls : List Nat}
    (hls : ∀ l ∈ ls, l < 16) (left : Int) :
    leftOver count ls left = .ok (Archive.leftOver count ls left) := by
  induction ls generalizing left with
  | nil => rfl
  | cons l ls ih =>
    rw [List.forall_mem_cons] at hls
    rw [leftOver, read_eq (by omega) 0, ok_bind, Archive.leftOver]
    dsimp only
    split
    · rfl
    · exact ih hls.2 _

theorem offsets_eq {count : List Nat} (hlen : count.length = 16) :
    offsets count = .ok (Archive.offsets count) := by
  have hstep : ∀ (offs : List Nat) (len : Nat), offs.length = 16 → len < 15 →
      (do let o ← read offs len; let c ← read count len; write offs (len + 1) (o + c) :
        Checked (List Nat)) = .ok (offs.set (len + 1) (offs.getD len 0 + count.getD len 0)) ∧
      (offs.set (len + 1) (offs.getD len 0 + count.getD len 0)).length = 16 := by
    intro offs len holen hl
    rw [read_eq (by omega) 0, ok_bind, read_eq (by omega) 0, ok_bind, write_eq (by omega),
      List.length_set]
    exact ⟨rfl, holen⟩
  exact (foldlM_eq hstep (by decide) (by simp)).1

/-- The place of a symbol is below the number of lengths. -/
theorem place_eq {lens : List Nat} (todo done : List Nat) {offs symbol : List Nat}
    (hall : done ++ todo = lens) (hle : ∀ l ∈ lens, l ≤ 15) (hlong : lens.length ≤ 288)
    (holen : offs.length = 16)
    (hoffs : ∀ L, 0 < L → L < 16 → offs.getD L 0 = start lens L + done.count L)
    (hslen : symbol.length = 288) :
    place todo done.length offs symbol = .ok (Archive.place todo done.length offs symbol) ∧
      (Archive.place todo done.length offs symbol).length = 288 := by
  induction todo generalizing done offs symbol with
  | nil => exact ⟨rfl, hslen⟩
  | cons l todo ih =>
    have hsnoc : done ++ [l] ++ todo = lens := by rw [List.append_assoc]; exact hall
    have hcut : (done ++ [l]).length = done.length + 1 := by simp
    have hl : l < 16 := Nat.lt_succ_of_le (hle l (by rw [← hall]; simp))
    by_cases hz : l = 0
    · rw [place, if_pos hz, Archive.place, if_pos hz, ← hcut]
      refine ih (done ++ [l]) hsnoc holen (fun L h0 h1 => ?_) hslen
      have hcount : (done ++ [l]).count L = done.count L := by
        rw [List.count_append, List.count_singleton, if_neg (by simp; omega), Nat.add_zero]
      rw [hcount]
      exact hoffs L h0 h1
    · have hget : lens.getD done.length 0 = l := by
        rw [← hall, List.getD_eq_getElem _ _ (by simp)]
        simp
      have htake : lens.take done.length = done := by rw [← hall, List.take_left]
      have hslot : offs.getD l 0 = slot lens done.length := by
        rw [hoffs l (Nat.pos_of_ne_zero hz) hl, slot, rank, hget, htake]
      have hin : offs.getD l 0 < symbol.length := by
        have hlt : slot lens done.length < lens.length := slot_lt (by rwa [hget])
        omega
      rw [place, if_neg hz, Archive.place, if_neg hz, read_eq (by omega) 0, ok_bind,
        write_eq (by omega), ok_bind, write_eq hin, ok_bind, ← hcut]
      refine ih (done ++ [l]) hsnoc (by simpa using holen) (fun L h0 h1 => ?_) (by simpa using hslen)
      rw [List.count_append, List.count_singleton]
      by_cases he : l = L
      · subst he
        rw [getD_set_self (by omega), hoffs l h0 h1, if_pos (by simp)]
        omega
      · rw [getD_set_ne he, hoffs L h0 h1, if_neg (by simpa using he), Nat.add_zero]

/-- Any lengths up to 15 can be tried. -/
theorem build_eq {lens : List Nat} (hle : ∀ l ∈ lens, l ≤ 15) (hlong : lens.length ≤ 288) :
    build lens = .ok (Archive.build lens) ∧ (Archive.build lens).1.Fits lens := by
  obtain ⟨hclen, hcount⟩ := countLens_spec hle
  have hcodes : ∀ L, 0 < L → L < 16 → (Archive.countLens lens).getD L 0 = codes lens L := by
    intro L h0 h1
    rw [hcount L h1, codes, if_neg (by omega)]
  obtain ⟨holen, hoffs⟩ := offsets_spec hcodes
  obtain ⟨hplace, hslen⟩ := place_eq lens [] rfl hle hlong holen hoffs List.length_replicate
  have hkraft : leftOver (Archive.countLens lens) (List.range' 1 15) 1 =
      .ok (Archive.leftOver (Archive.countLens lens) (List.range' 1 15) 1) :=
    leftOver_eq hclen (by decide) 1
  rw [build, countLens_eq hle, ok_bind, read_eq (by omega) 0, ok_bind, Archive.build]
  split
  · exact ⟨rfl, hclen, hcodes, List.length_replicate, hlong⟩
  · rw [hkraft, ok_bind]
    split
    · exact ⟨rfl, hclen, hcodes, List.length_replicate, hlong⟩
    · rw [offsets_eq hclen, ok_bind]
      rw [List.length_nil] at hplace hslen
      rw [hplace, ok_bind]
      exact ⟨rfl, hclen, hcodes, hslen, hlong⟩

theorem decodeFrom_eq {h : Huff} {lens : List Nat} (hf : h.Fits lens) {fuel len code first : Nat}
    (b : Bits) (hfuel : len + fuel = 16) (hlen : 0 < len) (hlow : first ≤ code) :
    decodeFrom h fuel len code first (start lens len) b =
      .ok (Archive.decodeFrom h fuel len code first (start lens len) b) := by
  -- The code read so far never falls below the first one of its length.
  induction fuel generalizing len code first b with
  | zero => rfl
  | succ fuel ih =>
    have hle : code ≤ code ||| (b.get 1).1 := Nat.left_le_or
    have hc := hf.count len hlen (by omega)
    rw [decodeFrom, Archive.decodeFrom, get_eq, ok_bind]
    dsimp only
    split
    · rfl
    · rw [read_eq (by have := hf.lengths; omega) 0, ok_bind]
      split
      · next hin =>
        have hroom : start lens (len + 1) ≤ lens.length := start_le_length
        have hlong := hf.long
        rw [start_succ, ← hc] at hroom
        rw [minus_eq (by omega), ok_bind, read_eq (by rw [hf.symbol]; omega) 0, ok_bind]
      · next hout =>
        rw [hc, ← start_succ]
        apply ih _ (by omega) (Nat.succ_pos _)
        rw [Nat.shiftLeft_eq, Nat.shiftLeft_eq, ← hc]
        omega

theorem decode_eq {h : Huff} {lens : List Nat} (hf : h.Fits lens) (b : Bits) :
    decode b h = .ok (Archive.decode b h) := by
  have heq : decodeFrom h 15 1 0 0 (start lens 1) b =
      .ok (Archive.decodeFrom h 15 1 0 0 (start lens 1) b) :=
    decodeFrom_eq hf b rfl Nat.one_pos (Nat.le_refl _)
  rw [start_one] at heq
  exact heq

/-! ## Section 3: The header of a dynamic block -/

theorem readCodeLens_eq {os : List Nat} (b : Bits) {clens : List Nat}
    (hos : ∀ o ∈ os, o < clens.length) :
    readCodeLens os b clens = .ok (Archive.readCodeLens os b clens) := by
  induction os generalizing b clens with
  | nil => rfl
  | cons o os ih =>
    rw [List.forall_mem_cons] at hos
    simp only [readCodeLens, get_eq, ok_bind, write_eq hos.1, Archive.readCodeLens]
    apply ih
    rw [List.length_set]
    exact hos.2

theorem pushMany_eq {rep val : Nat} {lens : List Nat} (h : lens.length + rep ≤ kLens) :
    pushMany val rep lens = .ok (lens ++ List.replicate rep val) := by
  induction rep generalizing lens with
  | zero => simp [pushMany]
  | succ rep ih =>
    rw [pushMany, push_eq (by omega), ok_bind, ih (by simp; omega), List.replicate_succ,
      List.append_assoc, List.singleton_append]

end Indexed

/-- A length of the length code has three bits. -/
theorem readCodeLens_le (os : List Nat) (b : Bits) {clens : List Nat} (hle : ∀ l ∈ clens, l ≤ 15) :
    (readCodeLens os b clens).1.length = clens.length ∧
      ∀ l ∈ (readCodeLens os b clens).1, l ≤ 15 := by
  induction os generalizing b clens with
  | nil => exact ⟨rfl, hle⟩
  | cons o os ih =>
    have hset : ∀ l ∈ clens.set o (b.get 3).1, l ≤ 15 := by
      intro l hl
      rcases List.mem_or_eq_of_mem_set hl with hl | rfl
      · exact hle l hl
      · have hlt := b.get_lt 3
        omega
    obtain ⟨hlen, hrest⟩ := ih (b.get 3).2 hset
    rw [List.length_set] at hlen
    exact ⟨hlen, hrest⟩

namespace Indexed

/-- A repeat and the check in front of it. -/
theorem repeat_eq {codeH : Huff} {lens : List Nat} {val rep total fuel : Nat} {b : Bits}
    (htotal : total ≤ kLens)
    (h : lens.length + rep ≤ total → readLens codeH total fuel b (lens ++ List.replicate rep val) =
      .ok (Archive.readLens codeH total fuel b (lens ++ List.replicate rep val))) :
    (if (b.err || decide (total < lens.length + rep)) = true then
        .ok (.error "deflate: repeticion se sale")
      else do
        let lens ← pushMany val rep lens
        readLens codeH total fuel b lens) =
      .ok (if (b.err || decide (total < lens.length + rep)) = true then
        .error "deflate: repeticion se sale"
      else Archive.readLens codeH total fuel b (lens ++ List.replicate rep val)) := by
  split
  · rfl
  · next hfit =>
    simp only [Bool.or_eq_true, decide_eq_true_eq, not_or, Nat.not_lt] at hfit
    rw [pushMany_eq (by omega), ok_bind, h hfit.2]

theorem readLens_eq {codeH : Huff} {cl lens : List Nat} {total fuel : Nat} (hf : codeH.Fits cl)
    (htotal : total ≤ kLens) (hfuel : total ≤ lens.length + fuel) (b : Bits) :
    readLens codeH total fuel b lens = .ok (Archive.readLens codeH total fuel b lens) := by
  induction fuel generalizing b lens with
  | zero =>
    rw [readLens, if_neg (by omega)]
    rfl
  | succ fuel ih =>
    rw [readLens, Archive.readLens]
    by_cases hroom : lens.length < total
    · rw [if_pos hroom, if_pos hroom, decode_eq hf, ok_bind]
      rcases Archive.decode b codeH with ⟨_ | sym, b₁⟩
      · rfl
      · dsimp only
        by_cases hsym : sym < 16
        · rw [if_pos hsym, if_pos hsym, push_eq (by omega), ok_bind]
          exact ih (by rw [List.length_append, List.length_singleton]; omega) b₁
        · rw [if_neg hsym, if_neg hsym]
          by_cases hfirst : sym = 16 ∧ lens.length = 0
          · rw [if_pos hfirst, if_pos hfirst]
          · rw [if_neg hfirst, if_neg hfirst]
            by_cases h16 : sym = 16
            · have hlast : lens.length - 1 < lens.length := by omega
              simp only [if_pos h16, read_eq hlast 0, ok_bind, get_eq]
              exact repeat_eq htotal fun _ => ih (by simp; omega) _
            · by_cases h17 : sym = 17
              · simp only [if_neg h16, if_pos h17, ok_bind, get_eq]
                exact repeat_eq htotal fun _ => ih (by simp; omega) _
              · simp only [if_neg h16, if_neg h17, ok_bind, get_eq]
                exact repeat_eq htotal fun _ => ih (by simp; omega) _
    · rw [if_neg hroom, if_neg hroom]

end Indexed

/-- What is read is complete, and no length is above 15. -/
theorem readLens_le {codeH : Huff} {total fuel : Nat} {lens lens' : List Nat}
    (hle : ∀ l ∈ lens, l ≤ 15) (hlen : lens.length ≤ total) (hfuel : total ≤ lens.length + fuel)
    (hok : readLens codeH total fuel b lens = .ok (lens', b')) :
    lens'.length = total ∧ ∀ l ∈ lens', l ≤ 15 := by
  induction fuel generalizing b lens with
  | zero =>
    obtain ⟨rfl, -⟩ := Prod.mk.inj (Except.ok.inj hok)
    exact ⟨by omega, hle⟩
  | succ fuel ih =>
    have hrepeat : ∀ {val rep : Nat} {b₁ : Bits}, val ≤ 15 → 0 < rep →
        (if (b₁.err || decide (total < lens.length + rep)) = true then
          .error "deflate: repeticion se sale"
        else readLens codeH total fuel b₁ (lens ++ List.replicate rep val)) = .ok (lens', b') →
        lens'.length = total ∧ ∀ l ∈ lens', l ≤ 15 := by
      intro val rep b₁ hval hrep hok
      split at hok
      · cases hok
      · next hfit =>
        simp only [Bool.or_eq_true, decide_eq_true_eq, not_or, Nat.not_lt] at hfit
        refine ih ?_ (by simpa using hfit.2) (by simp; omega) hok
        intro l hl
        rcases List.mem_append.mp hl with hl | hl
        · exact hle l hl
        · rw [List.eq_of_mem_replicate hl]
          exact hval
    rw [readLens] at hok
    split at hok
    · next hroom =>
      split at hok
      · cases hok
      · next sym b₁ hdec =>
        split at hok
        · next hsym =>
          refine ih ?_ (by simp; omega) (by simp; omega) hok
          intro l hl
          rcases List.mem_append.mp hl with hl | hl
          · exact hle l hl
          · rw [List.mem_singleton.mp hl]
            omega
        · next hsym =>
          split at hok
          · cases hok
          · next hfirst =>
            by_cases h16 : sym = 16
            · simp only [if_pos h16] at hok
              refine hrepeat ?_ (by omega) hok
              have hlast : lens.length - 1 < lens.length := by omega
              rw [List.getD_eq_getElem _ _ hlast]
              exact hle _ (List.getElem_mem _)
            · by_cases h17 : sym = 17
              · simp only [if_neg h16, if_pos h17] at hok
                exact hrepeat (Nat.zero_le _) (by omega) hok
              · simp only [if_neg h16, if_neg h17] at hok
                exact hrepeat (Nat.zero_le _) (by omega) hok
    · next hroom =>
      obtain ⟨rfl, -⟩ := Prod.mk.inj (Except.ok.inj hok)
      exact ⟨by omega, hle⟩

namespace Indexed

/-- The tables of a dynamic block have room for their codes. -/
theorem dynamicTables_eq (b : Bits) :
    dynamicTables b = .ok (Archive.dynamicTables b) ∧
      ∀ {litH distH : Huff} {b' : Bits}, Archive.dynamicTables b = .ok (litH, distH, b') →
        ∃ lit dist, litH.Fits lit ∧ distH.Fits dist := by
  simp only [dynamicTables, Archive.dynamicTables, get_eq, ok_bind]
  by_cases hbad : ((((b.get 5).2.get 5).2.get 4).2.err || decide (286 < (b.get 5).1 + 257) ||
      decide (30 < ((b.get 5).2.get 5).1 + 1)) = true
  · rw [if_pos hbad, if_pos hbad]
    exact ⟨rfl, fun hok => by cases hok⟩
  · rw [if_neg hbad, if_neg hbad]
    simp only [Bool.or_eq_true, decide_eq_true_eq, not_or, Nat.not_lt] at hbad
    have hhclen := ((b.get 5).2.get 5).2.get_lt 4
    generalize (b.get 5).1 = hlit at *
    generalize ((b.get 5).2.get 5).1 = hdist at *
    generalize (((b.get 5).2.get 5).2.get 4).1 = hclen at *
    generalize (((b.get 5).2.get 5).2.get 4).2 = b₃ at *
    have hord : 0 + (hclen + 4) ≤ ord.length := by
      show 0 + (hclen + 4) ≤ 19
      omega
    have hslice : Patch.slice ord 0 (hclen + 4) = ord.take (hclen + 4) := rfl
    have hmem : ∀ o ∈ ord.take (hclen + 4), o < (List.replicate 19 0).length := by
      have hall : ∀ o ∈ ord, o < (List.replicate 19 0).length := by decide
      exact fun o ho => hall o (List.mem_of_mem_take ho)
    rw [range_eq hord, ok_bind, hslice, readCodeLens_eq b₃ hmem, ok_bind]
    have hzero : ∀ l ∈ List.replicate 19 0, l ≤ 15 := by simp
    obtain ⟨hcl, hcl15⟩ := readCodeLens_le (ord.take (hclen + 4)) b₃ hzero
    rw [List.length_replicate] at hcl
    obtain ⟨hbuild, hfits⟩ := build_eq hcl15 (by omega)
    rw [hbuild, ok_bind]
    generalize (Archive.readCodeLens (ord.take (hclen + 4)) b₃ (List.replicate 19 0)).2 = b₄ at *
    generalize (Archive.readCodeLens (ord.take (hclen + 4)) b₃ (List.replicate 19 0)).1 = clens at *
    rcases hcode : Archive.build clens with ⟨codeH, _ | _⟩
    · exact ⟨rfl, fun hok => by cases hok⟩
    · rw [hcode] at hfits
      have htotal : hlit + 257 + (hdist + 1) ≤ kLens := by
        show _ ≤ 316
        omega
      dsimp only
      rw [readLens_eq hfits htotal (Nat.le_add_left _ _), ok_bind]
      rcases hlens : Archive.readLens codeH (hlit + 257 + (hdist + 1)) (hlit + 257 + (hdist + 1)) b₄ []
        with e | ⟨lens, b₅⟩
      · exact ⟨rfl, fun hok => by cases hok⟩
      · obtain ⟨hlen, hle⟩ := readLens_le (by simp) (Nat.zero_le _) (Nat.le_add_left _ _) hlens
        have hfront : Patch.slice lens 0 (hlit + 257) = lens.take (hlit + 257) := rfl
        have hback : Patch.slice lens (hlit + 257) (hdist + 1) = lens.drop (hlit + 257) := by
          rw [Patch.slice, List.take_of_length_le (by rw [List.length_drop]; omega)]
        have hleLit : ∀ l ∈ lens.take (hlit + 257), l ≤ 15 :=
          fun l hl => hle l (List.mem_of_mem_take hl)
        have hleDist : ∀ l ∈ lens.drop (hlit + 257), l ≤ 15 :=
          fun l hl => hle l (List.mem_of_mem_drop hl)
        obtain ⟨hbuildLit, hfitsLit⟩ := build_eq hleLit (by rw [List.length_take]; omega)
        obtain ⟨hbuildDist, hfitsDist⟩ := build_eq hleDist (by rw [List.length_drop]; omega)
        dsimp only
        rw [range_eq (by omega), ok_bind, hfront, hbuildLit, ok_bind]
        rcases hlitTable : Archive.build (lens.take (hlit + 257)) with ⟨litH, _ | _⟩
        · exact ⟨rfl, fun hok => by cases hok⟩
        · rw [hlitTable] at hfitsLit
          dsimp only
          rw [range_eq (by omega), ok_bind, hback, hbuildDist, ok_bind]
          refine ⟨rfl, fun hok => ?_⟩
          obtain ⟨rfl, hrest⟩ := Prod.mk.inj (Except.ok.inj hok)
          obtain ⟨rfl, -⟩ := Prod.mk.inj hrest
          exact ⟨_, _, hfitsLit, hfitsDist⟩

/-! ## Section 4: Blocks -/

/-- A copy starts below the end of the output, and the output grows with it. -/
theorem copyFrom_eq {from_ k len : Nat} {out : Bytes} (h : from_ + k < out.length) :
    copyFrom from_ k len out = .ok (Archive.copyFrom from_ k len out) := by
  induction len generalizing k out with
  | zero => rfl
  | succ len ih =>
    rw [copyFrom, read_eq h 0, ok_bind, Archive.copyFrom]
    apply ih
    rw [List.length_append, List.length_singleton]
    omega

theorem copySymbol_eq {dist : Huff} {lens : List Nat} (hf : dist.Fits lens) (sym : Nat) (b : Bits)
    (out : Bytes) : copySymbol dist sym b out = .ok (Archive.copySymbol dist sym b out) := by
  rw [copySymbol, Archive.copySymbol]
  by_cases hsym : 29 ≤ sym
  · rw [if_pos hsym, if_pos hsym]
  · have hbase : sym < kLenBase.length := Nat.not_le.mp hsym
    have hextra : sym < kLenExtra.length := Nat.not_le.mp hsym
    rw [if_neg hsym, if_neg hsym, read_eq hbase 0, ok_bind, read_eq hextra 0, ok_bind, get_eq,
      ok_bind]
    dsimp only
    rw [decode_eq hf, ok_bind]
    rcases Archive.decode (b.get (kLenExtra.getD sym 0)).2 dist with ⟨_ | ds, b₁⟩
    · rfl
    · dsimp only
      by_cases hds : 30 ≤ ds
      · rw [if_pos hds, if_pos hds]
      · have hdbase : ds < kDistBase.length := Nat.not_le.mp hds
        have hdextra : ds < kDistExtra.length := Nat.not_le.mp hds
        rw [if_neg hds, if_neg hds, read_eq hdbase 0, ok_bind, read_eq hdextra 0, ok_bind, get_eq,
          ok_bind]
        split
        · rfl
        · split
          · rfl
          · next hreach =>
            rw [minus_eq (by omega), ok_bind, copyFrom_eq (by omega), ok_bind]

/-- The checked loop ends as the other one does, unless that one is out of fuel. -/
theorem symbols_eq {lit dist : Huff} {ll dl : List Nat} {fuel : Nat} (hl : lit.Fits ll)
    (hd : dist.Fits dl) (b : Bits) (out : Bytes)
    (h : Archive.symbols lit dist fuel b out ≠ .error "fuel") :
    symbols lit dist fuel b out = .ok (Archive.symbols lit dist fuel b out) := by
  induction fuel generalizing b out with
  | zero => exact absurd rfl h
  | succ fuel ih =>
    rw [Archive.symbols] at h ⊢
    rw [symbols, decode_eq hl, ok_bind]
    generalize Archive.decode b lit = r at h ⊢
    rcases r with ⟨_ | sym, b₁⟩
    · rfl
    · dsimp only at h ⊢
      by_cases hlit : sym < 256
      · rw [if_pos hlit] at h ⊢
        rw [if_pos hlit]
        exact ih b₁ _ h
      · rw [if_neg hlit] at h ⊢
        rw [if_neg hlit]
        by_cases hstop : sym = 256
        · rw [if_pos hstop, if_pos hstop]
        · rw [if_neg hstop] at h ⊢
          rw [if_neg hstop, copySymbol_eq hd, ok_bind]
          generalize Archive.copySymbol dist (sym - 257) b₁ out = r at h ⊢
          rcases r with e | ⟨b₂, out₂⟩
          · rfl
          · exact ih b₂ out₂ h

theorem rd16_eq {inp : Bytes} {pos : Nat} (h : pos + 2 ≤ inp.length) :
    rd16 inp pos = .ok (Archive.rd16 inp pos) := by
  rw [rd16, read_eq (by omega) 0, ok_bind, read_eq (by omega) 0, ok_bind]
  rfl

theorem storedBlock_eq {b : Bits} (hroom : b.left ≤ 8 * b.inp.length) (out : Bytes) :
    storedBlock b out = .ok (Archive.storedBlock b out) := by
  rw [storedBlock, align_eq hroom, ok_bind, Archive.storedBlock]
  dsimp only
  split
  · rfl
  · next h4 =>
    rw [rd16_eq (by omega), ok_bind, rd16_eq (by omega), ok_bind]
    split
    · rfl
    · split
      · rfl
      · next hdata =>
        rw [range_eq (Nat.not_lt.mp hdata), ok_bind]
        rfl

theorem block_eq {b : Bits} (hroom : b.left ≤ 8 * b.inp.length) (type : Nat) (out : Bytes)
    (h : Archive.block type b out ≠ .error "fuel") :
    block type b out = .ok (Archive.block type b out) := by
  have hlitLe : ∀ l ∈ Deflate.fixedLitLens, l ≤ 15 := Deflate.fixed_lens.1.le
  have hdistLe : ∀ l ∈ List.replicate 30 5, l ≤ 15 := by decide
  obtain ⟨hlit, hlitFits⟩ := build_eq hlitLe Deflate.fixed_lens.2.1
  obtain ⟨hdist, hdistFits⟩ := build_eq hdistLe (by decide)
  rw [Archive.block] at h ⊢
  rw [block]
  dsimp only at h ⊢
  by_cases h0 : type = 0
  · rw [if_pos h0, if_pos h0]
    exact storedBlock_eq hroom out
  · rw [if_neg h0] at h ⊢
    rw [if_neg h0]
    by_cases h1 : type = 1
    · rw [if_pos h1] at h ⊢
      rw [if_pos h1]
      unfold Deflate.fixedLitLens at hlit hlitFits
      rw [hlit, ok_bind]
      rw [hdist, ok_bind]
      exact symbols_eq hlitFits hdistFits b out h
    · rw [if_neg h1] at h ⊢
      rw [if_neg h1]
      by_cases h2 : type = 2
      · rw [if_pos h2] at h ⊢
        obtain ⟨htables, hfits⟩ := dynamicTables_eq b
        rw [if_pos h2, htables, ok_bind]
        rcases hok : Archive.dynamicTables b with e | ⟨litH, distH, b₁⟩
        · rfl
        · obtain ⟨lit, dist, hl, hd⟩ := hfits hok
          rw [hok] at h
          exact symbols_eq hl hd b₁ out h
      · rw [if_neg h2, if_neg h2]

theorem blocks_eq {fuel : Nat} {b : Bits} (hroom : b.left ≤ 8 * b.inp.length) (out : Bytes)
    (h : Archive.blocks fuel b out ≠ .error "fuel") :
    blocks fuel b out = .ok (Archive.blocks fuel b out) := by
  induction fuel generalizing b out with
  | zero => exact absurd rfl h
  | succ fuel ih =>
    have hpast : b.Past 0 ((b.get 1).2.get 2).2 := (b.past_get 1).trans ((b.get 1).2.past_get 2)
    have hroom₁ : ((b.get 1).2.get 2).2.left ≤ 8 * ((b.get 1).2.get 2).2.inp.length := by
      have hleft := hpast.left
      rw [hpast.inp]
      omega
    rw [Archive.blocks] at h ⊢
    rw [blocks, get_eq, ok_bind]
    dsimp only at h ⊢
    rw [get_eq, ok_bind]
    by_cases herr : ((b.get 1).2.get 2).2.err = true
    · rw [if_pos herr, if_pos herr]
    · rw [if_neg herr] at h ⊢
      have hsound := sound_block ((b.get 1).2.get 2).1 out hroom₁
      have hfuel : Archive.block ((b.get 1).2.get 2).1 ((b.get 1).2.get 2).2 out ≠ .error "fuel" := by
        intro hfuel
        rw [hfuel] at h
        exact h rfl
      rw [if_neg herr, block_eq hroom₁ _ out hfuel, ok_bind]
      rcases hblock : Archive.block ((b.get 1).2.get 2).1 ((b.get 1).2.get 2).2 out with
        e | ⟨b₁, out₁⟩
      · rfl
      · have hnext : Bits.Past 0 ((b.get 1).2.get 2).2 b₁ := hsound.past hblock
        rw [hblock] at h
        dsimp only at h ⊢
        split
        · rfl
        · next hlast =>
          rw [if_neg hlast] at h
          apply ih _ out₁ h
          have hleft := hnext.left
          rw [hnext.inp]
          omega

/-- The checked decoder has no fault and gives what the decoder gives. -/
theorem inflate_eq (inp : Bytes) : inflate inp = .ok (Archive.inflate inp) :=
  blocks_eq (by simp [Bits.left]) [] (inflate_halts inp)

end Indexed

end Archive
