import Kestrel64.Sd.Names

/-! # SD Card: When Short Names Differ

    `entriesOf` compares each alias with the short names before it. A name
    that is an 8.3 name as it stands is not compared with anything, so it may
    repeat the short name of an earlier child: an alias, or its own name with
    or without a final dot. `distinct_iff` says that nothing else goes wrong,
    besides an alias number so long that `BASE~N` does not fit.
-/

namespace Sd

open Patch

/-! ## Section 1: Plain names -/

theorem rfind_eq_some {c : Byte} {n : Bytes} {i : Nat} (h : rfind c n = some i) :
    n = n.take i ++ c :: n.drop (i + 1) := by
  induction n generalizing i with
  | nil => cases h
  | cons b n ih =>
    rw [rfind] at h
    cases hr : rfind c n with
    | some k =>
      simp only [hr, Option.some.injEq] at h
      subst h
      rw [List.take_succ_cons, List.drop_succ_cons, List.cons_append, ← ih hr]
    | none =>
      simp only [hr, Option.ite_none_right_eq_some, Option.some.injEq] at h
      obtain ⟨rfl, rfl⟩ := h
      rfl

/-- A name is its two parts, with a dot between them or without. -/
theorem parts (n : Bytes) :
    (rfind dot n = none ∧ n = basePart n ∧ extPart n = []) ∨
      ((rfind dot n).isSome ∧ n = basePart n ++ dot :: extPart n) := by
  unfold basePart extPart
  cases h : rfind dot n with
  | none => exact .inl ⟨rfl, rfl, rfl⟩
  | some i => exact .inr ⟨rfl, rfind_eq_some h⟩

theorem not_isPlain_dot : isPlain dot = false := by decide

theorem not_isPlain_space : isPlain space = false := by decide

/-- What `plain83` checks, and what it gives. -/
theorem plain83_eq_some {n sfn : Bytes} (h : plain83 n = some sfn) :
    sfn = pad 8 (basePart n) ++ pad 3 (extPart n) ∧ (basePart n).length ≤ 8 ∧
      (extPart n).length ≤ 3 ∧ (∀ c ∈ basePart n, isPlain c = true) ∧
      ∀ c ∈ extPart n, isPlain c = true := by
  unfold plain83 at h
  dsimp only at h
  split_ifs at h with hlen hdot hbase hext
  simp only [not_or, Nat.not_lt] at hlen
  simp only [Bool.not_eq_true', Bool.not_eq_false, List.all_eq_true] at hbase hext
  exact ⟨(Option.some.inj h).symm, hlen.2.1, hlen.2.2, hbase, hext⟩

theorem length_pad {w : Nat} {s : Bytes} (h : s.length ≤ w) : (pad w s).length = w := by
  rw [pad, List.length_append, List.length_replicate]
  omega

/-- What is padded with spaces and has none itself is known again. -/
theorem pad_inj {w : Nat} {s t : Bytes} (hs : ∀ c ∈ s, isPlain c = true)
    (ht : ∀ c ∈ t, isPlain c = true) (h : pad w s = pad w t) : s = t := by
  have htake : ∀ u : Bytes, (∀ c ∈ u, isPlain c = true) → (pad w u).takeWhile (· ≠ space) = u := by
    intro u hu
    have hne : ∀ c ∈ u, decide (c ≠ space) = true := by
      intro c hc
      rw [decide_eq_true_eq]
      rintro rfl
      have hsp := hu _ hc
      rw [not_isPlain_space] at hsp
      cases hsp
    rw [pad, List.takeWhile_append_of_pos hne]
    simp
  rw [← htake s hs, h, htake t ht]

/-- Two plain names with the same short name are the same up to a final dot. -/
theorem plain83_inj {n m sfn : Bytes} (hn : plain83 n = some sfn) (hm : plain83 m = some sfn) :
    n = m ∨ n = m ++ [dot] ∨ m = n ++ [dot] := by
  obtain ⟨hsfn, hnb, hne, hnB, hnE⟩ := plain83_eq_some hn
  obtain ⟨hsfm, hmb, hme, hmB, hmE⟩ := plain83_eq_some hm
  rw [hsfn] at hsfm
  obtain ⟨hb, he⟩ := List.append_inj hsfm (by rw [length_pad hnb, length_pad hmb])
  have hbase := pad_inj hnB hmB hb
  have hext := pad_inj hnE hmE he
  rcases parts n with ⟨-, hn', hne'⟩ | ⟨-, hn'⟩ <;> rcases parts m with ⟨-, hm', hme'⟩ | ⟨-, hm'⟩
  · exact .inl (by rw [hn', hm', hbase])
  · refine .inr (.inr ?_)
    rw [hm', ← hext, hne', ← hbase, ← hn']
  · refine .inr (.inl ?_)
    rw [hn', hext, hme', hbase, ← hm']
  · exact .inl (by rw [hn', hm', hbase, hext])

theorem rfind_snoc (n : Bytes) : rfind dot (n ++ [dot]) = some n.length := by
  induction n with
  | nil => rfl
  | cons b n ih => rw [List.cons_append, rfind, ih, List.length_cons]

/-- A plain name with a final dot has the short name it has without. -/
theorem plain83_snoc {n sfn : Bytes} (h : plain83 (n ++ [dot]) = some sfn) :
    plain83 n = some sfn := by
  have hbase : basePart (n ++ [dot]) = n := by simp [basePart, rfind_snoc]
  have hext : extPart (n ++ [dot]) = [] := by simp [extPart, rfind_snoc]
  obtain ⟨hsfn, -, -, hplain, -⟩ := plain83_eq_some h
  -- all of the name was checked, so it has no dot of its own
  have hnodot : dot ∉ n := by
    intro hdot
    have hd := hplain dot (by rw [hbase]; exact hdot)
    rw [not_isPlain_dot] at hd
    cases hd
  have hrfind : rfind dot n = none := by
    cases hr : rfind dot n with
    | none => rfl
    | some i =>
      have hmem : dot ∈ n := by
        rw [rfind_eq_some hr]
        simp
      exact absurd hmem hnodot
  have hbase' : basePart n = n := by simp [basePart, hrfind]
  have hext' : extPart n = [] := by simp [extPart, hrfind]
  unfold plain83 at h ⊢
  dsimp only at h ⊢
  rw [hbase, hext] at h
  rw [hbase', hext', hrfind]
  split_ifs at h with hlen hdot hall hnil
  rw [if_neg hlen, if_neg (by simp), if_neg hall, if_neg hnil]
  exact h

theorem length_plain83 {n sfn : Bytes} (h : plain83 n = some sfn) : sfn.length = 11 := by
  obtain ⟨rfl, hb, he, -, -⟩ := plain83_eq_some h
  rw [List.length_append, length_pad hb, length_pad he]

/-! ## Section 2: Aliases -/

theorem length_alias83 {n a : Bytes} {s : Nat} (h : alias83 n s = some a) : a.length = 11 := by
  unfold alias83 at h
  dsimp only at h
  split_ifs at h with hlen
  have hext : (((extPart n).filterMap keep).take 3).length ≤ 3 := List.length_take_le ..
  have hbase : (overwrite (List.replicate 11 space) 0 (aliasBase n s)).length = 11 := by
    rw [length_overwrite (by rw [List.length_replicate]; omega), List.length_replicate]
  rw [← Option.some.inj h, length_overwrite (by rw [hbase]; omega), hbase]

/-- A number of ten digits does not fit. -/
theorem alias83_eq_none {n : Bytes} {s : Nat} (h : 10 ^ 9 ≤ s) : alias83 n s = none := by
  have htext := Decimal.lt_length_text h
  unfold alias83
  dsimp only
  apply if_pos
  unfold aliasBase
  dsimp only
  have htail : ¬ (tilde :: Decimal.text s).length ≤ 8 := by
    rw [List.length_cons]
    omega
  rw [if_neg htail, List.length_append, List.length_cons]
  split
  · rw [List.length_singleton]
    omega
  · next hne =>
    have hpos := List.length_pos_iff.mpr hne
    omega

theorem aliasLoop_eq_some {n a : Bytes} {taken : List Bytes} {fuel seq s : Nat}
    (h : aliasLoop n taken fuel seq = some (s, a)) : alias83 n s = some a ∧ a ∉ taken := by
  induction fuel generalizing seq with
  | zero => cases h
  | succ fuel ih =>
    rw [aliasLoop] at h
    cases ha : alias83 n seq with
    | none =>
      rw [ha] at h
      cases h
    | some b =>
      simp only [ha] at h
      split at h
      · exact ih h
      · next hfree =>
        obtain ⟨rfl, rfl⟩ := Prod.mk.inj (Option.some.inj h)
        exact ⟨ha, hfree⟩

/-- From `seq` on, a free alias comes before one that does not fit. -/
def FreeAlias (n : Bytes) (taken : List Bytes) (seq : Nat) : Prop :=
  ∃ s, seq ≤ s ∧ (∀ j, seq ≤ j → j ≤ s → alias83 n j ≠ none) ∧
    ∀ a, alias83 n s = some a → a ∉ taken

/-- The loop finds an alias exactly when there is one to be found. -/
theorem aliasLoop_ne_none (n : Bytes) (taken : List Bytes) (fuel : Nat) {seq : Nat}
    (hfuel : 10 ^ 9 ≤ seq + fuel) :
    aliasLoop n taken fuel seq ≠ none ↔ FreeAlias n taken seq := by
  induction fuel generalizing seq with
  | zero =>
    constructor
    · exact fun h => absurd rfl h
    · rintro ⟨s, hs, hfit, -⟩
      exact absurd (alias83_eq_none (by omega)) (hfit seq (le_refl _) hs)
  | succ fuel ih =>
    rw [aliasLoop]
    cases ha : alias83 n seq with
    | none =>
      constructor
      · exact fun h => absurd rfl h
      · rintro ⟨s, hs, hfit, -⟩
        exact absurd ha (hfit seq (le_refl _) hs)
    | some a =>
      simp only
      split
      · next htaken =>
        rw [ih (by omega)]
        constructor
        · rintro ⟨s, hs, hfit, hfree⟩
          refine ⟨s, by omega, ?_, hfree⟩
          intro j hj hjs
          by_cases hseq : j = seq
          · rw [hseq, ha]
            exact Option.some_ne_none a
          · exact hfit j (by omega) hjs
        · rintro ⟨s, hs, hfit, hfree⟩
          -- the free one is not this one
          have hne : s ≠ seq := by
            rintro rfl
            exact hfree a ha htaken
          exact ⟨s, by omega, fun j hj => hfit j (by omega), hfree⟩
      · next hfree =>
        constructor
        · intro _
          refine ⟨seq, le_refl _, ?_, ?_⟩
          · intro j hj hjs
            rw [show j = seq by omega, ha]
            exact Option.some_ne_none a
          · intro b hb
            rw [ha] at hb
            rwa [← Option.some.inj hb]
        · exact fun _ => Option.some_ne_none _

/-! ## Section 3: The children of a directory -/

/-- What the property of the short names of a directory asks for. -/
def ShortNamesDiffer (names : List Bytes) : Prop :=
  ∃ es, entriesOf names = some es ∧ (es.map Entry.sfn).Nodup ∧
    ∀ e ∈ es, e.needLfn = true → e.sfn.length = 11

/-- From the children `before` with the entries `out` on, no child meets what
    `entriesOf` does not check:

    * the short name of a plain name is not an alias given before, and no plain
      name before is the same with a final dot more or less;
    * a long name finds a free alias before one that does not fit. -/
def Clean : Nat → List Bytes → List Entry → List Bytes → Prop
  | _, _, _, [] => True
  | seq, before, out, n :: ns =>
    match plain83 n with
    | some sfn =>
      (∀ e ∈ out, e.needLfn = true → e.sfn ≠ sfn) ∧
      (∀ m ∈ before, plain83 m ≠ none → m ≠ n ++ [dot] ∧ n ≠ m ++ [dot]) ∧
      Clean seq (before ++ [n]) (out ++ [{ sfn, needLfn := false }]) ns
    | none =>
      FreeAlias n (out.map Entry.sfn) seq ∧
      ∀ s sfn, aliasLoop n (out.map Entry.sfn) (2 ^ 32) seq = some (s, sfn) →
        Clean s (before ++ [n]) (out ++ [{ sfn, lfn := utf16 n, needLfn := true }]) ns

/-- The entry of a name: its own short name, or an alias and the long name. -/
def Names (n : Bytes) (e : Entry) : Prop :=
  plain83 n = some e.sfn ∧ e.needLfn = false ∨
    plain83 n = none ∧ e.needLfn = true ∧ e.lfn = utf16 n ∧ ∃ s, alias83 n s = some e.sfn

theorem mem_of_forall₂ {before : List Bytes} {out : List Entry} (h : List.Forall₂ Names before out)
    {e : Entry} (he : e ∈ out) : ∃ n ∈ before, Names n e := by
  induction h with
  | nil => cases he
  | @cons n x before out hx _ ih =>
    rcases List.mem_cons.mp he with rfl | he
    · exact ⟨n, List.mem_cons_self .., hx⟩
    · obtain ⟨m, hm, hme⟩ := ih he
      exact ⟨m, List.mem_cons_of_mem _ hm, hme⟩

theorem exists_of_forall₂ {before : List Bytes} {out : List Entry}
    (h : List.Forall₂ Names before out) {n : Bytes} (hn : n ∈ before) : ∃ e ∈ out, Names n e := by
  induction h with
  | nil => cases hn
  | @cons m x before out hx _ ih =>
    rcases List.mem_cons.mp hn with rfl | hn
    · exact ⟨x, List.mem_cons_self .., hx⟩
    · obtain ⟨e, he, hne⟩ := ih hn
      exact ⟨e, List.mem_cons_of_mem _ he, hne⟩

/-- When the short name of a new plain name is there already. -/
theorem plain_fresh_iff {before : List Bytes} {out : List Entry}
    (h : List.Forall₂ Names before out) {n sfn : Bytes} (hn : plain83 n = some sfn)
    (hnew : n ∉ before) :
    sfn ∉ out.map Entry.sfn ↔
      (∀ e ∈ out, e.needLfn = true → e.sfn ≠ sfn) ∧
        ∀ m ∈ before, plain83 m ≠ none → m ≠ n ++ [dot] ∧ n ≠ m ++ [dot] := by
  constructor
  · intro hfresh
    constructor
    · intro e he _ heq
      exact hfresh (List.mem_map.mpr ⟨e, he, heq⟩)
    · intro m hm hplain
      obtain ⟨e, he, hme⟩ := exists_of_forall₂ h hm
      have hsfn : plain83 m = some e.sfn := by
        rcases hme with ⟨hme, -⟩ | ⟨hme, -⟩
        · exact hme
        · exact absurd hme hplain
      -- a final dot does not change the short name
      have hdiff : e.sfn ≠ sfn := fun heq => hfresh (List.mem_map.mpr ⟨e, he, heq⟩)
      constructor
      · rintro rfl
        rw [plain83_snoc hsfn] at hn
        exact hdiff (Option.some.inj hn)
      · rintro rfl
        rw [plain83_snoc hn] at hsfn
        exact hdiff (Option.some.inj hsfn).symm
  · rintro ⟨halias, htwin⟩ hmem
    obtain ⟨e, he, rfl⟩ := List.mem_map.mp hmem
    obtain ⟨m, hm, hme⟩ := mem_of_forall₂ h he
    rcases hme with ⟨hme, -⟩ | ⟨-, hlong, -⟩
    · obtain ⟨h1, h2⟩ := htwin m hm (by rw [hme]; exact Option.some_ne_none _)
      rcases plain83_inj hn hme with rfl | heq | heq
      · exact hnew hm
      · exact h2 heq
      · exact h1 heq
    · exact halias e he hlong rfl

/-- The entries so far stay in front. -/
theorem prefix_entriesFrom {ns : List Bytes} {seq : Nat} {out es : List Entry}
    (h : entriesFrom seq out ns = some es) : out <+: es := by
  induction ns generalizing seq out with
  | nil => rw [← Option.some.inj h]
  | cons n ns ih =>
    rw [entriesFrom] at h
    split at h
    · exact (List.prefix_append _ _).trans (ih h)
    · split at h
      · cases h
      · exact (List.prefix_append _ _).trans (ih h)

theorem names_entriesFrom (ns : List Bytes) {seq : Nat} {before : List Bytes} {out es : List Entry}
    (hgiven : List.Forall₂ Names before out) (h : entriesFrom seq out ns = some es) :
    List.Forall₂ Names (before ++ ns) es := by
  induction ns generalizing seq before out with
  | nil =>
    rw [List.append_nil, ← Option.some.inj h]
    exact hgiven
  | cons n ns ih =>
    rw [entriesFrom] at h
    rw [← List.singleton_append, ← List.append_assoc]
    split at h
    · next hplain => exact ih (List.rel_append hgiven (.cons (.inl ⟨hplain, rfl⟩) .nil)) h
    · next hplain =>
      split at h
      · cases h
      · next hloop =>
        obtain ⟨halias, -⟩ := aliasLoop_eq_some hloop
        exact ih (List.rel_append hgiven (.cons (.inr ⟨hplain, rfl, rfl, _, halias⟩) .nil)) h

/-- Each child has its entry. -/
theorem names_entriesOf {names : List Bytes} {es : List Entry} (h : entriesOf names = some es) :
    List.Forall₂ Names names es := names_entriesFrom names .nil h

theorem nodup_snoc_iff {out : List Entry} {e : Entry} (h : (out.map Entry.sfn).Nodup) :
    ((out ++ [e]).map Entry.sfn).Nodup ↔ e.sfn ∉ out.map Entry.sfn := by
  rw [List.map_append, List.map_singleton, List.nodup_append]
  simp [h]

theorem differ_from_iff (ns : List Bytes) {seq : Nat} {before : List Bytes} {out : List Entry}
    (hgiven : List.Forall₂ Names before out) (hout : (out.map Entry.sfn).Nodup)
    (hnames : (before ++ ns).Nodup) :
    (∃ es, entriesFrom seq out ns = some es ∧ (es.map Entry.sfn).Nodup ∧
      ∀ e ∈ es, e.needLfn = true → e.sfn.length = 11) ↔ Clean seq before out ns := by
  induction ns generalizing seq before out with
  | nil =>
    refine ⟨fun _ => trivial, fun _ => ⟨out, rfl, hout, ?_⟩⟩
    intro e he hlong
    obtain ⟨m, -, hme⟩ := mem_of_forall₂ hgiven he
    rcases hme with ⟨-, hshort⟩ | ⟨-, -, -, s, halias⟩
    · rw [hshort] at hlong
      cases hlong
    · exact length_alias83 halias
  | cons n ns ih =>
    have hnew : n ∉ before := by
      intro hn
      exact (List.nodup_append.mp hnames).2.2 n hn n (List.mem_cons_self ..) rfl
    have hnext : ((before ++ [n]) ++ ns).Nodup := by
      rwa [List.append_assoc, List.singleton_append]
    rw [entriesFrom, Clean]
    cases hplain : plain83 n with
    | some sfn =>
      simp only
      have hgiven' : List.Forall₂ Names (before ++ [n]) (out ++ [{ sfn, needLfn := false }]) :=
        List.rel_append hgiven (.cons (.inl ⟨hplain, rfl⟩) .nil)
      rw [← and_assoc, ← plain_fresh_iff hgiven hplain hnew]
      constructor
      · rintro ⟨es, hes, hnodup, hlen⟩
        obtain ⟨rest, rfl⟩ := prefix_entriesFrom hes
        have hsnoc : ((out ++ [({ sfn, needLfn := false } : Entry)]).map Entry.sfn).Nodup := by
          rw [List.map_append] at hnodup
          exact hnodup.of_append_left
        refine ⟨(nodup_snoc_iff hout).mp hsnoc, ?_⟩
        exact (ih hgiven' hsnoc hnext).mp ⟨_, hes, hnodup, hlen⟩
      · rintro ⟨hfresh, hclean⟩
        exact (ih hgiven' ((nodup_snoc_iff hout).mpr hfresh) hnext).mpr hclean
    | none =>
      simp only
      rw [← aliasLoop_ne_none n _ (2 ^ 32) (by omega)]
      cases hloop : aliasLoop n (out.map Entry.sfn) (2 ^ 32) seq with
      | none => simp
      | some r =>
        obtain ⟨s, sfn⟩ := r
        obtain ⟨halias, hfresh⟩ := aliasLoop_eq_some hloop
        have hgiven' : List.Forall₂ Names (before ++ [n])
            (out ++ [{ sfn, lfn := utf16 n, needLfn := true }]) :=
          List.rel_append hgiven (.cons (.inr ⟨hplain, rfl, rfl, s, halias⟩) .nil)
        simp only [ne_eq, reduceCtorEq, not_false_eq_true, Option.some.injEq, Prod.mk.injEq,
          and_imp, true_and]
        rw [ih hgiven' ((nodup_snoc_iff hout).mpr hfresh) hnext]
        simp

/-- The short names of a directory differ, and its aliases have 11 bytes,
    exactly when its children meet nothing that `entriesOf` does not check. -/
theorem distinct_iff (names : List Bytes) (h : names.Nodup) :
    ShortNamesDiffer names ↔ Clean 1 [] [] names :=
  differ_from_iff names .nil List.nodup_nil h

/-- `A` and `readme.txt`. -/
theorem distinct_two : Clean 1 [] [] [[0x41], [0x72, 0x65, 0x61, 0x64, 0x6d, 0x65, 0x2e, 0x74, 0x78, 0x74]] :=
  (distinct_iff [[0x41], [0x72, 0x65, 0x61, 0x64, 0x6d, 0x65, 0x2e, 0x74, 0x78, 0x74]]
    (by decide)).mp ⟨_, rfl, by decide, by decide⟩

/-- `ABCDEF GHI` gets the alias `ABCDEF~1`, and the next child has that name. -/
def aliasTaken : List Bytes :=
  [[0x41, 0x42, 0x43, 0x44, 0x45, 0x46, 0x20, 0x47, 0x48, 0x49],
    [0x41, 0x42, 0x43, 0x44, 0x45, 0x46, 0x7e, 0x31]]

/-- Two names in the order of `scan` with one short name. -/
theorem short_name_twice :
    aliasTaken.Nodup ∧ (aliasTaken.map fun n => n.map BitVec.toNat).Pairwise (· < ·) ∧
      ¬ ShortNamesDiffer aliasTaken := by
  refine ⟨by decide, by decide, ?_⟩
  rintro ⟨es, hes, hnodup, -⟩
  have htwice : (entriesOf aliasTaken).map (fun es => es.map Entry.sfn) =
      some (List.replicate 2
        [0x41, 0x42, 0x43, 0x44, 0x45, 0x46, 0x7e, 0x31, space, space, space]) := by decide
  rw [hes, Option.map_some, Option.some.injEq] at htwice
  rw [htwice] at hnodup
  exact absurd hnodup (by decide)

/-! ## Section 4: Room for the aliases -/

/-- The number in an alias: what follows the tilde in the first 8 bytes. -/
def aliasNumber (a : Bytes) : Nat := Decimal.value (((a.take 8).dropWhile (· != tilde)).drop 1)

theorem keep_ne_tilde {c d : Byte} (h : keep c = some d) : d ≠ tilde := by
  rintro rfl
  unfold keep at h
  split_ifs at h with hlower hother
  · have hc : c = tilde + 32 := by
      rw [← Option.some.inj h, BitVec.sub_add_cancel]
    rw [hc] at hlower
    exact absurd hlower (by decide)
  · rw [Option.some.inj h] at hother
    exact absurd hother (by decide)

/-- Below 10^7 the tail `~N` fits in 8 bytes, and is at the end of `BASE~N`. -/
theorem aliasBase_eq (n : Bytes) {s : Nat} (hs : s < 10 ^ 7) :
    (aliasBase n s).length ≤ 8 ∧
      ∃ base, tilde ∉ base ∧ aliasBase n s = base ++ tilde :: Decimal.text s := by
  have htext := Decimal.length_text_le (by decide : 0 < 7) hs
  have htail : (tilde :: Decimal.text s).length ≤ 8 := by
    rw [List.length_cons]
    omega
  unfold aliasBase
  dsimp only
  rw [if_pos htail]
  constructor
  · rw [List.length_append, List.length_take]
    omega
  · refine ⟨_, ?_, rfl⟩
    intro hmem
    have hin := List.mem_of_mem_take hmem
    split at hin
    · exact absurd (List.mem_singleton.mp hin) (by decide)
    · obtain ⟨c, -, hc⟩ := List.mem_filterMap.mp hin
      exact keep_ne_tilde hc rfl

theorem alias83_ne_none (n : Bytes) {s : Nat} (hs : s < 10 ^ 7) : alias83 n s ≠ none := by
  have hlen := (aliasBase_eq n hs).1
  unfold alias83
  dsimp only
  rw [if_neg (by omega)]
  exact Option.some_ne_none _

/-- The number of an alias can be read off. -/
theorem aliasNumber_alias83 {n a : Bytes} {s : Nat} (hs : s < 10 ^ 7) (h : alias83 n s = some a) :
    aliasNumber a = s := by
  obtain ⟨hlen, base, hbase, heq⟩ := aliasBase_eq n hs
  unfold alias83 at h
  dsimp only at h
  rw [if_neg (by omega)] at h
  have hfront : overwrite (List.replicate 11 space) 0 (aliasBase n s) =
      aliasBase n s ++ List.replicate (11 - (aliasBase n s).length) space := by
    rw [overwrite, List.take_zero, List.nil_append, Nat.zero_add, List.drop_replicate]
  have htake : a.take 8 =
      base ++ tilde :: (Decimal.text s ++ List.replicate (8 - (aliasBase n s).length) space) := by
    rw [← Option.some.inj h, hfront, overwrite, List.append_assoc, List.take_left' (by simp; omega),
      List.take_append, List.take_of_length_le hlen, List.take_replicate,
      show min (8 - (aliasBase n s).length) (11 - (aliasBase n s).length) =
        8 - (aliasBase n s).length by omega, heq]
    simp
  have hdrop : (a.take 8).dropWhile (· != tilde) =
      tilde :: (Decimal.text s ++ List.replicate (8 - (aliasBase n s).length) space) := by
    rw [htake, List.dropWhile_append_of_pos]
    · simp
    · intro c hc
      rw [bne_iff_ne]
      rintro rfl
      exact hbase hc
  rw [aliasNumber, hdrop]
  apply Decimal.value_text
  intro b hb
  have hspace : b = space := List.eq_of_mem_replicate (List.mem_of_mem_head? hb)
  rw [hspace]
  decide

/-- An alias with number `j` is in use, for every `j` below `m`. -/
def Used (taken : List Bytes) (m : Nat) : Prop :=
  ∀ j, 1 ≤ j → j < m → ∃ n a, alias83 n j = some a ∧ a ∈ taken

/-- Aliases in use with different numbers are different. -/
theorem used_le {taken : List Bytes} {m : Nat} (hm : m ≤ 10 ^ 7) (h : Used taken m) :
    m ≤ taken.length + 1 := by
  have hsub : List.range' 1 (m - 1) ⊆ taken.map aliasNumber := by
    intro j hj
    rw [List.mem_range'_1] at hj
    obtain ⟨n, a, halias, ha⟩ := h j hj.1 (by omega)
    exact List.mem_map.mpr ⟨a, ha, aliasNumber_alias83 (by omega) halias⟩
  have hle := (List.subperm_of_subset List.nodup_range' hsub).length_le
  rw [List.length_range', List.length_map] at hle
  omega

theorem Used.mono {as bs : List Bytes} {m : Nat} (h : Used as m) (hsub : as ⊆ bs) : Used bs m := by
  intro j hlo hhi
  obtain ⟨n, a, halias, ha⟩ := h j hlo hhi
  exact ⟨n, a, halias, hsub ha⟩

theorem freeAlias_of_used {taken : List Bytes} {seq : Nat} (h : Used taken seq)
    (hlen : taken.length + 1 < 10 ^ 7) (n : Bytes) : FreeAlias n taken seq := by
  by_contra hnone
  have hall : Used taken (10 ^ 7) := by
    intro j hlo hhi
    by_cases hj : j < seq
    · exact h j hlo hj
    · -- all numbers from `seq` up to `j` fit, so the alias with number `j` is taken
      obtain ⟨a, ha⟩ := Option.ne_none_iff_exists'.mp (alias83_ne_none n hhi)
      refine ⟨n, a, ha, ?_⟩
      by_contra hfree
      refine hnone ⟨j, Nat.le_of_not_lt hj, fun i _ hi => alias83_ne_none n (by omega), ?_⟩
      intro b hb
      rwa [← Option.some.inj (ha.symm.trans hb)]
  have hle := used_le (Nat.le_refl _) hall
  omega

/-- The numbers the loop passes over are in use. -/
theorem used_aliasLoop {n a : Bytes} {taken : List Bytes} {fuel seq s : Nat} (hused : Used taken seq)
    (h : aliasLoop n taken fuel seq = some (s, a)) : Used taken s := by
  induction fuel generalizing seq with
  | zero => cases h
  | succ fuel ih =>
    rw [aliasLoop] at h
    cases ha : alias83 n seq with
    | none =>
      rw [ha] at h
      cases h
    | some b =>
      simp only [ha] at h
      split at h
      · next htaken =>
        apply ih _ h
        intro j hlo hhi
        rcases Nat.lt_or_eq_of_le (Nat.le_of_lt_succ hhi) with hlt | rfl
        · exact hused j hlo hlt
        · exact ⟨n, b, ha, htaken⟩
      · obtain ⟨rfl, -⟩ := Prod.mk.inj (Option.some.inj h)
        exact hused

theorem entriesFrom_ne_none (ns : List Bytes) {seq : Nat} {out : List Entry}
    (hused : Used (out.map Entry.sfn) seq) (hlen : out.length + ns.length < 10 ^ 7) :
    entriesFrom seq out ns ≠ none := by
  induction ns generalizing seq out with
  | nil => exact Option.some_ne_none _
  | cons n ns ih =>
    rw [List.length_cons] at hlen
    have hmore : ∀ e : Entry, (out ++ [e]).length + ns.length < 10 ^ 7 := by
      intro e
      rw [List.length_append, List.length_singleton]
      omega
    have hsub : ∀ e : Entry, out.map Entry.sfn ⊆ (out ++ [e]).map Entry.sfn := by
      intro e
      rw [List.map_append]
      exact List.subset_append_left ..
    rw [entriesFrom]
    cases plain83 n with
    | some sfn => exact ih (hused.mono (hsub _)) (hmore _)
    | none =>
      have hfree := freeAlias_of_used hused (by rw [List.length_map]; omega) n
      have hloop := (aliasLoop_ne_none n _ (2 ^ 32) (by omega)).mpr hfree
      obtain ⟨⟨s, sfn⟩, hs⟩ := Option.ne_none_iff_exists'.mp hloop
      simp only [hs]
      exact ih ((used_aliasLoop hused hs).mono (hsub _)) (hmore _)

/-- A directory of fewer than 10^7 children has room for all aliases. -/
theorem entriesOf_ne_none {names : List Bytes} (h : names.length < 10 ^ 7) :
    entriesOf names ≠ none := by
  apply entriesFrom_ne_none names
  · intro j hlo hhi
    omega
  · rwa [List.length_nil, Nat.zero_add]

end Sd
