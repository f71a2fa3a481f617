import Kestrel64.Cpu.Translate

/-! # CPU: Translation by Pages

    The addresses of a 4 KB page are translated together, whatever the page
    mask and the segment: to one frame, with the offset kept, and with the
    same faults and the same cache attribute. An address that translates for
    a store translates for a load.
-/

namespace Cpu

variable {Dev : Type}

/-- `p` moved to the page offset of `v`. -/
def atOffset (p v : Nat) : Nat := p / 2 ^ 12 * 2 ^ 12 + v % 2 ^ 12

/-! ## Section 1: Segments -/

def Route.atOffset (v : Nat) : Route → Route
  | .bad => .bad
  | .direct p => .direct (Cpu.atOffset p v)
  | .latched p cached => .latched (Cpu.atOffset p v) cached
  | .mapped xtlb => .mapped xtlb

section Page

variable {v v' : Nat} (h : v' / 2 ^ 12 = v / 2 ^ 12)
include h

omit h in
/-- Where the two addresses make the same decision. -/
theorem ite_page {c c' : Prop} [Decidable c] [Decidable c'] {a a' b b' : Route}
    (hc : c' ↔ c) (ha : a' = a.atOffset v) (hb : b' = b.atOffset v) :
    (if c' then a' else b') = (if c then a else b).atOffset v := by
  by_cases h : c
  · rw [if_pos h, if_pos (hc.mpr h), ha]
  · rw [if_neg h, if_neg (mt hc.mp h), hb]

theorem route32_page (st : Nat) : route32 st v' = (route32 st v).atOffset v' := by
  have hsext : v' ≠ sext32 (v' % 2 ^ 32) ↔ v ≠ sext32 (v % 2 ^ 32) := by
    unfold sext32
    split_ifs <;> omega
  have hseg : v' % 2 ^ 32 / 2 ^ 29 = v % 2 ^ 32 / 2 ^ 29 := by omega
  have hlow : v' % 2 ^ 32 = atOffset (v % 2 ^ 32) v' := by
    unfold atOffset
    omega
  have hphys : v' % 2 ^ 32 % 2 ^ 29 = atOffset (v % 2 ^ 32 % 2 ^ 29) v' := by
    unfold atOffset
    omega
  unfold route32
  dsimp only
  rw [hseg]
  refine ite_page hsext rfl ?_
  refine ite_page Iff.rfl (congrArg (Route.latched · false) hlow) ?_
  refine ite_page Iff.rfl rfl ?_
  refine ite_page Iff.rfl (ite_page Iff.rfl rfl rfl) ?_
  refine ite_page Iff.rfl (ite_page Iff.rfl rfl rfl) ?_
  exact ite_page Iff.rfl rfl (congrArg Route.direct hphys)

/-- The bounds of the segments are multiples of the page. -/
theorem route64Kernel_page (st : Nat) :
    route64Kernel st v' = (route64Kernel st v).atOffset v' := by
  have hself : v' = atOffset v v' := by
    unfold atOffset
    omega
  have hlow : v' % 2 ^ 32 = atOffset (v % 2 ^ 32) v' := by
    unfold atOffset
    omega
  have hphys : v' % 2 ^ 32 % 2 ^ 29 = atOffset (v % 2 ^ 32 % 2 ^ 29) v' := by
    unfold atOffset
    omega
  have hattr : v' / 2 ^ 59 = v / 2 ^ 59 := by omega
  unfold route64Kernel
  rw [hattr]
  refine ite_page (and_congr_right fun _ => by omega) (congrArg (Route.latched · false) hself) ?_
  refine ite_page (by omega) rfl ?_
  refine ite_page (by omega) rfl ?_
  -- xkphys
  refine ite_page (by omega) (ite_page (by omega) rfl (congrArg (Route.latched · _) hlow)) ?_
  refine ite_page (by omega) rfl ?_
  refine ite_page (by omega) (congrArg Route.direct hphys) ?_
  refine ite_page (by omega) (congrArg Route.direct hphys) ?_
  refine ite_page (by omega) rfl ?_
  exact ite_page (by omega) rfl rfl

theorem route_page (st : Nat) : route st v' = (route st v).atOffset v' := by
  have h64 : route64 st v' = (route64 st v).atOffset v' := by
    unfold route64
    refine ite_page Iff.rfl (ite_page (by omega) rfl rfl) ?_
    refine ite_page Iff.rfl ?_ (route64Kernel_page h st)
    refine ite_page (by omega) rfl ?_
    refine ite_page (by omega) rfl ?_
    exact ite_page (by omega) rfl rfl
  exact ite_page Iff.rfl h64 (route32_page h st)

/-! ## Section 2: The TLB -/

omit h in
/-- A mask that clears the offset sees the page only. -/
theorem and_page {x y m : Nat} (hxy : x / 2 ^ 12 = y / 2 ^ 12) (hm : m % 2 ^ 12 = 0) :
    x &&& m = y &&& m := by
  apply Nat.eq_of_testBit_eq
  intro i
  rw [Nat.testBit_and, Nat.testBit_and]
  by_cases hi : i < 12
  · have hbit : m.testBit i = false := by
      have hlow := Nat.testBit_mod_two_pow m 12 i
      rw [hm, Nat.zero_testBit, decide_eq_true hi, Bool.true_and] at hlow
      exact hlow.symm
    rw [hbit, Bool.and_false, Bool.and_false]
  · have hpage (z : Nat) : z.testBit i = (z / 2 ^ 12).testBit (i - 12) := by
      rw [Nat.testBit_div_two_pow, show i - 12 + 12 = i by omega]
    rw [hpage x, hpage y, hxy]

theorem TlbEntry.hits_page (e : TlbEntry) (asid : Nat) (xtlb : Bool) :
    e.hits v' asid xtlb = e.hits v asid xtlb := by
  have hva : v' % 2 ^ 32 / 2 ^ 12 = v % 2 ^ 32 / 2 ^ 12 := by omega
  have hcmp : (v' % 2 ^ 32 ^^^ e.hi % 2 ^ 32) / 2 ^ 12 =
      (v % 2 ^ 32 ^^^ e.hi % 2 ^ 32) / 2 ^ 12 := by
    rw [Nat.xor_div_two_pow, Nat.xor_div_two_pow, hva]
  have hwide : (v' ^^^ e.hi) / 2 ^ 12 = (v ^^^ e.hi) / 2 ^ 12 := by
    rw [Nat.xor_div_two_pow, Nat.xor_div_two_pow, h]
  have hmask :
      ((0xFFFFFFFF ^^^ (e.mask &&& 0x01FFE000 ||| 0x1FFF)) &&& 0xFFFFE000) % 2 ^ 12 = 0 := by
    rw [Nat.and_mod_two_pow]
    simp
  unfold TlbEntry.hits
  dsimp only
  rw [and_page hcmp hmask, and_page hwide (show 0xC00000FF00000000 % 2 ^ 12 = 0 by decide)]

omit h in
theorem TlbEntry.sel_page (e : TlbEntry) : e.sel % 2 ^ 12 = 0 := by
  have hlow : (e.mask &&& 0x01FFE000 ||| 0x1FFF) % 2 ^ 13 = 2 ^ 13 - 1 := by
    rw [Nat.or_mod_two_pow, Nat.and_mod_two_pow]
    simp
  unfold TlbEntry.sel
  omega

theorem TlbEntry.lo_page (e : TlbEntry) : e.lo v' = e.lo v := by
  have hva : v' % 2 ^ 32 / 2 ^ 12 = v % 2 ^ 32 / 2 ^ 12 := by omega
  unfold TlbEntry.lo
  rw [and_page hva e.sel_page]

theorem TlbEntry.frame_page (e : TlbEntry) : e.frame v' = atOffset (e.frame v) v' := by
  have hva : v' % 2 ^ 32 / 2 ^ 12 = v % 2 ^ 32 / 2 ^ 12 := by omega
  have hpage : e.frame v' / 2 ^ 12 = e.frame v / 2 ^ 12 := by
    unfold TlbEntry.frame
    dsimp only
    rw [Nat.or_div_two_pow, Nat.or_div_two_pow, Nat.and_div_two_pow, Nat.and_div_two_pow,
      Nat.and_div_two_pow, Nat.and_div_two_pow, hva, e.lo_page h]
  have hoff := e.frame_offset v'
  unfold atOffset
  omega

theorem tlbResult_page (acc : Access) (xtlb : Bool) (asid : Nat) (es : List TlbEntry) :
    tlbResult v' acc xtlb asid es =
      (tlbResult v acc xtlb asid es).map fun r => (atOffset r.1 v', r.2) := by
  induction es with
  | nil => rfl
  | cons e es ih =>
    unfold tlbResult
    rw [e.hits_page h, e.lo_page h, e.frame_page h]
    split_ifs
    · exact ih
    · rfl
    · rfl
    · rfl

/-! ## Section 3: Both together -/

theorem xlatResult_page (st entryHi : Nat) (tlb : List TlbEntry) (acc : Access) :
    xlatResult st entryHi tlb v' acc =
      (xlatResult st entryHi tlb v acc).map fun r => (atOffset r.1 v', r.2) := by
  unfold xlatResult
  rw [route_page h]
  cases route st v with
  | bad => rfl
  | direct p => rfl
  | latched p cached => rfl
  | mapped xtlb =>
    change (tlbResult v' acc xtlb (entryHi % 0x100) tlb).map (fun r => (r.1, some r.2)) =
      ((tlbResult v acc xtlb (entryHi % 0x100) tlb).map fun r => (r.1, some r.2)).map _
    rw [tlbResult_page h]
    cases tlbResult v acc xtlb (entryHi % 0x100) tlb <;> rfl

end Page

theorem tlbResult_read {v asid : Nat} {xtlb : Bool} {es : List TlbEntry} {r : Nat × Bool}
    (h : tlbResult v .write xtlb asid es = .ok r) : tlbResult v .read xtlb asid es = .ok r := by
  induction es with
  | nil => cases h
  | cons e es ih =>
    unfold tlbResult at h ⊢
    split_ifs at h ⊢
    · exact ih h
    · simp_all
    · exact h

/-- What a store reaches, a load does. -/
theorem xlatResult_read {st entryHi v : Nat} {tlb : List TlbEntry} {r : Nat × Option Bool}
    (h : xlatResult st entryHi tlb v .write = .ok r) :
    xlatResult st entryHi tlb v .read = .ok r := by
  unfold xlatResult at h ⊢
  cases hr : route st v with
  | bad =>
    rw [hr] at h
    cases h
  | direct p =>
    rw [hr] at h
    exact h
  | latched p cached =>
    rw [hr] at h
    exact h
  | mapped xtlb =>
    rw [hr] at h
    dsimp only at h ⊢
    cases hw : tlbResult v .write xtlb (entryHi % 0x100) tlb with
    | error e =>
      rw [hw] at h
      cases h
    | ok q =>
      rw [hw] at h
      rw [tlbResult_read hw]
      exact h

/-! ## Section 4: The cache attribute -/

theorem cacheable_page {v v' : Nat} (h : v' / 2 ^ 12 = v / 2 ^ 12) (s : State Dev) :
    cacheable v' s = cacheable v s := by
  have hsext : v' ≠ sext32 (v' % 2 ^ 32) ↔ v ≠ sext32 (v % 2 ^ 32) := by
    unfold sext32
    split_ifs <;> omega
  have hseg : v' % 2 ^ 32 / 2 ^ 29 = v % 2 ^ 32 / 2 ^ 29 := by omega
  unfold cacheable
  dsimp only
  rw [if_congr hsext rfl rfl, hseg]

/-- A segment that decides about the cache is KSEG0 or KSEG1. -/
theorem direct_seg {st v p : Nat} (h : route st v = .direct p) :
    v = sext32 (v % 2 ^ 32) ∧ (v % 2 ^ 32 / 2 ^ 29 = 4 ∨ v % 2 ^ 32 / 2 ^ 29 = 5) := by
  have h32 : route32 st v = .direct p →
      v = sext32 (v % 2 ^ 32) ∧ (v % 2 ^ 32 / 2 ^ 29 = 4 ∨ v % 2 ^ 32 / 2 ^ 29 = 5) := by
    intro h
    unfold route32 at h
    dsimp only at h
    split_ifs at h with hs
    exact ⟨not_not.mp hs, by omega⟩
  have hck (hlo : 0xFFFFFFFF80000000 ≤ v) (hhi : v ≤ 0xFFFFFFFFBFFFFFFF) :
      v = sext32 (v % 2 ^ 32) ∧ (v % 2 ^ 32 / 2 ^ 29 = 4 ∨ v % 2 ^ 32 / 2 ^ 29 = 5) := by
    refine ⟨?_, by omega⟩
    unfold sext32
    split_ifs <;> omega
  have hk : route64Kernel st v = .direct p →
      v = sext32 (v % 2 ^ 32) ∧ (v % 2 ^ 32 / 2 ^ 29 = 4 ∨ v % 2 ^ 32 / 2 ^ 29 = 5) := by
    intro h
    unfold route64Kernel at h
    split_ifs at h
    · exact hck (by omega) (by omega)
    · exact hck (by omega) (by omega)
  have h64 : route64 st v = .direct p →
      v = sext32 (v % 2 ^ 32) ∧ (v % 2 ^ 32 / 2 ^ 29 = 4 ∨ v % 2 ^ 32 / 2 ^ 29 = 5) := by
    intro h
    unfold route64 at h
    split_ifs at h
    exact hk h
  unfold route at h
  dsimp only at h
  generalize (if cpuMode st = 2 then st.testBit 5
    else if cpuMode st = 1 then st.testBit 6 else st.testBit 7) = wide at h
  cases wide with
  | true => exact h64 h
  | false => exact h32 h

theorem xlat_eq (v : Nat) (acc : Access) (s : State Dev) :
    xlat v acc s =
      (xlatResult s.status s.entryHi s.tlb v acc).map fun r =>
        (r.1, { s with xlatCacheable := r.2.getD s.xlatCacheable }) := by
  rw [xlat_eq_translate, translate_eq]

/-- The cache attribute does not depend on the translation before this one. -/
theorem cacheable_latch {st entryHi v p : Nat} {tlb : List TlbEntry} {acc : Access}
    {attr : Option Bool} (h : xlatResult st entryHi tlb v acc = .ok (p, attr)) {s t : State Dev}
    (hs : s.xlatCacheable = attr.getD s.xlatCacheable)
    (ht : t.xlatCacheable = attr.getD t.xlatCacheable) : cacheable v s = cacheable v t := by
  cases attr with
  | some c =>
    have hst : s.xlatCacheable = t.xlatCacheable := hs.trans ht.symm
    unfold cacheable
    rw [hst]
  | none =>
    have hd : ∃ p, route st v = .direct p := by
      unfold xlatResult at h
      cases hr : route st v with
      | direct p => exact ⟨p, rfl⟩
      | bad => rw [hr] at h; cases h
      | latched p c => rw [hr] at h; cases h
      | mapped xtlb =>
        rw [hr] at h
        dsimp only at h
        cases hw : tlbResult v acc xtlb (entryHi % 0x100) tlb with
        | error e => rw [hw] at h; cases h
        | ok q => rw [hw] at h; cases h
    obtain ⟨p, hp⟩ := hd
    obtain ⟨hsext, hseg⟩ := direct_seg hp
    unfold cacheable
    dsimp only
    rw [if_neg (not_not.mpr hsext), if_neg (not_not.mpr hsext)]
    rcases hseg with hseg | hseg
    · rw [hseg]
      rfl
    · rw [hseg]
      rfl

end Cpu
