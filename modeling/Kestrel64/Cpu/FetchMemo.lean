import Kestrel64.Cpu.PageMap
import Kestrel64.Cpu.Precise
import Kestrel64.Cpu.Step

/-! # CPU: The Fetch Memo

    What the fetch fast path of `step` keeps of a translation. All addresses of
    a 32-byte line have one translation, up to the offset (`xlatResult_line`),
    and with it one word order and one cache attribute.

    `fill_right` says that the slow path leaves a memo that gives the fresh
    translation at every address of its line. It stays right as long as
    `Status`, `EntryHi` and the TLB stay (`FetchLine.Right.congr`).
-/

namespace Cpu

variable {Dev : Type}

/-! ## Section 1: A line has one translation -/

/-- The route of the line at another of its addresses. -/
def Route.at (v : Nat) : Route → Route
  | .direct p => .direct (p / 32 * 32 + v % 32)
  | .latched p cached => .latched (p / 32 * 32 + v % 32) cached
  | r => r

section Line

variable {v v' : Nat} (hv : v / 32 = v' / 32)
include hv

theorem page_of_line : v' / 2 ^ 12 = v / 2 ^ 12 := by omega

/-- Where the offset of the page is kept, that of the line is. -/
theorem atOffset_line {p : Nat} (hp : p = atOffset p v) : atOffset p v' = p / 32 * 32 + v' % 32 := by
  unfold atOffset at hp ⊢
  omega

theorem tlbResult_line (acc : Access) (xtlb : Bool) (asid : Nat) (es : List TlbEntry) :
    tlbResult v' acc xtlb asid es =
      (tlbResult v acc xtlb asid es).map fun r => (r.1 / 32 * 32 + v' % 32, r.2) := by
  have hself := tlbResult_page (rfl : v / 2 ^ 12 = v / 2 ^ 12) acc xtlb asid es
  rw [tlbResult_page (page_of_line hv)]
  cases hr : tlbResult v acc xtlb asid es with
  | error e => rfl
  | ok r =>
    rw [hr] at hself
    have hoff : r.1 = atOffset r.1 v := congrArg Prod.fst (Except.ok.inj hself)
    exact congrArg (fun p => Except.ok (p, r.2)) (atOffset_line hv hoff)

theorem route_line (st : Nat) : route st v' = (route st v).at v' := by
  have hself := route_page (rfl : v / 2 ^ 12 = v / 2 ^ 12) st
  rw [route_page (page_of_line hv)]
  cases hr : route st v with
  | bad => rfl
  | direct p =>
    rw [hr] at hself
    exact congrArg Route.direct (atOffset_line hv (Route.direct.inj hself))
  | latched p cached =>
    rw [hr] at hself
    exact congrArg (Route.latched · cached) (atOffset_line hv (Route.latched.inj hself).1)
  | mapped xtlb => rfl

end Line

/-- The translation of a line is the translation of any of its addresses. -/
theorem xlatResult_line {v v' : Nat} (hv : v / 32 = v' / 32) (st entryHi : Nat)
    (tlb : List TlbEntry) (acc : Access) :
    xlatResult st entryHi tlb v' acc =
      (xlatResult st entryHi tlb v acc).map fun r => (r.1 / 32 * 32 + v' % 32, r.2) := by
  unfold xlatResult
  rw [route_line hv]
  cases route st v with
  | bad => rfl
  | direct p => rfl
  | latched p cached => rfl
  | mapped xtlb =>
    show (tlbResult v' acc xtlb (entryHi % 0x100) tlb).map _ =
      ((tlbResult v acc xtlb (entryHi % 0x100) tlb).map _).map _
    rw [tlbResult_line hv]
    cases tlbResult v acc xtlb (entryHi % 0x100) tlb <;> rfl

/-! ## Section 2: Fresh translations -/

/-- Nothing a translation reads has changed. -/
structure SameMap (s t : State Dev) : Prop where
  status : t.status = s.status
  entryHi : t.entryHi = s.entryHi
  tlb : t.tlb = s.tlb

theorem SameMap.refl (s : State Dev) : SameMap s s := ⟨rfl, rfl, rfl⟩

theorem SameMap.trans {s t u : State Dev} (h : SameMap s t) (h' : SameMap t u) : SameMap s u :=
  ⟨h'.status.trans h.status, h'.entryHi.trans h.entryHi, h'.tlb.trans h.tlb⟩

/-- The cache attribute of an address, where the segment leaves it to the
    translation. -/
def cacheableAt (v : Nat) (attr : Bool) : Bool :=
  if v ≠ sext32 (v % 2 ^ 32) then attr
  else if v % 2 ^ 32 / 2 ^ 29 = 4 then true
  else if v % 2 ^ 32 / 2 ^ 29 = 5 then false
  else attr

/-- A fresh translation in terms of what it depends on. -/
theorem freshFetch_eq (pc : BitVec 64) (s : State Dev) :
    freshFetch pc s =
      (xlatResult s.status s.entryHi s.tlb pc.toNat .fetch).map fun r =>
        (reXor s.status r.1 4 % 2 ^ 32, cacheableAt pc.toNat (r.2.getD false)) := by
  unfold freshFetch
  rw [translate_eq]
  unfold xlatResult
  cases hr : route s.status pc.toNat with
  | bad => rfl
  | direct p =>
    obtain ⟨hs, hseg⟩ := direct_seg hr
    show Except.ok (_, cacheableAt _ _) = Except.ok (_, cacheableAt _ _)
    unfold cacheableAt
    rw [if_neg (not_not.mpr hs), if_neg (not_not.mpr hs)]
    rcases hseg with hseg | hseg <;> rw [hseg] <;> rfl
  | latched p cached => rfl
  | mapped xtlb =>
    dsimp only
    cases tlbResult pc.toNat .fetch xtlb (s.entryHi % 0x100) s.tlb <;> rfl

theorem freshFetch_congr {s t : State Dev} (h : SameMap s t) (pc : BitVec 64) :
    freshFetch pc t = freshFetch pc s := by
  rw [freshFetch_eq, freshFetch_eq, h.status, h.entryHi, h.tlb]

/-- The memo is right for its line. -/
def FetchLine.Right (m : FetchLine) (s : State Dev) : Prop :=
  ∀ pc : BitVec 64, pc.toNat % 4 = 0 → lineBase pc = m.vbase →
    freshFetch pc s = .ok (m.addr pc, m.cache)

theorem FetchLine.Right.congr {m : FetchLine} {s t : State Dev} (h : m.Right s)
    (hst : SameMap s t) : m.Right t :=
  fun pc ha hl => (freshFetch_congr hst pc).trans (h pc ha hl)

/-- A number below 32 swaps inside the line. -/
theorem line_xor (q : Nat) {r d : Nat} (hr : r < 32) (hd : d < 32) :
    (q * 32 + r) ^^^ d = q * 32 + (r ^^^ d) := by
  have hlt : r ^^^ d < 2 ^ 5 := Nat.xor_lt_two_pow hr hd
  have hdiv : ((q * 32 + r) ^^^ d) / 2 ^ 5 = q := by
    rw [Nat.xor_div_two_pow, show (q * 32 + r) / 2 ^ 5 = q by omega,
      show d / 2 ^ 5 = 0 by omega, Nat.xor_zero]
  have hmod : ((q * 32 + r) ^^^ d) % 2 ^ 5 = r ^^^ d := by
    rw [Nat.xor_mod_two_pow, show (q * 32 + r) % 2 ^ 5 = r by omega,
      show d % 2 ^ 5 = d by omega]
  omega

theorem line_or (q : Nat) {r : Nat} (hr : r < 32) : q * 32 ||| r = q * 32 + r := by
  rw [Nat.mul_comm, show 32 = 2 ^ 5 from rfl, Nat.two_pow_add_eq_or_of_lt hr]

/-- Moving a fetch address inside its line commutes with the swap of the two
    words that a reverse-endian user program sees. -/
theorem reXor_line (st p : Nat) {r : Nat} (hr : r < 32) :
    reXor st (p / 32 * 32 + r) 4 % 2 ^ 32 =
      reXor st p 4 % 2 ^ 32 / 32 * 32 |||
        r ^^^ ((reXor st p 4 % 2 ^ 32 ^^^ p % 2 ^ 32) &&& 0x1c) := by
  have hs : p % 32 < 32 := Nat.mod_lt _ (by decide)
  have hx : ∀ n, n < 32 → n ^^^ 4 < 32 := fun n hn => Nat.xor_lt_two_pow (n := 5) hn (by decide)
  have hp : p % 2 ^ 32 = p / 32 % 2 ^ 27 * 32 + p % 32 := by omega
  unfold reXor
  split
  case isTrue =>
    rw [show 8 - 4 = 4 from rfl]
    have hswap : (p ^^^ 4) % 2 ^ 32 = p / 32 % 2 ^ 27 * 32 + (p % 32 ^^^ 4) := by
      have hcut : p ^^^ 4 = p / 32 * 32 + (p % 32 ^^^ 4) := by
        rw [← line_xor _ hs (by decide), Nat.div_add_mod' p 32]
      have := hx _ hs
      omega
    have hdiff : ((p / 32 % 2 ^ 27 * 32 + (p % 32 ^^^ 4)) ^^^ (p / 32 % 2 ^ 27 * 32 + p % 32)) = 4 := by
      rw [← line_xor _ hs (by decide), Nat.xor_comm, ← Nat.xor_assoc, Nat.xor_self, Nat.zero_xor]
    have hq : (p / 32 % 2 ^ 27 * 32 + (p % 32 ^^^ 4)) / 32 = p / 32 % 2 ^ 27 := by
      have := hx _ hs
      omega
    have hr4 := hx r hr
    rw [hswap, hp, hdiff, hq, line_xor _ hr (by decide), show 4 &&& 0x1c = 4 from rfl,
      line_or _ hr4]
    omega
  case isFalse =>
    rw [Nat.xor_self, Nat.zero_and, Nat.xor_zero, line_or _ hr]
    omega

theorem cacheableAt_line {v v' : Nat} (hv : v / 32 = v' / 32) (attr : Bool) :
    cacheableAt v' attr = cacheableAt v attr := by
  have hs : v' ≠ sext32 (v' % 2 ^ 32) ↔ v ≠ sext32 (v % 2 ^ 32) := by
    unfold sext32
    split_ifs <;> omega
  have hseg : v' % 2 ^ 32 / 2 ^ 29 = v % 2 ^ 32 / 2 ^ 29 := by omega
  unfold cacheableAt
  rw [hseg, if_congr hs rfl rfl]

theorem lineBase_eq {pc pc' : BitVec 64} (h : lineBase pc' = lineBase pc) :
    pc.toNat / 32 = pc'.toNat / 32 := by
  unfold lineBase at h
  omega

theorem aligned_offset {n : Nat} (h : n % 4 = 0) : n &&& 0x1c = n % 32 := by
  have hq : n % 4 = 0 → n = n / 4 * 4 := by omega
  have hmask : n &&& 0x1c = n % 2 ^ 5 &&& 0x1c := by
    apply Nat.eq_of_testBit_eq
    intro i
    rw [Nat.testBit_and, Nat.testBit_and, Nat.testBit_mod_two_pow]
    by_cases hi : i < 5
    · rw [decide_eq_true hi, Bool.true_and]
    · have hz : Nat.testBit 0x1c i = false :=
        Nat.testBit_lt_two_pow (lt_of_lt_of_le (b := 2 ^ 5) (by decide)
          (Nat.pow_le_pow_right (by decide) (by omega)))
      rw [hz, Bool.and_false, Bool.and_false]
  have hlt : n % 32 < 32 := Nat.mod_lt _ (by decide)
  have h4 : n % 32 % 4 = 0 := by omega
  rw [hmask]
  generalize n % 2 ^ 5 = k at hlt h4 ⊢
  interval_cases k <;> first
    | rfl
    | exact absurd h4 (by decide)

/-- The slow path of the fetch leaves a memo that is right. -/
theorem fill_right {pc : BitVec 64} {s s' : State Dev} {p : Nat}
    (h : translate false pc.toNat .fetch s = .ok (p, s')) (epoch : Nat) :
    (FetchLine.fill pc (reXor s'.status p 4 % 2 ^ 32) p epoch (cacheable pc.toNat s')).Right s' ∧
      SameMap s s' := by
  have hfresh : freshFetch pc s =
      .ok (reXor s'.status p 4 % 2 ^ 32, cacheable pc.toNat s') := by
    unfold freshFetch
    rw [h]
    rfl
  obtain ⟨-, b, rfl⟩ := translate_translated _ _ _ _ _ h
  have hmap : SameMap s { s with xlatCacheable := b } := ⟨rfl, rfl, rfl⟩
  refine ⟨?_, hmap⟩
  rw [translate_eq] at h
  rw [freshFetch_eq] at hfresh
  cases hx : xlatResult s.status s.entryHi s.tlb pc.toNat .fetch with
  | error e => rw [hx] at h; cases h
  | ok r =>
    rw [hx] at h hfresh
    obtain ⟨rfl, -⟩ := Prod.mk.inj (Except.ok.inj h)
    obtain ⟨-, hcache⟩ := Prod.mk.inj (Except.ok.inj hfresh)
    intro pc' ha hl
    have hline := lineBase_eq hl
    rw [freshFetch_congr hmap, freshFetch_eq, xlatResult_line hline, hx]
    show Except.ok (_, cacheableAt pc'.toNat (r.2.getD false)) = Except.ok (_, _)
    rw [reXor_line _ _ (Nat.mod_lt _ (by decide)), cacheableAt_line hline]
    unfold FetchLine.addr FetchLine.fill
    rw [aligned_offset ha]
    exact congrArg (fun b => Except.ok (_, b)) hcache

end Cpu
