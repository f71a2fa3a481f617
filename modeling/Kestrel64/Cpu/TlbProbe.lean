import Kestrel64.Cpu.Precise

/-! # CPU: The TLB Probe

    `TLBP` and the translation both look for the entry of a page, each with a
    comparison of its own: `TlbEntry.probed` and `TlbEntry.hits`. In 64-bit
    addressing the page number reaches bit 39, and the probe compares it up
    to bit 31 only.

    `tlbProbe_agrees_iff` says when the two find the same entry. It also has
    the other round trip of the instructions: what `TLBR` reads, `TLBWI`
    writes back unchanged.
-/

namespace Cpu

variable {Dev : Type}

/-! ## Section 1: Entries -/

/-- An entry as `tlbWrite` leaves it. -/
structure TlbEntry.Normal (e : TlbEntry) : Prop where
  mask : e.mask &&& 0x01FFE000 = e.mask
  pairs : normPageMask e.mask = e.mask
  hi_lt : e.hi < 2 ^ 64
  hi : e.hi &&& not64 e.mask = e.hi
  lo0 : e.lo0 &&& 0x03FFFFFE = e.lo0
  lo1 : e.lo1 &&& 0x03FFFFFE = e.lo1

/-- Out of reset the entries are zero. -/
def resetTlb : List TlbEntry :=
  List.replicate 32 { mask := 0, hi := 0, lo0 := 0, lo1 := 0, global := false }

variable (Dev) in
/-- The contents that `TLBWI` and `TLBWR` can give the TLB. -/
inductive TlbWritten : List TlbEntry → Prop where
  | reset : TlbWritten resetTlb
  | write (c : Core Dev) (index : Nat) :
      TlbWritten c.cpu.tlb → TlbWritten (tlbWrite index c).cpu.tlb

/-- The pairs of the mask field, as bits. -/
def maskOf (b₀ b₁ b₂ b₃ b₄ b₅ : Bool) : Nat :=
  (b₀.toNat * 3 + b₁.toNat * 12 + b₂.toNat * 48 + b₃.toNat * 192 + b₄.toNat * 768 +
    b₅.toNat * 3072) * 2 ^ 13

theorem normPageMask_eq (pm : Nat) :
    ∃ b₀ b₁ b₂ b₃ b₄ b₅, normPageMask pm = maskOf b₀ b₁ b₂ b₃ b₄ b₅ := by
  refine ⟨(pm / 2 ^ 13).testBit 1, (pm / 2 ^ 13).testBit 3, (pm / 2 ^ 13).testBit 5,
    (pm / 2 ^ 13).testBit 7, (pm / 2 ^ 13).testBit 9, (pm / 2 ^ 13).testBit 11, ?_⟩
  unfold normPageMask
  simp only [List.range, List.range.loop, List.foldl]
  generalize (pm / 2 ^ 13).testBit 1 = b₀
  generalize (pm / 2 ^ 13).testBit 3 = b₁
  generalize (pm / 2 ^ 13).testBit 5 = b₂
  generalize (pm / 2 ^ 13).testBit 7 = b₃
  generalize (pm / 2 ^ 13).testBit 9 = b₄
  generalize (pm / 2 ^ 13).testBit 11 = b₅
  revert b₀ b₁ b₂ b₃ b₄ b₅
  decide

theorem maskOf_field : ∀ b₀ b₁ b₂ b₃ b₄ b₅,
    maskOf b₀ b₁ b₂ b₃ b₄ b₅ &&& 0x01FFE000 = maskOf b₀ b₁ b₂ b₃ b₄ b₅ := by
  decide

theorem maskOf_norm : ∀ b₀ b₁ b₂ b₃ b₄ b₅,
    normPageMask (maskOf b₀ b₁ b₂ b₃ b₄ b₅) = maskOf b₀ b₁ b₂ b₃ b₄ b₅ := by
  decide

/-- Normalising lands in the field, and twice is once. -/
theorem normPageMask_norm (pm : Nat) :
    normPageMask pm &&& 0x01FFE000 = normPageMask pm ∧
      normPageMask (normPageMask pm) = normPageMask pm := by
  obtain ⟨b₀, b₁, b₂, b₃, b₄, b₅, h⟩ := normPageMask_eq pm
  rw [h]
  exact ⟨maskOf_field .., maskOf_norm ..⟩

theorem testBit_not64 (n i : Nat) : (not64 n).testBit i = (decide (i < 64) ^^ n.testBit i) := by
  rw [not64, Nat.testBit_xor, Nat.testBit_two_pow_sub_one]

theorem not64_lt {n : Nat} (h : n < 2 ^ 64) : not64 n < 2 ^ 64 :=
  Nat.xor_lt_two_pow (by decide) h

theorem normPageMask_lt (pm : Nat) : normPageMask pm < 2 ^ 64 := by
  rw [← (normPageMask_norm pm).1]
  exact lt_of_le_of_lt Nat.and_le_right (by decide)

theorem and_self_right (a m : Nat) : a &&& m &&& m = a &&& m := by
  rw [Nat.and_assoc, Nat.and_self]

/-- The entry that `tlbWrite` makes of the registers. -/
theorem tlbWrite_normal (pm entryHi lo0 lo1 : Nat) (global : Bool) :
    TlbEntry.Normal
      { mask := normPageMask pm
        hi := entryHi &&& not64 (normPageMask pm)
        lo0 := lo0 &&& 0x03FFFFFE
        lo1 := lo1 &&& 0x03FFFFFE
        global := global } where
  mask := (normPageMask_norm pm).1
  pairs := (normPageMask_norm pm).2
  hi_lt := lt_of_le_of_lt Nat.and_le_right (not64_lt (normPageMask_lt pm))
  hi := and_self_right _ _
  lo0 := and_self_right _ _
  lo1 := and_self_right _ _

/-- **Step lemma.** A write keeps the length and leaves a normal entry. -/
theorem tlbWrite_spec (index : Nat) (c : Core Dev) :
    (tlbWrite index c).cpu.tlb.length = c.cpu.tlb.length ∧
      ∀ e ∈ (tlbWrite index c).cpu.tlb, e ∈ c.cpu.tlb ∨ e.Normal := by
  unfold tlbWrite
  dsimp only
  split_ifs
  · exact ⟨rfl, fun e he => .inl he⟩
  · refine ⟨List.length_set, fun e he => ?_⟩
    rcases List.mem_or_eq_of_mem_set he with hold | rfl
    · exact .inl hold
    · exact .inr (tlbWrite_normal ..)

theorem TlbWritten.normal {es : List TlbEntry} (h : TlbWritten Dev es) :
    es.length = 32 ∧ ∀ e ∈ es, e.Normal := by
  induction h with
  | reset =>
    refine ⟨rfl, fun e he => ?_⟩
    rw [List.eq_of_mem_replicate he]
    exact ⟨rfl, rfl, by decide, rfl, rfl, rfl⟩
  | write c index _ ih =>
    obtain ⟨hlen, hmem⟩ := tlbWrite_spec index c
    refine ⟨hlen.trans ih.1, fun e he => ?_⟩
    rcases hmem e he with hold | hnew
    · exact ih.2 e hold
    · exact hnew

/-! ## Section 2: The two comparisons -/

/-- The bits two numbers agree on. -/
theorem xor_and_eq_zero_iff (a b m : Nat) :
    (a ^^^ b) &&& m = 0 ↔ ∀ i, m.testBit i = true → a.testBit i = b.testBit i := by
  constructor
  · intro h i hm
    have hi := congrArg (·.testBit i) h
    simpa [hm, Nat.testBit_xor] using hi
  · intro h
    refine Nat.eq_of_testBit_eq fun i => ?_
    rw [Nat.testBit_and, Nat.testBit_xor, Nat.zero_testBit]
    cases hm : m.testBit i with
    | false => exact Bool.and_false _
    | true => rw [h i hm, Bool.xor_self, Bool.false_and]

/-- The page number both comparisons look at: bits 31 to 13 and the region. -/
def vpnLow : Nat := 0xC0000000FFFFE000

/-- The rest of the page number in 64-bit addressing. -/
def vpnHigh : Nat := 0x000000FF00000000

/-- The entry matches `v` but for the bits 39 to 32 of its page number. -/
def TlbEntry.near (e : TlbEntry) (v asid : Nat) : Bool :=
  (v ^^^ e.hi) &&& (vpnLow &&& not64 e.mask) == 0 && (e.global || e.hi % 0x100 == asid)

/-- The bits 39 to 32 match. -/
def TlbEntry.high (e : TlbEntry) (v : Nat) : Bool := (v ^^^ e.hi) &&& vpnHigh == 0

/-- `EntryHi` has the page number of `v` and the address space. -/
structure HoldsPage (entryHi v asid : Nat) : Prop where
  page : entryHi &&& (vpnLow ||| vpnHigh) = v &&& (vpnLow ||| vpnHigh)
  asid : entryHi % 0x100 = asid

/-- `n` ones from bit `k` on. -/
def onesFrom (k n : Nat) : Nat := (2 ^ n - 1) * 2 ^ k

@[simp] theorem testBit_onesFrom (k n i : Nat) :
    (onesFrom k n).testBit i = decide (k ≤ i ∧ i < k + n) := by
  rw [onesFrom, Nat.testBit_mul_two_pow, Nat.testBit_two_pow_sub_one, ← Bool.decide_and]
  exact decide_eq_decide.mpr (by omega)

theorem testBit_vpnLow (i : Nat) :
    vpnLow.testBit i = decide (13 ≤ i ∧ i < 32 ∨ 62 ≤ i ∧ i < 64) := by
  have h : vpnLow = onesFrom 13 19 ||| onesFrom 62 2 := by decide
  rw [h, Nat.testBit_or, testBit_onesFrom, testBit_onesFrom, ← Bool.decide_or]

theorem testBit_vpnHigh (i : Nat) : vpnHigh.testBit i = decide (32 ≤ i ∧ i < 40) := by
  have h : vpnHigh = onesFrom 32 8 := by decide
  rw [h, testBit_onesFrom]

theorem TlbEntry.Normal.mask_bit {e : TlbEntry} (h : e.Normal) {i : Nat}
    (hi : e.mask.testBit i = true) : 13 ≤ i ∧ i < 25 := by
  have hm : 0x01FFE000 = onesFrom 13 12 := by decide
  rw [← h.mask, Nat.testBit_and, hm, testBit_onesFrom, Bool.and_eq_true] at hi
  exact of_decide_eq_true hi.2

/-- The mask of both comparisons. -/
theorem testBit_cmpMask {m : Nat} (hm : ∀ i, m.testBit i = true → 13 ≤ i ∧ i < 25) (i : Nat) :
    ((0xFFFFFFFF ^^^ (m ||| 0x1FFF)) &&& 0xFFFFE000).testBit i =
      (decide (13 ≤ i ∧ i < 32) && !m.testBit i) := by
  have hall : 0xFFFFFFFF = onesFrom 0 32 := by decide
  have hoff : 0x1FFF = onesFrom 0 13 := by decide
  have hvpn : 0xFFFFE000 = onesFrom 13 19 := by decide
  rw [Nat.testBit_and, Nat.testBit_xor, Nat.testBit_or, hall, hoff, hvpn]
  simp only [testBit_onesFrom]
  cases hb : m.testBit i with
  | false => by_cases h : 13 ≤ i ∧ i < 32 <;> grind
  | true =>
    have := hm i hb
    grind

/-- The page number of `near`, bit by bit. -/
theorem near_page_iff {e : TlbEntry} (hn : e.Normal) (v : Nat) :
    (v ^^^ e.hi) &&& (vpnLow &&& not64 e.mask) = 0 ↔
      (∀ i, 13 ≤ i → i < 32 → e.mask.testBit i = false → v.testBit i = e.hi.testBit i) ∧
        ∀ i, 62 ≤ i → i < 64 → v.testBit i = e.hi.testBit i := by
  have hbit : ∀ i, (vpnLow &&& not64 e.mask).testBit i = true ↔
      (13 ≤ i ∧ i < 32 ∨ 62 ≤ i ∧ i < 64) ∧ e.mask.testBit i = false := by
    intro i
    rw [Nat.testBit_and, testBit_vpnLow, testBit_not64, Bool.and_eq_true, decide_eq_true_iff]
    refine and_congr_right fun hi => ?_
    have h64 : i < 64 := by omega
    simp [h64]
  rw [xor_and_eq_zero_iff]
  constructor
  · intro h
    refine ⟨fun i hlo hhi hm => h i ((hbit i).mpr ⟨.inl ⟨hlo, hhi⟩, hm⟩), fun i hlo hhi => ?_⟩
    refine h i ((hbit i).mpr ⟨.inr ⟨hlo, hhi⟩, ?_⟩)
    by_contra hm
    have := hn.mask_bit (Bool.not_eq_false _ ▸ hm)
    omega
  · intro h i hi
    obtain ⟨⟨hlo, hhi⟩ | ⟨hlo, hhi⟩, hm⟩ := (hbit i).mp hi
    · exact h.1 i hlo hhi hm
    · exact h.2 i hlo hhi

theorem TlbEntry.probed_eq {e : TlbEntry} (hn : e.Normal) {entryHi v asid : Nat}
    (hv : HoldsPage entryHi v asid) : e.probed entryHi = e.near v asid := by
  have hpage : ∀ i, 13 ≤ i ∧ i < 32 ∨ 62 ≤ i ∧ i < 64 → entryHi.testBit i = v.testBit i := by
    intro i hi
    have h := congrArg (·.testBit i) hv.page
    simpa [Nat.testBit_or, testBit_vpnLow, hi] using h
  have hmod : e.mask % 2 ^ 32 = e.mask := by
    refine Nat.mod_eq_of_lt ?_
    rw [← hn.mask]
    exact lt_of_le_of_lt Nat.and_le_right (by decide)
  have hregion : 0xC000000000000000 = onesFrom 62 2 := by decide
  have hlow : (entryHi ^^^ e.hi) % 2 ^ 32 &&& ((0xFFFFFFFF ^^^ (e.mask ||| 0x1FFF)) &&& 0xFFFFE000)
      = 0 ↔ ∀ i, 13 ≤ i → i < 32 → e.mask.testBit i = false → v.testBit i = e.hi.testBit i := by
    rw [Nat.xor_mod_two_pow, xor_and_eq_zero_iff]
    refine forall_congr' fun i => ?_
    rw [testBit_cmpMask fun i => hn.mask_bit, Nat.testBit_mod_two_pow, Nat.testBit_mod_two_pow]
    have hi := hpage i
    grind
  have hhigh : (entryHi ^^^ e.hi) &&& 0xC000000000000000 = 0 ↔
      ∀ i, 62 ≤ i → i < 64 → v.testBit i = e.hi.testBit i := by
    rw [xor_and_eq_zero_iff, hregion]
    refine forall_congr' fun i => ?_
    rw [testBit_onesFrom]
    have hi := hpage i
    grind
  have hnear := near_page_iff hn v
  rw [Bool.eq_iff_iff]
  unfold TlbEntry.probed TlbEntry.near
  simp only [Bool.and_eq_true, beq_iff_eq, hmod, hv.asid, hlow, hhigh, hnear]

theorem TlbEntry.hits_eq {e : TlbEntry} (hn : e.Normal) (v asid : Nat) :
    e.hits v asid true = (e.near v asid && e.high v) := by
  have hregion : 0xC00000FF00000000 = onesFrom 62 2 ||| onesFrom 32 8 := by decide
  have hlow : (v % 2 ^ 32 ^^^ e.hi % 2 ^ 32) &&&
        ((0xFFFFFFFF ^^^ (e.mask ||| 0x1FFF)) &&& 0xFFFFE000) = 0 ↔
      ∀ i, 13 ≤ i → i < 32 → e.mask.testBit i = false → v.testBit i = e.hi.testBit i := by
    rw [xor_and_eq_zero_iff]
    refine forall_congr' fun i => ?_
    rw [testBit_cmpMask fun i => hn.mask_bit, Nat.testBit_mod_two_pow, Nat.testBit_mod_two_pow]
    grind
  have hhigh : (v ^^^ e.hi) &&& 0xC00000FF00000000 = 0 ↔
      (∀ i, 62 ≤ i → i < 64 → v.testBit i = e.hi.testBit i) ∧ (v ^^^ e.hi) &&& vpnHigh = 0 := by
    rw [xor_and_eq_zero_iff, xor_and_eq_zero_iff, hregion]
    simp only [Nat.testBit_or, testBit_onesFrom, testBit_vpnHigh, Bool.or_eq_true,
      decide_eq_true_iff]
    constructor
    · intro h
      exact ⟨fun i hlo hhi => h i (.inl ⟨hlo, hhi⟩), fun i hi => h i (.inr hi)⟩
    · rintro ⟨hr, hh⟩ i (hi | hi)
      · exact hr i hi.1 hi.2
      · exact hh i hi
  have hnear := near_page_iff hn v
  rw [Bool.eq_iff_iff]
  unfold TlbEntry.hits TlbEntry.near TlbEntry.high
  simp only [hn.mask, Bool.true_and, Bool.and_eq_true, beq_iff_eq, Bool.not_eq_true', bne_eq_false_iff_eq,
    hlow, hhigh, hnear]
  tauto

/-! ## Section 3: Which entry -/

/-- The entry at which the loop of `tlbLookup` stops, in 64-bit addressing. -/
def tlbDecides (v : Nat) (s : State Dev) : Option Nat :=
  s.tlb.findIdx? (·.hits v (s.entryHi % 0x100) true)

theorem tlbWalk_decides (probing : Bool) (v : Nat) (acc : Access) (s : State Dev)
    (es : List TlbEntry) :
    tlbWalk probing v acc true s es =
      match es.findIdx? (·.hits v (s.entryHi % 0x100) true) with
      | none => fault probing (.tlbRefill acc true) s
      | some i => tlbWalk probing v acc true s (es.drop i) := by
  induction es with
  | nil => rfl
  | cons e es ih =>
    rw [List.findIdx?_cons]
    cases hh : e.hits v (s.entryHi % 0x100) true with
    | true => rfl
    | false =>
      have hskip : tlbWalk probing v acc true s (e :: es) = tlbWalk probing v acc true s es := by
        rw [tlbWalk, hh]
        rfl
      rw [hskip, ih]
      cases es.findIdx? (·.hits v (s.entryHi % 0x100) true) <;> rfl

/-- The entry it stops at is the one that answers, and without one the
    exception is a refill. -/
theorem tlbLookup_decides (probing : Bool) (v : Nat) (acc : Access) (s : State Dev) :
    tlbLookup probing v acc true s =
      match tlbDecides v s with
      | none => fault probing (.tlbRefill acc true) s
      | some i => tlbWalk probing v acc true s (s.tlb.drop i) :=
  tlbWalk_decides probing v acc s s.tlb

theorem tlbLookup_refill_iff (v : Nat) (acc : Access) (s : State Dev) :
    tlbLookup false v acc true s = .error (.tlbRefill acc true) ↔ tlbDecides v s = none := by
  rw [tlbLookup_decides]
  constructor
  · intro h
    cases hd : tlbDecides v s with
    | none => rfl
    | some i =>
      obtain ⟨hi, hhit, -⟩ := List.findIdx?_eq_some_iff_getElem.mp hd
      rw [hd] at h
      dsimp only at h
      rw [List.drop_eq_getElem_cons hi, tlbWalk, hhit] at h
      simp only [Bool.not_true, Bool.false_eq_true, if_false] at h
      split_ifs at h <;> cases h
  · intro h
    rw [h]
    rfl

/-- `TLBP` and the translation of `v` find the same entry, or none. -/
structure ProbeAgrees (c : Core Dev) (v : Nat) : Prop where
  index : ∀ i < 32, (tlbProbe c).cop0 c0Index = BitVec.ofNat 64 i ↔ tlbDecides v c.cpu = some i
  failure : ∀ acc, (tlbProbe c).cop0 c0Index = 0x80000000 ↔
    tlbLookup false v acc true c.cpu = .error (.tlbRefill acc true)

/-- What `TLBP` leaves in `Index`. -/
theorem tlbProbe_index (c : Core Dev) :
    (tlbProbe c).cop0 c0Index =
      match c.cpu.tlb.findIdx? (·.probed c.cpu.entryHi) with
      | some i => BitVec.ofNat 64 i
      | none => 0x80000000 := by
  unfold tlbProbe
  cases c.cpu.tlb.findIdx? (·.probed c.cpu.entryHi) <;> rfl

/-- The probe agrees if it looks the entry up as the translation does. -/
theorem probeAgrees_iff {c : Core Dev} (hlen : c.cpu.tlb.length = 32) (v : Nat) :
    ProbeAgrees c v ↔ c.cpu.tlb.findIdx? (·.probed c.cpu.entryHi) = tlbDecides v c.cpu := by
  have hlt : ∀ {p : TlbEntry → Bool} {i : Nat}, c.cpu.tlb.findIdx? p = some i → i < 32 := by
    intro p i h
    obtain ⟨hi, -⟩ := List.findIdx?_eq_some_iff_getElem.mp h
    omega
  have hne : ∀ {i j : Nat}, i < 32 → j < 32 → BitVec.ofNat 64 i = BitVec.ofNat 64 j → i = j := by
    intro i j hi hj h
    have := congrArg BitVec.toNat h
    simp only [BitVec.toNat_ofNat] at this
    omega
  have hfail : ∀ {i : Nat}, i < 32 → BitVec.ofNat 64 i ≠ 0x80000000 := by
    intro i hi h
    have := congrArg BitVec.toNat h
    simp at this
    omega
  constructor
  · intro h
    have hidx := tlbProbe_index c
    cases hp : c.cpu.tlb.findIdx? (·.probed c.cpu.entryHi) with
    | none =>
      rw [hp] at hidx
      exact ((tlbLookup_refill_iff v .read c.cpu).mp ((h.failure .read).mp hidx)).symm
    | some i =>
      rw [hp] at hidx
      exact ((h.index i (hlt hp)).mp hidx).symm
  · intro h
    have hidx := tlbProbe_index c
    rw [h] at hidx
    cases hd : tlbDecides v c.cpu with
    | none =>
      rw [hd] at hidx
      refine ⟨fun i hi => ?_, fun acc => ?_⟩
      · rw [hidx, hd]
        exact iff_of_false (fun heq => hfail hi heq.symm) nofun
      · rw [tlbLookup_refill_iff, hd]
        exact iff_of_true hidx rfl
    | some j =>
      rw [hd] at hidx
      have hj : j < 32 := hlt hd
      refine ⟨fun i hi => ?_, fun acc => ?_⟩
      · rw [hidx, hd, Option.some.injEq]
        exact ⟨hne hj hi, congrArg (BitVec.ofNat 64)⟩
      · rw [tlbLookup_refill_iff, hd, hidx]
        exact iff_of_false (hfail hj) nofun

/-- A search that tests more finds the same entry if the first candidate
    passes the rest of the test. -/
theorem findIdx?_and_eq_iff {α : Type} (p q : α → Bool) (l : List α) :
    l.findIdx? p = l.findIdx? (fun a => p a && q a) ↔ ∀ a, l.find? p = some a → q a = true := by
  induction l with
  | nil => exact iff_of_true rfl nofun
  | cons a l ih =>
    rw [List.findIdx?_cons, List.findIdx?_cons, List.find?_cons]
    cases hp : p a with
    | false =>
      rw [← ih]
      exact (Option.map_injective fun _ _ => Nat.succ.inj).eq_iff
    | true =>
      cases hq : q a with
      | false =>
        refine iff_of_false (fun h => ?_) (fun h => absurd (h a rfl) (by simp [hq]))
        cases hl : l.findIdx? (fun a => p a && q a) <;> simp [hl] at h
      | true => exact iff_of_true rfl (fun b hb => Option.some.inj hb ▸ hq)

theorem findIdx?_of_forall {α : Type} {p q : α → Bool} {l : List α} (h : ∀ a ∈ l, p a = q a) :
    l.findIdx? p = l.findIdx? q := by
  induction l with
  | nil => rfl
  | cons a l ih =>
    rw [List.findIdx?_cons, List.findIdx?_cons, h a List.mem_cons_self,
      ih fun b hb => h b (List.mem_cons_of_mem a hb)]

/-! ## Section 4: TLBR and TLBWI -/

/-- An `EntryLo` half as `tlbRead` shows it, with the global bit. -/
def shownLo (lo : Nat) (global : Bool) : BitVec 64 :=
  BitVec.ofNat 64 lo &&& ~~~1 ||| if global then 1 else 0

theorem testBit_shownLo {lo : Nat} (h : lo &&& 0x03FFFFFE = lo) (global : Bool) (i : Nat) :
    (shownLo lo global).toNat.testBit i = if i = 0 then global else lo.testBit i := by
  have hlt : lo < 2 ^ 26 := by
    rw [← h]
    exact lt_of_le_of_lt Nat.and_le_right (by decide)
  have hglobal : (if global then (1 : BitVec 64) else 0).getLsbD i = (global && decide (i = 0)) := by
    cases global <;> simp [BitVec.getLsbD_one]
  have hlo : (BitVec.ofNat 64 lo).getLsbD i = lo.testBit i := by
    rw [BitVec.getLsbD_ofNat, Bool.and_eq_right_iff_imp]
    intro hi
    by_contra h64
    rw [Nat.testBit_lt_two_pow (lt_of_lt_of_le hlt (Nat.pow_le_pow_right (by decide) (by grind)))]
      at hi
    cases hi
  have hclear : (~~~(1 : BitVec 64)).getLsbD i = (decide (i < 64) && !decide (i = 0)) := by
    rw [BitVec.getLsbD_not]
    simp [BitVec.getLsbD_one]
  rw [BitVec.testBit_toNat, shownLo, BitVec.getLsbD_or, BitVec.getLsbD_and, hclear, hglobal]
  by_cases h0 : i = 0
  · simp [h0]
  · rw [if_neg h0, decide_eq_false h0, Bool.and_false, Bool.or_false, Bool.not_false, Bool.and_true,
      ← hlo]
    refine Bool.and_eq_left_iff_imp.mpr fun hb => decide_eq_true ?_
    exact BitVec.lt_of_getLsbD hb

theorem shownLo_field {lo : Nat} (h : lo &&& 0x03FFFFFE = lo) (global : Bool) :
    (shownLo lo global).toNat &&& 0x03FFFFFE = lo ∧
      ((shownLo lo global).toNat % 2 == 1) = global := by
  have hfield : 0x03FFFFFE = onesFrom 1 25 := by decide
  constructor
  · refine Nat.eq_of_testBit_eq fun i => ?_
    have hi := congrArg (·.testBit i) h
    rw [hfield] at hi ⊢
    simp only [Nat.testBit_and, testBit_shownLo h, testBit_onesFrom] at hi ⊢
    by_cases h0 : i = 0
    · rw [h0] at hi ⊢
      simp at hi ⊢
      omega
    · rw [if_neg h0]
      exact hi
  · have h0 := testBit_shownLo h global 0
    rw [if_pos rfl, Nat.testBit_zero] at h0
    exact h0

/-- What `TLBR` reads, `TLBWI` writes back. -/
theorem tlbWrite_tlbRead {c : Core Dev} (hw : TlbWritten Dev c.cpu.tlb) (index : Nat) :
    (tlbWrite index (tlbRead index c)).cpu.tlb = c.cpu.tlb := by
  obtain ⟨hlen, hnormal⟩ := hw.normal
  by_cases hi : 32 ≤ index % 64
  · rw [tlbWrite, tlbRead, if_pos hi, if_pos hi]
  have hlt : index % 64 < c.cpu.tlb.length := by omega
  have hn := hnormal _ (List.getElem_mem hlt)
  have hread : tlbRead index c =
      let e := c.cpu.tlb[index % 64]
      (((c.setCop0 c0PageMask (BitVec.ofNat 64 e.mask)).setCop0 c0EntryLo0
        (shownLo e.lo0 e.global)).setCop0 c0EntryLo1 (shownLo e.lo1 e.global)).setCpu
          { c.cpu with entryHi := e.hi &&& not64 e.mask } := by
    rw [tlbRead, if_neg hi, List.getElem?_eq_getElem hlt]
    rfl
  generalize he : c.cpu.tlb[index % 64] = e at hn hread
  obtain ⟨hlo0, hg0⟩ := shownLo_field hn.lo0 e.global
  obtain ⟨hlo1, hg1⟩ := shownLo_field hn.lo1 e.global
  have hmask : normPageMask (BitVec.ofNat 64 e.mask).toNat = e.mask := by
    have hsmall : e.mask < 2 ^ 64 := by
      rw [← hn.pairs]
      exact normPageMask_lt _
    rw [BitVec.toNat_ofNat, Nat.mod_eq_of_lt hsmall, hn.pairs]
  have hentry : (tlbWrite index (tlbRead index c)).cpu.tlb = c.cpu.tlb.set (index % 64)
      { mask := normPageMask (BitVec.ofNat 64 e.mask).toNat
        hi := (e.hi &&& not64 e.mask) &&& not64 (normPageMask (BitVec.ofNat 64 e.mask).toNat)
        lo0 := (shownLo e.lo0 e.global).toNat &&& 0x03FFFFFE
        lo1 := (shownLo e.lo1 e.global).toNat &&& 0x03FFFFFE
        global := (shownLo e.lo0 e.global).toNat % 2 == 1 &&
          (shownLo e.lo1 e.global).toNat % 2 == 1 } := by
    rw [hread, tlbWrite, if_neg hi]
    rfl
  rw [hentry, hmask, hlo0, hlo1, hg0, hg1, hn.hi, hn.hi, Bool.and_self, ← he]
  exact List.set_getElem_self hlt

/-! ## Section 5: Agreement -/

/-- **The TLB instructions.** With `v`'s page and an address space in
    `EntryHi`, `TLBP` finds the entry that translates `v` if and only if the
    first entry that matches `v` in region, address space and bits 31 to 13 of
    the page number matches bits 39 to 32 as well. What `TLBR` reads, `TLBWI`
    always writes back. -/
theorem tlbProbe_agrees_iff (c : Core Dev) (hw : TlbWritten Dev c.cpu.tlb) {v asid : Nat}
    (hv : HoldsPage c.cpu.entryHi v asid) :
    (ProbeAgrees c v ∧ ∀ index, (tlbWrite index (tlbRead index c)).cpu.tlb = c.cpu.tlb) ↔
      ∀ e, c.cpu.tlb.find? (·.near v asid) = some e → e.high v = true := by
  obtain ⟨hlen, hnormal⟩ := hw.normal
  have hprobed : c.cpu.tlb.findIdx? (·.probed c.cpu.entryHi) =
      c.cpu.tlb.findIdx? (·.near v asid) :=
    findIdx?_of_forall fun e he => TlbEntry.probed_eq (hnormal e he) hv
  have hhits : tlbDecides v c.cpu =
      c.cpu.tlb.findIdx? (fun e => e.near v asid && e.high v) := by
    rw [tlbDecides, hv.asid]
    exact findIdx?_of_forall fun e he => TlbEntry.hits_eq (hnormal e he) v asid
  rw [and_iff_left (tlbWrite_tlbRead hw), probeAgrees_iff hlen, hprobed, hhits]
  exact findIdx?_and_eq_iff _ _ _

/-- A core in kernel mode with 64-bit addressing, and the page `0x2000` of
    address space 1 in `EntryHi`. -/
def pageCore : Core Unit :=
  (restCore 0).setCpu
    { (restCore 0).cpu with status := 0x34000080, entryHi := 0x2001, tlb := resetTlb }

/-- `TLBWI` has written that page into entry 3. -/
def probeCore (entryHi : Nat) : Core Unit :=
  let c := tlbWrite 3 pageCore
  c.setCpu { c.cpu with entryHi := entryHi }

theorem probeCore_written (entryHi : Nat) : TlbWritten Unit (probeCore entryHi).cpu.tlb :=
  .write pageCore 3 .reset

theorem tlbProbe_agrees_page :
    ProbeAgrees (probeCore 0x2001) 0x2abc ∧
      ∀ index, (tlbWrite index (tlbRead index (probeCore 0x2001))).cpu.tlb =
        (probeCore 0x2001).cpu.tlb :=
  (tlbProbe_agrees_iff (probeCore 0x2001) (probeCore_written _) ⟨by decide, rfl⟩).mpr
    fun e he => by
      have hfind : (probeCore 0x2001).cpu.tlb.find? (·.near 0x2abc 1) =
          (probeCore 0x2001).cpu.tlb[3]? := rfl
      obtain rfl := Option.some.inj (hfind.symm.trans he)
      rfl

/-- The page `2^32 + 0x2000` is not in the TLB, and `TLBP` finds entry 3. -/
theorem tlbProbe_finds_other_page :
    ¬ ∀ (c : Core Unit) (v asid : Nat), TlbWritten Unit c.cpu.tlb →
      route c.status v = .mapped true → HoldsPage c.cpu.entryHi v asid →
      ProbeAgrees c v ∧ ∀ index, (tlbWrite index (tlbRead index c)).cpu.tlb = c.cpu.tlb := by
  intro h
  have hagrees := (h (probeCore 0x100002001) 0x100002abc 1 (probeCore_written _) rfl
    ⟨by decide, rfl⟩).1
  have hsame := (probeAgrees_iff rfl _).mp hagrees
  have hprobe : (probeCore 0x100002001).cpu.tlb.findIdx?
      (·.probed (probeCore 0x100002001).cpu.entryHi) = some 3 := by decide
  have hlookup : tlbDecides 0x100002abc (probeCore 0x100002001).cpu = none := by decide
  rw [hprobe, hlookup] at hsame
  cases hsame

end Cpu
