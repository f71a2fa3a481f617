import Kestrel64.Cpu.Bus

/-! # CPU: State and Address Translation

    The part of the VR4300 a load or a store reads and writes, and
    `translate`: segments, privilege, 64-bit addressing and the TLB.

    `translate` has two clients. The interpreter lets a fault vector; the
    dynarec's helpers set `probing`, and a fault then returns the all-ones
    address and touches nothing. `translate_probing` relates the two, and
    `xlat_eq_translate` says that the inline shortcut for KSEG0 and KSEG1 is
    the translation it stands for.

    `memAbort` is the latch of a fault inside the current instruction. Every
    driver clears it before it starts one, so here a fault is the `error` of
    `Except` and the latch itself is not kept.
-/

namespace Cpu

/-! ## Section 1: State -/

inductive Access where
  | read
  | write
  | fetch
  deriving DecidableEq, Repr

/-- The exceptions a load or a store can take. -/
inductive Exc where
  | addressError (acc : Access)
  | tlbInvalid (acc : Access)
  | tlbModified
  | tlbRefill (acc : Access) (xtlb : Bool)
  | reservedInstruction
  | copUnusable
  deriving DecidableEq, Repr

structure TlbEntry where
  mask : Nat
  hi : Nat
  lo0 : Nat
  lo1 : Nat
  global : Bool

/-- A line of the data cache: bit 0 of `tagv` is the valid bit. -/
structure DCacheLine where
  tagv : Nat
  dirty : Bool
  data : Nat → Byte

/-- What `cartNow()` adds up besides the stall cycles of this instruction. -/
structure Clock where
  retired : Nat
  pending : Nat
  stall : Nat
  stallRem : Nat
  cpi256 : Nat

structure State (Dev : Type) where
  gpr : Fin 32 → BitVec 64
  fpr : Fin 32 → BitVec 64
  status : Nat
  entryHi : Nat
  tlb : List TlbEntry
  dcache : Nat → DCacheLine
  xlatCacheable : Bool
  /-- The bit of `stGuard` that mirrors the repeat arm for emitted code. -/
  stGuardRepeat : Bool
  stallCycles : Nat
  clock : Clock
  dcMissCycles : Nat
  uncachedCycles : Nat
  mem : Mem Dev

variable {Dev : Type}

def State.cartNow (s : State Dev) : Nat :=
  s.clock.retired + s.clock.pending + s.clock.stall +
    if s.stallCycles = 0 then 0
    else (s.clock.stallRem + s.stallCycles * 128) / s.clock.cpi256

/-! ## Section 2: Modes -/

/-- `EXL` or `ERL` in `Status`. -/
def excLevel (st : Nat) : Bool := st.testBit 1 || st.testBit 2

/-- 0 kernel, 1 supervisor, 2 user. -/
def cpuMode (st : Nat) : Nat := if excLevel st then 0 else st / 8 % 4

/-- The mode forbids 64-bit operations. -/
def reserved64 (st : Nat) : Bool :=
  cpuMode st ≠ 0 && !(if cpuMode st = 2 then st.testBit 5 else st.testBit 6)

def sext32 (v : Nat) : Nat := if v < 2 ^ 31 then v else v + (2 ^ 64 - 2 ^ 32)

/-- Reverse-endian user mode moves the unit inside its doubleword. -/
def reXor (st addr size : Nat) : Nat :=
  if st.testBit 25 && cpuMode st = 2 then addr ^^^ (8 - size) else addr

/-! ## Section 3: Translation -/

/-- A fault: with `probing` the all-ones address, else the exception. -/
def fault (probing : Bool) (e : Exc) (s : State Dev) : Except Exc (Nat × State Dev) :=
  if probing then .ok (2 ^ 64 - 1, s) else .error e

/-- Does the entry match the address? -/
def TlbEntry.hits (e : TlbEntry) (vaddr asid : Nat) (xtlb : Bool) : Bool :=
  let va := vaddr % 2 ^ 32
  let m := e.mask &&& 0x01FFE000
  let cmpMask := (0xFFFFFFFF ^^^ (m ||| 0x1FFF)) &&& 0xFFFFE000
  (va ^^^ e.hi % 2 ^ 32) &&& cmpMask == 0
    && !(xtlb && (vaddr ^^^ e.hi) &&& 0xC00000FF00000000 != 0)
    && (e.global || e.hi % 0x100 == asid)

/-- The bit that tells the even page from the odd one. -/
def TlbEntry.sel (e : TlbEntry) : Nat := ((e.mask &&& 0x01FFE000 ||| 0x1FFF) + 1) / 2

/-- The `EntryLo` half that maps the address. -/
def TlbEntry.lo (e : TlbEntry) (vaddr : Nat) : Nat :=
  if vaddr % 2 ^ 32 &&& e.sel = 0 then e.lo0 else e.lo1

def TlbEntry.frame (e : TlbEntry) (vaddr : Nat) : Nat :=
  let offMask := e.sel - 1
  let pfn := e.lo vaddr / 2 ^ 6 % 2 ^ 24
  (pfn * 2 ^ 12 &&& ((2 ^ 64 - 1) ^^^ offMask)) ||| (vaddr % 2 ^ 32 &&& offMask)

/-- The loop of `tlbLookup` over the entries. -/
def tlbWalk (probing : Bool) (vaddr : Nat) (acc : Access) (xtlb : Bool) (s : State Dev) :
    List TlbEntry → Except Exc (Nat × State Dev)
  | [] => fault probing (.tlbRefill acc xtlb) s
  | e :: es =>
    if !e.hits vaddr (s.entryHi % 0x100) xtlb then
      tlbWalk probing vaddr acc xtlb s es
    else if !(e.lo vaddr).testBit 1 then
      fault probing (.tlbInvalid acc) s
    else if acc = .write ∧ !(e.lo vaddr).testBit 2 then
      fault probing .tlbModified s
    else
      .ok (e.frame vaddr, { s with xlatCacheable := e.lo vaddr / 8 % 8 ≠ 2 })

def tlbLookup (probing : Bool) (vaddr : Nat) (acc : Access) (xtlb : Bool) (s : State Dev) :
    Except Exc (Nat × State Dev) :=
  tlbWalk probing vaddr acc xtlb s s.tlb

/-- Where the segment rules send an address. -/
inductive Route where
  /-- Address error. -/
  | bad
  /-- Direct; the segment decides about the cache. -/
  | direct (p : Nat)
  /-- Direct, with the cache attribute latched. -/
  | latched (p : Nat) (cached : Bool)
  /-- Through the TLB. -/
  | mapped (xtlb : Bool)

/-- 32-bit compatibility addressing. -/
def route32 (st vaddr : Nat) : Route :=
  let mode := cpuMode st
  let va := vaddr % 2 ^ 32
  let seg := va / 2 ^ 29
  if vaddr ≠ sext32 va then .bad
  -- ERL: kuseg is direct and uncached
  else if seg ≤ 3 ∧ st.testBit 2 then .latched va false
  else if seg ≤ 3 then .mapped false
  else if seg = 6 then if mode = 2 then .bad else .mapped false
  else if seg = 7 then if mode ≠ 0 then .bad else .mapped false
  else if mode ≠ 0 then .bad
  else .direct (va % 2 ^ 29)

/-- 64-bit addressing in kernel mode. -/
def route64Kernel (st vaddr : Nat) : Route :=
  if st.testBit 2 ∧ vaddr < 0x80000000 then .latched vaddr false
  else if vaddr / 2 ^ 40 = 0 then .mapped true
  else if 0x4000000000000000 ≤ vaddr ∧ vaddr ≤ 0x400000FFFFFFFFFF then .mapped true
  else if vaddr / 2 ^ 62 = 2 then
    -- xkphys: bits 58 to 32 must be zero, bits 61 to 59 are the cache attribute
    if vaddr / 2 ^ 32 % 2 ^ 27 ≠ 0 then .bad
    else .latched (vaddr % 2 ^ 32) (vaddr / 2 ^ 59 % 8 ≠ 2)
  else if 0xC000000000000000 ≤ vaddr ∧ vaddr ≤ 0xC00000FF7FFFFFFF then .mapped true
  else if 0xFFFFFFFF80000000 ≤ vaddr ∧ vaddr ≤ 0xFFFFFFFF9FFFFFFF then
    .direct (vaddr % 2 ^ 32 % 2 ^ 29)
  else if 0xFFFFFFFFA0000000 ≤ vaddr ∧ vaddr ≤ 0xFFFFFFFFBFFFFFFF then
    .direct (vaddr % 2 ^ 32 % 2 ^ 29)
  else if 0xFFFFFFFFC0000000 ≤ vaddr ∧ vaddr ≤ 0xFFFFFFFFDFFFFFFF then .mapped true
  else if 0xFFFFFFFFE0000000 ≤ vaddr then .mapped true
  else .bad

/-- 64-bit addressing. -/
def route64 (st vaddr : Nat) : Route :=
  if cpuMode st = 2 then
    if vaddr / 2 ^ 40 = 0 then .mapped true else .bad
  else if cpuMode st = 1 then
    if vaddr / 2 ^ 40 = 0 then .mapped true
    else if 0x4000000000000000 ≤ vaddr ∧ vaddr ≤ 0x400000FFFFFFFFFF then .mapped true
    else if 0xFFFFFFFFC0000000 ≤ vaddr ∧ vaddr ≤ 0xFFFFFFFFDFFFFFFF then .mapped true
    else .bad
  else route64Kernel st vaddr

/-- The addressing width is the mode's own bit: `UX`, `SX` or `KX`. -/
def route (st vaddr : Nat) : Route :=
  let bit64 := if cpuMode st = 2 then st.testBit 5
    else if cpuMode st = 1 then st.testBit 6 else st.testBit 7
  if bit64 then route64 st vaddr else route32 st vaddr

def translate (probing : Bool) (vaddr : Nat) (acc : Access) (s : State Dev) :
    Except Exc (Nat × State Dev) :=
  match route s.status vaddr with
  | .bad => fault probing (.addressError acc) s
  | .direct p => .ok (p, s)
  | .latched p cached => .ok (p, { s with xlatCacheable := cached })
  | .mapped xtlb => tlbLookup probing vaddr acc xtlb s

/-- The inline shortcut: a compatibility address in KSEG0 or KSEG1, in
    kernel mode. -/
def xlatDirect (v : Nat) (s : State Dev) : Option Nat :=
  let kernel := excLevel s.status || s.status / 8 % 4 == 0
  if !kernel then none
  else if v ≠ sext32 (v % 2 ^ 32) then none
  else if v % 2 ^ 32 / 2 ^ 30 ≠ 2 then none
  else some (v % 2 ^ 32 % 2 ^ 29)

def xlat (v : Nat) (acc : Access) (s : State Dev) : Except Exc (Nat × State Dev) :=
  match xlatDirect v s with
  | some p => .ok (p, s)
  | none => translate false v acc s

/-- Does an access at `vaddr` go through the data cache (if it lands in
    RDRAM)? -/
def cacheable (vaddr : Nat) (s : State Dev) : Bool :=
  let va := vaddr % 2 ^ 32
  if vaddr ≠ sext32 va then s.xlatCacheable
  else if va / 2 ^ 29 = 4 then true
  else if va / 2 ^ 29 = 5 then false
  else s.xlatCacheable

/-! ## Section 4: The two clients -/

/-- What a probe makes of the translation that would have vectored. -/
def probed (s : State Dev) (r : Except Exc (Nat × State Dev)) : Except Exc (Nat × State Dev) :=
  match r with
  | .ok r => .ok r
  | .error _ => .ok (2 ^ 64 - 1, s)

theorem tlbWalk_probing (v : Nat) (acc : Access) (xtlb : Bool) (s : State Dev)
    (es : List TlbEntry) :
    tlbWalk true v acc xtlb s es = probed s (tlbWalk false v acc xtlb s es) := by
  induction es with
  | nil => rfl
  | cons e es ih =>
    unfold tlbWalk
    split_ifs
    · exact ih
    · rfl
    · rfl
    · rfl

theorem tlbLookup_probing (v : Nat) (acc : Access) (xtlb : Bool) (s : State Dev) :
    tlbLookup true v acc xtlb s = probed s (tlbLookup false v acc xtlb s) :=
  tlbWalk_probing v acc xtlb s s.tlb

/-- A probe succeeds where the translation does, with the same result; where
    it would vector, the probe returns all ones and leaves the state. -/
theorem translate_probing (v : Nat) (acc : Access) (s : State Dev) :
    translate true v acc s = probed s (translate false v acc s) := by
  unfold translate
  cases route s.status v with
  | bad => rfl
  | direct p => rfl
  | latched p cached => rfl
  | mapped xtlb => exact tlbLookup_probing v acc xtlb s

/-- A physical address for `v`: below the probe's all-ones value, with the
    page offset kept. -/
structure Lands (v p : Nat) : Prop where
  lt : p < 2 ^ 36
  offset : p % 2 ^ 12 = v % 2 ^ 12

/-- What a translation of `v` that does not fault leaves behind: a state that
    differs in the latched cache attribute only. -/
def Translated (v : Nat) (s : State Dev) (r : Except Exc (Nat × State Dev)) : Prop :=
  ∀ p s', r = .ok (p, s') → Lands v p ∧ ∃ c, s' = { s with xlatCacheable := c }

theorem Translated.fault (v : Nat) (e : Exc) (s : State Dev) :
    Translated v s (fault false e s) :=
  fun _ _ h => nomatch h

theorem Translated.ok {v p : Nat} {s : State Dev} (hp : Lands v p) :
    Translated v s (.ok (p, s)) := by
  intro p' s' h
  cases h
  exact ⟨hp, s.xlatCacheable, rfl⟩

theorem Translated.latch {v p : Nat} {s : State Dev} (c : Bool) (hp : Lands v p) :
    Translated v s (.ok (p, { s with xlatCacheable := c })) := by
  intro p' s' h
  cases h
  exact ⟨hp, c, rfl⟩

/-- Whatever the page mask, the offset inside 4 KB is not translated. -/
theorem TlbEntry.frame_offset (e : TlbEntry) (v : Nat) : e.frame v % 2 ^ 12 = v % 2 ^ 12 := by
  have hlow : (e.mask &&& 0x01FFE000 ||| 0x1FFF) % 2 ^ 13 = 2 ^ 13 - 1 := by
    rw [Nat.or_mod_two_pow, Nat.and_mod_two_pow]
    simp
  have hsel : (e.sel - 1) % 2 ^ 12 = 2 ^ 12 - 1 := by
    unfold TlbEntry.sel
    omega
  have hcomp : ((2 ^ 64 - 1) ^^^ (e.sel - 1)) % 2 ^ 12 = 0 := by
    rw [Nat.xor_mod_two_pow, hsel]
    decide
  have hva : v % 2 ^ 32 % 2 ^ 12 = v % 2 ^ 12 := by omega
  unfold TlbEntry.frame
  dsimp only
  rw [Nat.or_mod_two_pow, Nat.and_mod_two_pow, Nat.and_mod_two_pow, hcomp, hsel, hva,
    Nat.and_zero, Nat.zero_or, Nat.and_two_pow_sub_one_eq_mod, Nat.mod_mod]

theorem TlbEntry.frame_lt (e : TlbEntry) (v : Nat) : e.frame v < 2 ^ 36 := by
  have hpfn : e.lo v / 2 ^ 6 % 2 ^ 24 < 2 ^ 24 := Nat.mod_lt _ (by decide)
  have hva : v % 2 ^ 32 < 2 ^ 32 := Nat.mod_lt _ (by decide)
  refine Nat.or_lt_two_pow ?_ ?_
  · refine lt_of_le_of_lt Nat.and_le_left ?_
    omega
  · refine lt_of_le_of_lt Nat.and_le_left ?_
    omega

theorem tlbWalk_translated (v : Nat) (acc : Access) (xtlb : Bool) (s : State Dev)
    (es : List TlbEntry) : Translated v s (tlbWalk false v acc xtlb s es) := by
  induction es with
  | nil => exact Translated.fault _ _ _
  | cons e es ih =>
    unfold tlbWalk
    split_ifs
    · exact ih
    · exact Translated.fault _ _ _
    · exact Translated.fault _ _ _
    · exact Translated.latch _ ⟨e.frame_lt v, e.frame_offset v⟩

/-- The address a direct segment gives is 32 bits wide and keeps the offset. -/
def Route.Narrow (v : Nat) : Route → Prop
  | .direct p => p < 2 ^ 32 ∧ p % 2 ^ 12 = v % 2 ^ 12
  | .latched p _ => p < 2 ^ 32 ∧ p % 2 ^ 12 = v % 2 ^ 12
  | _ => True

theorem route_narrow (st v : Nat) : (route st v).Narrow v := by
  have h32 : (route32 st v).Narrow v := by
    unfold route32
    dsimp only
    split_ifs <;> simp only [Route.Narrow] <;> omega
  have hk : (route64Kernel st v).Narrow v := by
    unfold route64Kernel
    split_ifs <;> simp only [Route.Narrow, and_true] <;> omega
  have h64 : (route64 st v).Narrow v := by
    unfold route64
    split_ifs <;> trivial
  unfold route
  dsimp only
  split_ifs <;> assumption

theorem translate_translated (v : Nat) (acc : Access) (s : State Dev) :
    Translated v s (translate false v acc s) := by
  have hn := route_narrow s.status v
  unfold translate
  cases hr : route s.status v with
  | bad => exact Translated.fault _ _ _
  | direct p =>
    rw [hr] at hn
    exact Translated.ok ⟨lt_trans hn.1 (by decide), hn.2⟩
  | latched p cached =>
    rw [hr] at hn
    exact Translated.latch _ ⟨lt_trans hn.1 (by decide), hn.2⟩
  | mapped xtlb => exact tlbWalk_translated v acc xtlb s s.tlb

/-- The shortcut is taken only in kernel mode, inside KSEG0 and KSEG1. -/
theorem xlatDirect_some {v p : Nat} {s : State Dev} (h : xlatDirect v s = some p) :
    cpuMode s.status = 0 ∧ v = v % 2 ^ 32 + (2 ^ 64 - 2 ^ 32) ∧
      v % 2 ^ 32 / 2 ^ 30 = 2 ∧ p = v % 2 ^ 32 % 2 ^ 29 := by
  unfold xlatDirect at h
  dsimp only at h
  split_ifs at h with hk hs hseg
  refine ⟨?_, ?_, not_not.mp hseg, (Option.some.inj h).symm⟩
  · unfold cpuMode
    cases hx : excLevel s.status with
    | true => rfl
    | false => simpa [hx] using hk
  · rw [not_not] at hs hseg
    unfold sext32 at hs
    split_ifs at hs <;> omega

/-- The shortcut agrees with the translation it skips. -/
theorem translate_of_xlatDirect {v p : Nat} {s : State Dev} (h : xlatDirect v s = some p)
    (probing : Bool) (acc : Access) : translate probing v acc s = .ok (p, s) := by
  obtain ⟨hmode, hv, hseg, rfl⟩ := xlatDirect_some h
  have hs : v = sext32 (v % 2 ^ 32) := by
    unfold sext32
    split_ifs <;> omega
  have h32 : route32 s.status v = .direct (v % 2 ^ 32 % 2 ^ 29) := by
    unfold route32
    dsimp only
    rw [if_neg (not_not.mpr hs), if_neg (by omega), if_neg (by omega), if_neg (by omega),
      if_neg (by omega), if_neg (by omega)]
  -- with 64-bit addressing the same addresses are ckseg0 and ckseg1
  have h64 : route64 s.status v = .direct (v % 2 ^ 32 % 2 ^ 29) := by
    unfold route64 route64Kernel
    rw [if_neg (by omega), if_neg (by omega), if_neg (by omega), if_neg (by omega),
      if_neg (by omega), if_neg (by omega), if_neg (by omega)]
    by_cases hlo : v ≤ 0xFFFFFFFF9FFFFFFF
    · rw [if_pos (by omega)]
    · rw [if_neg (by omega), if_pos (by omega)]
  have hroute : route s.status v = .direct (v % 2 ^ 32 % 2 ^ 29) := by
    unfold route
    dsimp only
    split_ifs <;> assumption
  unfold translate
  rw [hroute]

theorem xlat_eq_translate (v : Nat) (acc : Access) (s : State Dev) :
    xlat v acc s = translate false v acc s := by
  unfold xlat
  split
  · rename_i p hp
    exact (translate_of_xlatDirect hp false acc).symm
  · rfl

/-! ## Section 5: What a translation depends on -/

/-- The walk as a function of the entries and the address space: the address
    and the cache attribute. -/
def tlbResult (vaddr : Nat) (acc : Access) (xtlb : Bool) (asid : Nat) :
    List TlbEntry → Except Exc (Nat × Bool)
  | [] => .error (.tlbRefill acc xtlb)
  | e :: es =>
    if !e.hits vaddr asid xtlb then tlbResult vaddr acc xtlb asid es
    else if !(e.lo vaddr).testBit 1 then .error (.tlbInvalid acc)
    else if acc = .write ∧ !(e.lo vaddr).testBit 2 then .error .tlbModified
    else .ok (e.frame vaddr, e.lo vaddr / 8 % 8 ≠ 2)

/-- The address and, unless the segment decides, the cache attribute. -/
def xlatResult (st entryHi : Nat) (tlb : List TlbEntry) (vaddr : Nat) (acc : Access) :
    Except Exc (Nat × Option Bool) :=
  match route st vaddr with
  | .bad => .error (.addressError acc)
  | .direct p => .ok (p, none)
  | .latched p cached => .ok (p, some cached)
  | .mapped xtlb => (tlbResult vaddr acc xtlb (entryHi % 0x100) tlb).map fun r => (r.1, some r.2)

theorem tlbWalk_eq (v : Nat) (acc : Access) (xtlb : Bool) (s : State Dev) (es : List TlbEntry) :
    tlbWalk false v acc xtlb s es =
      (tlbResult v acc xtlb (s.entryHi % 0x100) es).map fun r =>
        (r.1, { s with xlatCacheable := r.2 }) := by
  induction es with
  | nil => rfl
  | cons e es ih =>
    unfold tlbWalk tlbResult
    split_ifs
    · exact ih
    · rfl
    · rfl
    · rfl

/-- A translation reads `Status`, `EntryHi` and the TLB, and writes the
    latched cache attribute. -/
theorem translate_eq (v : Nat) (acc : Access) (s : State Dev) :
    translate false v acc s =
      (xlatResult s.status s.entryHi s.tlb v acc).map fun r =>
        (r.1, { s with xlatCacheable := r.2.getD s.xlatCacheable }) := by
  unfold translate xlatResult
  cases route s.status v with
  | bad => rfl
  | direct p => rfl
  | latched p cached => rfl
  | mapped xtlb =>
    dsimp only
    unfold tlbLookup
    rw [tlbWalk_eq]
    cases tlbResult v acc xtlb (s.entryHi % 0x100) s.tlb <;> rfl

theorem tlbResult_agree {v : Nat} {xtlb : Bool} {asid : Nat} {es : List TlbEntry} {acc acc' : Access}
    {r r' : Nat × Bool} (h : tlbResult v acc xtlb asid es = .ok r)
    (h' : tlbResult v acc' xtlb asid es = .ok r') : r = r' := by
  induction es with
  | nil => cases h
  | cons e es ih =>
    unfold tlbResult at h h'
    by_cases hh : e.hits v asid xtlb
    · rw [hh] at h h'
      simp only [Bool.not_true, Bool.false_eq_true, if_false] at h h'
      split_ifs at h h'
      exact Except.ok.inj (h.symm.trans h')
    · rw [Bool.not_eq_true] at hh
      rw [hh] at h h'
      exact ih h h'

/-- Where a load and a store both translate, they translate to the same. -/
theorem xlatResult_agree {st entryHi v : Nat} {tlb : List TlbEntry} {acc acc' : Access}
    {r r' : Nat × Option Bool} (h : xlatResult st entryHi tlb v acc = .ok r)
    (h' : xlatResult st entryHi tlb v acc' = .ok r') : r = r' := by
  unfold xlatResult at h h'
  cases hr : route st v with
  | bad => rw [hr] at h; cases h
  | direct p =>
    rw [hr] at h h'
    exact Except.ok.inj (h.symm.trans h')
  | latched p cached =>
    rw [hr] at h h'
    exact Except.ok.inj (h.symm.trans h')
  | mapped xtlb =>
    rw [hr] at h h'
    dsimp only at h h'
    cases hw : tlbResult v acc xtlb (entryHi % 0x100) tlb with
    | error e => rw [hw] at h; cases h
    | ok q =>
      cases hw' : tlbResult v acc' xtlb (entryHi % 0x100) tlb with
      | error e => rw [hw'] at h'; cases h'
      | ok q' =>
        rw [hw] at h
        rw [hw'] at h'
        cases h
        cases h'
        rw [tlbResult_agree hw hw']

end Cpu
