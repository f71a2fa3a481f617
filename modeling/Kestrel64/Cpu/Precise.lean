import Kestrel64.Cpu.Interp
import Kestrel64.Cpu.WriteBarrier
import Mathlib.Tactic.IntervalCases

/-! # CPU: Precise Exceptions

    A fault sets a flag and the body of the instruction runs on. `Trapped` is
    what every exception leaves behind whatever the instruction does next:
    the registers, `EPC`, `Cause`, the vector. `execute_outcome` says that an
    instruction of `execute` raises none, or a floating-point one, or leaves
    the core trapped with the registers of coprocessor 1 of `fprAfter` and
    the memory of `beforeFault`.

    Three things keep this from being precise.

    * `LWC1` and `LDC1` write the zero a faulting load returns.
    * `EPC` has 32 bits, and in a delay slot is the word before the slot.
    * An unaligned store that the watch point stops has read its word, with
      what a read may do to the cache, the journal and the devices.

    `precise_iff` says that these are all.
-/

namespace Cpu

variable {Dev : Type}

/-! ## Section 1: What an exception leaves behind -/

/-- `Cause.ExcCode` -/
def Core.excCode (c : Core Dev) : BitVec 5 := (c.cop0 c0Cause >>> 2).setWidth 5

/-- `Cause.BD` -/
def Core.bd (c : Core Dev) : Bool := (c.cop0 c0Cause).getLsbD 31

/-- `Status.EXL` -/
def Core.exl (c : Core Dev) : Bool := c.status.testBit 1

/-- 64-bit addressing in the current mode. -/
def wide (st : Nat) : Bool :=
  if cpuMode st = 2 then st.testBit 5 else if cpuMode st = 1 then st.testBit 6 else st.testBit 7

/-- No entry of the TLB matches the address. -/
def Core.missed (c : Core Dev) (v : BitVec 64) : Bool :=
  c.cpu.tlb.all fun e => !e.hits v.toNat (c.cpu.entryHi % 0x100) (wide c.status)

/-- Where an exception goes: the refill vectors serve a TLB exception
    without a matching entry, unless `EXL` is set. -/
def Core.rightVector (c : Core Dev) (code : BitVec 5) (bad : BitVec 64) : BitVec 64 :=
  let base : BitVec 64 :=
    if c.status.testBit 22 then 0xffffffffbfc00200 else 0xffffffff80000000
  let refill := (code == 2 || code == 3) && c.missed bad
  base + if refill && !c.exl then (if wide c.status then 0x080 else 0x000) else 0x180

/-- `c'` is in the exception handler, and nothing else of the core that the
    instruction could write has moved. -/
structure Trapped (c c' : Core Dev) : Prop where
  once : c'.exceptions = c.exceptions + 1
  gpr : c'.cpu.gpr = c.cpu.gpr
  hi : c'.hi = c.hi
  lo : c'.lo = c.lo
  llbit : c'.mach.llbit = c.mach.llbit
  epc : c'.cop0 c0EPC = if c.exl then c.cop0 c0EPC else sext (c.epc.setWidth 32)
  bd : c'.bd = if c.exl then c.bd else c.inDelay
  vector : c'.pc = c.rightVector c'.excCode (c'.cop0 c0BadVAddr)
  next : c'.nextPc = c'.pc + 4
  inDelay : c'.inDelay = false
  branch : c'.justBranched = c.justBranched
  bump : c'.xlatEpoch = (c.xlatEpoch + 1) % 2 ^ 32

/-- The two agree on all an exception reads. -/
structure Front (c c' : Core Dev) : Prop where
  exceptions : c'.exceptions = c.exceptions
  gpr : c'.cpu.gpr = c.cpu.gpr
  hi : c'.hi = c.hi
  lo : c'.lo = c.lo
  llbit : c'.mach.llbit = c.mach.llbit
  status : c'.status = c.status
  epc : c'.cop0 c0EPC = c.cop0 c0EPC
  cause : c'.cop0 c0Cause = c.cop0 c0Cause
  curPc : c'.curPc = c.curPc
  inDelay : c'.inDelay = c.inDelay
  branch : c'.justBranched = c.justBranched
  epoch : c'.xlatEpoch = c.xlatEpoch

theorem Front.refl (c : Core Dev) : Front c c :=
  ⟨rfl, rfl, rfl, rfl, rfl, rfl, rfl, rfl, rfl, rfl, rfl, rfl⟩

/-! ### The bits of `Cause` -/

theorem sext_bit {i : Nat} (h : i < 32) (x : BitVec 32) : (sext x).getLsbD i = x.getLsbD i := by
  unfold sext
  rw [BitVec.getLsbD_signExtend, if_pos h, decide_eq_true (by omega), Bool.true_and]

/-- A bit of `Cause` after an exception that no mask or field covers. -/
theorem nextCause_bit (cause : BitVec 32) (code : Nat) (exl bd : Bool) {i : Nat}
    (h7c : (0x7c : BitVec 32).getLsbD i = true) (hce : (0x30000000 : BitVec 32).getLsbD i = false)
    (hbd : (0x80000000 : BitVec 32).getLsbD i = false) (hi : i < 32) :
    (nextCause cause code exl bd).getLsbD i = (code % 0x20 * 4).testBit i := by
  unfold nextCause
  split_ifs <;>
    simp only [BitVec.getLsbD_or, BitVec.getLsbD_and, BitVec.getLsbD_not, BitVec.getLsbD_ofNat,
      h7c, hce, hbd, hi, decide_true, Bool.not_true, Bool.not_false, Bool.and_false,
      Bool.and_true, Bool.false_or, Bool.or_false, Bool.true_and]

theorem nextCause_code (cause : BitVec 32) (code : Nat) (exl bd : Bool) :
    (sext (nextCause cause code exl bd) >>> 2).setWidth 5 = BitVec.ofNat 5 code := by
  apply BitVec.eq_of_getLsbD_eq
  intro i hi
  have hcode : (code % 0x20 * 4).testBit (2 + i) = code.testBit i := by
    rw [show code % 0x20 * 4 = 2 ^ 2 * (code % 2 ^ 5) by omega, Nat.testBit_two_pow_mul,
      Nat.testBit_mod_two_pow]
    simp [hi]
  rw [BitVec.getLsbD_setWidth, BitVec.getLsbD_ushiftRight, sext_bit (by omega),
    nextCause_bit cause code exl bd _ _ _ (by omega), hcode, BitVec.getLsbD_ofNat]
  · interval_cases i <;> rfl
  · interval_cases i <;> rfl
  · interval_cases i <;> rfl

theorem nextCause_bd (cause : BitVec 32) (code : Nat) (exl bd : Bool) :
    (nextCause cause code exl bd).getLsbD 31 = if exl then cause.getLsbD 31 else bd := by
  have hcode : (code % 0x20 * 4).testBit 31 = false := Nat.testBit_lt_two_pow (by omega)
  have h7c : (0x7c : BitVec 32).getLsbD 31 = false := rfl
  have hce : (0x30000000 : BitVec 32).getLsbD 31 = false := rfl
  have hbd : (0x80000000 : BitVec 32).getLsbD 31 = true := rfl
  unfold nextCause
  cases exl <;> cases bd <;>
    simp only [Bool.false_eq_true, if_true, if_false, BitVec.getLsbD_or, BitVec.getLsbD_and,
      BitVec.getLsbD_not, BitVec.getLsbD_ofNat, hcode, h7c, hce, hbd, Bool.not_true,
      Bool.not_false, Bool.and_false, Bool.and_true, Bool.or_false, Bool.or_true]
  all_goals simp only [Nat.reduceLT, decide_true, Bool.and_true]

/-- `Cause.CE` is neither the code nor the delay slot bit. -/
theorem setCe_bit (c : Core Dev) (ce : Nat) {i : Nat} (hi : i < 32)
    (h : (0x30000000 : BitVec 32).getLsbD i = false) (h' : i < 28 ∨ 30 ≤ i) :
    ((c.setCe ce).cop0 c0Cause).getLsbD i = (c.cop0 c0Cause).getLsbD i := by
  have hce : (ce % 4 * 2 ^ 28).testBit i = false := by
    rw [Nat.mul_comm, Nat.testBit_two_pow_mul]
    rcases h' with hlo | hhi
    · rw [decide_eq_false (by omega), Bool.false_and]
    · rw [Nat.testBit_lt_two_pow, Bool.and_false]
      calc ce % 4 < 2 ^ 2 := Nat.mod_lt _ (by decide)
        _ ≤ 2 ^ (i - 28) := Nat.pow_le_pow_right (by decide) (by omega)
  unfold Core.setCe Core.setCop0
  dsimp only
  rw [if_pos rfl, sext_bit hi]
  simp only [BitVec.getLsbD_or, BitVec.getLsbD_and, BitVec.getLsbD_not, BitVec.getLsbD_ofNat,
    BitVec.getLsbD_setWidth, h, hce, hi, decide_true, Bool.not_false, Bool.and_true,
    Bool.true_and, Bool.and_false, Bool.or_false]

theorem setCe_excCode (c : Core Dev) (ce : Nat) : (c.setCe ce).excCode = c.excCode := by
  apply BitVec.eq_of_getLsbD_eq
  intro i hi
  unfold Core.excCode
  rw [BitVec.getLsbD_setWidth, BitVec.getLsbD_setWidth, BitVec.getLsbD_ushiftRight,
    BitVec.getLsbD_ushiftRight, setCe_bit c ce (by omega) _ (by omega)]
  interval_cases i <;> rfl

theorem setCe_bd (c : Core Dev) (ce : Nat) : (c.setCe ce).bd = c.bd :=
  setCe_bit c ce (by decide) rfl (by decide)

/-! ## Section 2: Faults -/

/-- `takeException` from a core that agrees with `c`, at the vector that is
    right for `c`. -/
theorem takeException_trapped {c c' : Core Dev} (h : Front c c') (code : Nat) (refill xtlb : Bool)
    (hvec : vectorOf c.status refill xtlb =
      c.rightVector (BitVec.ofNat 5 code) (c'.cop0 c0BadVAddr)) :
    Trapped c (takeException code refill xtlb c') := by
  have hcode : (takeException code refill xtlb c').excCode = BitVec.ofNat 5 code :=
    nextCause_code _ _ _ _
  have hepc : c'.epc = c.epc := by
    unfold Core.epc
    rw [h.inDelay, h.curPc]
  constructor
  case once => exact congrArg (· + 1) h.exceptions
  case gpr => exact h.gpr
  case hi => exact h.hi
  case lo => exact h.lo
  case llbit => exact h.llbit
  case epc =>
    show (if c'.status.testBit 1 then c'.cop0 c0EPC else sext (c'.epc.setWidth 32)) = _
    rw [h.status, h.epc, hepc]
    rfl
  case bd =>
    show (sext (nextCause _ code (c'.status.testBit 1) c'.inDelay)).getLsbD 31 = _
    rw [sext_bit (by decide), nextCause_bd, h.status, h.inDelay, h.cause,
      BitVec.getLsbD_setWidth]
    rfl
  case vector =>
    rw [hcode]
    show vectorOf c'.status refill xtlb = _
    rw [h.status, hvec]
    rfl
  case next => rfl
  case inDelay => rfl
  case branch => exact h.branch
  case bump => exact congrArg (fun n => (n + 1) % 2 ^ 32) h.epoch

/-- An exception that no TLB miss can be taken for. -/
theorem rightVector_general {code : BitVec 5} (h2 : code ≠ 2) (h3 : code ≠ 3) (c : Core Dev)
    (bad : BitVec 64) : vectorOf c.status false false = c.rightVector code bad := by
  unfold vectorOf Core.rightVector
  dsimp only
  rw [beq_eq_false_iff_ne.mpr h2, beq_eq_false_iff_ne.mpr h3]
  rfl

theorem raise_trapped {c c' : Core Dev} (h : Front c c') {code : Nat}
    (h2 : BitVec.ofNat 5 code ≠ 2) (h3 : BitVec.ofNat 5 code ≠ 3) : Trapped c (raise code c') :=
  takeException_trapped h code false false (rightVector_general h2 h3 c _)

theorem Trapped.setCe {c c' : Core Dev} (h : Trapped c c') (ce : Nat) : Trapped c (c'.setCe ce) :=
  { once := h.once
    gpr := h.gpr
    hi := h.hi
    lo := h.lo
    llbit := h.llbit
    epc := h.epc
    bd := (setCe_bd c' ce).trans h.bd
    vector := by
      rw [setCe_excCode]
      exact h.vector
    next := h.next
    inDelay := h.inDelay
    branch := h.branch
    bump := h.bump }

theorem Trapped.setFpr {c c' : Core Dev} (h : Trapped c c') (f : Fin 32 → BitVec 64) :
    Trapped c (c'.setCpu { c'.cpu with fpr := f }) :=
  ⟨h.once, h.gpr, h.hi, h.lo, h.llbit, h.epc, h.bd, h.vector, h.next, h.inDelay, h.branch, h.bump⟩

/-! ### Translation faults -/

/-- The addressing width of a mapped address is the mode's. -/
theorem route_wide {st v : Nat} {xtlb : Bool} (h : route st v = .mapped xtlb) : xtlb = wide st := by
  have h32 : ∀ x, route32 st v = .mapped x → x = false := by
    intro x hx
    unfold route32 at hx
    dsimp only at hx
    split_ifs at hx <;> cases hx <;> rfl
  have hk : ∀ x, route64Kernel st v = .mapped x → x = true := by
    intro x hx
    unfold route64Kernel at hx
    split_ifs at hx <;> cases hx <;> rfl
  have h64 : ∀ x, route64 st v = .mapped x → x = true := by
    intro x hx
    unfold route64 at hx
    split_ifs at hx
    case neg => exact hk x hx
    all_goals cases hx; rfl
  unfold route at h
  dsimp only at h
  change (if wide st = true then route64 st v else route32 st v) = _ at h
  split_ifs at h with hw
  · rw [h64 _ h, hw]
  · rw [h32 _ h, Bool.not_eq_true _ |>.mp hw]

/-- A refill means that nothing matches; any other fault of the TLB, that
    something does. -/
theorem tlbResult_error {v : Nat} {acc : Access} {xtlb : Bool} {asid : Nat} {es : List TlbEntry}
    {e : Exc} (h : tlbResult v acc xtlb asid es = .error e) :
    (e = .tlbRefill acc xtlb ∧ es.all (fun t => !t.hits v asid xtlb) = true) ∨
      ((e = .tlbInvalid acc ∨ e = .tlbModified) ∧
        es.all (fun t => !t.hits v asid xtlb) = false) := by
  induction es with
  | nil =>
    left
    exact ⟨(Except.error.inj h).symm, rfl⟩
  | cons t es ih =>
    unfold tlbResult at h
    rw [List.all_cons]
    split_ifs at h with hh hv hd
    · rw [hh, Bool.true_and]
      exact ih h
    · right
      rw [Bool.not_eq_true] at hh
      exact ⟨.inl (Except.error.inj h).symm, by rw [hh, Bool.false_and]⟩
    · right
      rw [Bool.not_eq_true] at hh
      exact ⟨.inr (Except.error.inj h).symm, by rw [hh, Bool.false_and]⟩

/-- The fault of a translation vectors where it should. -/
theorem translate_error {v : BitVec 64} {acc : Access} {c : Core Dev} {e : Exc}
    (h : translate false v.toNat acc c.cpu = .error e) :
    vectorOf c.status e.refill.1 e.refill.2 = c.rightVector (BitVec.ofNat 5 e.code) v := by
  rw [translate_eq] at h
  unfold xlatResult at h
  cases hr : route c.cpu.status v.toNat with
  | bad =>
    rw [hr] at h
    cases h
    refine rightVector_general ?_ ?_ c v <;> cases acc <;> decide
  | direct p => rw [hr] at h; cases h
  | latched p cached => rw [hr] at h; cases h
  | mapped xtlb =>
    rw [hr] at h
    dsimp only at h
    cases hw : tlbResult v.toNat acc xtlb (c.cpu.entryHi % 0x100) c.cpu.tlb with
    | ok q => rw [hw] at h; cases h
    | error e' =>
      rw [hw] at h
      cases h
      have hx := route_wide hr
      subst hx
      rcases tlbResult_error hw with ⟨rfl, hm⟩ | ⟨he, hm⟩
      · have hcode : (BitVec.ofNat 5 (Exc.tlbRefill acc (wide c.cpu.status)).code == 2 ||
            BitVec.ofNat 5 (Exc.tlbRefill acc (wide c.cpu.status)).code == 3) = true := by
          cases acc <;> rfl
        unfold Core.rightVector Core.missed Core.exl
        dsimp only
        rw [hcode, hm]
        rfl
      · have hrefill : e.refill = (false, false) := by
          rcases he with rfl | rfl <;> rfl
        unfold Core.rightVector Core.missed
        dsimp only
        rw [hm, hrefill, Bool.and_false]
        rfl

theorem sext32_bit26 (st : Nat) : (sext32 (st % 2 ^ 32 ||| 2)).testBit 26 = st.testBit 26 := by
  have hlow : (sext32 (st % 2 ^ 32 ||| 2)) % 2 ^ 32 = (st % 2 ^ 32 ||| 2) % 2 ^ 32 := by
    unfold sext32
    split_ifs <;> omega
  have hbit : ∀ n : Nat, n.testBit 26 = (n % 2 ^ 32).testBit 26 := by
    intro n
    rw [Nat.testBit_mod_two_pow]
    rfl
  rw [hbit, hlow, ← hbit, Nat.testBit_or, ← hbit]
  have h2 : Nat.testBit 2 26 = false := by decide
  rw [h2, Bool.or_false]

/-- What a fault leaves alone besides the registers. -/
structure Untouched (c c' : Core Dev) : Prop where
  fpr : c'.cpu.fpr = c.cpu.fpr
  fr : c'.status.testBit 26 = c.status.testBit 26
  mem : c'.cpu.mem = c.cpu.mem
  dcache : c'.cpu.dcache = c.cpu.dcache
  abort : c'.memAbort = true

theorem fault_trapped {c : Core Dev} {v : BitVec 64} {e : Exc}
    (h : vectorOf c.status e.refill.1 e.refill.2 = c.rightVector (BitVec.ofNat 5 e.code) v) :
    Trapped c (c.fault v e) ∧ Untouched c (c.fault v e) := by
  unfold Core.fault
  constructor
  · refine takeException_trapped ?_ _ _ _ ?_
    · split_ifs <;> exact ⟨rfl, rfl, rfl, rfl, rfl, rfl, rfl, rfl, rfl, rfl, rfl, rfl⟩
    · split_ifs <;> exact h
  · split_ifs <;> exact ⟨rfl, sext32_bit26 c.status, rfl, rfl, rfl⟩

theorem alignFault_trapped (c : Core Dev) (v : BitVec 64) (acc : Access) :
    Trapped c (c.fault v (.addressError acc)) ∧ Untouched c (c.fault v (.addressError acc)) := by
  apply fault_trapped
  refine rightVector_general ?_ ?_ c v <;> cases acc <;> decide

/-! ## Section 3: Accesses -/

/-- The state an access that does not fault leaves: the registers and what a
    translation reads stay. -/
structure QuietCpu (s t : State Dev) : Prop where
  gpr : t.gpr = s.gpr
  fpr : t.fpr = s.fpr
  status : t.status = s.status
  entryHi : t.entryHi = s.entryHi
  tlb : t.tlb = s.tlb

def Quiet (c c' : Core Dev) : Prop := ∃ t, QuietCpu c.cpu t ∧ c' = c.setCpu t

theorem Quiet.refl (c : Core Dev) : Quiet c c := ⟨c.cpu, ⟨rfl, rfl, rfl, rfl, rfl⟩, rfl⟩

theorem Quiet.trans {c c' c'' : Core Dev} (h : Quiet c c') (h' : Quiet c' c'') : Quiet c c'' := by
  obtain ⟨t, ht, rfl⟩ := h
  obtain ⟨t', ht', rfl⟩ := h'
  exact ⟨t', ⟨ht'.gpr.trans ht.gpr, ht'.fpr.trans ht.fpr, ht'.status.trans ht.status,
    ht'.entryHi.trans ht.entryHi, ht'.tlb.trans ht.tlb⟩, rfl⟩

theorem Quiet.front {c c' : Core Dev} (h : Quiet c c') : Front c c' := by
  obtain ⟨t, ht, rfl⟩ := h
  exact ⟨rfl, ht.gpr, rfl, rfl, rfl, ht.status, rfl, rfl, rfl, rfl, rfl, rfl⟩

theorem Quiet.abort {c c' : Core Dev} (h : Quiet c c') : c'.memAbort = c.memAbort := by
  obtain ⟨t, -, rfl⟩ := h
  rfl

theorem Quiet.fpr {c c' : Core Dev} (h : Quiet c c') : c'.cpu.fpr = c.cpu.fpr := by
  obtain ⟨t, ht, rfl⟩ := h
  exact ht.fpr

/-- An exception after accesses that did not fault is one of the core in
    front of them. -/
theorem Trapped.of_quiet {c c' c'' : Core Dev} (h : Quiet c c') (ht : Trapped c' c'') :
    Trapped c c'' := by
  obtain ⟨t, q, rfl⟩ := h
  have hexl : (c.setCpu t).exl = c.exl := congrArg (·.testBit 1) q.status
  have hmiss : ∀ v, (c.setCpu t).missed v = c.missed v := by
    intro v
    show t.tlb.all (fun e => !e.hits v.toNat (t.entryHi % 0x100) (wide t.status)) = _
    rw [q.tlb, q.entryHi, q.status]
    rfl
  have hvec : ∀ code bad, (c.setCpu t).rightVector code bad = c.rightVector code bad := by
    intro code bad
    unfold Core.rightVector
    rw [hmiss, hexl]
    show (if t.status.testBit 22 then _ else _) +
      (if _ then (if wide t.status then _ else _) else _) = _
    rw [q.status]
  exact
    { once := ht.once
      gpr := ht.gpr.trans q.gpr
      hi := ht.hi
      lo := ht.lo
      llbit := ht.llbit
      epc := by rw [ht.epc, hexl]; rfl
      bd := by rw [ht.bd, hexl]; rfl
      vector := by rw [ht.vector, hvec]
      next := ht.next
      inDelay := ht.inDelay
      branch := ht.branch
      bump := ht.bump }

theorem xlatTo_cases (v : BitVec 64) (acc : Access) {c : Core Dev} (h : c.memAbort = false) :
    (∃ p s, c.xlatTo v acc = (c.setCpu s, some p) ∧
      s = { c.cpu with xlatCacheable := s.xlatCacheable }) ∨
    ∃ c', c.xlatTo v acc = (c', none) ∧ Trapped c c' ∧ Untouched c c' := by
  unfold Core.xlatTo
  rw [h, xlat_eq_translate]
  cases hx : translate false v.toNat acc c.cpu with
  | error e =>
    right
    exact ⟨_, rfl, fault_trapped (translate_error hx)⟩
  | ok r =>
    obtain ⟨p, s⟩ := r
    left
    obtain ⟨-, b, rfl⟩ := translate_translated _ _ _ p s hx
    exact ⟨p, _, rfl, rfl⟩

/-- An access passes its gates, and only the cache attribute has been
    latched; or it raises one exception. -/
theorem reach_cases (v : BitVec 64) (size : Nat) (acc : Access) {c : Core Dev}
    (h : c.memAbort = false) :
    (∃ p s, c.reach v size acc = (c.setCpu s, some p) ∧
      s = { c.cpu with xlatCacheable := s.xlatCacheable }) ∨
    ∃ c', c.reach v size acc = (c', none) ∧ Trapped c c' ∧ Untouched c c' := by
  unfold Core.reach
  split_ifs with halign
  · right
    exact ⟨_, rfl, alignFault_trapped c v acc⟩
  · rcases xlatTo_cases v acc h with ⟨p, s, hx, hs⟩ | ⟨c', hx, ht, hu⟩
    · rw [hx]
      dsimp only
      split_ifs with hw
      · right
        refine ⟨_, rfl, raise_trapped ?_ (by decide) (by decide), ?_⟩
        · rw [hs]
          exact ⟨rfl, rfl, rfl, rfl, rfl, rfl, rfl, rfl, rfl, rfl, rfl, rfl⟩
        · rw [hs]
          exact ⟨rfl, sext32_bit26 c.status, rfl, rfl, rfl⟩
      · left
        exact ⟨p, s, rfl, hs⟩
    · rw [hx]
      right
      exact ⟨c', rfl, ht, hu⟩

/-- Once an access has faulted the aligned ones do nothing. -/
theorem reach_abort {v : BitVec 64} {size : Nat} (hv : v.toNat % size = 0) (acc : Access)
    {c : Core Dev} (h : c.memAbort = true) : c.reach v size acc = (c, none) := by
  unfold Core.reach Core.xlatTo
  rw [if_neg (by omega), h]
  rfl

section Accesses

variable (D : Devices Dev) (pak : Pak)

theorem dcTouch_quiet (pe : Nat) (s : State Dev) : QuietCpu s (dcTouch D pak pe s) := by
  unfold dcTouch dcMiss
  dsimp only
  split_ifs <;> exact ⟨rfl, rfl, rfl, rfl, rfl⟩

theorem uncachedRead_quiet (pe size : Nat) (s : State Dev) :
    QuietCpu s (uncachedRead D pak pe size s).2 := by
  unfold uncachedRead busLoad ramSettle
  dsimp only
  split_ifs <;> exact ⟨rfl, rfl, rfl, rfl, rfl⟩

/-- The two ways a load reads. -/
theorem read_quiet (b : Bool) (pe size : Nat) (s : State Dev) :
    QuietCpu s (if b then dcRead D pak pe size s else uncachedRead D pak pe size s).2 := by
  split_ifs
  · exact dcTouch_quiet D pak pe s
  · exact uncachedRead_quiet D pak pe size s

/-- A load is quiet, or it traps and returns 0. -/
theorem load_cases (size : Nat) (v : BitVec 64) {c : Core Dev} (h : c.memAbort = false) :
    Quiet c (Core.load D pak size v c).2 ∨
      ((Core.load D pak size v c).1 = 0 ∧ Trapped c (Core.load D pak size v c).2 ∧
        Untouched c (Core.load D pak size v c).2) := by
  unfold Core.load
  rcases reach_cases v size .read h with ⟨p, s, hr, hs⟩ | ⟨c', hr, ht, hu⟩
  · rw [hr]
    left
    have hq := read_quiet D pak
      (inRdram pak v.toNat (busAddr s.status p size) s) (busAddr s.status p size) size s
    refine ⟨_, ⟨?_, ?_, ?_, ?_, ?_⟩, rfl⟩
    · exact hq.gpr.trans (by rw [hs])
    · exact hq.fpr.trans (by rw [hs])
    · exact hq.status.trans (by rw [hs])
    · exact hq.entryHi.trans (by rw [hs])
    · exact hq.tlb.trans (by rw [hs])
  · rw [hr]
    right
    exact ⟨rfl, ht, hu⟩

theorem load_abort {size : Nat} {v : BitVec 64} (hv : v.toNat % size = 0) {c : Core Dev}
    (h : c.memAbort = true) : Core.load D pak size v c = (0, c) := by
  unfold Core.load
  rw [reach_abort hv .read h]

/-- A store raises nothing, or it traps and has stored nothing. -/
theorem store_cases (size : Nat) (v x : BitVec 64) {c : Core Dev} (h : c.memAbort = false) :
    (Core.store D pak size v x c).exceptions = c.exceptions ∨
      (Trapped c (Core.store D pak size v x c) ∧ Untouched c (Core.store D pak size v x c)) := by
  unfold Core.store
  rcases reach_cases v size .write h with ⟨p, s, hr, -⟩ | ⟨c', hr, ht, hu⟩
  · rw [hr]
    left
    rfl
  · rw [hr]
    right
    exact ⟨ht, hu⟩

theorem store_abort {size : Nat} {v : BitVec 64} (hv : v.toNat % size = 0) (x : BitVec 64)
    {c : Core Dev} (h : c.memAbort = true) : Core.store D pak size v x c = c := by
  unfold Core.store
  rw [reach_abort hv .write h]

end Accesses

/-! ## Section 4: What an instruction leaves behind -/

/-- `c'` has raised nothing, or a floating-point exception, or it is trapped
    with the coprocessor's registers `fpr` and the memory of `b`. -/
def Outcome (c : Core Dev) (fpr : Fin 32 → BitVec 64) (b c' : Core Dev) : Prop :=
  c'.exceptions = c.exceptions ∨ c'.excCode = 15 ∨
    (Trapped c c' ∧ c'.cpu.fpr = fpr ∧ c'.cpu.mem = b.cpu.mem ∧ c'.cpu.dcache = b.cpu.dcache)

theorem Outcome.calm {c b c' : Core Dev} {fpr : Fin 32 → BitVec 64}
    (h : c'.exceptions = c.exceptions) : Outcome c fpr b c' := .inl h

theorem Outcome.stopped {c c' : Core Dev} (ht : Trapped c c') (hu : Untouched c c') :
    Outcome c c.cpu.fpr c c' :=
  .inr (.inr ⟨ht, hu.fpr, hu.mem, hu.dcache⟩)

@[simp] theorem set_exceptions (c : Core Dev) (i : Fin 32) (v : BitVec 64) :
    (c.set i v).exceptions = c.exceptions := by
  unfold Core.set
  split_ifs <;> rfl

@[simp] theorem set_abort {c : Core Dev} (h : c.memAbort = true) (i : Fin 32) (v : BitVec 64) :
    c.set i v = c := by
  unfold Core.set
  rw [h]
  rfl

theorem raise_outcome (c : Core Dev) (e : Cond) : Outcome c c.cpu.fpr c (raise e.code c) := by
  refine .inr (.inr ⟨raise_trapped (Front.refl c) ?_ ?_, rfl, rfl, rfl⟩) <;> cases e <;> decide

theorem perform_outcome (c : Core Dev) (e : Eff) : Outcome c c.cpu.fpr c (c.perform e) := by
  cases e with
  | raise e => exact raise_outcome c e
  | raiseCe e ce =>
    refine .inr (.inr ⟨(raise_trapped (Front.refl c) ?_ ?_).setCe ce, rfl, rfl, rfl⟩) <;>
      cases e <;> decide
  | nop => exact .calm rfl
  | set i v => exact .calm (set_exceptions c i v)
  | hilo hi lo => exact .calm rfl
  | mulDiv cost hi lo =>
    apply Outcome.calm
    unfold Core.perform Core.chargeMulDiv
    dsimp only
    split_ifs <;> rfl
  | jump link target =>
    apply Outcome.calm
    cases link with
    | none => rfl
    | some r => exact set_exceptions c r _
  | branch likely link taken target =>
    apply Outcome.calm
    unfold Core.perform
    cases likely <;> cases link <;> cases taken <;> first
      | rfl
      | exact set_exceptions c 31 _
  | fpr32 i v => exact .calm rfl
  | fpr64 i v => exact .calm rfl
  | cp2 v => exact .calm rfl

section Reads

variable (D : Devices Dev) (pak : Pak)

/-- The bytes `XLOG` reads in front of the one that faults. -/
def xlogReads : Nat → BitVec 64 → Core Dev → Core Dev
  | 0, _, c => c
  | n + 1, ptr, c =>
    let c' := (Core.load D pak 1 ptr c).2
    if c'.memAbort then c else xlogReads n (ptr + 1) c'

/-- The read half of an unaligned store. -/
def unalignedReads (op : UnOp) (a : BitVec 64) (c : Core Dev) : Core Dev :=
  match c.xlatTo a .write with
  | (_, none) => c
  | (c, some _) => (Core.loadNoWatch D pak op.width (alignDown a op.width) c).2

theorem xlog_abort (n : Nat) (ptr : BitVec 64) {c : Core Dev} (h : c.memAbort = true) :
    xlog D pak n ptr c = c := by
  induction n generalizing ptr with
  | zero => rfl
  | succ n ih =>
    unfold xlog
    rw [load_abort D pak (Nat.mod_one _) h]
    exact ih (ptr + 1)

/-- The first byte that faults ends the reading; the rest of the loop does
    nothing. -/
theorem xlog_outcome (n : Nat) (ptr : BitVec 64) {c : Core Dev} (h : c.memAbort = false) :
    Outcome c c.cpu.fpr (xlogReads D pak n ptr c) (xlog D pak n ptr c) := by
  induction n generalizing ptr c with
  | zero => exact .calm rfl
  | succ n ih =>
    unfold xlog xlogReads
    dsimp only
    rcases load_cases D pak 1 ptr h with hq | ⟨-, ht, hu⟩
    · have habort := hq.abort.trans h
      rw [if_neg (by rw [habort]; decide)]
      -- the exception, if there is one, comes from a later byte
      rcases ih (ptr + 1) habort with he | he | ⟨ht, hf, hm, hd⟩
      · exact .calm (he.trans hq.front.exceptions)
      · exact .inr (.inl he)
      · exact .inr (.inr ⟨ht.of_quiet hq, hf.trans hq.fpr, hm, hd⟩)
    · rw [if_pos hu.abort, xlog_abort D pak n _ hu.abort]
      exact .stopped ht hu

theorem emuxOp_outcome (w : BitVec 32) {c : Core Dev} (h : c.memAbort = false) :
    Outcome c c.cpu.fpr
      (if opFunct w = 0x25 then
        xlogReads D pak (xlogLen (c.cpu.gpr (emuxRt w)))
          (c.cpu.gpr (emuxRd w)) c
      else c) (emuxOp D pak w c) := by
  by_cases hf : opFunct w = 0x25
  · rw [if_pos hf]
    unfold emuxOp
    rw [hf]
    exact xlog_outcome D pak _ _ h
  · rw [if_neg hf]
    unfold emuxOp
    dsimp only
    split
    · exact .calm (set_exceptions c _ _)
    · rename_i hf'
      exact absurd hf' hf
    · split_ifs <;> exact .calm rfl
    · exact .calm rfl

theorem alignDown_mod (a : BitVec 64) (w : Nat) : (alignDown a w).toNat % w = 0 := by
  unfold alignDown
  have hlt : a.toNat / w * w < 2 ^ 64 := lt_of_le_of_lt (Nat.div_mul_le_self _ _) a.isLt
  rw [BitVec.toNat_ofNat, Nat.mod_eq_of_lt hlt, Nat.mul_mod_left]

theorem loadNoWatch_cases (size : Nat) (v : BitVec 64) {c : Core Dev} (h : c.memAbort = false) :
    Quiet c (Core.loadNoWatch D pak size v c).2 ∨
      (Trapped c (Core.loadNoWatch D pak size v c).2 ∧
        Untouched c (Core.loadNoWatch D pak size v c).2) := by
  rcases load_cases D pak size v (c := { c with watchArmed := false }) h with
    ⟨t, ht, hq⟩ | ⟨-, ht, hu⟩
  · left
    refine ⟨t, ht, ?_⟩
    unfold Core.loadNoWatch
    dsimp only
    rw [hq]
    rfl
  · right
    exact ⟨⟨ht.once, ht.gpr, ht.hi, ht.lo, ht.llbit, ht.epc, ht.bd, ht.vector, ht.next,
      ht.inDelay, ht.branch, ht.bump⟩, ⟨hu.fpr, hu.fr, hu.mem, hu.dcache, hu.abort⟩⟩

theorem unalignedStore_outcome {op : UnOp} (hop : op.store = true) (rt : Fin 32) (a : BitVec 64)
    {c : Core Dev} (h : c.memAbort = false) :
    Outcome c c.cpu.fpr (unalignedReads D pak op a c) (Core.execUnaligned D pak op rt a c) := by
  unfold Core.execUnaligned unalignedReads
  dsimp only
  rw [hop, if_pos rfl]
  rcases xlatTo_cases a .write h with ⟨p, s, hx, hs⟩ | ⟨c', hx, ht, hu⟩
  · rw [hx]
    dsimp only
    have hq0 : Quiet c (c.setCpu s) := by
      refine ⟨s, ?_, rfl⟩
      rw [hs]
      exact ⟨rfl, rfl, rfl, rfl, rfl⟩
    have h0 : (c.setCpu s).memAbort = false := h
    rcases loadNoWatch_cases D pak op.width (alignDown a op.width) h0 with hq | ⟨ht, hu⟩
    · have hq1 := hq0.trans hq
      have h1 := hq1.abort.trans h
      rcases store_cases D pak op.width (alignDown a op.width)
        (op.stored (op.shift c.status a.toNat) _ _) h1 with he | ⟨ht, hu⟩
      · exact .calm (he.trans hq1.front.exceptions)
      · exact .inr (.inr ⟨ht.of_quiet hq1, hu.fpr.trans hq1.fpr, hu.mem, hu.dcache⟩)
    · rw [store_abort D pak (alignDown_mod a op.width) _ hu.abort]
      exact .inr (.inr ⟨ht.of_quiet hq0, hu.fpr.trans hq0.fpr, rfl, rfl⟩)
  · rw [hx]
    exact .stopped ht hu

theorem unalignedLoad_outcome {op : UnOp} (hop : op.store = false) (rt : Fin 32) (a : BitVec 64)
    {c : Core Dev} (h : c.memAbort = false) :
    Outcome c c.cpu.fpr c (Core.execUnaligned D pak op rt a c) := by
  unfold Core.execUnaligned
  dsimp only
  rw [hop, if_neg Bool.false_ne_true]
  rcases load_cases D pak op.width (alignDown a op.width) h with hq | ⟨-, ht, hu⟩
  · exact .calm ((set_exceptions _ _ _).trans hq.front.exceptions)
  · rw [set_abort hu.abort]
    exact .stopped ht hu

theorem storeAt_outcome (i : Instr) (a : BitVec 64) {c : Core Dev} (h : c.memAbort = false) :
    Outcome c c.cpu.fpr c (Core.execStore D pak i a c) := by
  unfold Core.execStore
  rcases reach_cases a i.op.size .write h with ⟨p, s, hr, -⟩ | ⟨c', hr, ht, hu⟩
  · rw [hr]
    exact .calm rfl
  · rw [hr]
    exact .stopped ht hu

theorem linked_outcome (width : Nat) (rt : Fin 32) (a : BitVec 64) {c : Core Dev}
    (h : c.memAbort = false) :
    Outcome c c.cpu.fpr c (Core.execLinked D pak width rt a c) := by
  unfold Core.execLinked
  rcases reach_cases a width .read h with ⟨p, s, hr, -⟩ | ⟨c', hr, ht, hu⟩
  · rw [hr]
    exact .calm (set_exceptions _ _ _)
  · rw [hr]
    exact .stopped ht hu

theorem conditional_outcome (width : Nat) (rt : Fin 32) (a : BitVec 64) {c : Core Dev}
    (h : c.memAbort = false) :
    Outcome c c.cpu.fpr c (Core.execConditional D pak width rt a c) := by
  unfold Core.execConditional
  dsimp only
  split
  case isTrue halign =>
    obtain ⟨ht, hu⟩ := alignFault_trapped c a .write
    exact .stopped ht hu
  case isFalse halign =>
    cases hll : c.mach.llbit with
    | false => exact .calm (set_exceptions _ _ _)
    | true =>
      rw [if_pos rfl, if_pos rfl]
      rcases store_cases D pak width a
        (if width = 8 then c.cpu.gpr rt else zext ((c.cpu.gpr rt).setWidth 32)) h with he | ⟨ht, hu⟩
      · exact .calm ((set_exceptions _ _ _).trans he)
      · rw [set_abort hu.abort]
        exact .stopped ht hu

theorem cache_outcome (op : Fin 32) (a : BitVec 64) {c : Core Dev} (h : c.memAbort = false) :
    Outcome c c.cpu.fpr c (Core.execCache D pak op a c) := by
  unfold Core.execCache
  split_ifs
  · exact raise_outcome c .copUnusable
  · rcases xlatTo_cases a .read h with ⟨p, s, hx, -⟩ | ⟨c', hx, ht, hu⟩
    · rw [hx]
      exact .calm rfl
    · rw [hx]
      exact .stopped ht hu

/-! ### Loads -/

theorem fprSet32_frame (s : State Dev) (i : Fin 32) (v : BitVec 32) :
    ∃ f, s.fprSet32 i v = { s with fpr := f } := by
  unfold State.fprSet32 State.setFpr
  dsimp only
  split_ifs <;> exact ⟨_, rfl⟩

theorem fprSet64_frame (s : State Dev) (i : Fin 32) (v : BitVec 64) :
    ∃ f, s.fprSet64 i v = { s with fpr := f } := by
  unfold State.fprSet64 State.setFpr
  split_ifs <;> exact ⟨_, rfl⟩

/-- What a faulting load to coprocessor 1 makes of the registers. -/
def fprCleared (op : Op) (rt : Fin 32) (s : State Dev) : Fin 32 → BitVec 64 :=
  match op with
  | .lwc1 => (s.fprSet32 rt 0).fpr
  | .ldc1 => (s.fprSet64 rt 0).fpr
  | _ => s.fpr

theorem fprCleared_congr {s t : State Dev} (hf : t.fpr = s.fpr)
    (hfr : t.status.testBit 26 = s.status.testBit 26) (op : Op) (rt : Fin 32) :
    fprCleared op rt t = fprCleared op rt s := by
  unfold fprCleared State.fprSet32 State.fprSet64 State.setFpr
  rw [hf, hfr]
  cases op <;> first
    | rfl
    | (dsimp only; split_ifs <;> rfl)

/-- A load that faults has its way with a register of coprocessor 1 only. -/
theorem load_outcome {op : Op} (hop : op.store = false) (rt : Fin 32) (a : BitVec 64)
    {c : Core Dev} (h : c.memAbort = false) :
    Outcome c (fprCleared op rt c.cpu) c (Core.execLoad D pak op rt a c) := by
  unfold Core.execLoad
  dsimp only
  rcases load_cases D pak op.size a h with hq | ⟨hz, ht, hu⟩
  · apply Outcome.calm
    split_ifs <;> exact hq.front.exceptions
  · refine .inr (.inr ?_)
    rw [← fprCleared_congr hu.fpr hu.fr, hz, hu.abort, Bool.and_true]
    generalize Core.load D pak op.size a c = r at ht hu ⊢
    -- `set` drops the zero, `fprSet32` and `fprSet64` write it
    cases op with
    | lwc1 =>
      have hld : (if (!Op.lwc1.isFp) = true then r.2 else
          r.2.setCpu (loadInto .lwc1 rt 0 r.2.cpu)) = r.2.setCpu (r.2.cpu.fprSet32 rt 0) := rfl
      obtain ⟨f, hf⟩ := fprSet32_frame r.2.cpu rt 0
      rw [hld, hf]
      exact ⟨ht.setFpr f, congrArg State.fpr hf.symm, hu.mem, hu.dcache⟩
    | ldc1 =>
      have hld : (if (!Op.ldc1.isFp) = true then r.2 else
          r.2.setCpu (loadInto .ldc1 rt 0 r.2.cpu)) = r.2.setCpu (r.2.cpu.fprSet64 rt 0) := rfl
      obtain ⟨f, hf⟩ := fprSet64_frame r.2.cpu rt 0
      rw [hld, hf]
      exact ⟨ht.setFpr f, congrArg State.fpr hf.symm, hu.mem, hu.dcache⟩
    | swc1 => exact absurd hop (by decide)
    | sdc1 => exact absurd hop (by decide)
    | _ => exact ⟨ht, rfl, hu.mem, hu.dcache⟩

/-! ### execute -/

theorem writeCop0_exceptions (r : Nat) (v : BitVec 64) (c : Core Dev) :
    (writeCop0 r v c).exceptions = c.exceptions := by
  unfold writeCop0
  dsimp only
  split <;> rfl

theorem tlbWrite_exceptions (i : Nat) (c : Core Dev) :
    (tlbWrite i c).exceptions = c.exceptions := by
  unfold tlbWrite
  dsimp only
  split_ifs <;> rfl

theorem tlbRead_exceptions (i : Nat) (c : Core Dev) :
    (tlbRead i c).exceptions = c.exceptions := by
  unfold tlbRead
  dsimp only
  split_ifs
  · rfl
  · split <;> rfl

theorem tlbProbe_exceptions (c : Core Dev) : (tlbProbe c).exceptions = c.exceptions := by
  unfold tlbProbe
  split <;> rfl

/-- What `cop0op` reads of memory: `XLOG` only. -/
def cop0Reads (w : BitVec 32) (c : Core Dev) : Core Dev :=
  if cpuMode c.status ≠ 0 && !c.status.testBit 28 then c
  else if (opRs w).val ∈ [0x00, 0x01, 0x04, 0x05] then c
  else if w.getLsbD 25 && opFunct w = 0x25 then
    xlogReads D pak (xlogLen (c.cpu.gpr (emuxRt w)))
      (c.cpu.gpr (emuxRd w)) c
  else c

theorem cop0Co_outcome (w : BitVec 32) {c : Core Dev} (h : c.memAbort = false) :
    Outcome c c.cpu.fpr
      (if opFunct w = 0x25 then
        xlogReads D pak (xlogLen (c.cpu.gpr (emuxRt w)))
          (c.cpu.gpr (emuxRd w)) c
      else c) (cop0Co D pak w c) := by
  have he := emuxOp_outcome D pak w h
  revert he
  generalize (if opFunct w = 0x25 then _ else c) = b
  intro he
  unfold cop0Co
  split
  · exact .calm rfl
  · exact .calm (tlbRead_exceptions _ c)
  · exact .calm (tlbWrite_exceptions _ c)
  · exact .calm (tlbWrite_exceptions _ c)
  · exact .calm (tlbProbe_exceptions c)
  · exact he

theorem cop0op_outcome (w : BitVec 32) {c : Core Dev} (h : c.memAbort = false) :
    Outcome c c.cpu.fpr (cop0Reads D pak w c) (cop0op D pak w c) := by
  unfold cop0op cop0Reads
  split
  · exact raise_outcome c .copUnusable
  · by_cases hm : (opRs w).val ∈ [0x00, 0x01, 0x04, 0x05]
    · rw [if_pos hm]
      simp only [List.mem_cons, List.not_mem_nil, or_false] at hm
      rcases hm with hm | hm | hm | hm <;> rw [hm]
      · exact .calm (set_exceptions c _ _)
      · exact .calm (set_exceptions c _ _)
      · exact .calm (writeCop0_exceptions _ _ c)
      · exact .calm (writeCop0_exceptions _ _ c)
    · rw [if_neg hm]
      simp only [List.mem_cons, List.not_mem_nil, or_false, not_or] at hm
      have hco : Outcome c c.cpu.fpr
          (if w.getLsbD 25 && opFunct w = 0x25 then
            xlogReads D pak
              (xlogLen (c.cpu.gpr (emuxRt w)))
              (c.cpu.gpr (emuxRd w)) c
          else c) (if w.getLsbD 25 then cop0Co D pak w c else c.perform unimplemented) := by
        cases w.getLsbD 25 with
        | false => exact perform_outcome c unimplemented
        | true =>
          simp only [Bool.true_and, decide_eq_true_eq, if_true]
          exact cop0Co_outcome D pak w h
      revert hco
      generalize (if (w.getLsbD 25 && _) = true then _ else c) = b
      intro hco
      split
      · exact absurd ‹_› hm.1
      · exact absurd ‹_› hm.2.2.1
      · exact absurd ‹_› hm.2.1
      · exact absurd ‹_› hm.2.2.2
      · exact hco

variable (fpu : Fpu)

theorem raise15 (c : Core Dev) : (raise 15 c).excCode = 15 := nextCause_code _ _ _ _

theorem cop1op_outcome (w : BitVec 32) (c : Core Dev) :
    Outcome c c.cpu.fpr c (cop1op D pak fpu w c) := by
  unfold cop1op
  dsimp only
  split
  · exact perform_outcome c _
  · split
    · exact perform_outcome c _
    · exact perform_outcome c _
    · exact perform_outcome c _
    · exact perform_outcome c _
    · exact perform_outcome c _
    · unfold ctc1
      dsimp only
      split_ifs
      · exact .calm rfl
      · exact .inr (.inl ((setCe_excCode _ _).trans (raise15 _)))
      · exact .inr (.inl ((setCe_excCode _ _).trans (raise15 _)))
      · exact .calm rfl
    · exact perform_outcome c _
    · unfold fpuOp
      dsimp only
      split_ifs
      · exact .inr (.inl (raise15 _))
      · exact .calm rfl

/-- The core after what an instruction has read when the access that may
    fault comes. -/
def beforeFault (w : BitVec 32) (c : Core Dev) : Core Dev :=
  if isOp64 (opOP w) && reserved64 c.status then c
  else
    match MemKind.decode (opOP w) with
    | some (.unaligned op) =>
      if op.store then unalignedReads D pak op (c.cpu.gpr (opRs w) + opSimm w) c else c
    | some _ => c
    | none => if opOP w = 0x10 then cop0Reads D pak w c else c

/-- The registers of coprocessor 1 after an instruction that traps. -/
def fprAfter (w : BitVec 32) (c : Core Dev) : Fin 32 → BitVec 64 :=
  if isOp64 (opOP w) && reserved64 c.status then c.cpu.fpr
  else
    match MemKind.decode (opOP w) with
    | some (.load op) =>
      if op.isFp && !c.status.testBit 29 then c.cpu.fpr else fprCleared op (opRt w) c.cpu
    | _ => c.cpu.fpr

theorem decode_load {n : Nat} {op : Op} (h : MemKind.decode n = some (.load op)) :
    op.store = false := by
  unfold MemKind.decode at h
  split at h <;> cases h <;> rfl

theorem execute_outcome (w : BitVec 32) {c : Core Dev} (h : c.memAbort = false) :
    Outcome c (fprAfter w c) (beforeFault D pak w c) (c.execute D pak fpu w) := by
  unfold Core.execute fprAfter beforeFault
  split
  · exact raise_outcome c .reservedInstruction
  · cases hk : MemKind.decode (opOP w) with
    | some k =>
      unfold execMem
      dsimp only
      cases k with
      | load op =>
        dsimp only
        split_ifs
        · exact perform_outcome c _
        · exact load_outcome D pak (decode_load hk) _ _ h
      | store op =>
        dsimp only
        split_ifs
        · exact perform_outcome c _
        · exact storeAt_outcome D pak _ _ h
      | unaligned op =>
        dsimp only
        split_ifs with hop
        · exact unalignedStore_outcome D pak hop _ _ h
        · exact unalignedLoad_outcome D pak (Bool.not_eq_true _ |>.mp hop) _ _ h
      | linked width => exact linked_outcome D pak width _ _ h
      | conditional width => exact conditional_outcome D pak width _ _ h
      | cache => exact cache_outcome D pak _ _ h
    | none =>
      dsimp only
      by_cases hop : opOP w = 0x10
      · rw [if_pos hop, hop]
        exact cop0op_outcome D pak w h
      · rw [if_neg hop]
        split
        · exact perform_outcome c _
        · exact perform_outcome c _
        · exact absurd ‹_› hop
        · exact cop1op_outcome D pak fpu w c
        · exact perform_outcome c _
        · exact perform_outcome c _

end Reads

/-! ## Section 5: Precision -/

section Precise

variable (D : Devices Dev) (pak : Pak) (fpu : Fpu)

/-- A byte of RDRAM as the CPU sees it: a dirty line shadows the RAM. -/
def State.peekPhysCoherent (s : State Dev) (a : Nat) : Byte :=
  let l := s.dcache (a / 16 % 512)
  if l.dirty && l.tagv == a / 16 * 16 + 1 then l.data (a % 16)
  else if a < pak.size then s.mem.rdram a else 0

/-- No byte of memory differs, on the bus or through the cache. -/
structure SameBytes (s t : State Dev) : Prop where
  rdram : t.mem.rdram = s.mem.rdram
  spMem : t.mem.spMem = s.mem.spMem
  pifram : t.mem.pifram = s.mem.pifram
  seen : ∀ a, t.peekPhysCoherent pak a = s.peekPhysCoherent pak a

/-- The instruction at `pc`, or the branch whose delay slot it is in: the
    one executed before it. -/
def Core.site (c : Core Dev) : BitVec 64 := if c.inDelay then c.curPc else c.pc

/-- `c'` follows `c` by an instruction that did nothing but enter the
    exception handler. -/
structure Precise (c c' : Core Dev) : Prop where
  gpr : ∀ i, i ≠ 0 → c'.cpu.gpr i = c.cpu.gpr i
  fpr : c'.cpu.fpr = c.cpu.fpr
  hi : c'.hi = c.hi
  lo : c'.lo = c.lo
  llbit : c'.mach.llbit = c.mach.llbit
  bytes : SameBytes pak c.cpu c'.cpu
  epc : c.exl = false → c'.cop0 c0EPC = c.site
  bd : c.exl = false → c'.bd = c.inDelay
  nestedEpc : c.exl = true → c'.cop0 c0EPC = c.cop0 c0EPC
  nestedBd : c.exl = true → c'.bd = c.bd
  vector : c'.pc = c.rightVector c'.excCode (c'.cop0 c0BadVAddr)
  next : c'.nextPc = c'.pc + 4
  inDelay : c'.inDelay = false

/-- The instruction raises an exception, and not one of coprocessor 1's
    arithmetic. -/
def Raises (w : BitVec 32) (c : Core Dev) : Prop :=
  (c.issue.execute D pak fpu w).exceptions ≠ c.exceptions ∧
    (c.issue.execute D pak fpu w).excCode ≠ 15

/-- The register a faulting `LWC1` or `LDC1` loads is zero already. -/
def LoadsZero (w : BitVec 32) (c : Core Dev) : Prop :=
  c.status.testBit 29 = true →
    match MemKind.decode (opOP w) with
    | some (.load .lwc1) => c.cpu.fprGet32 (opRt w) = 0
    | some (.load .ldc1) => c.cpu.fprGet64 (opRt w) = 0
    | _ => True

/-- 32 bits are enough for `EPC`, and a delay slot is the word behind its
    branch. -/
def EpcFits (c : Core Dev) : Prop :=
  c.exl = false →
    c.site = sext (c.site.setWidth 32) ∧
      (c.inDelay = true → (c.pc - 4).setWidth 32 = c.curPc.setWidth 32)

/-- What an unaligned store or `XLOG` has read in front of its fault has
    moved no byte. -/
def ReadsKeep (w : BitVec 32) (c : Core Dev) : Prop :=
  SameBytes pak c.cpu (beforeFault D pak w c.issue).cpu

theorem setFpr_self_iff (s : State Dev) (i : Fin 32) (v : BitVec 64) :
    (s.setFpr i v).fpr = s.fpr ↔ v = s.fpr i := by
  unfold State.setFpr
  constructor
  · intro h
    simpa using congrFun h i
  · rintro rfl
    funext j
    simp only [ite_eq_right_iff]
    rintro rfl
    rfl

theorem zero_bit {n : Nat} (i : Nat) : (0 : BitVec n).getLsbD i = false := BitVec.getLsbD_zero

/-- A vanishing window of a word, bit by bit. -/
theorem window_zero_iff (x : BitVec 64) (k : Nat) :
    (x >>> k).setWidth 32 = 0 ↔ ∀ j < 32, x.getLsbD (k + j) = false := by
  constructor
  · intro h j hj
    have hb := congrArg (fun y : BitVec 32 => y.getLsbD j) h
    rwa [BitVec.getLsbD_setWidth, BitVec.getLsbD_ushiftRight, decide_eq_true hj, Bool.true_and,
      zero_bit] at hb
  · intro h
    apply BitVec.eq_of_getLsbD_eq
    intro j hj
    rw [BitVec.getLsbD_setWidth, BitVec.getLsbD_ushiftRight, h j hj, zero_bit, Bool.and_false]

/-- Masking a word changes nothing exactly if the bits outside are zero. -/
theorem mask_self_iff {x m z : BitVec 64} (hz : z = 0) :
    x &&& m ||| z = x ↔ ∀ i < 64, m.getLsbD i = false → x.getLsbD i = false := by
  subst hz
  constructor
  · intro h i hi hm
    have hb := congrArg (fun y : BitVec 64 => y.getLsbD i) h
    rwa [BitVec.getLsbD_or, BitVec.getLsbD_and, hm, zero_bit, Bool.and_false, Bool.or_false,
      eq_comm] at hb
  · intro h
    apply BitVec.eq_of_getLsbD_eq
    intro i hi
    rw [BitVec.getLsbD_or, BitVec.getLsbD_and, zero_bit, Bool.or_false]
    cases hm : m.getLsbD i with
    | true => rw [Bool.and_true]
    | false => rw [h i hi hm, Bool.and_false]

theorem clear_low_iff (x : BitVec 64) :
    x &&& 0xffffffff00000000 ||| (0 : BitVec 32).setWidth 64 = x ↔ x.setWidth 32 = 0 := by
  have hmask : ∀ i < 64, (0xffffffff00000000 : BitVec 64).getLsbD i = decide (32 ≤ i) := by decide
  have hwin := window_zero_iff x 0
  rw [BitVec.ushiftRight_zero] at hwin
  rw [mask_self_iff (by decide), hwin]
  constructor
  · intro h j hj
    rw [Nat.zero_add]
    exact h j (by omega) (by rw [hmask j (by omega)]; simp; omega)
  · intro h i hi hm
    rw [hmask i hi, decide_eq_false_iff_not] at hm
    have hb := h i (by omega)
    rwa [Nat.zero_add] at hb

theorem clear_high_iff (x : BitVec 64) :
    x &&& (0x00000000ffffffff : BitVec 64) ||| (0 : BitVec 32).setWidth 64 <<< 32 = x ↔
      (x >>> 32).setWidth 32 = 0 := by
  have hmask : ∀ i < 64, (0x00000000ffffffff : BitVec 64).getLsbD i = decide (i < 32) := by decide
  rw [mask_self_iff (by decide), window_zero_iff]
  constructor
  · intro h j hj
    exact h (32 + j) (by omega) (by rw [hmask _ (by omega)]; simp)
  · intro h i hi hm
    rw [hmask i hi, decide_eq_false_iff_not] at hm
    have hb := h (i - 32) (by omega)
    rwa [Nat.add_sub_cancel' (by omega)] at hb

theorem fprSet32_zero_iff (s : State Dev) (i : Fin 32) :
    (s.fprSet32 i 0).fpr = s.fpr ↔ s.fprGet32 i = 0 := by
  unfold State.fprSet32 State.fprGet32
  dsimp only
  split_ifs <;> rw [setFpr_self_iff]
  · exact clear_low_iff _
  · exact clear_high_iff _
  · exact clear_low_iff _

theorem fprSet64_zero_iff (s : State Dev) (i : Fin 32) :
    (s.fprSet64 i 0).fpr = s.fpr ↔ s.fprGet64 i = 0 := by
  unfold State.fprSet64 State.fprGet64
  split_ifs <;> rw [setFpr_self_iff, eq_comm]

theorem decode_fpLoad {n : Nat} {op : Op} (h : MemKind.decode n = some (.load op))
    (hop : op.isFp = true) : isOp64 n = false := by
  unfold MemKind.decode at h
  split at h <;> cases h <;> first
    | rfl
    | exact absurd hop (by decide)

/-- The registers of coprocessor 1 survive exactly where `LoadsZero` says. -/
theorem fprAfter_iff (w : BitVec 32) (c : Core Dev) :
    fprAfter w c.issue = c.cpu.fpr ↔ LoadsZero w c := by
  unfold fprAfter LoadsZero
  show (if (isOp64 (opOP w) && reserved64 c.status) = true then c.cpu.fpr else
    match MemKind.decode (opOP w) with
    | some (.load op) =>
      if (op.isFp && !c.status.testBit 29) = true then c.cpu.fpr
      else fprCleared op (opRt w) c.cpu
    | _ => c.cpu.fpr) = c.cpu.fpr ↔ _
  cases hk : MemKind.decode (opOP w) with
  | none => simp
  | some k =>
    cases k with
    | load op =>
      cases op with
      | lwc1 =>
        rw [decode_fpLoad hk rfl]
        cases c.status.testBit 29 with
        | false => simp [Op.isFp]
        | true => simpa [Op.isFp, fprCleared] using fprSet32_zero_iff c.cpu (opRt w)
      | ldc1 =>
        rw [decode_fpLoad hk rfl]
        cases c.status.testBit 29 with
        | false => simp [Op.isFp]
        | true => simpa [Op.isFp, fprCleared] using fprSet64_zero_iff c.cpu (opRt w)
      | _ => simp [fprCleared]
    | _ => simp

/-- A sign-extended word is what it is extended from. -/
theorem eq_sext_iff (x y : BitVec 64) :
    sext (x.setWidth 32) = y ↔ y = sext (y.setWidth 32) ∧ x.setWidth 32 = y.setWidth 32 := by
  have htrunc : ∀ z : BitVec 32, (sext z).setWidth 32 = z := by
    intro z
    apply BitVec.eq_of_getLsbD_eq
    intro i hi
    rw [BitVec.getLsbD_setWidth, sext_bit hi, decide_eq_true hi, Bool.true_and]
  constructor
  · rintro rfl
    rw [htrunc]
    exact ⟨rfl, rfl⟩
  · rintro ⟨hy, hx⟩
    rw [hx, ← hy]

theorem epcFits_iff (c : Core Dev) :
    EpcFits c ↔ (c.exl = false → sext (c.issue.epc.setWidth 32) = c.site) := by
  unfold EpcFits Core.site
  refine imp_congr_right fun _ => ?_
  show _ ↔ sext ((if c.inDelay then c.pc - 4 else c.pc).setWidth 32) = _
  cases c.inDelay with
  | false =>
    rw [if_neg Bool.false_ne_true, if_neg Bool.false_ne_true, eq_sext_iff]
    simp
  | true =>
    rw [if_pos rfl, if_pos rfl, eq_sext_iff]
    simp

variable {D pak fpu} in
/-- What an exception of any instruction leaves behind. -/
theorem trapped_of_raises {w : BitVec 32} {c : Core Dev} (h : Raises D pak fpu w c) :
    Trapped c.issue (c.issue.execute D pak fpu w) ∧
      (c.issue.execute D pak fpu w).cpu.fpr = fprAfter w c.issue ∧
      (c.issue.execute D pak fpu w).cpu.mem = (beforeFault D pak w c.issue).cpu.mem ∧
      (c.issue.execute D pak fpu w).cpu.dcache = (beforeFault D pak w c.issue).cpu.dcache := by
  rcases execute_outcome D pak fpu w (c := c.issue) rfl with he | he | ht
  · exact absurd he h.1
  · exact absurd he h.2
  · exact ht

theorem sameBytes_congr {s t t' : State Dev} (hm : t'.mem = t.mem) (hd : t'.dcache = t.dcache) :
    SameBytes pak s t' ↔ SameBytes pak s t := by
  have hpeek : ∀ a, t'.peekPhysCoherent pak a = t.peekPhysCoherent pak a := by
    intro a
    unfold State.peekPhysCoherent
    rw [hm, hd]
  constructor
  · rintro ⟨h1, h2, h3, h4⟩
    exact ⟨hm ▸ h1, hm ▸ h2, hm ▸ h3, fun a => (hpeek a).symm.trans (h4 a)⟩
  · rintro ⟨h1, h2, h3, h4⟩
    exact ⟨hm ▸ h1, hm ▸ h2, hm ▸ h3, fun a => (hpeek a).trans (h4 a)⟩

/-- An exception is precise exactly if a faulting load to coprocessor 1 finds
    a zero, `EPC` can hold what it has to, and what was read in front of the
    fault has moved no byte. -/
theorem precise_iff (w : BitVec 32) (c : Core Dev) (h : Raises D pak fpu w c) :
    Precise pak c (c.stepOp D pak fpu w) ↔
      LoadsZero w c ∧ EpcFits c ∧ ReadsKeep D pak w c := by
  obtain ⟨ht, hf, hm, hd⟩ := trapped_of_raises h
  have hbytes : SameBytes pak c.cpu (c.stepOp D pak fpu w).cpu ↔ ReadsKeep D pak w c :=
    sameBytes_congr pak hm hd
  have hfpr : (c.stepOp D pak fpu w).cpu.fpr = c.cpu.fpr ↔ LoadsZero w c := by
    rw [← fprAfter_iff]
    exact Eq.congr_left hf
  have hepc : (c.stepOp D pak fpu w).cop0 c0EPC =
      if c.exl then c.cop0 c0EPC else sext (c.issue.epc.setWidth 32) := ht.epc
  have hbd : (c.stepOp D pak fpu w).bd = if c.exl then c.bd else c.inDelay := ht.bd
  rw [epcFits_iff]
  constructor
  · intro hp
    refine ⟨hfpr.mp hp.fpr, ?_, hbytes.mp hp.bytes⟩
    intro hexl
    have hsite := hp.epc hexl
    rwa [hepc, hexl, if_neg Bool.false_ne_true] at hsite
  · rintro ⟨hz, hfit, hreads⟩
    constructor
    case gpr =>
      intro i hi
      exact (if_neg hi).trans (congrFun ht.gpr i)
    case fpr => exact hfpr.mpr hz
    case hi => exact ht.hi
    case lo => exact ht.lo
    case llbit => exact ht.llbit
    case bytes => exact hbytes.mpr hreads
    case epc =>
      intro hexl
      rw [hepc, hexl, if_neg Bool.false_ne_true]
      exact hfit hexl
    case bd =>
      intro hexl
      rw [hbd, hexl, if_neg Bool.false_ne_true]
    case nestedEpc =>
      intro hexl
      rw [hepc, hexl, if_pos rfl]
    case nestedBd =>
      intro hexl
      rw [hbd, hexl, if_pos rfl]
    case vector => exact ht.vector
    case next => exact ht.next
    -- nothing branched, so no delay slot is pending
    case inDelay => exact ht.branch

/-- A core at rest at `0xffffffff80001000`, with ones in the registers of
    coprocessor 1 and `v` in `r4`. -/
def restCore (v : BitVec 64) : Core Unit where
  mach :=
    { cpu :=
        { coldState with
          gpr := fun i => if i = 4 then v else 0
          fpr := fun _ => -1
          status := 0x24000000 }
      icache := fun _ => { ptag := 0, valid := false, seq := 0, data := fun _ => 0 }
      icSeq := 0
      icMissCycles := 0
      tagLo := 0
      llbit := false
      llAddr := 0 }
  hi := 0
  lo := 0
  fcr31 := 0
  cp2latch := 0
  cop0 := fun _ => 0
  cop0Unused := 0
  randomReload := 0
  timerIntr := false
  countFrac := 0
  mulDivMode := 0
  pc := 0xffffffff80001000
  nextPc := 0xffffffff80001004
  curPc := 0xffffffff80000ffc
  inDelay := false
  justBranched := false
  memAbort := false
  watchArmed := false
  exceptions := 0
  xlatEpoch := 0
  halted := false

/-- A floating-point unit that is never asked. -/
def noFpu : Fpu := fun _ _ fcr31 fpr => { fcr31 := fcr31, fpr := fpr, cycles := 0, trap := false }

/-- `lw r2, 0(r4)` and `lwc1 f2, 0(r4)` at a misaligned address. -/
theorem misaligned_raises (w : BitVec 32) (hw : w = 0x8c820000 ∨ w = 0xc4820000) :
    Raises noDevices .base noFpu w (restCore 0xffffffff80000002) := by
  unfold Raises
  rcases hw with rfl | rfl <;> decide +kernel

/-- `LW` is precise there. -/
theorem precise_lw :
    Precise .base (restCore 0xffffffff80000002)
      ((restCore 0xffffffff80000002).stepOp noDevices .base noFpu 0x8c820000) := by
  refine (precise_iff noDevices .base noFpu 0x8c820000 (restCore 0xffffffff80000002)
    (misaligned_raises _ (.inl rfl))).mpr ⟨fun _ => trivial, fun _ => ?_, ⟨rfl, rfl, rfl, fun _ => rfl⟩⟩
  decide +kernel

/-- `LWC1` is not: `f2` was all ones, and the exception has cleared half of
    it. -/
theorem lwc1_not_precise :
    Raises noDevices .base noFpu 0xc4820000 (restCore 0xffffffff80000002) ∧
      ¬ Precise .base (restCore 0xffffffff80000002)
        ((restCore 0xffffffff80000002).stepOp noDevices .base noFpu 0xc4820000) := by
  refine ⟨misaligned_raises _ (.inr rfl), fun h => ?_⟩
  have hf2 : ((restCore 0xffffffff80000002).stepOp noDevices .base noFpu 0xc4820000).cpu.fpr 2 =
      0xffffffff00000000 := by decide +kernel
  rw [h.fpr] at hf2
  exact absurd hf2 (by decide)

end Precise

end Cpu
