import Mathlib.Data.Nat.Basic
import Mathlib.Data.BitVec
import Mathlib.Tactic.Ring

/-! # CPU: The Guest Clocks

    `Count`, `stallOps` and the guest clock read from them. A retired
    instruction is worth `cpi256` / 256 ticks of `Count`; a cycle of stall is
    worth half a tick, and 128 / `cpi256` operations of the guest clock. The
    three remainders are carried in their own bases.

    The interpreter commits after every instruction, the dynarec once a block
    or chain. Nothing depends on it: what is still owed and what has been
    paid add up to the same totals (`Counters.run_ticks`, `Counters.run_stalls`),
    and once no stall is pending the totals fix every field.

    The 32-bit registers wrap; `retired` and `stallOps` are 64-bit counts
    that never come near their end, and the stalls pending between two
    commits fit 32 bits by far. These are natural numbers.
-/

namespace Cpu

/-! ## Section 1: The fields and the operations -/

/-- The clock fields of `CPU`, with the range of each remainder. -/
structure Counters where
  cpi256 : Nat
  stallClockOn : Bool
  stallClockCart : Bool
  retired : Nat
  jitPending : Nat
  stallCycles : Nat
  stallOps : Nat
  stallOpsRem : Nat
  countFrac : Nat
  count : BitVec 32
  compare : BitVec 32
  cpi_pos : 0 < cpi256
  cpi_le : cpi256 ≤ 256
  rem_lt : stallOpsRem < cpi256
  frac_lt : countFrac < 256

/-- Stalls in operations, the pending ones included. -/
def Counters.stalled (s : Counters) : Nat :=
  if s.stallCycles ≠ 0 then s.stallOps + (s.stallOpsRem + s.stallCycles * 128) / s.cpi256
  else s.stallOps

def Counters.guestOps (s : Counters) : Nat :=
  if s.stallClockOn then s.retired + s.stalled else s.retired

/-- `Memory::cartNow` -/
def Counters.cartNow (s : Counters) : Nat :=
  s.retired + s.jitPending + if s.stallClockCart then s.stalled else 0

/-- A stall is charged. -/
def Counters.charge (s : Counters) (cycles : Nat) : Counters :=
  { s with stallCycles := s.stallCycles + cycles }

/-- The pending stalls become operations. -/
def Counters.drain (s : Counters) : Counters :=
  if s.stallCycles ≠ 0 then
    { s with
      stallOps := s.stallOps + (s.stallOpsRem + s.stallCycles * 128) / s.cpi256
      stallOpsRem := (s.stallOpsRem + s.stallCycles * 128) % s.cpi256
      stallCycles := 0
      rem_lt := Nat.mod_lt _ s.cpi_pos }
  else s

def Counters.countTicks (s : Counters) (ops : Nat) : Counters × BitVec 32 :=
  if s.cpi256 = 256 ∧ s.stallCycles = 0 then (s, BitVec.ofNat 32 ops)
  else
    let a := s.countFrac + ops * s.cpi256 + s.stallCycles * 128
    ({ s.drain with countFrac := a % 256, frac_lt := Nat.mod_lt _ (by decide) },
      BitVec.ofNat 32 (a / 256))

/-- Adds to `Count`; true if the sum crossed `Compare`. -/
def Counters.countAdd (s : Counters) (ct : BitVec 32) : Counters × Bool :=
  if ct = 0 then (s, false)
  else ({ s with count := s.count + ct }, decide ((s.compare - s.count - 1).toNat < ct.toNat))

/-- What both modes do at a commit: `n` instructions retire, and the timer
    is latched if `Compare` was crossed. -/
def Counters.commit (s : Counters) (n : Nat) : Counters × Bool :=
  let r := { s with retired := s.retired + n }.countTicks n
  r.1.countAdd r.2

/-- The deferred commit of a chain of blocks. -/
def Counters.flush (s : Counters) : Counters × Bool :=
  if s.jitPending = 0 then (s, false) else { s with jitPending := 0 }.commit s.jitPending

/-! ## Section 2: Runs -/

/-- `commit` is the interpreter's step and the end of a block, `link` a block
    of a chain that is not yet accounted for. -/
inductive ClockEvent where
  | charge (cycles : Nat)
  | commit (n : Nat)
  | link (n : Nat)
  | flush
  deriving DecidableEq, Repr

def Counters.step (s : Counters) : ClockEvent → Counters × Bool
  | .charge d => (s.charge d, false)
  | .commit n => s.commit n
  | .link n => ({ s with jitPending := s.jitPending + n }, false)
  | .flush => s.flush

/-- The counters after a run, and whether some `countAdd` latched the
    timer. -/
def Counters.run : Counters → List ClockEvent → Counters × Bool
  | s, [] => (s, false)
  | s, e :: es =>
    let r := s.step e
    let rest := r.1.run es
    (rest.1, r.2 || rest.2)

def ClockEvent.ops : ClockEvent → Nat
  | .commit n | .link n => n
  | _ => 0

def ClockEvent.charges : ClockEvent → Nat
  | .charge d => d
  | _ => 0

/-- The instructions of a run. -/
def opsOf (es : List ClockEvent) : Nat := (es.map ClockEvent.ops).sum

/-- The stall cycles a run charges. -/
def chargesOf (es : List ClockEvent) : Nat := (es.map ClockEvent.charges).sum

/-- 256ths of a tick that are owed, the fraction included. -/
def Counters.owed (s : Counters) : Nat :=
  s.countFrac + s.jitPending * s.cpi256 + s.stallCycles * 128

/-- Ticks of `Count` in one event, before they are cut to 32 bits. -/
def Counters.ticks (s : Counters) : ClockEvent → Nat
  | .commit n => (s.countFrac + n * s.cpi256 + s.stallCycles * 128) / 256
  | .flush => if s.jitPending = 0 then 0 else s.owed / 256
  | _ => 0

def Counters.ticksOf : Counters → List ClockEvent → Nat
  | _, [] => 0
  | s, e :: es => s.ticks e + (s.step e).1.ticksOf es

/-! ## Section 3: What a commit does -/

theorem Counters.drain_stallCycles (s : Counters) : s.drain.stallCycles = 0 := by
  unfold Counters.drain
  split_ifs with h
  · rfl
  · exact not_not.mp h

/-- Cycles of stall, as 128ths of an operation: what is paid and what is
    owed. -/
def Counters.stallSum (s : Counters) : Nat :=
  s.stallOps * s.cpi256 + s.stallOpsRem + s.stallCycles * 128

theorem Counters.drain_stallSum (s : Counters) : s.drain.stallSum = s.stallSum := by
  unfold Counters.drain
  split_ifs
  · unfold Counters.stallSum
    dsimp only
    have := Nat.div_add_mod' (s.stallOpsRem + s.stallCycles * 128) s.cpi256
    rw [Nat.add_mul]
    omega
  · rfl

/-- Everything a commit leaves, in one place. The shortcut without stalls at
    one tick an instruction is the general case. -/
structure Commit (s : Counters) (n : Nat) (s' : Counters) : Prop where
  cpi256 : s'.cpi256 = s.cpi256
  retired : s'.retired = s.retired + n
  jitPending : s'.jitPending = s.jitPending
  stallCycles : s'.stallCycles = 0
  stallSum : s'.stallSum = s.stallSum
  countFrac : s'.countFrac = (s.countFrac + n * s.cpi256 + s.stallCycles * 128) % 256
  count : s'.count =
    s.count + BitVec.ofNat 32 ((s.countFrac + n * s.cpi256 + s.stallCycles * 128) / 256)
  compare : s'.compare = s.compare
  stallClockOn : s'.stallClockOn = s.stallClockOn
  stallClockCart : s'.stallClockCart = s.stallClockCart

theorem Counters.drain_frame (s : Counters) :
    s.drain.cpi256 = s.cpi256 ∧ s.drain.retired = s.retired ∧ s.drain.jitPending = s.jitPending ∧
      s.drain.count = s.count ∧ s.drain.compare = s.compare ∧
      s.drain.stallClockOn = s.stallClockOn ∧ s.drain.stallClockCart = s.stallClockCart := by
  unfold Counters.drain
  split_ifs <;> exact ⟨rfl, rfl, rfl, rfl, rfl, rfl, rfl⟩

theorem Counters.countAdd_eq (s : Counters) (ct : BitVec 32) :
    s.countAdd ct =
      ({ s with count := s.count + ct }, decide ((s.compare - s.count - 1).toNat < ct.toNat)) := by
  unfold Counters.countAdd
  split_ifs with h
  · subst h
    simp
  · rfl

/-- `countTicks` without the shortcut. -/
theorem Counters.countTicks_eq (s : Counters) (ops : Nat) :
    s.countTicks ops =
      ({ s.drain with
          countFrac := (s.countFrac + ops * s.cpi256 + s.stallCycles * 128) % 256
          frac_lt := Nat.mod_lt _ (by decide) },
        BitVec.ofNat 32 ((s.countFrac + ops * s.cpi256 + s.stallCycles * 128) / 256)) := by
  unfold Counters.countTicks
  split_ifs with h
  · obtain ⟨hcpi, hstall⟩ := h
    have hfrac := s.frac_lt
    have hdrain : s.drain = s := if_neg (not_not.mpr hstall)
    have hmod : (s.countFrac + ops * s.cpi256 + s.stallCycles * 128) % 256 = s.countFrac := by
      rw [hcpi, hstall]
      omega
    have hdiv : (s.countFrac + ops * s.cpi256 + s.stallCycles * 128) / 256 = ops := by
      rw [hcpi, hstall]
      omega
    simp only [hdrain, hmod, hdiv]
  · rfl

theorem Counters.commit_spec (s : Counters) (n : Nat) : Commit s n (s.commit n).1 := by
  obtain ⟨hcpi, hret, hpend, hcount, hcmp, hon, hcart⟩ :=
    Counters.drain_frame { s with retired := s.retired + n }
  have hsum := Counters.drain_stallSum { s with retired := s.retired + n }
  have hcyc := Counters.drain_stallCycles { s with retired := s.retired + n }
  unfold Counters.commit
  dsimp only
  rw [Counters.countTicks_eq, Counters.countAdd_eq]
  exact
    { cpi256 := hcpi
      retired := hret
      jitPending := hpend
      stallCycles := hcyc
      stallSum := hsum
      countFrac := rfl
      count := congrArg (· + _) hcount
      compare := hcmp
      stallClockOn := hon
      stallClockCart := hcart }

/-- The latch of a commit. -/
theorem Counters.commit_latch (s : Counters) (n : Nat) :
    (s.commit n).2 = decide ((s.compare - s.count - 1).toNat <
      (s.countFrac + n * s.cpi256 + s.stallCycles * 128) / 256 % 2 ^ 32) := by
  obtain ⟨-, -, -, hcount, hcmp, -, -⟩ := Counters.drain_frame { s with retired := s.retired + n }
  unfold Counters.commit
  dsimp only
  rw [Counters.countTicks_eq, Counters.countAdd_eq]
  dsimp only
  rw [hcount, hcmp, BitVec.toNat_ofNat]

/-! ## Section 4: Totals -/

/-- `ops` instructions, `charges` cycles of stall and `ticks` ticks lie
    between two states, whatever is committed of them. -/
structure Moved (s : Counters) (ops charges ticks : Nat) (s' : Counters) : Prop where
  cpi256 : s'.cpi256 = s.cpi256
  compare : s'.compare = s.compare
  stallClockOn : s'.stallClockOn = s.stallClockOn
  stallClockCart : s'.stallClockCart = s.stallClockCart
  executed : s'.retired + s'.jitPending = s.retired + s.jitPending + ops
  stallSum : s'.stallSum = s.stallSum + charges * 128
  owed : 256 * ticks + s'.owed = s.owed + ops * s.cpi256 + charges * 128
  count : s'.count = s.count + BitVec.ofNat 32 ticks

theorem Moved.refl (s : Counters) : Moved s 0 0 0 s where
  cpi256 := rfl
  compare := rfl
  stallClockOn := rfl
  stallClockCart := rfl
  executed := rfl
  stallSum := rfl
  owed := by omega
  count := (BitVec.add_zero _).symm

theorem Moved.trans {s s' s'' : Counters} {o c t o' c' t' : Nat} (h : Moved s o c t s')
    (h' : Moved s' o' c' t' s'') : Moved s (o + o') (c + c') (t + t') s'' where
  cpi256 := h'.cpi256.trans h.cpi256
  compare := h'.compare.trans h.compare
  stallClockOn := h'.stallClockOn.trans h.stallClockOn
  stallClockCart := h'.stallClockCart.trans h.stallClockCart
  executed := by rw [h'.executed, h.executed, Nat.add_assoc]
  stallSum := by rw [h'.stallSum, h.stallSum, Nat.add_mul, Nat.add_assoc]
  owed := by
    have h1 := h.owed
    have h2 := h'.owed
    rw [h.cpi256] at h2
    rw [Nat.add_mul o]
    omega
  count := by rw [h'.count, h.count, BitVec.ofNat_add, BitVec.add_assoc]

theorem Counters.commit_moved (s : Counters) (n : Nat) :
    Moved s n 0 ((s.countFrac + n * s.cpi256 + s.stallCycles * 128) / 256) (s.commit n).1 := by
  have h := s.commit_spec n
  refine ⟨h.cpi256, h.compare, h.stallClockOn, h.stallClockCart, ?_, h.stallSum, ?_, h.count⟩
  · rw [h.retired, h.jitPending]
    exact Nat.add_right_comm _ _ _
  · have := Nat.div_add_mod (s.countFrac + n * s.cpi256 + s.stallCycles * 128) 256
    unfold Counters.owed
    rw [h.countFrac, h.jitPending, h.stallCycles, h.cpi256]
    omega

theorem Counters.step_moved (s : Counters) (e : ClockEvent) :
    Moved s e.ops e.charges (s.ticks e) (s.step e).1 := by
  cases e with
  | charge d =>
    refine { Moved.refl s with stallSum := ?_, owed := ?_ }
    · unfold Counters.step Counters.charge Counters.stallSum ClockEvent.charges
      dsimp only
      omega
    · unfold Counters.step Counters.charge Counters.owed ClockEvent.charges ClockEvent.ops
        Counters.ticks
      dsimp only
      omega
  | commit n => exact s.commit_moved n
  | link n =>
    refine { Moved.refl s with executed := (Nat.add_assoc _ _ _).symm, owed := ?_ }
    unfold Counters.step Counters.owed ClockEvent.charges ClockEvent.ops Counters.ticks
    dsimp only
    rw [Nat.add_mul]
    omega
  | flush =>
    unfold Counters.step Counters.flush Counters.ticks
    dsimp only
    split_ifs with hzero
    · exact Moved.refl s
    · -- a commit of what is pending
      have h := Counters.commit_moved { s with jitPending := 0 } s.jitPending
      refine { h with executed := ?_, owed := ?_ }
      · rw [h.executed]
        rfl
      · have := h.owed
        unfold Counters.owed ClockEvent.charges ClockEvent.ops at *
        dsimp only at *
        omega

theorem Counters.run_moved (s : Counters) (es : List ClockEvent) :
    Moved s (opsOf es) (chargesOf es) (s.ticksOf es) (s.run es).1 := by
  induction es generalizing s with
  | nil => exact Moved.refl s
  | cons e es ih => exact (s.step_moved e).trans (ih (s.step e).1)

/-! ## Section 5: What the totals determine -/

theorem Counters.stalled_eq (s : Counters) : s.stalled = s.stallSum / s.cpi256 := by
  unfold Counters.stalled Counters.stallSum
  split_ifs with h
  · rw [Nat.add_assoc, Nat.add_comm (s.stallOps * _), Nat.add_mul_div_right _ _ s.cpi_pos,
      Nat.add_comm]
  · rw [not_not.mp h, Nat.zero_mul, Nat.add_zero, Nat.add_comm, Nat.add_mul_div_right _ _ s.cpi_pos,
      Nat.div_eq_of_lt s.rem_lt, Nat.zero_add]

/-- Reading the clocks drains nothing, and draining moves neither. -/
theorem Counters.drain_clocks (s : Counters) :
    s.guestOps = s.drain.guestOps ∧ s.cartNow = s.drain.cartNow := by
  obtain ⟨hcpi, hret, hpend, -, -, hon, hcart⟩ := s.drain_frame
  have hst : s.drain.stalled = s.stalled := by
    rw [s.drain.stalled_eq, s.stalled_eq, s.drain_stallSum, hcpi]
  unfold Counters.guestOps Counters.cartNow
  rw [hst, hret, hpend, hon, hcart]
  exact ⟨rfl, rfl⟩

/-- The clock of the bus does not know what has been committed. -/
theorem Moved.cartNow_eq {s t u : Counters} {o c k l : Nat} (ht : Moved s o c k t)
    (hu : Moved s o c l u) : t.cartNow = u.cartNow := by
  unfold Counters.cartNow
  rw [ht.executed, hu.executed, t.stalled_eq, u.stalled_eq, ht.stallSum, hu.stallSum, ht.cpi256, hu.cpi256,
    ht.stallClockCart, hu.stallClockCart]

theorem Moved.guestOps_eq {s t u : Counters} {o c k l : Nat} (ht : Moved s o c k t)
    (hu : Moved s o c l u) (hpend : t.jitPending = u.jitPending) : t.guestOps = u.guestOps := by
  have hret : t.retired = u.retired := by
    have := ht.executed
    have := hu.executed
    omega
  unfold Counters.guestOps
  rw [hret, t.stalled_eq, u.stalled_eq, ht.stallSum, hu.stallSum, ht.cpi256, hu.cpi256,
    ht.stallClockOn, hu.stallClockOn]

/-- Quotient and remainder are fixed by the total. -/
theorem divmod_unique {d a b x y : Nat} (hx : x < d) (hy : y < d) (h : a * d + x = b * d + y) :
    a = b ∧ x = y := by
  have hpos : 0 < d := by omega
  have ha := Nat.add_mul_div_right x a hpos
  have hb := Nat.add_mul_div_right y b hpos
  rw [Nat.div_eq_of_lt hx, Nat.zero_add] at ha
  rw [Nat.div_eq_of_lt hy, Nat.zero_add] at hb
  have hab : a = b := by rw [← ha, ← hb, Nat.add_comm x, Nat.add_comm y, h]
  subst hab
  exact ⟨rfl, by omega⟩

/-- Two settled states between which and the start lies the same work. -/
theorem Moved.eq {s t u : Counters} {o c k l : Nat} (ht : Moved s o c k t) (hu : Moved s o c l u)
    (hts : t.stallCycles = 0) (htp : t.jitPending = 0) (hus : u.stallCycles = 0)
    (hup : u.jitPending = 0) : t = u := by
  obtain ⟨hk, hfrac⟩ : k = l ∧ t.countFrac = u.countFrac := by
    apply divmod_unique t.frac_lt u.frac_lt
    have h1 := ht.owed
    have h2 := hu.owed
    unfold Counters.owed at h1 h2
    rw [hts, htp] at h1
    rw [hus, hup] at h2
    omega
  obtain ⟨hops, hrem⟩ : t.stallOps = u.stallOps ∧ t.stallOpsRem = u.stallOpsRem := by
    have hcpi : t.cpi256 = u.cpi256 := ht.cpi256.trans hu.cpi256.symm
    apply divmod_unique t.rem_lt (hcpi ▸ u.rem_lt)
    have h1 := ht.stallSum
    have h2 := hu.stallSum
    unfold Counters.stallSum at h1 h2
    rw [hts] at h1
    rw [hus, ← hcpi] at h2
    omega
  have hret := ht.executed.trans hu.executed.symm
  have hcount := ht.count.trans (hk ▸ hu.count.symm)
  rw [htp, hup] at hret
  cases t
  cases u
  simp only [Counters.mk.injEq]
  exact ⟨ht.cpi256.trans hu.cpi256.symm, ht.stallClockOn.trans hu.stallClockOn.symm,
    ht.stallClockCart.trans hu.stallClockCart.symm, hret, htp.trans hup.symm, hts.trans hus.symm,
    hops, hrem, hfrac, hcount, ht.compare.trans hu.compare.symm⟩

/-! ## Section 6: The timer -/

theorem Counters.step_latch (s : Counters) (e : ClockEvent) :
    (s.step e).2 = decide ((s.compare - s.count - 1).toNat < s.ticks e % 2 ^ 32) := by
  cases e with
  | charge d => simp [Counters.step, Counters.ticks]
  | commit n => exact s.commit_latch n
  | link n => simp [Counters.step, Counters.ticks]
  | flush =>
    unfold Counters.step Counters.flush Counters.ticks
    dsimp only
    split_ifs with hzero
    · simp
    · exact Counters.commit_latch _ _

/-- The distance to `Compare` after `t` ticks that did not reach it. -/
theorem distance_after {d t : Nat} (c o : BitVec 32) (hd : (c - o - 1).toNat = d) (ht : t ≤ d) :
    (c - (o + BitVec.ofNat 32 t) - 1).toNat = d - t := by
  have hlt : d < 2 ^ 32 := hd ▸ BitVec.isLt _
  have hsub : c - (o + BitVec.ofNat 32 t) - 1 = c - o - 1 - BitVec.ofNat 32 t := by ring
  rw [hsub, BitVec.toNat_sub_of_le, hd, BitVec.toNat_ofNat, Nat.mod_eq_of_lt (by omega)]
  rw [BitVec.le_def, hd, BitVec.toNat_ofNat, Nat.mod_eq_of_lt (by omega)]
  exact ht

/-- Some `countAdd` of a run crosses `Compare` exactly if the run does. -/
theorem Counters.run_latch (s : Counters) (es : List ClockEvent) (h : s.ticksOf es < 2 ^ 32) :
    (s.run es).2 = decide ((s.compare - s.count - 1).toNat < s.ticksOf es) := by
  induction es generalizing s with
  | nil => simp [Counters.run, Counters.ticksOf]
  | cons e es ih =>
    have hm := s.step_moved e
    rw [Counters.ticksOf] at h ⊢
    rw [Counters.run]
    dsimp only
    rw [ih _ (by omega), s.step_latch e, Nat.mod_eq_of_lt (by omega), hm.compare, hm.count]
    by_cases hx : (s.compare - s.count - 1).toNat < s.ticks e
    · rw [decide_eq_true hx, Bool.true_or, decide_eq_true (by omega)]
    · rw [decide_eq_false hx, Bool.false_or, distance_after _ _ rfl (Nat.not_lt.mp hx)]
      exact decide_eq_decide.mpr (by omega)

/-! ## Section 7: Grouping does not matter -/

/-- Two runs over the same instructions and stalls, however they are cut into
    commits, and with everything committed in the end. -/
theorem clocks_regroup (s : Counters) (es fs : List ClockEvent) (hops : opsOf es = opsOf fs)
    (hcharges : chargesOf es = chargesOf fs)
    (hes : (s.run es).1.stallCycles = 0 ∧ (s.run es).1.jitPending = 0)
    (hfs : (s.run fs).1.stallCycles = 0 ∧ (s.run fs).1.jitPending = 0) :
    ((s.run es).1 = (s.run fs).1 ∧ (s.run es).1.guestOps = (s.run fs).1.guestOps) ∧
    (∀ ps, let m := (s.run ps).1
      m.guestOps = m.drain.guestOps ∧ m.cartNow = m.drain.cartNow ∧
      ∀ qs, opsOf qs = opsOf ps → chargesOf qs = chargesOf ps →
        (s.run qs).1.cartNow = m.cartNow) ∧
    (s.ticksOf es < 2 ^ 32 →
      ((s.run es).2 = true ↔
        (s.compare - s.count - 1).toNat < ((s.run es).1.count - s.count).toNat)) := by
  have he := s.run_moved es
  have hf := s.run_moved fs
  rw [← hops, ← hcharges] at hf
  have heq := he.eq hf hes.1 hes.2 hfs.1 hfs.2
  refine ⟨⟨heq, congrArg _ heq⟩, ?_, fun hlt => ?_⟩
  · intro ps
    obtain ⟨hguest, hcart⟩ := (s.run ps).1.drain_clocks
    refine ⟨hguest, hcart, fun qs ho hc => ?_⟩
    have hq := s.run_moved qs
    rw [ho, hc] at hq
    exact hq.cartNow_eq (s.run_moved ps)
  · rw [s.run_latch es hlt, decide_eq_true_iff, he.count, BitVec.add_comm, BitVec.add_sub_cancel,
      BitVec.toNat_ofNat, Nat.mod_eq_of_lt hlt]

def sampleCounters : Counters where
  cpi256 := 179
  stallClockOn := true
  stallClockCart := true
  retired := 0
  jitPending := 0
  stallCycles := 0
  stallOps := 0
  stallOpsRem := 0
  countFrac := 200
  count := 0xffffffff
  compare := 0
  cpi_pos := by decide
  cpi_le := by decide
  rem_lt := by decide
  frac_lt := by decide

/-- Three instructions one by one, as the interpreter has them. -/
def stepByStep : List ClockEvent := [.commit 1, .charge 48, .commit 1, .charge 3, .commit 1]

/-- The same as a block of two linked in front of a block of one, which is
    committed first. -/
def asChain : List ClockEvent := [.charge 48, .link 2, .charge 3, .commit 1, .flush]

theorem clocks_regroup_sample :
    (sampleCounters.run stepByStep).1.guestOps = (sampleCounters.run asChain).1.guestOps ∧
      (sampleCounters.run stepByStep).1.guestOps = 39 ∧ (sampleCounters.run stepByStep).2 = true :=
  ⟨(clocks_regroup sampleCounters stepByStep asChain (by decide) (by decide) (by decide)
    (by decide)).1.2, by decide, by decide⟩

end Cpu
