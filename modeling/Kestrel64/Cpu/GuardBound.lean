import Mathlib.Algebra.Order.BigOperators.Group.List
import Kestrel64.Cpu.Counters

/-! # CPU: How Far a Block May Run

    The dynarec lets a block go if it cannot run past the next deadline, and
    bounds what `K` instructions can cost by `stallPerOpMax`, the most one of
    them can stall.

    * `ticks_bounded`, `guestOps_bounded` — `K` instructions that keep to
      `stallPerOpMax` stay under `countTicksMax` and `guestOpsMax`.
    * `countTicksMax_opsForTicks`, `guestOpsMax_opsForGuest` — the inverses are
      on the safe side.

    The costs are at most 1024 and a count of instructions has 32 bits, so no
    product comes near 64 bits. These are natural numbers.
-/

namespace Cpu

/-! ## Section 1: The bounds -/

/-- The costs that are turned on. -/
structure Costs where
  icMissCycles : Nat
  dcMissCycles : Nat
  uncachedCycles : Nat
  mulDivMode : Nat
  fpuMode : Nat
  ilkMode : Nat
  deriving DecidableEq, Repr

/-- The dearest of an access to the data cache, one past it, a division and a
    square root. -/
def Costs.own (k : Costs) : Nat :=
  let own := if k.uncachedCycles < k.dcMissCycles then k.dcMissCycles else k.uncachedCycles
  let own := if 2 ≤ k.mulDivMode ∧ own < 68 then 68 else own
  if 2 ≤ k.fpuMode ∧ own < 57 then 57 else own

def Costs.stallPerOpMax (k : Costs) : Nat :=
  k.icMissCycles + if 2 ≤ k.ilkMode then k.own + 2 else k.own

def Costs.costsOn (k : Costs) : Prop :=
  k.icMissCycles ≠ 0 ∨ k.dcMissCycles ≠ 0 ∨ k.uncachedCycles ≠ 0 ∨
    2 ≤ k.mulDivMode ∨ 2 ≤ k.fpuMode ∨ 2 ≤ k.ilkMode

instance (k : Costs) : Decidable k.costsOn := inferInstanceAs (Decidable (_ ∨ _))

def Costs.countTicksMax (k : Costs) (s : Counters) (ops : Nat) : Nat :=
  if k.costsOn then ops + (ops * k.stallPerOpMax + s.stallCycles + 1) / 2 else ops

def Costs.guestOpsMax (k : Costs) (s : Counters) (ops : Nat) : Nat :=
  if k.costsOn then ops + (ops * k.stallPerOpMax * 128 + s.cpi256 - 1) / s.cpi256 + 1 else ops

/-- A count of instructions has 32 bits. -/
def toOps (n : Nat) : Nat := min n 0xffffffff

def Costs.opsForGuest (k : Costs) (s : Counters) (g : Nat) : Nat :=
  if k.costsOn then
    let per := 1 + (k.stallPerOpMax * 128 + s.cpi256 - 1) / s.cpi256
    toOps (if 1 < g then (g - 1) / per else 0)
  else toOps g

def Costs.opsForTicks (k : Costs) (ticks : Nat) : Nat :=
  let per := k.stallPerOpMax
  toOps (if per ≠ 0 then ticks / (1 + (per + 1) / 2) else ticks)

theorem Costs.costsOn_iff (k : Costs) : k.costsOn ↔ k.stallPerOpMax ≠ 0 := by
  unfold Costs.costsOn Costs.stallPerOpMax Costs.own
  dsimp only
  split_ifs <;> omega

/-! ## Section 2: Blocks -/

/-- The clock over a block whose instructions stall for `b`. The interpreter's
    blocks have one instruction. -/
def blockEvents (b : List Nat) : List ClockEvent := b.map .charge ++ [.commit b.length]

def runEvents (bs : List (List Nat)) : List ClockEvent := bs.flatMap blockEvents

theorem opsOf_append (es fs : List ClockEvent) : opsOf (es ++ fs) = opsOf es + opsOf fs := by
  unfold opsOf
  rw [List.map_append, List.sum_append]

theorem chargesOf_append (es fs : List ClockEvent) :
    chargesOf (es ++ fs) = chargesOf es + chargesOf fs := by
  unfold chargesOf
  rw [List.map_append, List.sum_append]

theorem blockEvents_totals (b : List Nat) :
    opsOf (blockEvents b) = b.length ∧ chargesOf (blockEvents b) = b.sum := by
  have hcharges : opsOf (b.map .charge) = 0 ∧ chargesOf (b.map .charge) = b.sum := by
    induction b with
    | nil => exact ⟨rfl, rfl⟩
    | cons d b ih =>
      obtain ⟨hops, hsum⟩ := ih
      refine ⟨?_, ?_⟩
      · show 0 + opsOf (b.map .charge) = 0
        omega
      · show d + chargesOf (b.map .charge) = (d :: b).sum
        rw [hsum, List.sum_cons]
  unfold blockEvents
  rw [opsOf_append, chargesOf_append, hcharges.1, hcharges.2]
  exact ⟨Nat.zero_add _, Nat.add_zero _⟩

theorem runEvents_totals (bs : List (List Nat)) :
    opsOf (runEvents bs) = bs.flatten.length ∧ chargesOf (runEvents bs) = bs.flatten.sum := by
  induction bs with
  | nil => exact ⟨rfl, rfl⟩
  | cons b bs ih =>
    obtain ⟨hops, hsum⟩ := blockEvents_totals b
    show opsOf (blockEvents b ++ runEvents bs) = _ ∧ chargesOf (blockEvents b ++ runEvents bs) = _
    rw [opsOf_append, chargesOf_append, hops, hsum, ih.1, ih.2, List.flatten_cons,
      List.length_append, List.sum_append]
    exact ⟨rfl, rfl⟩

/-- Nothing is deferred. -/
def ClockEvent.Paid : ClockEvent → Prop
  | .charge _ | .commit _ => True
  | .link _ | .flush => False

theorem runEvents_paid (bs : List (List Nat)) : ∀ e ∈ runEvents bs, e.Paid := by
  intro e he
  obtain ⟨b, -, he⟩ := List.mem_flatMap.mp he
  rcases List.mem_append.mp he with he | he
  · obtain ⟨d, -, rfl⟩ := List.mem_map.mp he
    trivial
  · rw [List.mem_singleton.mp he]
    trivial

theorem Counters.run_jitPending (s : Counters) {es : List ClockEvent} (h : ∀ e ∈ es, e.Paid) :
    (s.run es).1.jitPending = s.jitPending := by
  induction es generalizing s with
  | nil => rfl
  | cons e es ih =>
    rw [List.forall_mem_cons] at h
    refine (ih (s.step e).1 h.2).trans ?_
    cases e with
    | charge d => rfl
    | commit n => exact (s.commit_spec n).jitPending
    | link n => exact h.1.elim
    | flush => exact h.1.elim

/-! ## Section 3: Runs -/

/-- The most that `es` can move `Count` from `s`, in 256ths of a tick. -/
theorem Counters.ticksOf_le (s : Counters) {es : List ClockEvent} (h : ∀ e ∈ es, e.Paid) :
    256 * s.ticksOf es ≤
      s.countFrac + opsOf es * s.cpi256 + (s.stallCycles + chargesOf es) * 128 := by
  have hm := (s.run_moved es).owed
  have hp := s.run_jitPending h
  unfold Counters.owed at hm
  rw [hp, (s.run_moved es).cpi256] at hm
  omega

theorem Counters.guestOps_run (s : Counters) {es : List ClockEvent} (h : ∀ e ∈ es, e.Paid) :
    (s.run es).1.guestOps =
      s.retired + opsOf es + if s.stallClockOn then (s.stallSum + chargesOf es * 128) / s.cpi256
        else 0 := by
  have hm := s.run_moved es
  have hret : (s.run es).1.retired = s.retired + opsOf es := by
    have := hm.executed
    have := s.run_jitPending h
    omega
  unfold Counters.guestOps
  rw [hm.stallClockOn, hret, Counters.stalled_eq, hm.stallSum, hm.cpi256]
  split_ifs <;> rfl

theorem Counters.guestOps_eq (s : Counters) :
    s.guestOps = s.retired + if s.stallClockOn then s.stallSum / s.cpi256 else 0 := by
  unfold Counters.guestOps
  rw [s.stalled_eq]
  split_ifs <;> rfl

/-- Rounding the second summand up. -/
theorem add_div_le (a b : Nat) {q : Nat} (hq : 0 < q) : (a + b) / q ≤ a / q + (b + q - 1) / q := by
  have ha : a < (a / q + 1) * q := Nat.lt_mul_of_div_lt (Nat.lt_succ_self _) hq
  have hb : b + q - 1 < ((b + q - 1) / q + 1) * q := Nat.lt_mul_of_div_lt (Nat.lt_succ_self _) hq
  refine Nat.le_of_lt_succ (Nat.div_lt_of_lt_mul ?_)
  rw [Nat.add_mul] at ha hb
  rw [Nat.succ_eq_add_one, Nat.mul_comm, Nat.add_mul, Nat.add_mul]
  omega

/-- The stalls of instructions that keep to `stallPerOpMax`. -/
theorem sum_le_perOp {k : Costs} {bs : List (List Nat)}
    (h : ∀ d ∈ bs.flatten, d ≤ k.stallPerOpMax) :
    bs.flatten.sum ≤ bs.flatten.length * k.stallPerOpMax := by
  have := List.sum_le_card_nsmul bs.flatten k.stallPerOpMax h
  rwa [nsmul_eq_mul, Nat.cast_id] at this

theorem guestOps_bounded (k : Costs) (s : Counters) {bs : List (List Nat)}
    (h : ∀ d ∈ bs.flatten, d ≤ k.stallPerOpMax) :
    (s.run (runEvents bs)).1.guestOps ≤ s.guestOps + k.guestOpsMax s bs.flatten.length := by
  have hsum := sum_le_perOp h
  rw [s.guestOps_run (runEvents_paid bs), s.guestOps_eq, (runEvents_totals bs).1,
    (runEvents_totals bs).2]
  unfold Costs.guestOpsMax
  generalize bs.flatten.length = n at hsum
  generalize bs.flatten.sum = c at hsum
  by_cases hcost : k.costsOn
  · rw [if_pos hcost]
    have hround := add_div_le s.stallSum (c * 128) s.cpi_pos
    have hmono : (c * 128 + s.cpi256 - 1) / s.cpi256 ≤
        (n * k.stallPerOpMax * 128 + s.cpi256 - 1) / s.cpi256 :=
      Nat.div_le_div_right (by omega)
    generalize (n * k.stallPerOpMax * 128 + s.cpi256 - 1) / s.cpi256 = q at hmono
    split_ifs <;> omega
  · rw [if_neg hcost]
    have hzero : c = 0 := by
      rw [k.costsOn_iff, not_not] at hcost
      rw [hcost] at hsum
      omega
    rw [hzero, Nat.zero_mul, Nat.add_zero]
    split_ifs <;> omega

/-- What is owed at the start does not carry `Count` over by itself. -/
def Counters.Light (s : Counters) : Prop := s.countFrac + s.cpi256 + s.stallCycles * 128 < 512

theorem ticks_bounded (k : Costs) (s : Counters) (hs : k.costsOn ∨ s.Light) {bs : List (List Nat)}
    (hfull : ∀ b ∈ bs, b ≠ []) (h : ∀ d ∈ bs.flatten, d ≤ k.stallPerOpMax) :
    s.ticksOf (runEvents bs) ≤ k.countTicksMax s bs.flatten.length := by
  have hsum := sum_le_perOp h
  have hticks := s.ticksOf_le (runEvents_paid bs)
  have hfrac := s.frac_lt
  rw [(runEvents_totals bs).1, (runEvents_totals bs).2] at hticks
  unfold Costs.countTicksMax
  split_ifs with hcost
  · have hcpi := Nat.mul_le_mul_left bs.flatten.length s.cpi_le
    omega
  · have hzero : bs.flatten.sum = 0 := by
      rw [k.costsOn_iff, not_not] at hcost
      rw [hcost] at hsum
      omega
    have hlight := hs.resolve_left hcost
    unfold Counters.Light at hlight
    cases bs with
    | nil => exact Nat.le_refl _
    | cons b bs =>
      -- there is an instruction, and the others make at most a tick each
      obtain ⟨d, b', rfl⟩ := List.exists_cons_of_ne_nil (hfull b List.mem_cons_self)
      have hlen : ((d :: b') :: bs).flatten.length = (b' ++ bs.flatten).length + 1 := rfl
      rw [hzero, hlen] at hticks
      rw [hlen]
      have hcpi := Nat.mul_le_mul_left (b' ++ bs.flatten).length s.cpi_le
      rw [Nat.add_mul] at hticks
      omega

/-- One instruction that does not stall is enough to tell. -/
theorem light_of_ticks {k : Costs} {s : Counters} (hcost : ¬ k.costsOn)
    (h : s.ticksOf (runEvents [[0]]) ≤ k.countTicksMax s 1) : s.Light := by
  have hticks : s.ticksOf (runEvents [[0]]) =
      (s.countFrac + s.cpi256 + s.stallCycles * 128) / 256 := by
    show 0 + ((s.countFrac + 1 * s.cpi256 + (s.stallCycles + 0) * 128) / 256 + 0) = _
    rw [Nat.one_mul, Nat.zero_add, Nat.add_zero, Nat.add_zero]
  unfold Costs.countTicksMax at h
  rw [hticks, if_neg hcost] at h
  unfold Counters.Light
  omega

/-! ## Section 4: The inverses -/

theorem toOps_le (n : Nat) : toOps n ≤ n := Nat.min_le_left _ _

theorem countTicksMax_opsForTicks (k : Costs) {s : Counters} (hs : s.stallCycles = 0) (t : Nat) :
    k.countTicksMax s (k.opsForTicks t) ≤ t := by
  unfold Costs.countTicksMax Costs.opsForTicks
  dsimp only
  by_cases hper : k.stallPerOpMax ≠ 0
  · rw [if_pos (k.costsOn_iff.mpr hper), if_pos hper, hs]
    have hle := toOps_le (t / (1 + (k.stallPerOpMax + 1) / 2))
    generalize toOps _ = n at hle
    have hmul : n * (1 + (k.stallPerOpMax + 1) / 2) ≤ t :=
      (Nat.mul_le_mul_right _ hle).trans (Nat.div_mul_le_self _ _)
    have hhalf : (n * k.stallPerOpMax + 0 + 1) / 2 ≤ n * ((k.stallPerOpMax + 1) / 2) := by
      cases n with
      | zero => simp
      | succ n =>
        rcases Nat.even_or_odd' k.stallPerOpMax with ⟨j, hj | hj⟩
        · rw [hj, show (2 * j + 1) / 2 = j by omega, Nat.mul_left_comm]
          omega
        · rw [hj, show (2 * j + 1 + 1) / 2 = j + 1 by omega, Nat.mul_add, Nat.mul_add,
            Nat.mul_left_comm]
          omega
    rw [Nat.mul_add] at hmul
    omega
  · rw [if_neg (mt k.costsOn_iff.mp hper), if_neg hper]
    exact toOps_le t

theorem guestOpsMax_opsForGuest (k : Costs) (s : Counters) {g : Nat} (hg : 1 ≤ g) :
    k.guestOpsMax s (k.opsForGuest s g) ≤ g := by
  have hpos := s.cpi_pos
  unfold Costs.guestOpsMax Costs.opsForGuest
  by_cases hcost : k.costsOn
  · rw [if_pos hcost, if_pos hcost]
    dsimp only
    have hle : toOps (if 1 < g then
        (g - 1) / (1 + (k.stallPerOpMax * 128 + s.cpi256 - 1) / s.cpi256) else 0) ≤
        (g - 1) / (1 + (k.stallPerOpMax * 128 + s.cpi256 - 1) / s.cpi256) := by
      refine (toOps_le _).trans ?_
      split_ifs
      · exact Nat.le_refl _
      · exact Nat.zero_le _
    generalize toOps _ = n at hle
    generalize hper : (k.stallPerOpMax * 128 + s.cpi256 - 1) / s.cpi256 = per at hle
    have hmul : n * (1 + per) ≤ g - 1 :=
      (Nat.mul_le_mul_right _ hle).trans (Nat.div_mul_le_self _ _)
    have hceil : k.stallPerOpMax * 128 ≤ per * s.cpi256 := by
      have := Nat.lt_mul_of_div_lt (Nat.lt_succ_of_le hper.le) hpos
      rw [Nat.succ_eq_add_one, Nat.add_mul] at this
      omega
    have hall : (n * k.stallPerOpMax * 128 + s.cpi256 - 1) / s.cpi256 ≤ n * per := by
      refine Nat.le_of_lt_succ (Nat.div_lt_of_lt_mul ?_)
      have hn := Nat.mul_le_mul_left n hceil
      rw [← Nat.mul_assoc, ← Nat.mul_assoc] at hn
      rw [Nat.succ_eq_add_one, Nat.mul_comm s.cpi256, Nat.add_mul]
      omega
    rw [Nat.mul_add] at hmul
    omega
  · rw [if_neg hcost, if_neg hcost]
    exact toOps_le g

end Cpu
