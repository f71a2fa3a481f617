import Mathlib.Order.Bounds.Basic
import Mathlib.Order.MinMax
import Mathlib.Data.Nat.Basic

/-! # RCP: Video Deadlines

    `Memory::viTick` and `Memory::viNextEvent`. The video interface is
    driven by the guest clock: a field lasts `viFieldInsns` operations, and
    in each field the beam passes once the line programmed in `VI_INTR`.
    `viTick` counts crossings since the last time it was called;
    `viNextEvent` announces the next one, so that the run loop need not look
    at the VI in between.

    * `Vi.viTick_fires_iff` — a tick has something to do from the deadline on.
    * `Behind.run_eq` — looking only at deadlines misses nothing.
    * `viNextEvent_exact` — both together.
    * `Vi.intr_shown_iff` — the interrupt against `VI_V_CURRENT`.

    The guest clock is a 64-bit count of operations that never comes near its
    end; instants are natural numbers here. The audio DAC, which `viTick`
    also drives, is in `Rcp.Audio`.
-/

namespace Rcp

/-! ## Section 1: The registers and the tick -/

structure Vi where
  viFieldInsns : Nat
  vi_vsync : Nat
  vi_intr : Nat
  vi_ctrl : Nat
  vi_current : Nat
  viFields : Nat
  viLastRetired : Nat
  viNextAt : Nat

/-- What a tick did: raised `MI_VI`, closed a field. -/
structure Tick where
  intrFire : Bool
  fieldClose : Bool
  deriving DecidableEq, Repr

def Tick.fires (k : Tick) : Bool := k.intrFire || k.fieldClose

/-- Half-lines of a field. -/
def Vi.viHalflines (v : Vi) : Nat :=
  let t := v.vi_vsync % 0x400
  if 2 ≤ t then t else 525

def Vi.field (v : Vi) : Nat := if v.viFieldInsns = 0 then 1 else v.viFieldInsns

/-- `vi_intr & 0x3fe` -/
def Vi.intrLine (v : Vi) : Nat := v.vi_intr % 0x400 / 2 * 2

/-- Where in a field the beam passes the programmed line. It can lie beyond
    the end of the field. -/
def Vi.off (v : Vi) : Nat := v.intrLine * v.field / v.viHalflines

def Vi.crossings (v : Vi) (x : Nat) : Nat :=
  if v.off ≤ x then (x - v.off) / v.field + 1 else 0

/-- `VI_V_CURRENT` at an instant; bit 0 is the field when interlaced. -/
def Vi.viCurrentAt (v : Vi) (t : Nat) : Nat :=
  let hl := t % v.field * v.viHalflines / v.field
  if v.vi_ctrl / 0x40 % 2 = 1 then hl / 2 * 2 + t / v.field % 2 else hl

def Vi.viNextEvent (v : Vi) (now : Nat) : Nat :=
  let total := v.viHalflines
  let off := v.intrLine * v.field / (if total = 0 then 1 else total)
  let nextLine := if now < off then off else off + ((now - off) / v.field + 1) * v.field
  let nextField := (now / v.field + 1) * v.field
  if nextLine < nextField then nextLine else nextField

def Vi.viTick (v : Vi) (retiredNow : Nat) : Vi × Tick :=
  let intrFire := decide (v.crossings v.viLastRetired < v.crossings retiredNow)
  let fieldClose := decide (v.viLastRetired / v.field < retiredNow / v.field)
  let cur := v.viCurrentAt retiredNow
  ({ v with
      viLastRetired := retiredNow
      vi_current := if v.vi_ctrl / 0x40 % 2 = 1 then cur else cur / 2 * 2
      viFields := if fieldClose then v.viFields + 1 else v.viFields
      viNextAt := v.viNextEvent retiredNow },
    { intrFire := intrFire, fieldClose := fieldClose })

/-! ## Section 2: The deadline -/

theorem Vi.field_pos (v : Vi) : 0 < v.field := by
  unfold Vi.field
  split_ifs <;> omega

theorem Vi.viHalflines_ne_zero (v : Vi) : v.viHalflines ≠ 0 := by
  unfold Vi.viHalflines
  dsimp only
  split_ifs <;> omega

/-- Two instants are in different periods of `f` once the next period of the
    first has begun. -/
theorem div_lt_div_iff_next_le {f : Nat} (hf : 0 < f) (a b : Nat) :
    a / f < b / f ↔ (a / f + 1) * f ≤ b :=
  Nat.le_div_iff_mul_le hf

/-- The next crossing of the line after `now`. -/
def Vi.nextLine (v : Vi) (now : Nat) : Nat :=
  if now < v.off then v.off else v.off + ((now - v.off) / v.field + 1) * v.field

def Vi.nextField (v : Vi) (now : Nat) : Nat := (now / v.field + 1) * v.field

theorem Vi.viNextEvent_eq (v : Vi) (now : Nat) :
    v.viNextEvent now = min (v.nextLine now) (v.nextField now) := by
  unfold Vi.viNextEvent Vi.nextLine Vi.nextField Vi.off
  dsimp only
  rw [if_neg v.viHalflines_ne_zero]
  split_ifs <;> omega

theorem Vi.crossings_lt_iff (v : Vi) {now t : Nat} (h : now ≤ t) :
    v.crossings now < v.crossings t ↔ v.nextLine now ≤ t := by
  unfold Vi.crossings Vi.nextLine
  by_cases hnow : now < v.off
  · rw [if_neg (Nat.not_le.mpr hnow), if_pos hnow]
    by_cases ht : v.off ≤ t
    · rw [if_pos ht]
      exact ⟨fun _ => ht, fun _ => Nat.succ_pos _⟩
    · rw [if_neg ht]
      exact ⟨fun h => absurd h (Nat.lt_irrefl 0), fun h => absurd h ht⟩
  · have hoff : v.off ≤ now := Nat.not_lt.mp hnow
    rw [if_pos hoff, if_pos (hoff.trans h), if_neg hnow, Nat.add_lt_add_iff_right,
      div_lt_div_iff_next_le v.field_pos]
    omega

theorem Vi.crossings_mono (v : Vi) {a b : Nat} (h : a ≤ b) : v.crossings a ≤ v.crossings b := by
  unfold Vi.crossings
  split_ifs with ha hb
  · exact Nat.add_le_add_right (Nat.div_le_div_right (by omega)) 1
  · exact absurd (ha.trans h) hb
  · exact Nat.zero_le _
  · exact Nat.le_refl 0

/-- A tick has something to do exactly from the deadline on. -/
theorem Vi.viTick_fires_iff (v : Vi) {t : Nat} (h : v.viLastRetired ≤ t) :
    (v.viTick t).2.fires = true ↔ v.viNextEvent v.viLastRetired ≤ t := by
  unfold Vi.viTick Tick.fires
  rw [Bool.or_eq_true, decide_eq_true_iff, decide_eq_true_iff, v.crossings_lt_iff h,
    div_lt_div_iff_next_le v.field_pos, v.viNextEvent_eq]
  exact min_le_iff.symm

theorem Vi.lt_viNextEvent (v : Vi) (now : Nat) : now < v.viNextEvent now := by
  have hstep (x : Nat) : x < (x / v.field + 1) * v.field := by
    rw [← Nat.div_lt_iff_lt_mul v.field_pos]
    exact Nat.lt_succ_self _
  rw [v.viNextEvent_eq]
  refine lt_min ?_ (hstep now)
  unfold Vi.nextLine
  split_ifs with hnow
  · exact hnow
  · have := hstep (now - v.off)
    omega

/-! ## Section 3: Runs -/

/-- The instants after each instruction, from what each of them adds to the
    guest clock (with stalls, more than one). -/
def instants : Nat → List Nat → List Nat
  | _, [] => []
  | now, d :: ds => (now + d) :: instants (now + d) ds

/-- A tick that did something. -/
structure Event where
  instant : Nat
  tick : Tick
  deriving DecidableEq, Repr

def Tick.event (k : Tick) (t : Nat) : List Event := if k.fires then [⟨t, k⟩] else []

/-- `viTick` after every instruction. -/
def Vi.eagerRun : Vi → List Nat → List Event
  | _, [] => []
  | v, t :: ts =>
    let r := v.viTick t
    r.2.event t ++ r.1.eagerRun ts

/-- `viTick` only when the deadline has come. -/
def Vi.lazyRun : Vi → List Nat → List Event
  | _, [] => []
  | v, t :: ts =>
    if v.viNextAt ≤ t then
      let r := v.viTick t
      r.2.event t ++ r.1.lazyRun ts
    else v.lazyRun ts

/-- The deadline as a register write or a tick leaves it. -/
def Vi.arm (v : Vi) : Vi := { v with viNextAt := v.viNextEvent v.viLastRetired }

/-- `e` has been ticked since `l`, to no effect. -/
structure Behind (l e : Vi) : Prop where
  viFieldInsns : e.viFieldInsns = l.viFieldInsns
  vi_vsync : e.vi_vsync = l.vi_vsync
  vi_intr : e.vi_intr = l.vi_intr
  le : l.viLastRetired ≤ e.viLastRetired
  armed : l.viNextAt = l.viNextEvent l.viLastRetired
  quiet : e.viLastRetired < l.viNextAt

/-- Ticks of two states that see the same line and field. -/
theorem Behind.viTick_snd {l e : Vi} (h : Behind l e) (t : Nat) :
    (e.viTick t).2 = (l.viTick t).2 := by
  have hfield : e.field = l.field := by
    unfold Vi.field
    rw [h.viFieldInsns]
  have hcross (x : Nat) : e.crossings x = l.crossings x := by
    unfold Vi.crossings Vi.off Vi.intrLine Vi.viHalflines
    rw [hfield, h.vi_vsync, h.vi_intr]
  -- between the two last looks there was nothing to see
  have hquiet : ¬ (l.viTick e.viLastRetired).2.fires = true := by
    rw [l.viTick_fires_iff h.le, ← h.armed]
    exact Nat.not_le.mpr h.quiet
  simp only [Vi.viTick, Tick.fires, Bool.or_eq_true, decide_eq_true_iff, not_or, Nat.not_lt]
    at hquiet
  have hline : l.crossings e.viLastRetired = l.crossings l.viLastRetired :=
    Nat.le_antisymm hquiet.1 (l.crossings_mono h.le)
  have hclose : e.viLastRetired / l.field = l.viLastRetired / l.field :=
    Nat.le_antisymm hquiet.2 (Nat.div_le_div_right h.le)
  unfold Vi.viTick
  dsimp only
  rw [hcross, hcross, hfield, hline, hclose]

/-- After a tick of both, neither is behind. -/
theorem Behind.both {l e : Vi} (h : Behind l e) (t : Nat) :
    Behind (l.viTick t).1 (e.viTick t).1 :=
  { h with
    le := Nat.le_refl t
    armed := rfl
    quiet := l.lt_viNextEvent t }

/-- A tick before the deadline leaves the other one behind. -/
theorem Behind.tick {l e : Vi} (h : Behind l e) {t : Nat} (ht : e.viLastRetired ≤ t)
    (hq : t < l.viNextAt) : Behind l (e.viTick t).1 :=
  { h with
    le := h.le.trans ht
    quiet := hq }

theorem Behind.run_eq {l e : Vi} (h : Behind l e) (ds : List Nat) (now : Nat)
    (hnow : e.viLastRetired ≤ now) :
    l.lazyRun (instants now ds) = e.eagerRun (instants now ds) := by
  induction ds generalizing l e now with
  | nil => rfl
  | cons d ds ih =>
    have ht : e.viLastRetired ≤ now + d := hnow.trans (Nat.le_add_right _ _)
    have htick := h.viTick_snd (now + d)
    have hfires := l.viTick_fires_iff (h.le.trans ht)
    rw [← h.armed] at hfires
    unfold instants Vi.lazyRun Vi.eagerRun
    dsimp only
    rw [htick]
    split_ifs with hdue
    · rw [ih (h.both (now + d)) (now + d) (Nat.le_refl _)]
    · have hidle : (l.viTick (now + d)).2.event (now + d) = [] := by
        unfold Tick.event
        rw [if_neg (fun hf => hdue (hfires.mp hf))]
      rw [hidle, List.nil_append]
      exact ih (h.tick ht (Nat.not_le.mp hdue)) (now + d) (Nat.le_refl _)

theorem Vi.arm_behind (v : Vi) : Behind v.arm v where
  viFieldInsns := rfl
  vi_vsync := rfl
  vi_intr := rfl
  le := Nat.le_refl _
  armed := rfl
  quiet := v.lt_viNextEvent _

/-- Deadlines are exact: `viNextEvent` is the first instant with something to
    do, and a loop that looks at the VI only then sees the same interrupts and
    field ends, at the same instructions, as one that always looks. -/
theorem viNextEvent_exact (v : Vi) :
    (∀ now, IsLeast { t | now < t ∧ ({ v with viLastRetired := now }.viTick t).2.fires = true }
      (v.viNextEvent now)) ∧
    ∀ ds, v.arm.lazyRun (instants v.viLastRetired ds) =
      v.eagerRun (instants v.viLastRetired ds) := by
  constructor
  · intro now
    have hfires {t : Nat} (h : now ≤ t) := Vi.viTick_fires_iff { v with viLastRetired := now } h
    constructor
    · exact ⟨v.lt_viNextEvent now, (hfires (v.lt_viNextEvent now).le).mpr (Nat.le_refl _)⟩
    · rintro t ⟨hlt, ht⟩
      exact (hfires hlt.le).mp ht
  · intro ds
    exact v.arm_behind.run_eq ds v.viLastRetired (Nat.le_refl _)

/-! ## Section 4: The interrupt and `VI_V_CURRENT` -/

/-- `n` operations with a tick at each. -/
def Vi.ticked (v : Vi) : Nat → Vi
  | 0 => v
  | n + 1 => ((v.ticked n).viTick (v.viLastRetired + n + 1)).1

/-- The first operation of a field at which `VI_V_CURRENT` shows the
    programmed line. -/
def Vi.FirstShown (v : Vi) (t : Nat) : Prop :=
  v.viCurrentAt t = v.intrLine ∧
    ∀ u < t, u / v.field = t / v.field → v.viCurrentAt u ≠ v.intrLine

section Interrupt

variable (v : Vi)

/-- A run of ticks leaves the registers alone. -/
theorem Vi.ticked_registers (n : Nat) :
    (v.ticked n).viFieldInsns = v.viFieldInsns ∧ (v.ticked n).vi_vsync = v.vi_vsync ∧
      (v.ticked n).vi_intr = v.vi_intr ∧ (v.ticked n).viLastRetired = v.viLastRetired + n := by
  induction n with
  | zero => exact ⟨rfl, rfl, rfl, rfl⟩
  | succ n ih => exact ⟨ih.1, ih.2.1, ih.2.2.1, rfl⟩

/-- A tick one operation after the last fires where the beam is `off`
    operations into a field. -/
theorem Vi.crossings_step (t : Nat) :
    v.crossings t < v.crossings (t + 1) ↔ v.off ≤ t + 1 ∧ v.field ∣ t + 1 - v.off := by
  unfold Vi.crossings
  by_cases hbefore : v.off ≤ t
  · rw [if_pos hbefore, if_pos (hbefore.trans (Nat.le_succ t)), Nat.sub_add_comm hbefore,
      Nat.succ_div]
    split_ifs with hdvd
    · simp only [hdvd, and_true]
      omega
    · simp only [hdvd, and_false, iff_false]
      omega
  · rw [if_neg hbefore]
    by_cases hat : v.off = t + 1
    · rw [if_pos hat.le, hat, Nat.sub_self]
      exact ⟨fun _ => ⟨Nat.le_refl _, Nat.dvd_zero _⟩, fun _ => Nat.succ_pos _⟩
    · have hlater : ¬ v.off ≤ t + 1 := by omega
      rw [if_neg hlater]
      exact ⟨fun h => absurd h (Nat.lt_irrefl 0), fun h => absurd h.1 hlater⟩

/-- The interrupt of the operation after `t`. -/
theorem Vi.intrFire_iff (n : Nat) :
    ((v.ticked n).viTick (v.viLastRetired + n + 1)).2.intrFire = true ↔
      v.off ≤ v.viLastRetired + n + 1 ∧ v.field ∣ v.viLastRetired + n + 1 - v.off := by
  obtain ⟨hinsns, hvsync, hintr, hlast⟩ := v.ticked_registers n
  have hcross (x : Nat) : (v.ticked n).crossings x = v.crossings x := by
    unfold Vi.crossings Vi.off Vi.intrLine Vi.viHalflines Vi.field
    rw [hinsns, hvsync, hintr]
  unfold Vi.viTick
  dsimp only
  rw [decide_eq_true_iff, hcross, hcross, hlast]
  exact v.crossings_step _

variable {v}

/-- Without interlacing the register is the half-line of the beam. -/
theorem Vi.viCurrentAt_eq (hprog : v.vi_ctrl / 0x40 % 2 = 0) (t : Nat) :
    v.viCurrentAt t = t % v.field * v.viHalflines / v.field := by
  unfold Vi.viCurrentAt
  dsimp only
  rw [hprog]
  rfl

/-- The beam is above the line until `off` has passed. -/
theorem Vi.viCurrentAt_lt_iff (hprog : v.vi_ctrl / 0x40 % 2 = 0) (t : Nat) :
    v.viCurrentAt t < v.intrLine ↔ t % v.field * v.viHalflines < v.intrLine * v.field := by
  rw [Vi.viCurrentAt_eq hprog, Nat.div_lt_iff_lt_mul v.field_pos]

theorem Vi.off_mul_le (v : Vi) : v.off * v.viHalflines ≤ v.intrLine * v.field :=
  Nat.div_mul_le_self _ _

/-- **The interrupt comes with the line, where the line begins at an
    operation.** -/
theorem Vi.intr_shown_iff (hprog : v.vi_ctrl / 0x40 % 2 = 0) :
    (∀ n, ((v.ticked n).viTick (v.viLastRetired + n + 1)).2.intrFire = true ↔
      v.FirstShown (v.viLastRetired + n + 1)) ↔
    v.intrLine < v.viHalflines ∧ v.viHalflines ∣ v.intrLine * v.field := by
  have hf := v.field_pos
  have hh : 0 < v.viHalflines := Nat.pos_of_ne_zero v.viHalflines_ne_zero
  constructor
  · intro h
    -- the interrupt of some later field: the register must show the line there
    obtain ⟨n, hn⟩ : ∃ n, v.viLastRetired + n + 1 = v.off + (v.viLastRetired + 1) * v.field := by
      have : v.viLastRetired + 1 ≤ (v.viLastRetired + 1) * v.field := Nat.le_mul_of_pos_right _ hf
      exact ⟨v.off + (v.viLastRetired + 1) * v.field - (v.viLastRetired + 1), by omega⟩
    have hfire := (v.intrFire_iff n).mpr (by
      rw [hn]
      exact ⟨Nat.le_add_right _ _, by rw [Nat.add_sub_cancel_left]; exact Nat.dvd_mul_left _ _⟩)
    obtain ⟨hshown, -⟩ := (h n).mp hfire
    have hat : (v.off + (v.viLastRetired + 1) * v.field) % v.field = v.off % v.field :=
      Nat.add_mul_mod_self_right _ _ _
    have hreach : ¬ v.viCurrentAt (v.viLastRetired + n + 1) < v.intrLine := hshown.ge.not_gt
    rw [Vi.viCurrentAt_lt_iff hprog, hn, hat, Nat.not_lt] at hreach
    have hfloor := v.off_mul_le
    have hmod := Nat.mul_le_mul_right v.viHalflines (Nat.mod_le v.off v.field)
    have hexact : v.off * v.viHalflines = v.intrLine * v.field := by omega
    refine ⟨?_, v.off, by rw [← hexact, Nat.mul_comm]⟩
    have hwithin : v.off % v.field * v.viHalflines < v.field * v.viHalflines :=
      Nat.mul_lt_mul_of_pos_right (Nat.mod_lt _ hf) hh
    rw [Nat.mul_comm v.field] at hwithin
    exact Nat.lt_of_mul_lt_mul_right (hreach.trans_lt hwithin)
  · rintro ⟨hline, hdvd⟩ n
    rw [v.intrFire_iff]
    generalize v.viLastRetired + n + 1 = t
    have hexact : v.off * v.viHalflines = v.intrLine * v.field := Nat.div_mul_cancel hdvd
    have hoff : v.off < v.field := by
      have := Nat.mul_lt_mul_of_pos_right hline hf
      rw [← hexact, Nat.mul_comm v.viHalflines] at this
      exact Nat.lt_of_mul_lt_mul_right this
    have hbefore (u : Nat) : v.viCurrentAt u < v.intrLine ↔ u % v.field < v.off := by
      rw [Vi.viCurrentAt_lt_iff hprog, ← hexact]
      exact Nat.mul_lt_mul_right hh
    have hshows {u : Nat} (hu : u % v.field = v.off) : v.viCurrentAt u = v.intrLine := by
      rw [Vi.viCurrentAt_eq hprog, hu, hexact, Nat.mul_div_cancel _ hf]
    have hsplit := Nat.div_add_mod' t v.field
    constructor
    · rintro ⟨hle, k, hk⟩
      have hmod : t % v.field = v.off := by
        rw [show t = v.off + v.field * k by omega, Nat.add_mul_mod_self_left,
          Nat.mod_eq_of_lt hoff]
      refine ⟨hshows hmod, fun u hu hsame hshown => ?_⟩
      have hsplit' := Nat.div_add_mod' u v.field
      rw [hsame] at hsplit'
      have := (hbefore u).mpr (by omega)
      omega
    · rintro ⟨hshown, hfirst⟩
      have hge : v.off ≤ t % v.field := Nat.not_lt.mp fun hlt => (hshown ▸ (hbefore t).mpr hlt).false
      have hle : t % v.field ≤ v.off := by
        refine Nat.not_lt.mp fun hgt => ?_
        -- the operation `off` of this field shows the line already
        have hmod : (t / v.field * v.field + v.off) % v.field = v.off := by
          rw [Nat.mul_add_mod_self_right, Nat.mod_eq_of_lt hoff]
        have hdiv : (t / v.field * v.field + v.off) / v.field = t / v.field := by
          rw [Nat.mul_comm, Nat.mul_add_div hf, Nat.div_eq_of_lt hoff, Nat.add_zero]
        exact hfirst _ (by omega) hdiv (hshows hmod)
      have hmod : t % v.field = v.off := Nat.le_antisymm hle hge
      refine ⟨by omega, t / v.field, ?_⟩
      rw [Nat.mul_comm]
      omega

/-- The stock NTSC field of 1118437 operations and 525 half-lines, the
    interrupt programmed for half-line 2. -/
def Vi.ntsc (viLastRetired : Nat) : Vi where
  viFieldInsns := 1118437
  vi_vsync := 525
  vi_intr := 2
  vi_ctrl := 0
  vi_current := 0
  viFields := 0
  viLastRetired := viLastRetired
  viNextAt := 0

/-- The interrupt of half-line 2 comes while the register shows 1. -/
theorem Vi.intr_early :
    ¬ ∀ v : Vi, v.vi_ctrl / 0x40 % 2 = 0 → v.viHalflines ≤ v.field → ∀ n,
      (((v.ticked n).viTick (v.viLastRetired + n + 1)).2.intrFire = true ↔
        v.FirstShown (v.viLastRetired + n + 1)) := by
  intro h
  have hfire := (h (.ntsc 4259) (by decide) (by decide) 0).mp (by decide)
  have hshown : (Vi.ntsc 4259).viCurrentAt 4260 = 1 := by decide
  exact absurd (hshown.symm.trans hfire.1) (by decide)

/-- The stock field, whose half-lines begin within operations. -/
theorem Vi.intr_shown_iff_ntsc :
    (∀ n, (((Vi.ntsc 0).ticked n).viTick ((Vi.ntsc 0).viLastRetired + n + 1)).2.intrFire = true ↔
      (Vi.ntsc 0).FirstShown ((Vi.ntsc 0).viLastRetired + n + 1)) ↔
    (Vi.ntsc 0).intrLine < (Vi.ntsc 0).viHalflines ∧
      (Vi.ntsc 0).viHalflines ∣ (Vi.ntsc 0).intrLine * (Vi.ntsc 0).field :=
  Vi.intr_shown_iff (by decide)

end Interrupt

end Rcp
