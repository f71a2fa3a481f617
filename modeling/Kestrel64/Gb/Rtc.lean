import Mathlib.Algebra.Order.Group.Int
import Mathlib.Data.List.Induction
import Mathlib.Tactic.IntervalCases
import Kestrel64.Lib.Checked
import Kestrel64.Lib.Bytes

/-! # Game Boy: The Clock of the MBC3

    Five byte registers S M H DL DH and the instant they stand for. `rtcSync`
    brings them up to the host's clock, unless DH.6 stops the clock: it
    cascades the seconds that have passed through the registers, with the days
    in DL and DH.0 and a carry DH.7 that only the game clears. The game writes
    the registers through masks that admit 63 seconds or 31 hours.

    * `Rtc.sync_running` — what a running clock shows after an advance.
    * `Rtc.sync_sync` — two advances are one.
    * `Rtc.syncs_ascending` — so is any ascending run of them.

    Times are seconds of the host's clock, the source's `s64`.
-/

namespace Gb

/-- The registers S M H DL DH. -/
structure RtcRegs where
  s : Byte := 0
  m : Byte := 0
  h : Byte := 0
  dl : Byte := 0
  dh : Byte := 0
  deriving DecidableEq, Repr

def RtcRegs.get (r : RtcRegs) : Nat → Checked Byte
  | 0 => .ok r.s
  | 1 => .ok r.m
  | 2 => .ok r.h
  | 3 => .ok r.dl
  | 4 => .ok r.dh
  | _ => .error .index

def RtcRegs.set (r : RtcRegs) (v : Byte) : Nat → Checked RtcRegs
  | 0 => .ok { r with s := v }
  | 1 => .ok { r with m := v }
  | 2 => .ok { r with h := v }
  | 3 => .ok { r with dl := v }
  | 4 => .ok { r with dh := v }
  | _ => .error .index

/-- `rtc` is the value at the instant `rtcBase`. -/
structure Rtc where
  rtc : RtcRegs := {}
  rtcBase : Int := 0
  deriving DecidableEq, Repr

/-- The registers `dt` seconds later. -/
def RtcRegs.advance (r : RtcRegs) (dt : Nat) : RtcRegs :=
  let s := r.s.toNat + dt
  let m := r.m.toNat + s / 60
  let h := r.h.toNat + m / 60
  let d := (r.dl.toNat ||| (r.dh.toNat &&& 1) <<< 8) + h / 24
  let dh := r.dh &&& 0xC0
  let dh := if 511 < d then dh ||| 0x80 else dh
  let d := if 511 < d then d % 512 else d
  { s := .ofNat 8 (s % 60)
    m := .ofNat 8 (m % 60)
    h := .ofNat 8 (h % 24)
    dl := .ofNat 8 d
    dh := .ofNat 8 (dh.toNat ||| ((d >>> 8) &&& 1)) }

def Rtc.rtcSync (r : Rtc) (now : Int) : Rtc :=
  let dt := now - r.rtcBase
  if dt ≤ 0 ∨ r.rtc.dh &&& 0x40 ≠ 0 then { r with rtcBase := now }
  else { rtc := r.rtc.advance dt.toNat, rtcBase := now }

/-- The masks of the game's writes. -/
def kMask : List Byte := [0x3F, 0x3F, 0x1F, 0xFF, 0xC1]

def Rtc.write (r : Rtc) (now : Int) (i : Nat) (v : Byte) : Checked Rtc := do
  let r := r.rtcSync now
  let mask ← Checked.read kMask i
  let rtc ← r.rtc.set (v &&& mask) i
  return { r with rtc := rtc }

/-! ## Section 1: What the registers stand for -/

def RtcRegs.halted (r : RtcRegs) : Bool := r.dh.getLsbD 6

def RtcRegs.carry (r : RtcRegs) : Bool := r.dh.getLsbD 7

def RtcRegs.days (r : RtcRegs) : Nat := r.dl.toNat + 256 * (r.dh.toNat % 2)

/-- All of it in seconds, the carry apart. -/
def RtcRegs.seconds (r : RtcRegs) : Nat :=
  r.s.toNat + 60 * r.m.toNat + 3600 * r.h.toNat + 86400 * r.days

/-- The registers of a running clock that shows `t` seconds. -/
def RtcRegs.showing (t : Nat) (carry : Bool) : RtcRegs where
  s := .ofNat 8 (t % 60)
  m := .ofNat 8 (t / 60 % 60)
  h := .ofNat 8 (t / 3600 % 24)
  dl := .ofNat 8 (t / 86400 % 512)
  dh := .ofNat 8 (128 * carry.toNat + t / 86400 % 512 / 256)

theorem RtcRegs.halted_iff (r : RtcRegs) : r.dh &&& 0x40 ≠ 0 ↔ r.halted = true := by
  unfold RtcRegs.halted
  generalize r.dh = b
  revert b
  decide

/-- The top bits of a running clock. -/
theorem RtcRegs.top_bits {r : RtcRegs} (hrun : r.halted = false) :
    r.dh &&& 0xC0 = .ofNat 8 (128 * r.carry.toNat) := by
  unfold RtcRegs.halted at hrun
  unfold RtcRegs.carry
  generalize r.dh = b at *
  revert b
  decide

theorem or_shift (b : Byte) (n : Nat) : b.toNat ||| (n &&& 1) <<< 8 = b.toNat + 256 * (n % 2) := by
  rw [Nat.and_one_is_mod, Nat.or_comm, ← Nat.shiftLeft_add_eq_or_of_lt b.isLt, Nat.shiftLeft_eq]
  omega

/-- The carry and the ninth bit of the days share a register. -/
theorem carry_or_day (c : Bool) {k : Nat} (hk : k < 2) : 128 * c.toNat ||| k = 128 * c.toNat + k := by
  have : k = 0 ∨ k = 1 := by omega
  obtain rfl | rfl := this <;> cases c <;> rfl

/-- The cascade, as one number. -/
theorem RtcRegs.advance_eq {r : RtcRegs} (hrun : r.halted = false) (dt : Nat) :
    r.advance dt = .showing (r.seconds + dt)
      (r.carry || decide (511 < (r.seconds + dt) / 86400)) := by
  have hs : (r.s.toNat + dt) % 60 = (r.seconds + dt) % 60 := by
    unfold RtcRegs.seconds
    omega
  have hm : (r.m.toNat + (r.s.toNat + dt) / 60) % 60 = (r.seconds + dt) / 60 % 60 := by
    unfold RtcRegs.seconds
    omega
  have hh : (r.h.toNat + (r.m.toNat + (r.s.toNat + dt) / 60) / 60) % 24 =
      (r.seconds + dt) / 3600 % 24 := by
    unfold RtcRegs.seconds
    omega
  have hd : r.days + (r.h.toNat + (r.m.toNat + (r.s.toNat + dt) / 60) / 60) / 24 =
      (r.seconds + dt) / 86400 := by
    unfold RtcRegs.seconds
    omega
  unfold RtcRegs.advance RtcRegs.showing
  rw [or_shift, RtcRegs.top_bits hrun]
  dsimp only
  rw [hs, hm, hh, show r.dl.toNat + 256 * (r.dh.toNat % 2) = r.days from rfl, hd]
  generalize (r.seconds + dt) / 86400 = d
  have hbit (k : Nat) : (k % 512) >>> 8 &&& 1 = k % 512 / 256 := by
    rw [Nat.and_one_is_mod, Nat.shiftRight_eq_div_pow]
    omega
  have htop (c : Bool) : (BitVec.ofNat 8 (128 * c.toNat)).toNat = 128 * c.toNat := by
    cases c <;> rfl
  have hset : BitVec.ofNat 8 (128 * r.carry.toNat) ||| (0x80 : Byte) = BitVec.ofNat 8 (128 * true.toNat) := by
    cases r.carry <;> rfl
  have hkeep : (if 511 < d then d % 512 else d) = d % 512 := by
    split_ifs <;> omega
  rw [hkeep, hbit]
  have hcarry : (if 511 < d then BitVec.ofNat 8 (128 * r.carry.toNat) ||| (0x80 : Byte)
      else BitVec.ofNat 8 (128 * r.carry.toNat)) =
      BitVec.ofNat 8 (128 * (r.carry || decide (511 < d)).toNat) := by
    split_ifs with hover
    · rw [hset, decide_eq_true hover, Bool.or_true]
    · rw [decide_eq_false hover, Bool.or_false]
  rw [hcarry, htop, carry_or_day _ (by omega)]

/-! ## Section 2: Advances -/

section Showing

variable (t : Nat) (c : Bool)

theorem RtcRegs.showing_fields :
    (showing t c).s.toNat = t % 60 ∧ (showing t c).m.toNat = t / 60 % 60 ∧
      (showing t c).h.toNat = t / 3600 % 24 ∧ (showing t c).dl.toNat = t / 86400 % 512 % 256 ∧
      (showing t c).dh.toNat = 128 * c.toNat + t / 86400 % 512 / 256 := by
  unfold RtcRegs.showing
  simp only [BitVec.toNat_ofNat]
  have := c.toNat_le
  refine ⟨?_, ?_, ?_, ?_, ?_⟩
  · omega
  · omega
  · omega
  · trivial
  · omega

theorem RtcRegs.showing_days : (showing t c).days = t / 86400 % 512 := by
  obtain ⟨-, -, -, hdl, hdh⟩ := RtcRegs.showing_fields t c
  unfold RtcRegs.days
  omega

theorem RtcRegs.showing_seconds : (showing t c).seconds = t % (512 * 86400) := by
  obtain ⟨hs, hm, hh, -, -⟩ := RtcRegs.showing_fields t c
  unfold RtcRegs.seconds
  rw [RtcRegs.showing_days]
  omega

theorem RtcRegs.showing_flags : (showing t c).halted = false ∧ (showing t c).carry = c := by
  obtain ⟨-, -, -, -, hdh⟩ := RtcRegs.showing_fields t c
  have hday : t / 86400 % 512 / 256 = 0 ∨ t / 86400 % 512 / 256 = 1 := by omega
  unfold RtcRegs.halted RtcRegs.carry
  simp only [BitVec.getLsbD, hdh]
  obtain h | h := hday <;> rw [h] <;> cases c <;> decide

/-- Whole turns of the nine bits of days do not show. -/
theorem RtcRegs.showing_mod (k : Nat) : showing (t + 512 * 86400 * k) c = showing t c := by
  unfold RtcRegs.showing
  have h1 : (t + 512 * 86400 * k) % 60 = t % 60 := by omega
  have h2 : (t + 512 * 86400 * k) / 60 % 60 = t / 60 % 60 := by omega
  have h3 : (t + 512 * 86400 * k) / 3600 % 24 = t / 3600 % 24 := by omega
  have h4 : (t + 512 * 86400 * k) / 86400 % 512 = t / 86400 % 512 := by omega
  rw [h1, h2, h3, h4]

end Showing

/-- A running clock advanced twice. -/
theorem RtcRegs.advance_advance {r : RtcRegs} (hrun : r.halted = false) (a b : Nat) :
    (r.advance a).advance b = r.advance (a + b) := by
  obtain ⟨k, hk⟩ : ∃ k, r.seconds + a = (r.seconds + a) % (512 * 86400) + 512 * 86400 * k :=
    ⟨_, (Nat.mod_add_div _ _).symm⟩
  rw [RtcRegs.advance_eq hrun a, RtcRegs.advance_eq hrun (a + b),
    RtcRegs.advance_eq (RtcRegs.showing_flags _ _).1 b, RtcRegs.showing_seconds,
    (RtcRegs.showing_flags _ _).2]
  have hsum : r.seconds + (a + b) = (r.seconds + a) % (512 * 86400) + b + 512 * 86400 * k := by
    omega
  have hlow := Nat.mod_lt (r.seconds + a) (show 0 < 512 * 86400 by decide)
  rw [hsum, RtcRegs.showing_mod]
  congr 1
  -- the days pass 511 in the first advance, or in the second, or not at all
  rw [Bool.or_assoc, ← Bool.decide_or]
  congr 1
  exact decide_eq_decide.mpr (by omega)

section Sync

variable (r : Rtc) (a b : Nat)

theorem Rtc.sync_halted (hhalt : r.rtc.halted = true) (now : Int) :
    r.rtcSync now = { r with rtcBase := now } :=
  if_pos (.inr (r.rtc.halted_iff.mpr hhalt))

theorem Rtc.sync_same : r.rtcSync r.rtcBase = r := if_pos (.inl (Int.sub_self _).le)

theorem Rtc.sync_running (hrun : r.rtc.halted = false) (ha : 0 < a) :
    r.rtcSync (r.rtcBase + a) = { rtc := r.rtc.advance a, rtcBase := r.rtcBase + a } := by
  have hgo : ¬ (r.rtcBase + a - r.rtcBase ≤ 0 ∨ r.rtc.dh &&& 0x40 ≠ 0) := by
    rw [RtcRegs.halted_iff, hrun]
    rintro (hdt | hhalt)
    · omega
    · exact Bool.false_ne_true hhalt
  have hdt : (r.rtcBase + a - r.rtcBase).toNat = a := by omega
  unfold Rtc.rtcSync
  dsimp only
  rw [if_neg hgo, hdt]

/-- Two advances are one. -/
theorem Rtc.sync_sync :
    (r.rtcSync (r.rtcBase + a)).rtcSync (r.rtcBase + a + b) = r.rtcSync (r.rtcBase + a + b) := by
  cases hhalt : r.rtc.halted with
  | true =>
    rw [Rtc.sync_halted r hhalt, Rtc.sync_halted r hhalt]
    exact Rtc.sync_halted { r with rtcBase := r.rtcBase + a } hhalt _
  | false =>
    rcases Nat.eq_zero_or_pos a with rfl | ha
    · rw [Int.natCast_zero, Int.add_zero, Rtc.sync_same]
    rcases Nat.eq_zero_or_pos b with rfl | hb
    · rw [Int.natCast_zero, Int.add_zero, Rtc.sync_running r a hhalt ha]
      exact Rtc.sync_same { rtc := r.rtc.advance a, rtcBase := r.rtcBase + a }
    · have hrun : (r.rtc.advance a).halted = false := by
        rw [RtcRegs.advance_eq hhalt]
        exact (RtcRegs.showing_flags _ _).1
      have hnow : r.rtcBase + a + b = r.rtcBase + (a + b : Nat) := by omega
      rw [Rtc.sync_running r a hhalt ha,
        Rtc.sync_running { rtc := r.rtc.advance a, rtcBase := r.rtcBase + a } b hrun hb, hnow,
        Rtc.sync_running r (a + b) hhalt (by omega), RtcRegs.advance_advance hhalt]

end Sync

/-- The clock only shows where it was and where it is: the instants between
    do not matter. -/
theorem Rtc.syncs_ascending (r : Rtc) {steps : List Nat} (hne : steps ≠ []) :
    steps.foldl (fun r dt => r.rtcSync (r.rtcBase + dt)) r = r.rtcSync (r.rtcBase + steps.sum) := by
  have hbase (r : Rtc) (now : Int) : (r.rtcSync now).rtcBase = now := by
    unfold Rtc.rtcSync
    dsimp only
    split_ifs <;> rfl
  induction steps using List.reverseRecOn with
  | nil => exact absurd rfl hne
  | append_singleton steps dt ih =>
    rw [List.foldl_append, List.sum_append]
    rcases eq_or_ne steps [] with rfl | hsome
    · simp
    · rw [ih hsome]
      simp only [List.foldl_cons, List.foldl_nil, hbase, List.sum_singleton]
      rw [Rtc.sync_sync, Nat.cast_add, Int.add_assoc]

/-! ## Section 3: What the game can store -/

/-- The values that pass through the masks. -/
structure RtcRegs.Storable (r : RtcRegs) : Prop where
  s : r.s.toNat < 64
  m : r.m.toNat < 64
  h : r.h.toNat < 32
  dh : r.dh &&& 0x3E = 0

theorem RtcRegs.showing_storable (t : Nat) (c : Bool) : (showing t c).Storable := by
  obtain ⟨hs, hm, hh, -, -⟩ := RtcRegs.showing_fields t c
  refine ⟨by omega, by omega, by omega, ?_⟩
  have hday : t / 86400 % 512 / 256 = 0 ∨ t / 86400 % 512 / 256 = 1 := by omega
  unfold RtcRegs.showing
  dsimp only
  obtain h | h := hday <;> rw [h] <;> cases c <;> rfl

theorem Rtc.sync_storable {r : Rtc} (hr : r.rtc.Storable) (now : Int) :
    (r.rtcSync now).rtc.Storable := by
  unfold Rtc.rtcSync
  dsimp only
  split_ifs with hstay
  · exact hr
  · have hrun : r.rtc.halted = false := by
      rw [← Bool.not_eq_true, ← RtcRegs.halted_iff]
      exact fun hhalt => hstay (.inr hhalt)
    rw [RtcRegs.advance_eq hrun]
    exact RtcRegs.showing_storable _ _

/-- The game's writes find their register, and store through its mask. -/
theorem Rtc.write_storable {r : Rtc} (hr : r.rtc.Storable) (now : Int) {i : Nat} (hi : i < 5)
    (v : Byte) : Checked.Safe (r.write now i v) fun r' => r'.rtc.Storable := by
  obtain ⟨hs, hm, hh, hdh⟩ := Rtc.sync_storable hr now
  have hlow : ∀ v : Byte, (v &&& 0x3F).toNat < 64 ∧ (v &&& 0x1F).toNat < 32 ∧
      (v &&& 0xC1) &&& 0x3E = 0 := by decide
  obtain ⟨h64, h32, hmask⟩ := hlow v
  interval_cases i
  · exact .ok ⟨h64, hm, hh, hdh⟩
  · exact .ok ⟨hs, h64, hh, hdh⟩
  · exact .ok ⟨hs, hm, h32, hdh⟩
  · exact .ok ⟨hs, hm, hh, hdh⟩
  · exact .ok ⟨hs, hm, hh, hmask⟩

/-- **The clock is additive, and what it shows after an advance.** -/
theorem Rtc.advance_additive (r : Rtc) (a b : Nat) :
    (r.rtcSync (r.rtcBase + a)).rtcSync (r.rtcBase + a + b) = r.rtcSync (r.rtcBase + a + b) ∧
    (r.rtc.halted = true → (r.rtcSync (r.rtcBase + a)).rtc = r.rtc) ∧
    (r.rtc.halted = false → 0 < a →
      let r' := (r.rtcSync (r.rtcBase + a)).rtc
      r'.s.toNat < 60 ∧ r'.m.toNat < 60 ∧ r'.h.toNat < 24 ∧
        r'.days = (r.rtc.seconds + a) / 86400 % 512 ∧
        (r'.carry = true ↔ r.rtc.carry = true ∨ 511 < (r.rtc.seconds + a) / 86400)) := by
  refine ⟨Rtc.sync_sync r a b, fun hhalt => ?_, fun hrun ha => ?_⟩
  · rw [Rtc.sync_halted r hhalt]
  · rw [Rtc.sync_running r a hrun ha]
    dsimp only
    rw [RtcRegs.advance_eq hrun]
    obtain ⟨hs, hm, hh, -, -⟩ := RtcRegs.showing_fields (r.rtc.seconds + a)
      (r.rtc.carry || decide (511 < (r.rtc.seconds + a) / 86400))
    rw [RtcRegs.showing_days, (RtcRegs.showing_flags _ _).2, hs, hm, hh, Bool.or_eq_true,
      decide_eq_true_iff]
    exact ⟨Nat.mod_lt _ (by decide), Nat.mod_lt _ (by decide), Nat.mod_lt _ (by decide), rfl, Iff.rfl⟩

/-- One second after 63:63:31 of day 511. -/
example : ((⟨⟨63, 63, 31, 255, 1⟩, 0⟩ : Rtc).rtcSync 1).rtc = ⟨4, 4, 8, 0, 0x80⟩ := by decide

end Gb
