import Kestrel64.Si.JoybusSafe

/-! # SI: The Flag of a Device that Did Not Answer

    The block stays in PIF RAM between runs: a game that only asks for the
    buttons starts the read over and over. The RX size is then the one that
    the last run left, with its flag.

    * `follows_iff` — one run: the flag and the time on the line are the
      device's unless it answers a command that already has the flag.
    * `Runs.flagged_iff` — over many runs, nothing takes a flag away.
    * `Runs.follow_iff` — when every run is right.
-/

namespace Si

open Checked (Safe)

variable {M : Type}

/-! ## Section 1: One run -/

/-- `rxsz & NO_DEVICE` -/
def Memory.Flagged (m : Memory M) (h : Cmd) : Prop := m.pifram.getD (h.at' + 1) 0 &&& 0x80 ≠ 0

instance (m : Memory M) (h : Cmd) : Decidable (m.Flagged h) := inferInstanceAs (Decidable (_ ≠ _))

/-- The time of a command on the line: its reply counts if there is one. -/
def Memory.lineTime (m : Memory M) (h : Cmd) : Nat :=
  billTx h.tx + if m.answers h then billRx h.rx else 0

/-- The flags after the run `r` from `m`, and the time that it took, are what
    the devices did. -/
structure Memory.Follows (m : Memory M) (r : Run M) : Prop where
  flag : ∀ h ∈ m.block, r.mem.Flagged h ↔ m.answers h = false
  time : r.us = (m.block.map m.lineTime).sum

theorem flagged_mark (answered : Bool) (rxsz : Byte) :
    mark answered rxsz &&& 0x80 ≠ 0 ↔ rxsz &&& 0x80 ≠ 0 ∨ answered = false := by
  cases answered with
  | true => simp [mark]
  | false => exact iff_of_true (mark_false_ne rxsz) (.inr rfl)

theorem Told.flagged_iff {m m' : Memory M} {e : Entry} (h : Told m m' e) :
    m'.Flagged e.cmd ↔ m.Flagged e.cmd ∨ m.answers e.cmd = false := by
  unfold Memory.Flagged
  rw [h.flag, flagged_mark, h.answered]

theorem Told.billed_iff {m m' : Memory M} {e : Entry} (h : Told m m' e) :
    e.billed = true ↔ ¬ m'.Flagged e.cmd := by
  rw [h.billed, decide_eq_true_iff, Memory.Flagged, not_not]

theorem Ran.flagged_iff {hs : List Cmd} {m m' : Memory M} {es : List Entry} (hran : Ran hs m m' es)
    {h : Cmd} (hh : h ∈ hs) : m'.Flagged h ↔ m.Flagged h ∨ m.answers h = false := by
  rw [← hran.cmds] at hh
  obtain ⟨e, he, rfl⟩ := List.mem_map.mp hh
  exact (hran.told e he).flagged_iff

/-- The time of a run in which no answer carries the flag. -/
theorem Ran.time_eq {hs : List Cmd} {m m' : Memory M} {es : List Entry} (hran : Ran hs m m' es)
    (hclear : ∀ h ∈ hs, m.answers h = true → ¬ m.Flagged h) :
    (es.map Entry.time).sum = (hs.map m.lineTime).sum := by
  rw [← hran.cmds, List.map_map]
  refine congrArg List.sum (List.map_congr_left fun e he => ?_)
  have htold := hran.told e he
  have hh : e.cmd ∈ hs := by
    rw [← hran.cmds]
    exact List.mem_map_of_mem he
  have hbilled : e.billed = m.answers e.cmd := by
    rw [Bool.eq_iff_iff, htold.billed_iff, htold.flagged_iff, not_or, Bool.not_eq_false]
    exact ⟨And.right, fun hans => ⟨hclear _ hh hans, hans⟩⟩
  show billTx e.cmd.tx + _ = billTx e.cmd.tx + _
  rw [hbilled]

section One

variable (H : Host M) {m : Memory M} {r : Run M} (hsize : m.pifram.length = 64)
  (hrun : pifProcessJoybus H false m = .ok r)

include hsize hrun

theorem ran_of_run : Ran m.block m r.mem r.log ∧ r.us = (r.log.map Entry.time).sum := by
  obtain ⟨r', hok, hr'⟩ :=
    pifProcessJoybus_goes H hsize fun (hc : false = true) => absurd hc Bool.false_ne_true
  cases hok.symm.trans hrun
  exact hr'

theorem follows_iff : m.Follows r ↔ ∀ h ∈ m.block, m.answers h = true → ¬ m.Flagged h := by
  obtain ⟨hran, hus⟩ := ran_of_run H hsize hrun
  constructor
  · intro hfol h hh hans hflag
    have habs := (hfol.flag h hh).mp ((hran.flagged_iff hh).mpr (.inl hflag))
    rw [hans] at habs
    exact Bool.noConfusion habs
  · intro hclear
    refine ⟨fun h hh => ?_, hus.trans (hran.time_eq hclear)⟩
    rw [hran.flagged_iff hh]
    refine or_iff_right_of_imp fun hflag => ?_
    exact Bool.eq_false_iff.mpr fun hans => hclear h hh hans hflag

end One

/-! ## Section 2: Many runs over one block -/

/-- The block after a run is the one before it: flags and replies are not part
    of a header. -/
theorem headers_kept {ram ram' : Bytes} (fuel i channel : Nat)
    (hframe : ∀ k, i ≤ k → (∀ h ∈ headers ram fuel i channel, k ≠ h.at' + 1 ∧ ¬ h.Owns k) →
      ram'.getD k 0 = ram.getD k 0)
    (hsizes : ∀ h ∈ headers ram fuel i channel,
      ram'.getD (h.at' + 1) 0 &&& 0x3f = ram.getD (h.at' + 1) 0 &&& 0x3f) :
    headers ram' fuel i channel = headers ram fuel i channel := by
  induction fuel generalizing i channel with
  | zero => rfl
  | succ fuel ih =>
    have hfst : ram'.getD i 0 = ram.getD i 0 := by
      refine hframe i le_rfl fun h hh => ?_
      have hle := (headers_spec _ _ _ _ h hh).1
      refine ⟨by omega, fun hown => ?_⟩
      have : h.at' + 2 + h.tx ≤ i := hown.1
      omega
    unfold headers at hframe hsizes ⊢
    rw [hfst]
    dsimp only at hframe hsizes ⊢
    split_ifs at hframe hsizes with hi hstop hskip hpad hbad
    · simp only [hi, hstop, ↓reduceIte]
    · simp only [hi, hskip, ↓reduceIte]
      exact ih _ _ (fun k hk => hframe k (by omega)) hsizes
    · simp only [hi, hpad, ↓reduceIte]
      exact ih _ _ (fun k hk => hframe k (by omega)) hsizes
    · simp only [hi, hstop, hskip, hpad, ↓reduceIte]
      rw [hframe (i + 1) (by omega) fun _ hmem => absurd hmem List.not_mem_nil, if_pos hbad,
        if_pos hbad]
    · simp only [hi, hstop, hskip, hpad, ↓reduceIte]
      have hsame : cmdAt i channel (ram.getD i 0) (ram'.getD (i + 1) 0) =
          cmdAt i channel (ram.getD i 0) (ram.getD (i + 1) 0) := by
        have hmask := hsizes _ List.mem_cons_self
        unfold cmdAt at hmask ⊢
        rw [hmask]
      rw [hsame, if_neg hbad, if_neg hbad]
      have hend := rxStart_cmdAt i channel (ram.getD i 0) (ram.getD (i + 1) 0)
      generalize hh : cmdAt i channel (ram.getD i 0) (ram.getD (i + 1) 0) = h at *
      have hat : h.at' = i := hh ▸ rfl
      refine congrArg (h :: ·) (ih _ _ (fun k hk hg => ?_) fun g hg => ?_)
      · refine hframe k (by omega) (List.forall_mem_cons.mpr ⟨⟨by omega, fun hown => ?_⟩, hg⟩)
        exact absurd hown.2 (Nat.not_lt.mpr hk)
      · exact hsizes g (List.mem_cons_of_mem _ hg)
    · simp only [hi, ↓reduceIte]

theorem Ran.block_eq {m m' : Memory M} {es : List Entry} (hran : Ran m.block m m' es) :
    m'.block = m.block := by
  refine headers_kept 63 0 0 (fun k _ hk => hran.frame k hk) fun h hh => ?_
  have hmem := hh
  rw [show headers m.pifram 63 0 0 = m.block from rfl, ← hran.cmds] at hmem
  obtain ⟨e, he, rfl⟩ := List.mem_map.mp hmem
  rw [(hran.told e he).flag, mark]
  split_ifs
  · rfl
  · rw [BitVec.and_comm, BitVec.and_or_distrib_left, BitVec.and_comm]
    exact BitVec.or_zero

/-- `n` runs over one block, at different times. Between two of them the host
    may plug, unplug or change what it likes. -/
structure Runs (n : Nat) (H : Nat → Host M) (m : Nat → Memory M) (r : Nat → Run M) : Prop where
  size : (m 0).pifram.length = 64
  ran : ∀ k < n, pifProcessJoybus (H k) false (m k) = .ok (r k)
  stays : ∀ k, k + 1 < n → (m (k + 1)).pifram = (r k).mem.pifram

section Many

variable {n : Nat} {H : Nat → Host M} {m : Nat → Memory M} {r : Nat → Run M} (hr : Runs n H m r)

include hr

theorem Runs.block_at {k : Nat} (hk : k < n) :
    (m k).pifram.length = 64 ∧ (m k).block = (m 0).block := by
  induction k with
  | zero => exact ⟨hr.size, rfl⟩
  | succ k ih =>
    obtain ⟨hsize, hblock⟩ := ih (by omega)
    have hran := (ran_of_run (H k) hsize (hr.ran k (by omega))).1
    have hstays := hr.stays k hk
    refine ⟨hstays ▸ hran.size, ?_⟩
    rw [← hblock, ← hran.block_eq, Memory.block, hstays, Memory.block]

/-- A flag is there from the start, or from a run whose device did not answer. -/
theorem Runs.flagged_iff {k : Nat} (hk : k < n) {h : Cmd} (hh : h ∈ (m 0).block) :
    (m k).Flagged h ↔ (m 0).Flagged h ∨ ∃ j < k, (m j).answers h = false := by
  induction k with
  | zero => simp
  | succ k ih =>
    obtain ⟨hsize, hblock⟩ := hr.block_at (k := k) (by omega)
    have hran := (ran_of_run (H k) hsize (hr.ran k (by omega))).1
    have hlast := hran.flagged_iff (hblock ▸ hh)
    have hflag : (m (k + 1)).Flagged h ↔ (r k).mem.Flagged h := by
      unfold Memory.Flagged
      rw [hr.stays k hk]
    rw [hflag, hlast, ih (by omega), or_assoc]
    refine or_congr_right ⟨?_, ?_⟩
    · rintro (⟨j, hj, hno⟩ | hno)
      · exact ⟨j, by omega, hno⟩
      · exact ⟨k, by omega, hno⟩
    · rintro ⟨j, hj, hno⟩
      rcases Nat.lt_succ_iff_lt_or_eq.mp hj with hj | rfl
      · exact .inl ⟨j, hj, hno⟩
      · exact .inr hno

/-- Every run is right just if a device that answers a command found it
    without the flag, and answered it in every earlier run. -/
theorem Runs.follow_iff : (∀ k < n, (m k).Follows (r k)) ↔
    ∀ k < n, ∀ h ∈ (m 0).block, (m k).answers h = true →
      ¬ (m 0).Flagged h ∧ ∀ j < k, (m j).answers h = true := by
  refine forall₂_congr fun k hk => ?_
  obtain ⟨hsize, hblock⟩ := hr.block_at hk
  rw [follows_iff (H k) hsize (hr.ran k hk), hblock]
  refine forall₃_congr fun h hh _ => ?_
  rw [hr.flagged_iff hk hh, not_or]
  refine and_congr_right fun _ => ?_
  simp only [not_exists, not_and, Bool.not_eq_false]

end Many

/-- A controller in the first port. -/
def plugged (ram : Bytes) : Memory Unit := (console ram).setPort 0 { connected := true }

/-- A controller that is plugged in between two reads still has the flag. -/
theorem replugged_flagged : ∃ r₀ r₁,
    pifProcessJoybus idle false (console buttonRead) = .ok r₀ ∧
    pifProcessJoybus idle false (plugged r₀.mem.pifram) = .ok r₁ ∧
    ¬ (plugged r₀.mem.pifram).Follows r₁ := by
  refine ⟨_, _, rfl, rfl, fun hfol => ?_⟩
  have hflag := (hfol.flag ⟨0, 0, 1, 4⟩ (by decide)).mp (by decide)
  exact absurd hflag (by decide)

theorem plugged_follows : ∃ r, pifProcessJoybus idle false (plugged buttonRead) = .ok r ∧
    (plugged buttonRead).Follows r := by
  have hruns : Runs 1 (fun _ => idle) (fun _ => plugged buttonRead) (fun _ => _) :=
    ⟨rfl, fun _ _ => rfl, fun k hk => absurd hk (by omega)⟩
  have hclear : ∀ h ∈ (plugged buttonRead).block, ¬ (plugged buttonRead).Flagged h := by decide
  refine ⟨_, rfl, hruns.follow_iff.mpr (fun k hk h hh _ => ⟨hclear h hh, fun j hj => ?_⟩) 0 ?_⟩
  · omega
  · exact Nat.one_pos

end Si
