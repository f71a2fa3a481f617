import Kestrel64.Cheats.Engine

/-! # Cheats: The Published Format

    What a list of lines means by itself: a write line writes once, or as
    often as the repeat prefix in front of it says; a condition in front of
    the line, or of the prefix, guards all of it. `reference` says so line by
    line from the lines in front, without state.

    The run keeps two pieces of state instead. `Pending.Tracks` is what they
    have to do with the lines in front, and `run_iff` says on which lists and
    machines the run does the writes of the format.
-/

namespace Cheats

open Cpu

variable {Dev : Type} (D : Devices Dev) (pak : Pak)

/-! ## Section 1: The format -/

def Line.isPrefix (l : Line) : Bool := l.family = 0x50

/-- A line that writes in phase `ph`. -/
def Line.writesIn (ph : Phase) (l : Line) : Bool :=
  match ph with
  | .boot => l.family = 0xa0 || l.family = 0xa1
  | .frame => l.family = 0x80 || l.family = 0x81

/-- `CC`, `II` and `VV` of a prefix. -/
def Line.count (l : Line) : Nat := l.addr.toNat / 2 ^ 8 % 2 ^ 8
def Line.addrStep (l : Line) : Nat := l.addr.toNat % 2 ^ 8
def Line.valStep (l : Line) : Nat := l.val.toNat % 2 ^ 16

/-- The prefix of a line; `before` are the lines in front of it, nearest first. -/
def prefixOf : List Line → Option Line
  | [] => none
  | p :: _ => if p.isPrefix then some p else none

/-- What stands in front of a line and its prefix. -/
def guardOf : List Line → Option Line
  | [] => none
  | p :: g => if p.isPrefix then g.head? else some p

/-- What is in front is a condition that fails. -/
def blocked (before : List Line) (s : State Dev) : Bool :=
  match guardOf before with
  | none => false
  | some g => g.fails pak s

/-- The write of line `l` in round `n` under the prefix `p`. -/
def Line.writeOf (l : Line) (i : Nat) (p : Option Line) (n : Nat) : Write where
  line := i
  phys := l.phys + n * (p.map Line.addrStep).getD 0
  size := l.size
  val := (l.val.toNat + n * (p.map Line.valStep).getD 0) % 2 ^ (8 * l.size)
  cached := l.cached

/-- All writes of line number `i`. -/
def Line.writes (l : Line) (i : Nat) (p : Option Line) : List Write :=
  (List.range ((p.map Line.count).getD 1)).map (l.writeOf i p)

/-- What the format says line number `i` does. -/
def refLine (ph : Phase) (i : Nat) (before : List Line) (l : Line) (o : Out Dev) : Out Dev :=
  if l.writesIn ph ∧ blocked pak before o.cpu = false then
    (l.writes i (prefixOf before)).foldl (write D pak) o
  else o

def referenceFrom (ph : Phase) : Nat → List Line → List Line → Out Dev → Out Dev
  | _, _, [], o => o
  | i, before, l :: ls, o => referenceFrom ph (i + 1) (l :: before) ls (refLine D pak ph i before l o)

/-- What the format says a list of lines does in phase `ph`. -/
def reference (ph : Phase) (lines : List Line) (s : State Dev) : Out Dev :=
  referenceFrom D pak ph 0 [] lines { cpu := s }

/-! ## Section 2: Where the run follows it -/

/-- The line behind `before` is skipped: an odd number of failing conditions
    stands directly in front, since each that is not skipped skips the next. -/
def skipped (s : State Dev) : List Line → Bool
  | [] => false
  | p :: g => p.fails pak s && !skipped s g

/-- The run does line `l` right: a line that writes nothing in this phase, or
    only past the end of RDRAM, is always right. With a prefix, the prefix asks
    for at least one round and is not guarded by a failing condition. Without,
    a failing condition in front is not itself skipped. -/
def Sound (ph : Phase) (before : List Line) (l : Line) (s : State Dev) : Prop :=
  l.writesIn ph → l.phys + l.size ≤ pak.size →
    match before with
    | [] => True
    | p :: g =>
      if p.isPrefix then p.count ≠ 0 ∧ blocked pak (p :: g) s = false
      else p.fails pak s → skipped pak s g = false

/-- Every line is done right at its point of the list. -/
def SoundFrom (ph : Phase) : Nat → List Line → List Line → Out Dev → Prop
  | _, _, [], _ => True
  | i, before, l :: ls, o =>
    Sound pak ph before l o.cpu ∧
      SoundFrom ph (i + 1) (l :: before) ls (refLine D pak ph i before l o)

/-! ## Section 3: Writes and the log -/

variable {D pak}

theorem mem_log_write {w x : Write} {o : Out Dev} (h : x ∈ (write D pak o w).log) :
    x ∈ o.log ∨ x = w := by
  unfold write at h
  split at h
  · exact .inl h
  · simpa using h

theorem log_write {w x : Write} {o : Out Dev} (h : x ∈ o.log) : x ∈ (write D pak o w).log := by
  unfold write
  split
  · exact h
  · exact List.mem_append_left _ h

theorem mem_log_writes {ws : List Write} {x : Write} {o : Out Dev}
    (h : x ∈ (ws.foldl (write D pak) o).log) : x ∈ o.log ∨ x ∈ ws := by
  induction ws generalizing o with
  | nil => exact .inl h
  | cons w ws ih =>
    rcases ih h with h | h
    · rcases mem_log_write h with h | rfl
      · exact .inl h
      · exact .inr (List.mem_cons_self ..)
    · exact .inr (List.mem_cons_of_mem _ h)

theorem log_writes {ws : List Write} {x : Write} {o : Out Dev} (h : x ∈ o.log) :
    x ∈ (ws.foldl (write D pak) o).log := by
  induction ws generalizing o with
  | nil => exact h
  | cons w ws ih => exact ih (log_write h)

/-- A write past the end of RDRAM does nothing. -/
theorem write_past {w : Write} (h : pak.size < w.phys + w.size) (o : Out Dev) :
    write D pak o w = o := if_pos h

theorem writes_past {ws : List Write} (h : ∀ w ∈ ws, pak.size < w.phys + w.size) (o : Out Dev) :
    ws.foldl (write D pak) o = o := by
  induction ws generalizing o with
  | nil => rfl
  | cons w ws ih =>
    rw [List.forall_mem_cons] at h
    rw [List.foldl_cons, write_past h.1, ih h.2]

/-- The loop of the run does the writes of the format. -/
theorem writeLoop_eq (l : Line) (i repAddr repVal : Nat) (k a v : Nat) (o : Out Dev) :
    writeLoop D pak i l.size repAddr repVal l.cached k a v o =
      ((List.range k).map fun n =>
        (⟨i, a + n * repAddr, l.size, (v + n * repVal) % 2 ^ (8 * l.size), l.cached⟩ : Write)).foldl
          (write D pak) o := by
  induction k generalizing a v o with
  | zero => rfl
  | succ k ih =>
    rw [writeLoop, ih, List.range_succ_eq_map, List.map_cons, List.map_map, List.foldl_cons]
    simp only [Nat.zero_mul, Nat.add_zero]
    congr 2
    funext n
    simp only [Function.comp_apply, Write.mk.injEq, true_and, and_true, Nat.succ_mul]
    constructor
    · omega
    · congr 1
      omega

theorem mem_log_refLine {ph : Phase} {i : Nat} {before : List Line} {l : Line} {o : Out Dev}
    {x : Write} (h : x ∈ (refLine D pak ph i before l o).log) : x ∈ o.log ∨ x.line = i := by
  unfold refLine at h
  split at h
  · rcases mem_log_writes h with h | h
    · exact .inl h
    · obtain ⟨n, -, rfl⟩ := List.mem_map.mp h
      exact .inr rfl
  · exact .inl h

theorem mem_log_reference {ph : Phase} {i : Nat} {before ls : List Line} {o : Out Dev} {x : Write}
    (h : x ∈ (referenceFrom D pak ph i before ls o).log) : x ∈ o.log ∨ i ≤ x.line := by
  induction ls generalizing i before o with
  | nil => exact .inl h
  | cons l ls ih =>
    rcases ih h with h | h
    · rcases mem_log_refLine h with h | h
      · exact .inl h
      · exact .inr (by omega)
    · exact .inr (by omega)

theorem log_writeLoop {i size repAddr repVal : Nat} {cached : Bool} {k a v : Nat} {o : Out Dev}
    {x : Write} (h : x ∈ o.log) :
    x ∈ (writeLoop D pak i size repAddr repVal cached k a v o).log := by
  induction k generalizing a v o with
  | zero => exact h
  | succ k ih => exact ih (log_write h)

theorem log_runLine {ph : Phase} {i : Nat} {l : Line} {p : Pending} {o : Out Dev} {x : Write}
    (h : x ∈ o.log) : x ∈ (runLine D pak ph i l p o).2.log := by
  simp only [runLine]
  split_ifs
  all_goals first | exact h | exact log_writeLoop h

theorem log_run {ph : Phase} {i : Nat} {ls : List Line} {p : Pending} {o : Out Dev} {x : Write}
    (h : x ∈ o.log) : x ∈ (runFrom D pak ph i ls p o).log := by
  induction ls generalizing i p o with
  | nil => exact h
  | cons l ls ih => exact ih (log_runLine h)

/-! ## Section 4: The pending state -/

/-- What the pending state has to do with the lines in front. -/
structure Pending.Tracks (pak : Pak) (before : List Line) (s : State Dev) (p : Pending) : Prop where
  skip : p.skipNext = skipped pak s before
  /-- In front is a prefix that was not skipped. -/
  taken : ∀ q g, before = q :: g → q.isPrefix = true → skipped pak s g = false →
    p.rep = max q.count 1 ∧ p.repAddr = q.addrStep ∧ p.repVal = q.valStep
  /-- In front is none, or it was skipped. -/
  none : (∀ q g, before = q :: g → q.isPrefix = true → skipped pak s g = true) → p.rep = 0

theorem tracks_nil (s : State Dev) : ({} : Pending).Tracks pak [] s where
  skip := rfl
  taken := by
    intro q g h
    cases h
  none := fun _ => rfl

/-- Only conditions fail. -/
theorem Line.fails_family {s : State Dev} {l : Line} (h : l.fails pak s = true) :
    l.family = 0xd0 ∨ l.family = 0xd1 ∨ l.family = 0xd2 ∨ l.family = 0xd3 := by
  unfold Line.fails at h
  split_ifs at h with h0 h1 h2 h3
  · exact .inl h0
  · exact .inr (.inl h1)
  · exact .inr (.inr (.inl h2))
  · exact .inr (.inr (.inr h3))

theorem fails_eq_false {s : State Dev} {l : Line}
    (h : ¬ (l.family = 0xd0 ∨ l.family = 0xd1 ∨ l.family = 0xd2 ∨ l.family = 0xd3)) :
    l.fails pak s = false := by
  cases hf : l.fails pak s with
  | false => rfl
  | true => exact absurd (Line.fails_family hf) h

theorem isPrefix_iff {l : Line} : l.isPrefix = true ↔ l.family = 0x50 := by
  simp [Line.isPrefix]

/-- A prefix is no condition. -/
theorem fails_initial {s : State Dev} {l : Line} (h : l.isPrefix = true) :
    l.fails pak s = false := by
  rw [isPrefix_iff] at h
  apply fails_eq_false
  omega

theorem skipped_cons {s : State Dev} {l : Line} {before : List Line} :
    skipped pak s (l :: before) = (l.fails pak s && !skipped pak s before) := rfl

/-- Where a line is skipped, a failing condition is in front that is not. -/
theorem exists_of_skipped {s : State Dev} {before : List Line} (h : skipped pak s before = true) :
    ∃ q g, before = q :: g ∧ q.fails pak s = true ∧ skipped pak s g = false := by
  cases before with
  | nil => cases h
  | cons q g =>
    simp only [skipped, Bool.and_eq_true, Bool.not_eq_true'] at h
    exact ⟨q, g, rfl, h.1, h.2⟩

/-- A line that is skipped is guarded. -/
theorem blocked_of_skipped {s : State Dev} {before : List Line}
    (h : skipped pak s before = true) : blocked pak before s = true := by
  obtain ⟨q, g, rfl, hq, -⟩ := exists_of_skipped h
  have hprefix : q.isPrefix = false := by
    cases hp : q.isPrefix with
    | false => rfl
    | true =>
      rw [fails_initial hp] at hq
      cases hq
  simp [blocked, guardOf, hprefix, hq]

/-- A prefix that is skipped is guarded, and with it its line. -/
theorem blocked_of_skipped_prefix {s : State Dev} {q : Line} {g : List Line}
    (hq : q.isPrefix = true) (h : skipped pak s g = true) : blocked pak (q :: g) s = true := by
  obtain ⟨c, g, rfl, hc, -⟩ := exists_of_skipped h
  simp [blocked, guardOf, hq, hc]

/-- Behind a line that is no prefix nothing is pending but its own skip. -/
theorem Pending.Tracks.plain {s : State Dev} {l : Line} {before : List Line} {p : Pending}
    (hl : l.isPrefix = false) (hrep : p.rep = 0)
    (hskip : p.skipNext = skipped pak s (l :: before)) : p.Tracks pak (l :: before) s where
  skip := hskip
  taken := by
    intro q g heq hq
    obtain ⟨rfl, rfl⟩ := List.cons.inj heq
    rw [hl] at hq
    cases hq
  none := fun _ => hrep

theorem Pending.Tracks.rep_of_skip {s : State Dev} {before : List Line} {p : Pending}
    (h : p.Tracks pak before s) (hskip : p.skipNext = true) : p.rep = 0 := by
  apply h.none
  intro q g heq hq
  subst heq
  rw [h.skip, skipped_cons, fails_initial hq] at hskip
  cases hskip

/-! ## Section 5: One line -/

/-- What one round of the run has to do with the format. -/
structure Round (D : Devices Dev) (pak : Pak) (ph : Phase) (i : Nat) (before : List Line) (l : Line)
    (o : Out Dev) (r : Pending × Out Dev) : Prop where
  tracks : r.1.Tracks pak (l :: before) r.2.cpu
  sound : Sound pak ph before l o.cpu → r.2 = refLine D pak ph i before l o
  /-- Else the format writes nothing and the run does. -/
  unsound : ¬ Sound pak ph before l o.cpu →
    refLine D pak ph i before l o = o ∧ ∃ w ∈ r.2.log, w.line = i

/-- A line that writes nothing in this phase. -/
theorem Round.quiet {ph : Phase} {i : Nat} {before : List Line} {l : Line} {o : Out Dev}
    {p : Pending} (hl : l.writesIn ph = false) (ht : p.Tracks pak (l :: before) o.cpu) :
    Round D pak ph i before l o (p, o) where
  tracks := ht
  sound := by
    intro _
    simp [refLine, hl]
  unsound := by
    intro h
    apply absurd _ h
    intro hw
    rw [hl] at hw
    cases hw

/-- A line that is skipped. -/
theorem Round.skip {ph : Phase} {i : Nat} {before : List Line} {l : Line} {o : Out Dev}
    {p : Pending} (hl : l.isPrefix = false) (h : p.Tracks pak before o.cpu)
    (hskip : p.skipNext = true) :
    Round D pak ph i before l o ({ p with skipNext := false, rep := 0 }, o) where
  tracks := by
    apply Pending.Tracks.plain hl rfl
    rw [skipped_cons, ← h.skip, hskip]
    simp
  sound := by
    intro _
    have hblocked := blocked_of_skipped (h.skip ▸ hskip)
    simp [refLine, hblocked]
  unsound := by
    intro hsound
    apply absurd _ hsound
    intro _ _
    obtain ⟨q, g, rfl, hq, hg⟩ := exists_of_skipped (h.skip ▸ hskip)
    have hprefix : ¬ q.isPrefix = true := by
      intro hp
      rw [fails_initial hp] at hq
      cases hq
    simp only [if_neg hprefix]
    exact fun _ => hg

/-- A repeat prefix. -/
theorem Round.repeat {ph : Phase} {i : Nat} {before : List Line} {l : Line} {o : Out Dev}
    {p : Pending} (hl : l.family = 0x50) (h : p.Tracks pak before o.cpu) :
    Round D pak ph i before l o (runLine D pak ph i l p o) := by
  have hprefix : l.isPrefix = true := isPrefix_iff.mpr hl
  have hquiet : l.writesIn ph = false := by
    cases ph <;> simp [Line.writesIn, hl]
  have hnoskip : skipped pak o.cpu (l :: before) = false := by
    rw [skipped_cons, fails_initial hprefix, Bool.false_and]
  cases hskip : p.skipNext with
  | true =>
    have hrun : runLine D pak ph i l p o = ({ p with skipNext := false }, o) := by
      simp only [runLine, hl, if_true, hskip]
    rw [hrun]
    apply Round.quiet hquiet
    constructor
    · exact hnoskip.symm
    · intro q g heq _ hg
      obtain ⟨rfl, rfl⟩ := List.cons.inj heq
      rw [← h.skip, hskip] at hg
      cases hg
    · exact fun _ => h.rep_of_skip hskip
  | false =>
    have hrun : runLine D pak ph i l p o =
        ({ p with
            rep := if l.addr.toNat / 2 ^ 8 % 2 ^ 8 = 0 then 1 else l.addr.toNat / 2 ^ 8 % 2 ^ 8
            repAddr := l.addr.toNat % 2 ^ 8
            repVal := l.val.toNat % 2 ^ 16 }, o) := by
      simp only [runLine, hl, if_true, hskip, Bool.false_eq_true, if_false]
    rw [hrun]
    apply Round.quiet hquiet
    constructor
    · rw [hnoskip]
      exact hskip
    · intro q g heq _ _
      obtain ⟨rfl, rfl⟩ := List.cons.inj heq
      refine ⟨?_, rfl, rfl⟩
      simp only [Line.count]
      split <;> omega
    · intro hall
      have hg := hall l before rfl hprefix
      rw [← h.skip, hskip] at hg
      cases hg

/-- The writes of the loop of a write line. -/
def loopWrites (l : Line) (i k repAddr repVal : Nat) : List Write :=
  (List.range k).map fun n =>
    ⟨i, l.phys + n * repAddr, l.size,
      (l.val.toNat % 2 ^ (8 * l.size) + n * repVal) % 2 ^ (8 * l.size), l.cached⟩

theorem loopWrites_prefix (l : Line) (i : Nat) (q : Line) :
    loopWrites l i q.count q.addrStep q.valStep = l.writes i (some q) := by
  apply List.map_congr_left
  intro n _
  simp only [Line.writeOf, Option.map_some, Option.getD_some, Write.mk.injEq, true_and, and_true]
  rw [Nat.mod_add_mod]

theorem loopWrites_once (l : Line) (i repAddr repVal : Nat) :
    loopWrites l i 1 repAddr repVal = l.writes i none := by
  simp [loopWrites, Line.writes, Line.writeOf]

theorem loopWrites_past {l : Line} (h : pak.size < l.phys + l.size) (i k repAddr repVal : Nat)
    (o : Out Dev) : (loopWrites l i k repAddr repVal).foldl (write D pak) o = o := by
  apply writes_past
  intro w hw
  obtain ⟨n, -, rfl⟩ := List.mem_map.mp hw
  have hle : l.phys ≤ l.phys + n * repAddr := Nat.le_add_right ..
  simp only
  omega

theorem writes_past_end {l : Line} (h : pak.size < l.phys + l.size) (i : Nat) (q : Option Line)
    (o : Out Dev) : (l.writes i q).foldl (write D pak) o = o := by
  apply writes_past
  intro w hw
  obtain ⟨n, -, rfl⟩ := List.mem_map.mp hw
  have hle : l.phys ≤ l.phys + n * (q.map Line.addrStep).getD 0 := Nat.le_add_right ..
  simp only [Line.writeOf]
  omega

/-- The first write of the loop is done. -/
theorem loopWrites_first {l : Line} (h : l.phys + l.size ≤ pak.size) (i : Nat) {k : Nat}
    (hk : k ≠ 0) (repAddr repVal : Nat) (o : Out Dev) :
    ∃ w ∈ ((loopWrites l i k repAddr repVal).foldl (write D pak) o).log, w.line = i := by
  obtain ⟨k, rfl⟩ := Nat.exists_eq_add_one_of_ne_zero hk
  refine ⟨⟨i, l.phys, l.size, l.val.toNat % 2 ^ (8 * l.size) % 2 ^ (8 * l.size), l.cached⟩, ?_, rfl⟩
  rw [loopWrites, List.range_succ_eq_map, List.map_cons, List.foldl_cons]
  apply log_writes
  have hin : ¬ pak.size < l.phys + l.size := Nat.not_lt.mpr h
  simp [write, hin]

/-- A write line of this phase that is not skipped. -/
theorem Round.write {ph : Phase} {i : Nat} {before : List Line} {l : Line} {o : Out Dev}
    {p : Pending} (hl : l.writesIn ph = true) (h : p.Tracks pak before o.cpu)
    (hskip : p.skipNext = false) :
    Round D pak ph i before l o ({ p with rep := 0 },
      (loopWrites l i (if p.rep ≠ 0 then p.rep else 1) p.repAddr p.repVal).foldl
        (Cheats.write D pak) o) := by
  have hfamily : l.family = 0x80 ∨ l.family = 0x81 ∨ l.family = 0xa0 ∨ l.family = 0xa1 := by
    cases ph <;> simp [Line.writesIn] at hl <;> omega
  have hprefix : l.isPrefix = false := by
    cases hp : l.isPrefix with
    | false => rfl
    | true =>
      rw [isPrefix_iff] at hp
      omega
  have hfails : ∀ s : State Dev, l.fails pak s = false := fun s => fails_eq_false (by omega)
  have hnoskip : skipped pak o.cpu before = false := by rw [← h.skip, hskip]
  have htracks : ∀ s : State Dev, ({ p with rep := 0 } : Pending).Tracks pak (l :: before) s := by
    intro s
    apply Pending.Tracks.plain hprefix rfl
    rw [skipped_cons, hfails, Bool.false_and]
    exact hskip
  have hk : (if p.rep ≠ 0 then p.rep else 1) ≠ 0 := by
    split <;> omega
  refine ⟨htracks _, ?_, ?_⟩
  · intro hsound
    simp only
    by_cases hin : l.phys + l.size ≤ pak.size
    swap
    · have hpast : pak.size < l.phys + l.size := Nat.lt_of_not_le hin
      rw [loopWrites_past hpast, refLine]
      split
      · exact (writes_past_end hpast i _ o).symm
      · rfl
    have hrule := hsound hl hin
    cases before with
    | nil =>
      have hrep : p.rep = 0 := h.none (by
        intro q g heq
        cases heq)
      rw [if_neg (by simp [hrep]), loopWrites_once]
      simp [refLine, hl, blocked, guardOf, prefixOf]
    | cons q g =>
      simp only at hrule
      cases hq : q.isPrefix with
      | true =>
        rw [if_pos hq] at hrule
        cases hg : skipped pak o.cpu g with
        | true =>
          have hblocked := blocked_of_skipped_prefix hq hg
          rw [hrule.2] at hblocked
          cases hblocked
        | false =>
          obtain ⟨hrep, haddr, hval⟩ := h.taken q g rfl hq hg
          have hcount : (if p.rep ≠ 0 then p.rep else 1) = q.count := by
            have hne := hrule.1
            split <;> omega
          rw [hcount, haddr, hval, loopWrites_prefix, refLine, if_pos ⟨hl, hrule.2⟩]
          simp [prefixOf, hq]
      | false =>
        have hqf : ¬ q.isPrefix = true := by simp [hq]
        rw [if_neg hqf] at hrule
        have hrep : p.rep = 0 := by
          apply h.none
          intro q' g' heq hq'
          obtain ⟨rfl, rfl⟩ := List.cons.inj heq
          exact absurd hq' hqf
        -- a condition in front that fails would have skipped the line
        have hholds : q.fails pak o.cpu = false := by
          cases hqfail : q.fails pak o.cpu with
          | false => rfl
          | true =>
            rw [skipped_cons, hqfail, hrule hqfail] at hnoskip
            cases hnoskip
        rw [if_neg (by simp [hrep]), loopWrites_once]
        simp [refLine, hl, blocked, guardOf, prefixOf, hq, hholds]
  · intro hsound
    have hin : l.phys + l.size ≤ pak.size := by
      by_contra hout
      exact hsound fun _ hin => absurd hin hout
    refine ⟨?_, loopWrites_first hin i hk _ _ o⟩
    cases before with
    | nil => exact absurd (fun _ _ => trivial) hsound
    | cons q g =>
      cases hq : q.isPrefix with
      | true =>
        by_cases hblocked : blocked pak (q :: g) o.cpu = false
        · -- a prefix that asks for no round
          have hcount : q.count = 0 := by
            by_contra hcount
            apply hsound
            intro _ _
            simp only [hq, if_true]
            exact ⟨hcount, hblocked⟩
          simp [refLine, hl, hblocked, prefixOf, hq, Line.writes, hcount]
        · simp [refLine, hblocked]
      | false =>
        have hqfail : q.fails pak o.cpu = true := by
          by_contra hqfail
          apply hsound
          intro _ _
          simp only [hq, Bool.false_eq_true, if_false]
          exact fun hf => absurd hf hqfail
        simp [refLine, blocked, guardOf, hq, hqfail]

/-- One round of the run. -/
theorem round (ph : Phase) (i : Nat) (before : List Line) (l : Line) (p : Pending) (o : Out Dev)
    (h : p.Tracks pak before o.cpu) :
    Round D pak ph i before l o (runLine D pak ph i l p o) := by
  by_cases hrepeat : l.family = 0x50
  · exact Round.repeat hrepeat h
  have hprefix : l.isPrefix = false := by simp [Line.isPrefix, hrepeat]
  cases hskip : p.skipNext with
  | true =>
    have hrun : runLine D pak ph i l p o = ({ p with skipNext := false, rep := 0 }, o) := by
      simp only [runLine, if_neg hrepeat, hskip, if_true]
    rw [hrun]
    exact Round.skip hprefix h hskip
  | false =>
    have hnoskip : skipped pak o.cpu before = false := by rw [← h.skip, hskip]
    by_cases hcond : l.family = 0xd0 ∨ l.family = 0xd1 ∨ l.family = 0xd2 ∨ l.family = 0xd3
    · have hrun : runLine D pak ph i l p o =
          ({ p with skipNext := l.fails pak o.cpu, rep := 0 }, o) := by
        simp only [runLine, if_neg hrepeat, hskip, Bool.false_eq_true, if_false, if_pos hcond]
      rw [hrun]
      apply Round.quiet
      · cases ph <;> simp [Line.writesIn] <;> omega
      · apply Pending.Tracks.plain hprefix rfl
        rw [skipped_cons, hnoskip, Bool.not_false, Bool.and_true]
    -- from here on the line is no condition, and is not skipped
    have hfails : l.fails pak o.cpu = false := fails_eq_false hcond
    have htracks : ({ p with rep := 0 } : Pending).Tracks pak (l :: before) o.cpu := by
      apply Pending.Tracks.plain hprefix rfl
      rw [skipped_cons, hfails, Bool.false_and]
      exact hskip
    by_cases hwrite : l.family = 0x80 ∨ l.family = 0x81 ∨ l.family = 0xa0 ∨ l.family = 0xa1
    · by_cases hphase : l.boot = decide (ph = .boot)
      · have hrun : runLine D pak ph i l p o = ({ p with rep := 0 },
            (loopWrites l i (if p.rep ≠ 0 then p.rep else 1) p.repAddr p.repVal).foldl
              (Cheats.write D pak) o) := by
          simp only [runLine, if_neg hrepeat, hskip, Bool.false_eq_true, if_false, if_neg hcond,
            if_pos hwrite, if_neg (not_not.mpr hphase), writeLoop_eq, loopWrites]
        rw [hrun]
        apply Round.write _ h hskip
        cases ph <;> simp [Line.writesIn, Line.boot] at hphase ⊢ <;> omega
      · have hrun : runLine D pak ph i l p o = ({ p with rep := 0 }, o) := by
          simp only [runLine, if_neg hrepeat, hskip, Bool.false_eq_true, if_false, if_neg hcond,
            if_pos hwrite, if_pos (show l.boot ≠ decide (ph = .boot) from hphase)]
        rw [hrun]
        apply Round.quiet _ htracks
        cases ph <;> simp [Line.writesIn, Line.boot] at hphase ⊢ <;> omega
    · have hrun : runLine D pak ph i l p o = ({ p with rep := 0 }, o) := by
        simp only [runLine, if_neg hrepeat, hskip, Bool.false_eq_true, if_false, if_neg hcond,
          if_neg hwrite]
      rw [hrun]
      apply Round.quiet _ htracks
      cases ph <;> simp [Line.writesIn] <;> omega

/-! ## Section 6: The whole list -/

theorem runFrom_iff (ph : Phase) (ls : List Line) {i : Nat} {before : List Line} {p : Pending}
    {o : Out Dev} (h : p.Tracks pak before o.cpu) (hlog : ∀ w ∈ o.log, w.line < i) :
    runFrom D pak ph i ls p o = referenceFrom D pak ph i before ls o ↔
      SoundFrom D pak ph i before ls o := by
  induction ls generalizing i before p o with
  | nil => exact ⟨fun _ => trivial, fun _ => rfl⟩
  | cons l ls ih =>
    have hround := round (D := D) ph i before l p o h
    show runFrom D pak ph (i + 1) ls (runLine D pak ph i l p o).1 (runLine D pak ph i l p o).2 =
      referenceFrom D pak ph (i + 1) (l :: before) ls (refLine D pak ph i before l o) ↔ _
    by_cases hsound : Sound pak ph before l o.cpu
    · have heq := hround.sound hsound
      have htracks := hround.tracks
      have hnext : ∀ w ∈ (refLine D pak ph i before l o).log, w.line < i + 1 := by
        intro w hw
        rcases mem_log_refLine hw with hw | hw
        · exact Nat.lt_succ_of_lt (hlog w hw)
        · omega
      rw [heq] at htracks ⊢
      rw [ih htracks hnext]
      exact ⟨fun h => ⟨hsound, h⟩, fun h => h.2⟩
    · -- the run has a write of this line, and the format has none
      constructor
      · intro heq
        obtain ⟨href, w, hw, hline⟩ := hround.unsound hsound
        have hmem : w ∈ (runFrom D pak ph (i + 1) ls (runLine D pak ph i l p o).1
            (runLine D pak ph i l p o).2).log := log_run hw
        rw [heq, href] at hmem
        rcases mem_log_reference hmem with hmem | hmem
        · exact absurd (hlog w hmem) (by omega)
        · omega
      · exact fun h => absurd h.1 hsound

/-- The run writes what the format says, line by line, exactly where at every
    write line of the phase inside RDRAM: a repeat prefix in front of it has a
    count and no failing condition in front, and a failing condition in front
    of the line itself is not skipped. -/
theorem run_iff (D : Devices Dev) (pak : Pak) (ph : Phase) (lines : List Line) (s : State Dev) :
    run D pak ph lines s = reference D pak ph lines s ↔
      SoundFrom D pak ph 0 [] lines { cpu := s } := by
  apply runFrom_iff ph lines (tracks_nil s)
  intro w hw
  cases hw

/-- A failing condition in front of a repeated write: the run writes once. -/
theorem run_guarded_repeat :
    run noDevices .base .frame [⟨0xd0000000, 1⟩, ⟨0x50000402, 1⟩, ⟨0x80000010, 0x55⟩] coldState ≠
      reference noDevices .base .frame [⟨0xd0000000, 1⟩, ⟨0x50000402, 1⟩, ⟨0x80000010, 0x55⟩]
        coldState := by
  intro h
  have hlog := congrArg Out.log h
  revert hlog
  decide

end Cheats
