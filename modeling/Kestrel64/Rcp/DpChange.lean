import Mathlib.Data.List.Induction
import Kestrel64.Rcp.DpSchedule

/-! # RCP: When a DPC Register Changes

    As long as nobody files another span, `DPC_CURRENT` and `DPC_STATUS` are
    functions of the schedule and the reader's clock. `dpNextChangeAt` tells
    from when on they may differ from what they show now: at the next close,
    the next span to become visible, and for `DPC_CURRENT` the next word of
    the span the engine is in. `Schedule.read_const` says that it is right,
    and `DpRun.Inv.reads_schedule` that the ring and its cursors answer like
    the log.
-/

namespace Rcp

/-! ## Section 1: The registers of a fixed schedule -/

inductive DpcPort where
  | current
  | status
  deriving DecidableEq, Repr

/-- The spans filed so far, in order, and the registers of the RDP. -/
structure Schedule where
  jobs : List DpJob
  dpc_current : Nat
  dpc_status : BitVec 32
  rdpHwHung : Bool
  ends : jobs.Pairwise fun a b => a.endG ≤ b.endG
  stamps : jobs.Pairwise fun a b => a.kickG ≤ b.kickG
  fits : ∀ j ∈ jobs, j.Fits

def Schedule.slot (S : Schedule) (i : Nat) : DpJob := S.jobs[i]?.getD ⟨0, 0, 0, 0, 0, false⟩

def Schedule.completed (S : Schedule) (now : Nat) : Nat :=
  S.jobs.countP fun j => decide (j.endG ≤ now)

def Schedule.visible (S : Schedule) (now : Nat) : Nat :=
  S.jobs.countP fun j => decide (j.kickG ≤ now)

/-- `dpcCurrentFor`, from the two counts. -/
def currentOf (slot : Nat → DpJob) (live c vis now : Nat) : Nat :=
  let c := if vis < c then vis else c
  if c < vis then (slot c).progress now
  else if 0 < c then (slot (c - 1)).endAddr
  else live

/-- `dpcStatusFor`, from the two counts. -/
def statusOf (dpc_status : BitVec 32) (rdpHwHung : Bool) (c vis : Nat) : BitVec 32 :=
  let st := dpc_status ||| 0x80
  if rdpHwHung then st &&& 0x7 ||| 0x740
  else
    let out := if c < vis then vis - c else 0
    let st := if 1 ≤ out then st ||| (0x100 ||| 0x40) else st
    if 2 ≤ out then st ||| 0x200 else st

def Schedule.read (S : Schedule) (port : DpcPort) (now : Nat) : BitVec 32 :=
  match port with
  | .current => BitVec.ofNat 32
      (currentOf S.slot S.dpc_current (S.completed now) (S.visible now) now)
  | .status => statusOf S.dpc_status S.rdpHwHung (S.completed now) (S.visible now)

/-- The word the engine is at, counted from the start of the span. -/
def DpJob.word (j : DpJob) (now : Nat) : Nat :=
  if j.startG < now then
    (j.endAddr - j.addr) * (now - j.startG) % 2 ^ 64 / (j.endG - j.startG) / 8 * 8
  else 0

/-- `dpNextChangeAt`, from the two counts; 0 if no change is dated. -/
def nextChangeOf (slot : Nat → DpJob) (sub c vis now : Nat) (cur : Bool) : Nat :=
  let e := if c < sub then (slot c).endG else 0
  let e :=
    if vis < sub then
      let k := (slot vis).kickG
      if e = 0 ∨ k < e then k else e
    else e
  let e :=
    if cur = true ∧ c < vis then
      let j := slot c
      if j.addr < j.endAddr ∧ j.startG < j.endG ∧ now < j.endG then
        let span := j.endAddr - j.addr
        let dur := j.endG - j.startG
        let nxt := j.word now + 8
        if nxt < span then
          let t := j.startG + (nxt * dur + span - 1) % 2 ^ 64 / span
          if now < t ∧ (e = 0 ∨ t < e) then t else e
        else e
      else e
    else e
  if now < e then e else 0

def Schedule.dpNextChangeAt (S : Schedule) (now : Nat) (cur : Bool) : Nat :=
  nextChangeOf S.slot S.jobs.length (S.completed now) (S.visible now) now cur

def DpSys.dpNextChangeAt {T : Type} [DecidableEq T] (th : T) (now : Nat) (cur : Bool)
    (s : DpSys T) : DpSys T × Nat :=
  let (s, c) := s.dpCompletedAt th now
  let (s, vis) := s.dpVisibleAt th now
  (s, nextChangeOf s.dp.slot s.dp.dpSubSeq c vis now cur)

/-- `dpSchedEnd <= now` -/
def Schedule.dpDrainedAt (S : Schedule) (now : Nat) : Bool :=
  decide ((S.jobs.getLast?.map (·.endG)).getD 0 ≤ now)

/-! ## Section 2: The counts -/

variable {S : Schedule} {now t i : Nat}

theorem Schedule.slot_eq (S : Schedule) (hi : i < S.jobs.length) : S.slot i = S.jobs[i] := by
  unfold Schedule.slot
  rw [List.getElem?_eq_getElem hi]
  rfl

theorem Schedule.completed_downward (S : Schedule) (now : Nat) :
    RingLog.Downward (fun j => decide (j.endG ≤ now)) S.jobs :=
  S.ends.imp fun hab hb => decide_eq_true (hab.trans (of_decide_eq_true hb))

theorem Schedule.visible_downward (S : Schedule) (now : Nat) :
    RingLog.Downward (fun j => decide (j.kickG ≤ now)) S.jobs :=
  S.stamps.imp fun hab hb => decide_eq_true (hab.trans (of_decide_eq_true hb))

/-- A count that divides a log does not move until the stamp after it. -/
theorem count_const (stamp : DpJob → Nat) {jobs : List DpJob}
    (h : jobs.Pairwise fun a b => stamp a ≤ stamp b) (hle : now ≤ t)
    (hnext : ∀ j ∈ jobs[jobs.countP fun j => decide (stamp j ≤ now)]?, t < stamp j) :
    jobs.countP (fun j => decide (stamp j ≤ t)) =
      jobs.countP fun j => decide (stamp j ≤ now) := by
  have hdown (now : Nat) : RingLog.Downward (fun j => decide (stamp j ≤ now)) jobs :=
    h.imp fun hab hb => decide_eq_true (hab.trans (of_decide_eq_true hb))
  refine RingLog.countP_eq_of_split List.countP_le_length (fun j hj => ?_) ?_
  · exact decide_eq_true ((of_decide_eq_true ((hdown now).split.1 j hj)).trans hle)
  · by_cases hlt : jobs.countP (fun j => decide (stamp j ≤ now)) < jobs.length
    · refine (hdown t).drop hlt (decide_eq_false (Nat.not_le.mpr ?_))
      exact hnext _ (List.getElem?_eq_getElem hlt)
    · rw [List.drop_eq_nil_of_le (Nat.le_of_not_lt hlt)]
      nofun

/-! ## Section 3: Inside a span -/

theorem DpJob.progress_word {j : DpJob} (h : j.Fits) (haddr : j.addr < j.endAddr)
    (hend : now < j.endG) : j.progress now = j.addr + j.word now := by
  unfold DpJob.word
  split_ifs with hstart
  · obtain ⟨heq, hlt⟩ := DpJob.progress_inside h haddr hstart hend
    rw [heq, Nat.mod_eq_of_lt hlt]
  · rw [DpJob.progress_before (.inr (Nat.le_of_not_lt hstart)), Nat.add_zero]

/-- The sum by which `dpNextChangeAt` finds the next word has 64 bits, as
    `DpJob.progress` has: a span longer than its duration is less than
    `2 ^ 32`. -/
theorem next_fits {span dur nxt : Nat} (hspan : span < 2 ^ 32) (harea : span * dur < 2 ^ 64)
    (hnxt : nxt < span) : nxt * dur + span - 1 < 2 ^ 64 := by
  have hprod : nxt * dur + dur ≤ span * dur := by
    rw [← Nat.succ_mul]
    exact Nat.mul_le_mul_right dur hnxt
  by_cases hlong : span ≤ dur
  · omega
  · have : nxt * dur ≤ (2 ^ 32 - 2) * (2 ^ 32 - 2) := Nat.mul_le_mul (by omega) (by omega)
    omega

/-- Before the instant computed for the next word the quotient is short of
    it. -/
theorem quot_lt_next {span : Nat} (dur d nxt : Nat) (hd : d < dur)
    (hshort : span < 2 ^ 32) (harea : span * dur < 2 ^ 64)
    (hnext : nxt < span → d < (nxt * dur + span - 1) % 2 ^ 64 / span) (hspan : 0 < span) :
    span * d / dur < nxt := by
  refine Nat.div_lt_of_lt_mul ?_
  by_cases hlt : nxt < span
  · have hprod : nxt * dur + dur ≤ span * dur := by
      rw [← Nat.succ_mul]
      exact Nat.mul_le_mul_right dur hlt
    have hd' := hnext hlt
    rw [Nat.mod_eq_of_lt (next_fits hshort harea hlt)] at hd'
    have hmul := (Nat.le_div_iff_mul_le hspan).mp (Nat.succ_le_of_lt hd')
    rw [Nat.succ_mul, Nat.mul_comm d] at hmul
    rw [Nat.mul_comm dur]
    omega
  · calc span * d < span * dur := Nat.mul_lt_mul_of_pos_left hd hspan
      _ = dur * span := Nat.mul_comm _ _
      _ ≤ dur * nxt := Nat.mul_le_mul_left _ (Nat.le_of_not_lt hlt)

/-- Until the next word `progress` stays. -/
theorem DpJob.progress_const {j : DpJob} (h : j.Fits) (hle : now ≤ t) (ht : t < j.endG)
    (hword : j.addr < j.endAddr → j.startG < j.endG → j.word now + 8 < j.endAddr - j.addr →
      t < j.startG + ((j.word now + 8) * (j.endG - j.startG) + (j.endAddr - j.addr) - 1) %
        2 ^ 64 / (j.endAddr - j.addr)) :
    j.progress t = j.progress now := by
  by_cases haddr : j.addr < j.endAddr
  · rw [DpJob.progress_word h haddr ht,
      DpJob.progress_word h haddr (hle.trans_lt ht)]
    refine congrArg (j.addr + ·) ?_
    by_cases hstart : j.startG < t
    · -- the quotient at `t` lies between this word and the next
      have hquot := quot_lt_next (j.endG - j.startG) (t - j.startG) (j.word now + 8) (by omega)
        (by have := h.addr; omega) h.area
        (fun hlt => by
          have := hword haddr (by omega) hlt
          omega) (by omega)
      obtain ⟨-, hfit⟩ := DpJob.progress_inside h haddr hstart ht
      have hmul : j.word now % 8 = 0 := by
        unfold DpJob.word
        split_ifs
        · exact Nat.mul_mod_left _ _
        · rfl
      have hge : j.word now ≤ (j.endAddr - j.addr) * (t - j.startG) / (j.endG - j.startG) := by
        unfold DpJob.word
        split_ifs with hnow
        · refine (Nat.div_mul_le_self _ _).trans (Nat.div_le_div_right ?_)
          exact (Nat.mod_le _ _).trans (Nat.mul_le_mul_left _ (by omega))
        · exact Nat.zero_le _
      have hword_t : j.word t =
          (j.endAddr - j.addr) * (t - j.startG) / (j.endG - j.startG) / 8 * 8 := by
        unfold DpJob.word
        rw [if_pos hstart, Nat.mod_eq_of_lt hfit]
      rw [hword_t]
      omega
    · have hzero {u : Nat} (hu : u ≤ t) : j.word u = 0 := by
        unfold DpJob.word
        rw [if_neg (by omega)]
      rw [hzero (Nat.le_refl t), hzero hle]
  · rw [DpJob.progress_before (.inl (Nat.le_of_not_lt haddr)),
      DpJob.progress_before (.inl (Nat.le_of_not_lt haddr))]

/-- The instant computed for the next word has not come. -/
theorem DpJob.lt_next_word {j : DpJob} (h : j.Fits) (hend : now < j.endG)
    (hstart : j.startG < j.endG) (hlt : j.word now + 8 < j.endAddr - j.addr) :
    now < j.startG + ((j.word now + 8) * (j.endG - j.startG) + (j.endAddr - j.addr) - 1) %
      2 ^ 64 / (j.endAddr - j.addr) := by
  have hspan : 0 < j.endAddr - j.addr := by omega
  have hprod : (j.word now + 8) * (j.endG - j.startG) + (j.endG - j.startG) ≤
      (j.endAddr - j.addr) * (j.endG - j.startG) := by
    rw [← Nat.succ_mul]
    exact Nat.mul_le_mul_right _ hlt
  have haddr := h.addr
  rw [Nat.mod_eq_of_lt (next_fits (by omega) h.area hlt)]
  by_cases hbegun : j.startG < now
  · obtain ⟨-, hfit⟩ := DpJob.progress_inside h (by omega) hbegun hend
    -- the quotient is less than a word beyond the last one
    have hquot : (j.endAddr - j.addr) * (now - j.startG) / (j.endG - j.startG) <
        j.word now + 8 := by
      unfold DpJob.word
      rw [if_pos hbegun, Nat.mod_eq_of_lt hfit]
      omega
    have hmul := (Nat.div_lt_iff_lt_mul (by omega)).mp hquot
    have hceil : now - j.startG <
        ((j.word now + 8) * (j.endG - j.startG) + (j.endAddr - j.addr) - 1) /
          (j.endAddr - j.addr) := by
      refine (Nat.le_div_iff_mul_le hspan).mpr ?_
      rw [Nat.succ_mul, Nat.mul_comm (now - j.startG)]
      omega
    omega
  · have hceil : 0 < ((j.word now + 8) * (j.endG - j.startG) + (j.endAddr - j.addr) - 1) /
        (j.endAddr - j.addr) := by
      have hdur : 0 < (j.word now + 8) * (j.endG - j.startG) :=
        Nat.mul_pos (by omega) (by omega)
      exact Nat.div_pos (by omega) hspan
    omega

/-! ## Section 4: Until the next change -/

/-- What `nextChangeOf` is no later than. -/
theorem nextChangeOf_le {slot : Nat → DpJob} {sub c vis : Nat} {cur : Bool}
    (hc : c < sub → now < (slot c).endG) (hv : vis < sub → now < (slot vis).kickG)
    (ht : nextChangeOf slot sub c vis now cur = 0 ∨ t < nextChangeOf slot sub c vis now cur) :
    (c < sub → t < (slot c).endG) ∧ (vis < sub → t < (slot vis).kickG) ∧
      (cur = true → c < vis → c < sub → (slot c).Fits → (slot c).startG < (slot c).endG →
        (slot c).word now + 8 < (slot c).endAddr - (slot c).addr →
        t < (slot c).startG + (((slot c).word now + 8) * ((slot c).endG - (slot c).startG) +
          ((slot c).endAddr - (slot c).addr) - 1) % 2 ^ 64 / ((slot c).endAddr - (slot c).addr)) := by
  unfold nextChangeOf at ht
  dsimp only at ht
  have hstep (hs : (slot c).Fits) (hend : now < (slot c).endG)
      (hstart : (slot c).startG < (slot c).endG) := DpJob.lt_next_word hs hend hstart
  generalize (slot c).startG + (((slot c).word now + 8) * ((slot c).endG - (slot c).startG) +
    ((slot c).endAddr - (slot c).addr) - 1) % 2 ^ 64 / ((slot c).endAddr - (slot c).addr) =
    step at hstep ht ⊢
  refine ⟨fun hlt => ?_, fun hlt => ?_, fun hcur hopen hlt hfits hstart hword => ?_⟩
  · have hend := hc hlt
    rw [if_pos hlt] at ht
    split_ifs at ht <;> omega
  · have hkick := hv hlt
    rw [if_pos hlt] at ht
    split_ifs at ht <;> omega
  · have hend := hc hlt
    have hnow := hstep hfits hend hstart hword
    have hpoll : cur = true ∧ c < vis := ⟨hcur, hopen⟩
    have hinside : (slot c).addr < (slot c).endAddr ∧ (slot c).startG < (slot c).endG ∧
        now < (slot c).endG := ⟨by omega, hstart, hend⟩
    rw [if_pos hlt, if_pos hpoll, if_pos hinside, if_pos hword] at ht
    split_ifs at ht <;> omega

/-- Between two changes of the counts `DPC_CURRENT` is where it was, up to the
    next word of an open span. -/
theorem currentOf_const {slot : Nat → DpJob} {live c vis : Nat} (hle : now ≤ t)
    (h : c < vis → (slot c).Fits ∧ t < (slot c).endG ∧
      ((slot c).addr < (slot c).endAddr → (slot c).startG < (slot c).endG →
        (slot c).word now + 8 < (slot c).endAddr - (slot c).addr →
        t < (slot c).startG + (((slot c).word now + 8) * ((slot c).endG - (slot c).startG) +
          ((slot c).endAddr - (slot c).addr) - 1) % 2 ^ 64 / ((slot c).endAddr - (slot c).addr))) :
    currentOf slot live c vis t = currentOf slot live c vis now := by
  unfold currentOf
  dsimp only
  by_cases hopen : c < vis
  · obtain ⟨hfits, hend, hword⟩ := h hopen
    have hfirst : ¬vis < c := Nat.not_lt.mpr hopen.le
    rw [if_neg hfirst, if_pos hopen, if_pos hopen]
    exact DpJob.progress_const hfits hle hend hword
  · split_ifs <;> first | rfl | omega

theorem Schedule.lt_end (S : Schedule) {now : Nat} (h : S.completed now < S.jobs.length) :
    now < (S.slot (S.completed now)).endG := by
  rw [S.slot_eq h]
  have hmem : S.jobs[S.completed now] ∈ S.jobs.drop (S.completed now) := by
    rw [List.drop_eq_getElem_cons h]
    exact List.mem_cons_self
  exact Nat.lt_of_not_le (of_decide_eq_false ((S.completed_downward now).split.2 _ hmem))

theorem Schedule.lt_kick (S : Schedule) {now : Nat} (h : S.visible now < S.jobs.length) :
    now < (S.slot (S.visible now)).kickG := by
  rw [S.slot_eq h]
  have hmem : S.jobs[S.visible now] ∈ S.jobs.drop (S.visible now) := by
    rw [List.drop_eq_getElem_cons h]
    exact List.mem_cons_self
  exact Nat.lt_of_not_le (of_decide_eq_false ((S.visible_downward now).split.2 _ hmem))

/-- The counts stay until the next dated change. -/
theorem Schedule.counts_const (S : Schedule) (hle : now ≤ t)
    (hend : S.completed now < S.jobs.length → t < (S.slot (S.completed now)).endG)
    (hkick : S.visible now < S.jobs.length → t < (S.slot (S.visible now)).kickG) :
    S.completed t = S.completed now ∧ S.visible t = S.visible now := by
  constructor
  · refine count_const (·.endG) S.ends hle fun j hj => ?_
    obtain ⟨hlt, rfl⟩ := List.getElem?_eq_some_iff.mp hj
    rw [← S.slot_eq hlt]
    exact hend hlt
  · refine count_const (·.kickG) S.stamps hle fun j hj => ?_
    obtain ⟨hlt, rfl⟩ := List.getElem?_eq_some_iff.mp hj
    rw [← S.slot_eq hlt]
    exact hkick hlt

/-- **A register does not change before `dpNextChangeAt`.** -/
theorem Schedule.read_const (S : Schedule) (port : DpcPort) (hle : now ≤ t)
    (ht : S.dpNextChangeAt now (port = .current) = 0 ∨
      t < S.dpNextChangeAt now (port = .current)) :
    S.read port t = S.read port now := by
  obtain ⟨hend, hkick, hword⟩ := nextChangeOf_le (S.lt_end) (S.lt_kick) ht
  obtain ⟨hcomp, hvis⟩ := S.counts_const hle hend hkick
  cases port with
  | status =>
    unfold Schedule.read
    rw [hcomp, hvis]
  | current =>
    unfold Schedule.read
    dsimp only
    rw [hcomp, hvis]
    refine congrArg (BitVec.ofNat 32) (currentOf_const hle fun hopen => ?_)
    have hlt : S.completed now < S.jobs.length := hopen.trans_le List.countP_le_length
    have hfits : (S.slot (S.completed now)).Fits := by
      rw [S.slot_eq hlt]
      exact S.fits _ (List.getElem_mem hlt)
    exact ⟨hfits, hend hlt, fun _ hstart hlt' =>
      hword (decide_eq_true rfl) hopen hlt hfits hstart hlt'⟩

/-- With the engine drained and every span seen, `DPC_CURRENT` stays for
    good. -/
theorem Schedule.read_drained (S : Schedule) (port : DpcPort) (hle : now ≤ t)
    (hdrained : S.dpDrainedAt now = true) (hseen : ∀ j ∈ S.jobs, j.kickG ≤ now) :
    S.read port t = S.read port now := by
  have hclosed : ∀ j ∈ S.jobs, j.endG ≤ now := by
    intro j hj
    have hlast := of_decide_eq_true hdrained
    obtain hnil | ⟨l, x, heq⟩ := List.eq_nil_or_concat' S.jobs
    · rw [hnil] at hj
      exact absurd hj List.not_mem_nil
    · have hends := S.ends
      rw [heq, List.getLast?_concat, Option.map_some, Option.getD_some] at hlast
      rw [heq] at hj hends
      obtain hj | hj := List.mem_append.mp hj
      · exact ((List.pairwise_append.mp hends).2.2 j hj x (List.mem_singleton_self x)).trans hlast
      · rw [List.mem_singleton.mp hj]
        exact hlast
  have hcount {stamp : DpJob → Nat} (h : ∀ j ∈ S.jobs, stamp j ≤ now) {u : Nat} (hu : now ≤ u) :
      S.jobs.countP (fun j => decide (stamp j ≤ u)) = S.jobs.length :=
    List.countP_eq_length.mpr fun j hj => decide_eq_true ((h j hj).trans hu)
  have hcomp {u : Nat} (hu : now ≤ u) : S.completed u = S.jobs.length := hcount hclosed hu
  have hvis {u : Nat} (hu : now ≤ u) : S.visible u = S.jobs.length := hcount hseen hu
  have hnow := Nat.le_refl now
  cases port with
  | status =>
    unfold Schedule.read
    rw [hcomp hle, hvis hle, hcomp hnow, hvis hnow]
  | current =>
    unfold Schedule.read currentOf
    dsimp only
    rw [hcomp hle, hvis hle, hcomp hnow, hvis hnow, if_neg (Nat.lt_irrefl _),
      if_neg (Nat.lt_irrefl _), if_neg (Nat.lt_irrefl _)]

/-! ## Section 5: The ring answers like the schedule -/

theorem currentOf_congr {slot slot' : Nat → DpJob} {live c vis now : Nat}
    (h : ∀ i, (i = c ∧ c < vis) ∨ (i + 1 = vis ∧ vis ≤ c) → slot i = slot' i) :
    currentOf slot live c vis now = currentOf slot' live c vis now := by
  unfold currentOf
  dsimp only
  by_cases hopen : c < vis
  · have hfirst : ¬vis < c := by omega
    rw [if_neg hfirst, if_pos hopen, if_pos hopen, h c (.inl ⟨rfl, hopen⟩)]
  · have hmin : (if vis < c then vis else c) = vis := by
      split_ifs <;> omega
    rw [hmin, if_neg (Nat.lt_irrefl vis), if_neg (Nat.lt_irrefl vis)]
    split_ifs with hpos
    · rw [h (vis - 1) (.inr ⟨by omega, by omega⟩)]
    · rfl

theorem nextChangeOf_congr {slot slot' : Nat → DpJob} {sub c vis now : Nat} {cur : Bool}
    (hc : c < sub → slot c = slot' c) (hv : vis < sub → slot vis = slot' vis) (hvis : vis ≤ sub) :
    nextChangeOf slot sub c vis now cur = nextChangeOf slot' sub c vis now cur := by
  unfold nextChangeOf
  by_cases hclt : c < sub
  · rw [hc hclt]
    by_cases hvlt : vis < sub
    · rw [hv hvlt]
    · simp only [if_neg hvlt]
  · have hopen : ¬(cur = true ∧ c < vis) := fun h => hclt (h.2.trans_le hvis)
    simp only [if_neg hclt, if_neg hopen]
    by_cases hvlt : vis < sub
    · rw [hv hvlt]
    · simp only [if_neg hvlt]

variable {T : Type} [DecidableEq T] {r : DpRun T}

/-- The readers of a run answer as the schedule of its log does. -/
theorem DpRun.Inv.reads_schedule (h : r.Inv) {p : Pace} {th : T} {now : Nat}
    (ha : r.Allowed (.current th now)) (hs : r.Sound p (.current th now))
    (hfew : r.unfinished now < kDpRingN) {S : Schedule} (hjobs : S.jobs = r.log.map (·.job))
    (hlive : S.dpc_current = r.sys.dp.dpc_current) (cur : Bool) :
    (r.sys.dpcCurrentFor th now).2 =
        currentOf S.slot S.dpc_current (S.completed now) (S.visible now) now ∧
      (r.sys.dpNextChangeAt th now cur).2 = S.dpNextChangeAt now cur := by
  obtain ⟨hcomp, hvis, -⟩ := h.current ha hs
  have hlen : S.jobs.length = r.log.length := by rw [hjobs, List.length_map]
  have hcomp' : S.completed now = r.log.countP (due (·.endG) now) := by
    unfold Schedule.completed
    rw [hjobs, List.countP_map]
    rfl
  have hvis' : S.visible now = r.log.countP (due (·.kickG) now) := by
    unfold Schedule.visible
    rw [hjobs, List.countP_map]
    rfl
  have hslot {i : Nat} (hi : i < r.log.length) (hring : r.log.length - kDpRingN ≤ i) :
      r.sys.dp.slot i = S.slot i := by
    rw [S.slot_eq (by omega)]
    refine (h.reads_comp.slot hring hi).trans ?_
    simp only [hjobs, List.getElem_map]
  -- what is not finished is still in the ring, and the last before it
  have hmissing {stamp : DpJob → Nat} (hle : r.log.countP (fun f => !due stamp now f) ≤
      r.unfinished now) : r.log.length < r.log.countP (due stamp now) + kDpRingN := by
    have := List.length_eq_countP_add_countP (due stamp now) (l := r.log)
    have hnot : r.log.countP (fun f => decide (¬due stamp now f = true)) =
        r.log.countP (fun f => !due stamp now f) :=
      List.countP_congr fun f _ => by
        cases due stamp now f <;> decide
    omega
  have hc := hmissing (r.unfinished_comp now)
  have hv := hmissing (r.unfinished_vis now)
  have hc_le : r.log.countP (due (·.endG) now) ≤ r.log.length := List.countP_le_length
  have hv_le : r.log.countP (due (·.kickG) now) ≤ r.log.length := List.countP_le_length
  constructor
  · unfold DpSys.dpcCurrentFor
    dsimp only
    rw [hcomp, hvis, hcomp', hvis', hlive]
    exact currentOf_congr fun i hi => hslot (by omega) (by omega)
  · unfold DpSys.dpNextChangeAt Schedule.dpNextChangeAt
    dsimp only
    rw [hcomp, hvis, hcomp', hvis', hlen, ← h.sub]
    refine nextChangeOf_congr (fun hlt => hslot ?_ ?_) (fun hlt => hslot ?_ ?_) ?_
    · exact h.sub ▸ hlt
    · omega
    · exact h.sub ▸ hlt
    · omega
    · exact h.sub ▸ hv_le

/-! ## Section 6: The ring between two changes -/

/-- What `dpcStatusFor` and `dpcCurrentFor` read beside the ring. `dpPending`
    counts what the host has queued; it stands in for the ring when
    `dpGuestOn` is off. -/
structure DpcRegs where
  dpc_status : BitVec 32
  rdpHwHung : Bool
  dpGuestOn : Bool
  dpPending : Nat
  deriving DecidableEq, Repr

def DpSys.dpcStatusFor (g : DpcRegs) (th : T) (now : Nat) (s : DpSys T) : DpSys T × BitVec 32 :=
  let st := g.dpc_status ||| 0x80
  if g.rdpHwHung then (s, st &&& 0x7 ||| 0x740)
  else if g.dpGuestOn = false then
    let st := if g.dpPending ≠ 0 then st ||| (0x100 ||| 0x40) else st
    (s, if 2 ≤ g.dpPending then st ||| 0x200 else st)
  else
    let (s, c) := s.dpCompletedAt th now
    let (s, vis) := s.dpVisibleAt th now
    let out := if c < vis then vis - c else 0
    let st := if 1 ≤ out then st ||| (0x100 ||| 0x40) else st
    (s, if 2 ≤ out then st ||| 0x200 else st)

/-- `dpcCurrentFor`, with the switch. -/
def DpSys.dpcCurrent (g : DpcRegs) (th : T) (now : Nat) (s : DpSys T) : DpSys T × Nat :=
  if g.dpGuestOn = false then (s, s.dp.dpc_current) else s.dpcCurrentFor th now

def DpSys.read (g : DpcRegs) (th : T) (port : DpcPort) (now : Nat) (s : DpSys T) :
    DpSys T × BitVec 32 :=
  match port with
  | .status => s.dpcStatusFor g th now
  | .current =>
    let (s, v) := s.dpcCurrent g th now
    (s, BitVec.ofNat 32 v)

/-- Whatever moves the cursors of a thread. -/
inductive DpcLook where
  | read (port : DpcPort)
  | nextChange (cur : Bool)
  deriving DecidableEq, Repr

def DpSys.look (g : DpcRegs) (th : T) (s : DpSys T) : DpcLook × Nat → DpSys T
  | (.read port, u) => (s.read g th port u).1
  | (.nextChange cur, u) => (s.dpNextChangeAt th u cur).1

/-- A cursor from which a scan runs up to `c`, over slots due at `now`. -/
structure Rests (stamp : Nat → Nat) (sub now c cur : Nat) : Prop where
  start : dpClip sub cur ≤ c
  stop : c ≤ sub
  due : ∀ j, dpClip sub cur ≤ j → j < c → stamp (j % kDpRingN) ≤ now

section Rests

variable {stamp : Nat → Nat} {sub c cur : Nat}

/-- A scan rests where it has stopped, and what stops it is still to come. -/
theorem dpScanFwd_rests (stamp : Nat → Nat) (sub now cur : Nat) :
    Rests stamp sub now (dpScanFwd stamp sub now cur) cur ∧
      (dpScanFwd stamp sub now cur < sub →
        now < stamp (dpScanFwd stamp sub now cur % kDpRingN)) := by
  obtain ⟨hge, hle, hall, hstop⟩ := dpScan_spec stamp now (sub - dpClip sub cur) (dpClip sub cur)
  have hclip := dpClip_le sub cur
  unfold dpScanFwd
  exact ⟨⟨hge, by omega, hall⟩, fun hlt => hstop (by omega)⟩

/-- The scan comes to rest there again, until the slot at rest is due. -/
theorem Rests.scan (h : Rests stamp sub now c cur) (hle : now ≤ t)
    (hnext : c < sub → t < stamp (c % kDpRingN)) : dpScanFwd stamp sub t cur = c := by
  obtain ⟨hge, hle', hall, hstop⟩ := dpScan_spec stamp t (sub - dpClip sub cur) (dpClip sub cur)
  have hclip := dpClip_le sub cur
  have hstart := h.start
  have hend := h.stop
  unfold dpScanFwd
  refine Nat.le_antisymm (Nat.not_lt.mp fun hover => ?_) (Nat.not_lt.mp fun hshort => ?_)
  · have hdue := hall c hstart hover
    have := hnext (by omega)
    omega
  · have hdue := h.due _ hge hshort
    have := hstop (by omega)
    omega

/-- A cursor left at `c` rests there. -/
theorem Rests.at (h : Rests stamp sub now c cur) : Rests stamp sub now c c := by
  have hlow := (le_dpClip sub cur).trans h.start
  have hclip : dpClip sub c = c := by
    have hend := h.stop
    unfold dpClip
    dsimp only
    split_ifs <;> omega
  refine ⟨hclip.le, h.stop, fun j hj hj' => ?_⟩
  rw [hclip] at hj
  omega

end Rests

/-- The cursors of a thread from which it counts `c` closed and `vis` visible
    spans. -/
structure DpSys.Settled (s : DpSys T) (th : T) (now c vis : Nat) : Prop where
  comp : Rests (fun i => (s.dp.jobs i).endG) s.dp.dpSubSeq now c (s.tl th).comp
  vis : Rests (fun i => (s.dp.jobs i).kickG) s.dp.dpSubSeq now vis (s.tl th).vis

section Settled

variable {s : DpSys T} {g : DpcRegs} {th : T} {now t c vis : Nat}

/-- What both counts answer until the next slot closes or shows. -/
theorem DpSys.Settled.counts (h : s.Settled th now c vis) (hle : now ≤ t)
    (hend : c < s.dp.dpSubSeq → t < (s.dp.slot c).endG)
    (hkick : vis < s.dp.dpSubSeq → t < (s.dp.slot vis).kickG) :
    (s.dpCompletedAt th t).2 = c ∧ ((s.dpCompletedAt th t).1.dpVisibleAt th t).2 = vis ∧
      ((s.dpCompletedAt th t).1.dpVisibleAt th t).1.dp = s.dp ∧
      ((s.dpCompletedAt th t).1.dpVisibleAt th t).1.Settled th now c vis := by
  have hcomp : (s.dpCompletedAt th t).2 = c := h.comp.scan hle hend
  have hcur : ((s.dpCompletedAt th t).1.tl th).vis = (s.tl th).vis := by
    unfold DpSys.dpCompletedAt
    dsimp only
    rw [Function.update_self]
  have hvis : ((s.dpCompletedAt th t).1.dpVisibleAt th t).2 = vis := by
    have hrest : Rests (fun i => (s.dp.jobs i).kickG) s.dp.dpSubSeq now vis
        ((s.dpCompletedAt th t).1.tl th).vis := by
      rw [hcur]
      exact h.vis
    exact hrest.scan hle hkick
  refine ⟨hcomp, hvis, rfl, ?_, ?_⟩
  · have : (((s.dpCompletedAt th t).1.dpVisibleAt th t).1.tl th).comp = c := by
      unfold DpSys.dpVisibleAt
      dsimp only
      rw [Function.update_self]
      dsimp only
      unfold DpSys.dpCompletedAt
      dsimp only
      rw [Function.update_self]
      exact hcomp
    rw [this]
    exact h.comp.at
  · have : (((s.dpCompletedAt th t).1.dpVisibleAt th t).1.tl th).vis = vis := by
      unfold DpSys.dpVisibleAt at hvis ⊢
      dsimp only at hvis ⊢
      rw [Function.update_self]
      exact hvis
    rw [this]
    exact h.vis.at

/-- What a port shows, from the counts. -/
def Dp.readOf (d : Dp) (g : DpcRegs) (c vis now : Nat) : DpcPort → BitVec 32
  | .status =>
    if g.rdpHwHung ∨ g.dpGuestOn then statusOf g.dpc_status g.rdpHwHung c vis
    else
      let st := g.dpc_status ||| 0x80
      let st := if g.dpPending ≠ 0 then st ||| (0x100 ||| 0x40) else st
      if 2 ≤ g.dpPending then st ||| 0x200 else st
  | .current => BitVec.ofNat 32
      (if g.dpGuestOn then currentOf d.slot d.dpc_current c vis now else d.dpc_current)

theorem DpSys.Settled.read_eq (h : s.Settled th now c vis) (hle : now ≤ t)
    (hend : c < s.dp.dpSubSeq → t < (s.dp.slot c).endG)
    (hkick : vis < s.dp.dpSubSeq → t < (s.dp.slot vis).kickG) (port : DpcPort) :
    (s.read g th port t).2 = s.dp.readOf g c vis t port ∧ (s.read g th port t).1.dp = s.dp ∧
      (s.read g th port t).1.Settled th now c vis := by
  obtain ⟨hcomp, hvis, hdp, hnext⟩ := h.counts hle hend hkick
  cases port with
  | status =>
    unfold DpSys.read DpSys.dpcStatusFor Dp.readOf statusOf
    dsimp only
    by_cases hhung : g.rdpHwHung = true
    · simp only [hhung, if_true, true_or]
      exact ⟨trivial, trivial, h⟩
    by_cases hguest : g.dpGuestOn = true
    · simp only [hhung, hguest, or_true, if_true, Bool.true_eq_false, if_false, hcomp, hvis,
        Bool.false_eq_true]
      exact ⟨trivial, hdp, hnext⟩
    · simp only [hhung, hguest, or_self, if_false, if_true, Bool.false_eq_true]
      exact ⟨trivial, trivial, h⟩
  | current =>
    unfold DpSys.read DpSys.dpcCurrent Dp.readOf
    by_cases hguest : g.dpGuestOn = true
    · simp only [hguest, Bool.true_eq_false, if_false, if_true]
      unfold DpSys.dpcCurrentFor
      dsimp only
      rw [hcomp, hvis]
      exact ⟨rfl, hdp, hnext⟩
    · simp only [hguest, if_true, Bool.false_eq_true, if_false]
      exact ⟨trivial, trivial, h⟩

theorem DpSys.Settled.look (h : s.Settled th now c vis) (hle : now ≤ t)
    (hend : c < s.dp.dpSubSeq → t < (s.dp.slot c).endG)
    (hkick : vis < s.dp.dpSubSeq → t < (s.dp.slot vis).kickG) (q : DpcLook) :
    (s.look g th (q, t)).dp = s.dp ∧ (s.look g th (q, t)).Settled th now c vis := by
  cases q with
  | read port => exact (h.read_eq hle hend hkick port).2
  | nextChange cur =>
    obtain ⟨-, -, hdp, hnext⟩ := h.counts hle hend hkick
    exact ⟨hdp, hnext⟩

omit [DecidableEq T] in
/-- Cursors settle where a scan takes them, and the next slots are not yet
    due. -/
theorem DpSys.settled (s : DpSys T) (th : T) (now : Nat) :
    ∃ c vis, s.Settled th now c vis ∧
      (c < s.dp.dpSubSeq → now < (s.dp.slot c).endG) ∧
      (vis < s.dp.dpSubSeq → now < (s.dp.slot vis).kickG) := by
  obtain ⟨hcomp, hend⟩ :=
    dpScanFwd_rests (fun i => (s.dp.jobs i).endG) s.dp.dpSubSeq now (s.tl th).comp
  obtain ⟨hvis, hkick⟩ :=
    dpScanFwd_rests (fun i => (s.dp.jobs i).kickG) s.dp.dpSubSeq now (s.tl th).vis
  exact ⟨_, _, ⟨hcomp, hvis⟩, hend, hkick⟩

end Settled

/-- **A poll answers the same until the deadline.** Whatever the ring holds and
    the thread has looked at between, a register does not change before
    `dpNextChangeAt`. -/
theorem DpSys.read_until (s : DpSys T) (g : DpcRegs) (th : T) {now t : Nat} {port : DpcPort}
    {cur : Bool} (hfits : ∀ i, (s.dp.jobs i).Fits) (hcur : port = .current → cur = true)
    (hle : now ≤ t)
    (hbefore : (s.dpNextChangeAt th now cur).2 = 0 ∨ t < (s.dpNextChangeAt th now cur).2)
    (looks : List (DpcLook × Nat))
    (hlooks : ∀ q ∈ looks, now ≤ q.2 ∧
      ((s.dpNextChangeAt th now cur).2 = 0 ∨ q.2 < (s.dpNextChangeAt th now cur).2)) :
    ((looks.foldl (·.look g th) s).read g th port t).2 = (s.read g th port now).2 := by
  obtain ⟨c, vis, hset, hend, hkick⟩ := s.settled th now
  have hdeadline : (s.dpNextChangeAt th now cur).2 =
      nextChangeOf s.dp.slot s.dp.dpSubSeq c vis now cur := by
    obtain ⟨hcomp, hvis, -⟩ := hset.counts (Nat.le_refl now) hend hkick
    unfold DpSys.dpNextChangeAt
    dsimp only
    rw [hcomp, hvis]
    rfl
  rw [hdeadline] at hbefore hlooks
  -- no look before the deadline moves the counts
  have hquiet : (looks.foldl (·.look g th) s).dp = s.dp ∧
      (looks.foldl (·.look g th) s).Settled th now c vis := by
    induction looks using List.reverseRecOn with
    | nil => exact ⟨rfl, hset⟩
    | append_singleton looks q ih =>
      obtain ⟨hdp, hrest⟩ := ih fun q' hq' => hlooks q' (List.mem_append_left _ hq')
      obtain ⟨hq, hq'⟩ := hlooks q (List.mem_append_right _ (List.mem_singleton_self q))
      obtain ⟨hend', hkick', -⟩ := nextChangeOf_le hend hkick hq'
      rw [List.foldl_append, List.foldl_cons, List.foldl_nil, ← hdp]
      exact hrest.look hq (by rwa [hdp]) (by rwa [hdp]) q.1
  obtain ⟨hdp, hrest⟩ := hquiet
  obtain ⟨hend', hkick', hword⟩ := nextChangeOf_le hend hkick hbefore
  rw [(hrest.read_eq hle (by rwa [hdp]) (by rwa [hdp]) port).1,
    (hset.read_eq (Nat.le_refl now) hend hkick port).1, hdp]
  cases port with
  | status => rfl
  | current =>
    have hvis := hset.vis.stop
    have hconst : currentOf s.dp.slot s.dp.dpc_current c vis t =
        currentOf s.dp.slot s.dp.dpc_current c vis now :=
      currentOf_const hle fun hopen => ⟨hfits _, hend' (by omega), fun _ hstart hlt =>
        hword (hcur rfl) hopen (by omega) (hfits _) hstart hlt⟩
    unfold Dp.readOf
    dsimp only
    rw [hconst]

/-- One span of eight words and 32 operations. -/
def eightWords : DpSys Unit where
  dp :=
    { dpSubSeq := 1
      dpSchedEnd := 32
      jobs := fun i => if i = 0 then ⟨0, 64, 0, 32, 0, false⟩ else ⟨0, 0, 0, 0, 0, false⟩
      dpc_current := 0 }
  tl := fun _ => ⟨0, 0⟩

/-- At operation 5 the engine is at the second word, and stays there to
    operation 7. -/
theorem DpSys.read_until_word :
    ((eightWords.look ⟨0, false, true, 0⟩ () (.nextChange true, 5)).read ⟨0, false, true, 0⟩ ()
      .current 7).2 = (eightWords.read ⟨0, false, true, 0⟩ () .current 5).2 := by
  have hfits : ∀ i, (eightWords.dp.jobs i).Fits := by
    intro i
    unfold eightWords
    dsimp only
    split_ifs <;> exact ⟨by decide, by decide⟩
  exact DpSys.read_until eightWords ⟨0, false, true, 0⟩ () hfits (fun _ => rfl) (by decide)
    (by decide) [(.nextChange true, 5)] (by decide)

end Rcp
