import Kestrel64.Cpu.StallBound

/-! # CPU: Are the Guards Safe?

    `stallPerOpMax` is a bound for every instruction exactly at the prices
    `Costs.Tame`: `XLOG` reads up to 65536 bytes in one instruction, and
    `Fill` fills a second line when its own fetch has missed. The two bounds
    on a block hold for every block that keeps to it, and their inverses are
    on the safe side.

    * `guards_safe_iff` — all of it together.
-/

namespace Cpu

variable {Dev : Type}

/-! ## Section 1: A string that is not in the cache -/

section Cold

variable (D : Devices Dev) (pak : Pak)

/-- No line of the data cache from `pe` on is there. -/
def Cold (pe : Nat) (s : State Dev) : Prop :=
  ∀ j, pe ≤ 16 * j → j < 512 → (s.dcache j).tagv = 0

theorem uncachedRead_frame (pe size : Nat) (s : State Dev) :
    (uncachedRead D pak pe size s).2.stallCycles = s.stallCycles + s.uncachedCycles ∧
      (uncachedRead D pak pe size s).2.dcache = s.dcache := by
  unfold uncachedRead busLoad ramSettle
  dsimp only
  split_ifs <;> exact ⟨rfl, rfl⟩

theorem dcTouch_frame (pe : Nat) (s : State Dev) :
    (dcTouch D pak pe s).stallCycles =
        s.stallCycles + (if s.resident pe then 0 else s.dcMissCycles) ∧
      ∀ j, j ≠ pe / 16 % 512 → (dcTouch D pak pe s).dcache j = s.dcache j := by
  unfold dcTouch State.resident
  dsimp only
  by_cases hit : (s.dcache (pe / 16 % 512)).tagv = pe / 16 * 16 + 1
  · rw [if_neg (not_not.mpr hit), if_pos (beq_iff_eq.mpr hit)]
    exact ⟨rfl, fun _ _ => rfl⟩
  · rw [if_pos hit, if_neg (mt beq_iff_eq.mp hit)]
    unfold dcMiss
    dsimp only
    refine ⟨?_, fun j hj => ?_⟩
    · split_ifs <;> rfl
    · rw [if_neg hj]
      split_ifs <;> rfl

/-- A byte in front of a line costs an access; the lines behind stay away. -/
theorem read_cold (b : Bool) {pe : Nat} (size : Nat) {s : State Dev} (hpe : pe < 0x2000)
    (h : Cold pe s) :
    let t := (if b then dcRead D pak pe size s else uncachedRead D pak pe size s).2
    (s.stallCycles + if pe % 16 = 0 then if b then s.dcMissCycles else s.uncachedCycles else 0) ≤
        t.stallCycles ∧
      Cold (pe + 1) t := by
  cases b with
  | false =>
    obtain ⟨hstall, hdcache⟩ := uncachedRead_frame D pak pe size s
    refine ⟨?_, fun j hj hlt => ?_⟩
    · rw [if_neg Bool.false_ne_true, if_neg Bool.false_ne_true, hstall]
      split_ifs <;> omega
    · rw [if_neg Bool.false_ne_true, hdcache]
      exact h j (by omega) hlt
  | true =>
    obtain ⟨hstall, hdcache⟩ := dcTouch_frame D pak pe s
    refine ⟨?_, fun j hj hlt => ?_⟩
    · rw [if_pos rfl, if_pos rfl]
      show _ ≤ (dcTouch D pak pe s).stallCycles
      rw [hstall]
      by_cases hfirst : pe % 16 = 0
      · have hmiss : s.resident pe = false := by
          unfold State.resident
          rw [beq_eq_false_iff_ne, h (pe / 16 % 512) (by omega) (by omega)]
          omega
        rw [if_pos hfirst, hmiss]
        exact Nat.le_refl _
      · rw [if_neg hfirst]
        exact Nat.le_add_right _ _
    · rw [if_pos rfl]
      show ((dcTouch D pak pe s).dcache j).tagv = 0
      rw [hdcache j (by omega)]
      exact h j (by omega) hlt

/-- In kernel mode, with nothing that could stop an access or stall one. -/
structure Bare (p : Piped Dev) : Prop where
  status : p.core.cpu.status = 0
  abort : p.core.memAbort = false
  watch : p.core.watchArmed = false
  dcbR : p.dcbR = 0

/-- The address at `pe` in a direct segment: 4 goes through the cache, 5 past
    it. -/
def Direct (cached : Bool) (pe : Nat) (v : BitVec 64) : Prop :=
  v.toNat = 0xffffffff00000000 + (if cached then 4 else 5) * 2 ^ 29 + pe ∧ pe < 0x2000

variable {D pak}

theorem Direct.low {b : Bool} {pe : Nat} {v : BitVec 64} (h : Direct b pe v) :
    v.toNat % 2 ^ 32 = (if b then 4 else 5) * 2 ^ 29 + pe := by
  obtain ⟨hv, hpe⟩ := h
  rw [hv]
  cases b
  · rw [if_neg Bool.false_ne_true]
    omega
  · rw [if_pos rfl]
    omega

/-- The segments are sign-extended. -/
theorem Direct.compat {b : Bool} {pe : Nat} {v : BitVec 64} (h : Direct b pe v) :
    v.toNat = sext32 (v.toNat % 2 ^ 32) := by
  have hlow := h.low
  obtain ⟨hv, hpe⟩ := h
  unfold sext32
  rw [if_neg]
  · omega
  · rw [hlow]
    split_ifs <;> omega

theorem Direct.cacheable {b : Bool} {pe : Nat} {v : BitVec 64} (h : Direct b pe v)
    (s : State Dev) : cacheable v.toNat s = b := by
  have hlow := h.low
  have hpe := h.2
  unfold Cpu.cacheable
  dsimp only
  rw [if_neg (not_not.mpr h.compat), hlow]
  cases b
  · rw [if_neg Bool.false_ne_true, if_neg (by omega), if_pos (by omega)]
  · rw [if_pos rfl, if_pos (by omega)]

theorem Direct.xlat {b : Bool} {pe : Nat} {v : BitVec 64} (h : Direct b pe v) {s : State Dev}
    (hs : s.status = 0) (acc : Access) : xlat v.toNat acc s = .ok (pe, s) := by
  have hlow := h.low
  have hpe := h.2
  have hdirect : xlatDirect v.toNat s = some pe := by
    unfold xlatDirect
    rw [hs]
    dsimp only
    rw [if_neg (by decide), if_neg (not_not.mpr h.compat), hlow]
    cases b
    · rw [if_neg Bool.false_ne_true, if_neg (by omega)]
      exact congrArg some (by omega)
    · rw [if_pos rfl, if_neg (by omega)]
      exact congrArg some (by omega)
  unfold Cpu.xlat
  rw [hdirect]

theorem Bare.reach {p : Piped Dev} (h : Bare p) {b : Bool} {pe : Nat} {v : BitVec 64}
    (hv : Direct b pe v) : p.core.reach v 1 .read = (p.core, some pe) := by
  have hwatch : watchTrips pe .read p.core = false := by
    unfold watchTrips
    rw [h.watch]
    rfl
  unfold Core.reach Core.xlatTo
  rw [if_neg (by omega), h.abort, if_neg Bool.false_ne_true, hv.xlat h.status]
  dsimp only
  rw [show p.core.setCpu p.core.cpu = p.core from rfl, hwatch]
  rfl

theorem Piped.on_self (p : Piped Dev) : p.on p.core = p := if_pos rfl

/-- A load in front of a line costs an access. -/
theorem Bare.load (D : Devices Dev) (pak : Pak) {p : Piped Dev} (h : Bare p) {b : Bool}
    {pe : Nat} {v : BitVec 64}
    (hv : Direct b pe v) (hcold : Cold pe p.core.cpu) :
    let q := (p.load D pak 1 v).2
    Bare q ∧ Cold (pe + 1) q.core.cpu ∧
      (p.core.cpu.stallCycles + if pe % 16 = 0 then
        if b then p.costs.dcMissCycles else p.costs.uncachedCycles else 0) ≤
          q.core.cpu.stallCycles := by
  have haddr : busAddr p.core.cpu.status pe 1 = pe := by
    have hpe := hv.2
    unfold busAddr
    rw [if_neg (by decide), h.status]
    exact Nat.mod_eq_of_lt (show pe < 2 ^ 32 by omega)
  have hin : inRdram pak v.toNat pe p.core.cpu = b := by
    have hsize : 0x400000 ≤ pak.size := by cases pak <;> decide
    have hpe := hv.2
    unfold inRdram
    rw [hv.cacheable, decide_eq_true (by omega), Bool.and_true]
  have htouch : p.touch false pe = p := by
    unfold Piped.touch
    dsimp only
    rw [h.dcbR, if_neg (show ¬ (0 : Byte).getLsbD 1 = true by decide)]
    exact if_neg fun hw => Bool.false_ne_true hw.1
  obtain ⟨hstall, hafter⟩ := read_cold D pak b 1 hv.2 hcold
  have hquiet := read_quiet D pak b pe 1 p.core.cpu
  unfold Piped.load
  rw [h.reach hv]
  dsimp only
  rw [p.on_self, haddr]
  unfold Piped.readAt
  rw [htouch, ite_self]
  dsimp only
  rw [hin]
  exact ⟨⟨hquiet.status.trans h.status, h.abort, h.watch, h.dcbR⟩, hafter, hstall⟩

theorem Direct.next {b : Bool} {pe : Nat} {v : BitVec 64} (h : Direct b pe v)
    (hpe : pe + 1 < 0x2000) : Direct b (pe + 1) (v + 1) := by
  obtain ⟨hv, -⟩ := h
  refine ⟨?_, hpe⟩
  have hone : (1 : BitVec 64).toNat = 1 := rfl
  rw [BitVec.toNat_add, hv, hone]
  split_ifs <;> omega

/-- A string costs an access for every line that it begins. -/
theorem Bare.xlog (D : Devices Dev) (pak : Pak) (n : Nat) {p : Piped Dev} (h : Bare p) {b : Bool}
    {pe : Nat} {v : BitVec 64}
    (hv : Direct b pe v) (hn : pe + n < 0x2000) (hcold : Cold pe p.core.cpu) :
    p.core.cpu.stallCycles + (if b then p.costs.dcMissCycles else p.costs.uncachedCycles) *
        ((pe + n + 15) / 16 - (pe + 15) / 16) ≤ (p.xlog D pak n v).core.cpu.stallCycles := by
  induction n generalizing p pe v with
  | zero =>
    rw [Nat.add_zero, Nat.sub_self, Nat.mul_zero]
    exact Nat.le_refl _
  | succ n ih =>
    obtain ⟨hbare, hcold', hstall⟩ := h.load D pak hv hcold
    have hcosts := (p.load_spent D pak 1 v).costs
    have hrest := ih hbare (hv.next (by omega)) (by omega) hcold'
    rw [hcosts] at hrest
    refine le_trans ?_ hrest
    generalize (if b then p.costs.dcMissCycles else p.costs.uncachedCycles) = price at hstall ⊢
    have hlen : pe + (n + 1) + 15 = pe + 1 + n + 15 := by omega
    rw [hlen]
    by_cases hfirst : pe % 16 = 0
    · have hcount : (pe + 1 + n + 15) / 16 - (pe + 15) / 16 =
          (pe + 1 + n + 15) / 16 - (pe + 1 + 15) / 16 + 1 := by omega
      rw [if_pos hfirst] at hstall
      rw [hcount, Nat.mul_add, Nat.mul_one]
      omega
    · have hcount : (pe + 15) / 16 = (pe + 1 + 15) / 16 := by omega
      rw [hcount]
      rw [if_neg hfirst] at hstall
      omega

end Cold

/-! ## Section 2: Two instructions that are dear -/

/-- Outside of an interrupt the boundary only samples the lines. -/
theorem deliver_calm {c : Core Dev} {l : Pins Dev} (hst : c.status = 0) (hmem : l.mem = c.cpu.mem) :
    ∃ f, c.deliver l = { c with cop0 := f, curPc := c.pc, memAbort := false } := by
  have hsame : c.setCpu { c.cpu with mem := l.mem } = c := by
    rw [hmem]
    rfl
  unfold Core.deliver
  rw [hsame]
  dsimp only
  split_ifs with hint
  · have h0 : c.status % 8 = 1 := hint.1
    rw [hst] at h0
    exact absurd h0 (by decide)
  · exact ⟨_, rfl⟩

section Trial

variable [Inhabited Dev] (D : Devices Dev) (pak : Pak) (fpu : Fpu)

/-- `xlog r1, r2` -/
def xlogWord : BitVec 32 := 0x42110025

/-- `cache 0x14, 0(r1)` -/
def fillWord : BitVec 32 := 0xbc340000

/-- A machine with empty caches at the first word of KSEG0, the instruction
    `w`. The instruction before has loaded `r1`. -/
def trial (k : Costs) (w : BitVec 32) (r1 r2 : BitVec 64) : PipedFetcher Dev where
  pipe :=
    { core :=
        { mach :=
            { cpu :=
                { gpr := fun i => if i = 1 then r1 else if i = 2 then r2 else 0
                  fpr := fun _ => 0
                  status := 0
                  entryHi := 0
                  tlb := []
                  dcache := fun _ => { tagv := 0, dirty := false, data := fun _ => 0 }
                  xlatCacheable := false
                  stGuardRepeat := false
                  stallCycles := 0
                  clock := { retired := 0, pending := 0, stall := 0, stallRem := 0, cpi256 := 256 }
                  dcMissCycles := k.dcMissCycles
                  uncachedCycles := k.uncachedCycles
                  mem :=
                    { rdram := beWrite (fun _ => 0) 0 4 (zext w)
                      spMem := fun _ => 0, pifram := fun _ => 0
                      miRepeatOn := false, miRepeatLen := 0, dpLog := [], romLoaded := false
                      scOn := false, scKey := 0, saveFitted := false, dev := default } }
              icache := fun _ => { ptag := 0, valid := false, seq := 0, data := fun _ => 0 }
              icSeq := 0
              icMissCycles := k.icMissCycles
              tagLo := 0
              llbit := false
              llAddr := 0 }
          hi := 0
          lo := 0
          fcr31 := 0
          cp2latch := 0
          cop0 := fun _ => 0
          cop0Unused := 0
          randomReload := 0
          timerIntr := false
          countFrac := 0
          mulDivMode := k.mulDivMode
          pc := 0xffffffff80000000
          nextPc := 0xffffffff80000004
          curPc := 0
          inDelay := false
          justBranched := false
          memAbort := false
          watchArmed := false
          exceptions := 0
          xlatEpoch := 0
          halted := false }
      fpuMode := k.fpuMode
      ilkMode := k.ilkMode
      ilk := regBit 1
      dcbR := 0 }
  line := { vbase := 1, phys := 0, reXor := 0, epoch := 0, cache := false }

def trialPins (w : BitVec 32) : Pins Dev where
  mem := (trial ⟨0, 0, 0, 0, 0, 0⟩ w 0 0).pipe.core.cpu.mem
  intr := false

/-- The trial machine at its fetch. -/
theorem trial_fetch (k : Costs) (w : BitVec 32) (r1 r2 : BitVec 64) :
    ∃ p, (trial k w r1 r2 : PipedFetcher Dev).fetch (trialPins w) = some (p, 0, true) ∧
      p.core.mach = (trial k w r1 r2 : PipedFetcher Dev).pipe.core.mach ∧ p.costs = k ∧
      p.core.memAbort = false ∧ p.core.watchArmed = false ∧ p.ilk = regBit 1 ∧ p.dcbR = 0 := by
  generalize hf : (trial k w r1 r2 : PipedFetcher Dev) = f
  have hst : f.pipe.core.status = 0 := by rw [← hf]; rfl
  have hpc : f.pipe.core.pc = 0xffffffff80000000 := by rw [← hf]; rfl
  obtain ⟨g, hg⟩ := deliver_calm (c := f.pipe.core) (l := trialPins w) hst (by rw [← hf]; rfl)
  have hdirect : Direct true 0 f.pipe.core.pc := by
    rw [hpc]
    exact ⟨by decide, by decide⟩
  have hx : translate false f.pipe.core.pc.toNat .fetch f.pipe.core.cpu =
      .ok (0, f.pipe.core.cpu) := by
    rw [← xlat_eq_translate]
    exact hdirect.xlat hst .fetch
  have hmiss : f.line.hit (f.pipe.core.deliver (trialPins w)) = false := by
    rw [hg]
    unfold FetchLine.hit lineBase
    dsimp only
    rw [hpc, ← hf]
    rfl
  have hgo : ¬ (f.pipe.core.halted = true ∨
      (f.pipe.core.deliver (trialPins w)).pc.toNat % 4 ≠ 0) := by
    rw [hg]
    dsimp only
    rw [hpc, ← hf]
    exact fun h => h.elim Bool.false_ne_true (fun h => h rfl)
  have hon : f.pipe.on (f.pipe.core.deliver (trialPins w)) =
      { f.pipe with core := f.pipe.core.deliver (trialPins w) } := if_pos (by rw [hg])
  unfold PipedFetcher.fetch
  dsimp only
  rw [hon]
  dsimp only
  rw [if_neg hgo, hmiss, if_neg Bool.false_ne_true, hg]
  dsimp only
  rw [hx]
  dsimp only
  rw [hdirect.cacheable, show f.pipe.core.cpu.status = 0 from hst]
  refine ⟨_, rfl, ?_⟩
  rw [← hf]
  exact ⟨rfl, rfl, rfl, rfl, rfl, rfl⟩

/-- The fetch of the word goes through a miss. -/
theorem trial_word {k : Costs} {w : BitVec 32} {r1 r2 : BitVec 64}
    (hw : w = xlogWord ∨ w = fillWord) {c : Core Dev} (hc : c.mach = (trial k w r1 r2).pipe.core.mach) :
    ∃ m, fetchWord D pak 0 true c = (w, { c with mach := m }) ∧
      m.cpu = { c.cpu with stallCycles := k.icMissCycles } ∧ m.icMissCycles = k.icMissCycles := by
  have hsize : 0x400000 ≤ pak.size := by cases pak <;> decide
  have hquiet : c.cpu.settle D pak 0 32 = c.cpu := settle_of_quiet (by rw [Core.cpu, hc]; rfl) 0 32
  have hword : (beRead (fun i => if 0 + i < pak.size then c.cpu.mem.rdram (0 + i) else 0) 0 4
      ).setWidth 32 = w := by
    have hbytes : (fun i => if 0 + i < pak.size then c.cpu.mem.rdram (0 + i) else 0) =
        fun i => if 0 + i < pak.size then beWrite (fun _ => 0) 0 4 (zext w) (0 + i) else 0 := by
      rw [Core.cpu, hc]
      rfl
    rw [hbytes]
    rcases hw with rfl | rfl <;> cases pak <;> decide
  have hcold : (c.mach.icache (0 / 32 % 512)).valid = false := by
    rw [hc]
    rfl
  have hmach : c.mach.icMissCycles = k.icMissCycles ∧ c.cpu.stallCycles = 0 := by
    rw [Core.cpu, hc]
    exact ⟨rfl, rfl⟩
  have hfetch : icFetch D pak 0 c.mach = (w, icFill D pak 0 0 c.mach) := by
    unfold icFetch
    dsimp only
    rw [hcold, if_pos (show (!false || _) = true from rfl)]
    refine Prod.ext ?_ rfl
    dsimp only
    unfold icFill
    dsimp only
    rw [Nat.zero_add, hquiet]
    exact hword
  refine ⟨icFill D pak 0 0 c.mach, ?_, ?_, hmach.1⟩
  · unfold fetchWord
    rw [if_pos (by rw [Bool.true_and, decide_eq_true (by omega)]), hfetch]
  · unfold icFill Machine.setILine
    dsimp only
    rw [Nat.zero_add, hquiet, hmach.1, hmach.2, Nat.zero_add]

/-- The trial machine in front of `execute`: a fetch has been charged, and the
    pair if the instruction uses `r1`. -/
theorem trial_issue {k : Costs} {w : BitVec 32} (hw : w = xlogWord ∨ w = fillWord)
    (r1 r2 : BitVec 64) :
    ∃ q : Piped Dev,
      ((trial k w r1 r2).issue D pak fpu (trialPins w)).1.pipe = q.execute D pak fpu w ∧
        Bare q ∧ q.costs = k ∧
        q.core.cpu =
          { (trial k w r1 r2).pipe.core.cpu with
            stallCycles := k.icMissCycles +
              if regBit 1 &&& (ilkMasks w).1 ≠ 0 ∧ 2 ≤ k.ilkMode then 1 else 0 } := by
  obtain ⟨p, hfetch, hmach, hcosts, habort, hwatch, hilk, hdcbR⟩ : ∃ p : Piped Dev, _ :=
    trial_fetch k w r1 r2
  have hissue := (trial k w r1 r2 : PipedFetcher Dev).issue_fetch D pak fpu (trialPins w)
  rw [hfetch] at hissue
  obtain ⟨m, hword, hcpu, hic⟩ := trial_word D pak hw hmach
  have hmode : p.ilkMode = k.ilkMode := congrArg Costs.ilkMode hcosts
  have hprice : p.core.mach.icMissCycles = k.icMissCycles := congrArg Costs.icMissCycles hcosts
  generalize hr : ({ p with core := ({ p.core with mach := m } : Core Dev).advance } : Piped Dev) =
    r
  have hrcpu : r.core.cpu = { p.core.cpu with stallCycles := k.icMissCycles } := by
    rw [← hr]
    exact hcpu
  have hrcosts : r.costs = k := by
    rw [← hcosts, ← hr]
    unfold Piped.costs
    dsimp only
    show (⟨m.icMissCycles, m.cpu.dcMissCycles, m.cpu.uncachedCycles, _, _, _⟩ : Costs) = _
    rw [hcpu, hic, hprice]
    rfl
  have hbare : Bare r := by
    refine ⟨?_, ?_, ?_, ?_⟩
    · rw [hrcpu, Core.cpu, hmach]
      rfl
    · rw [← hr]
      exact habort
    · rw [← hr]
      exact hwatch
    · rw [← hr]
      exact hdcbR
  have hexec : p.exec D pak fpu 0 true =
      (if r.ilkMode ≠ 0 then r.ilkStep w else r).execute D pak fpu w := by
    unfold Piped.exec
    rw [hword]
    dsimp only
    rw [show p.on ({ p.core with mach := m } : Core Dev).advance = r from
      (if_pos rfl).trans hr]
  have hrmode : r.ilkMode = k.ilkMode := congrArg Costs.ilkMode hrcosts
  have hrilk : r.ilk = regBit 1 := by
    rw [← hr]
    exact hilk
  have htrial : p.core.cpu = (trial k w r1 r2).pipe.core.cpu := by rw [Core.cpu, hmach]
  refine ⟨_, hissue.1.trans hexec, ?_⟩
  by_cases hilkOn : r.ilkMode ≠ 0
  · rw [if_pos hilkOn]
    obtain ⟨-, hstepCosts, hstepStatus⟩ := r.ilkStep_spent w
    have hshift : r.dcbR <<< (1 : Nat) = 0 := by
      rw [hbare.dcbR]
      decide
    refine ⟨⟨hstepStatus.trans hbare.status, ?_, ?_, ?_⟩, hstepCosts.trans hrcosts, ?_⟩
    all_goals
      unfold Piped.ilkStep
      dsimp only
      rw [hrilk, hrmode]
      split_ifs
    · exact hbare.abort
    · exact hbare.abort
    · exact hbare.watch
    · exact hbare.watch
    · exact hshift
    · exact hshift
    · show ({ r.core.cpu with stallCycles := r.core.cpu.stallCycles + 1 } : State Dev) = _
      rw [hrcpu, htrial]
    · show r.core.cpu = _
      rw [hrcpu, htrial]
      rfl
  · rw [if_neg hilkOn, if_neg (by omega), hrcpu, htrial]
    exact ⟨hbare, hrcosts, rfl⟩

/-- 71 lines of a string cost more than any instruction may. -/
theorem xlog_over {k : Costs} (h : k.dcMissCycles ≠ 0 ∨ k.uncachedCycles ≠ 0) :
    ∃ (f : PipedFetcher Dev) (l : Pins Dev), f.pipe.costs = k ∧
      f.pipe.core.cpu.stallCycles + k.stallPerOpMax <
        (f.issue D pak fpu l).1.pipe.core.cpu.stallCycles := by
  generalize hb : decide (k.uncachedCycles ≤ k.dcMissCycles) = b
  generalize hr1 : (if b then 0xffffffff80001000 else 0xffffffffa0001000 : BitVec 64) = r1
  obtain ⟨q, hissue, hbare, hcosts, hcpu⟩ :=
    trial_issue D pak fpu (k := k) (.inl rfl) r1 1136
  refine ⟨trial k xlogWord r1 1136, trialPins xlogWord, rfl, ?_⟩
  have hlog : isXlog xlogWord q.core = true := by
    unfold isXlog Core.status
    rw [show q.core.mach.cpu.status = 0 from hbare.status]
    rfl
  have hexec : q.execute D pak fpu xlogWord = q.xlog D pak 1136 r1 := by
    unfold Piped.execute
    rw [show isOp64 (opOP xlogWord) = false by decide, Bool.false_and,
      if_neg Bool.false_ne_true, show MemKind.decode (opOP xlogWord) = none from rfl]
    dsimp only
    rw [if_pos hlog]
    unfold Piped.execXlog
    rw [hcpu]
    rfl
  have hdirect : Direct b 0x1000 r1 := by
    rw [← hr1]
    cases b
    · exact ⟨by decide, by decide⟩
    · exact ⟨by decide, by decide⟩
  have hcold : Cold 0x1000 q.core.cpu := by
    intro j _ _
    rw [hcpu]
    rfl
  have hlines := hbare.xlog D pak 1136 hdirect (by decide) hcold
  rw [hcosts, hcpu] at hlines
  rw [hissue, hexec]
  refine lt_of_lt_of_le ?_ hlines
  show 0 + k.stallPerOpMax < k.icMissCycles + _ + _ * 71
  unfold Costs.stallPerOpMax Costs.own
  cases b
  · have hlt := of_decide_eq_false hb
    rw [if_neg Bool.false_ne_true]
    dsimp only
    split_ifs <;> omega
  · have hle := of_decide_eq_true hb
    rw [if_pos rfl]
    dsimp only
    split_ifs <;> omega

/-- A `Fill` behind a missed fetch pays for two lines. -/
theorem trial_fill (k : Costs) :
    ((trial k fillWord 0xffffffff80000000 0).issue D pak fpu
        (trialPins fillWord)).1.pipe.core.cpu.stallCycles =
      k.icMissCycles + (if 2 ≤ k.ilkMode then 1 else 0) + k.icMissCycles := by
  obtain ⟨q, hissue, hbare, hcosts, hcpu⟩ :=
    trial_issue D pak fpu (k := k) (.inr rfl) 0xffffffff80000000 0
  have hline : q.core.mach.icMissCycles = k.icMissCycles := congrArg Costs.icMissCycles hcosts
  have hdirect : Direct true 0 0xffffffff80000000 := ⟨by decide, by decide⟩
  have haddr : q.core.cpu.gpr 1 + opSimm fillWord = 0xffffffff80000000 := by
    rw [hcpu]
    show (0xffffffff80000000 : BitVec 64) + opSimm fillWord = _
    decide
  have hgate : q.core.xlatTo 0xffffffff80000000 .read = (q.core, some 0) := by
    unfold Core.xlatTo
    rw [hbare.abort, if_neg Bool.false_ne_true, hdirect.xlat hbare.status]
    rfl
  have hexec : (q.execute D pak fpu fillWord).core =
      { q.core with mach := icFill D pak 0 0 q.core.mach } := by
    unfold Piped.execute
    rw [show isOp64 (opOP fillWord) = false by decide, Bool.false_and,
      if_neg Bool.false_ne_true, show MemKind.decode (opOP fillWord) = some .cache from rfl]
    dsimp only
    unfold Piped.execMem
    dsimp only
    rw [q.on_core, show opRs fillWord = 1 by decide, haddr]
    unfold Core.execCache Core.status
    rw [show q.core.mach.cpu.status = 0 from hbare.status, if_neg (by decide), hgate]
    rfl
  have hpair : regBit 1 &&& (ilkMasks fillWord).1 ≠ 0 := by decide
  rw [hissue, hexec]
  show q.core.cpu.stallCycles + q.core.mach.icMissCycles = _
  rw [hline, hcpu]
  dsimp only
  rw [if_congr (and_iff_right hpair) rfl rfl]

theorem fill_over {k : Costs} (h : k.own + (if 2 ≤ k.ilkMode then 1 else 0) < k.icMissCycles) :
    ∃ (f : PipedFetcher Dev) (l : Pins Dev), f.pipe.costs = k ∧
      f.pipe.core.cpu.stallCycles + k.stallPerOpMax <
        (f.issue D pak fpu l).1.pipe.core.cpu.stallCycles := by
  refine ⟨trial k fillWord 0xffffffff80000000 0, trialPins fillWord, rfl, ?_⟩
  rw [trial_fill]
  show 0 + k.stallPerOpMax < _
  unfold Costs.stallPerOpMax
  split_ifs at h ⊢ <;> omega

/-! ## Section 3: The guards -/

/-- The prices at which `stallPerOpMax` counts all that an instruction can
    pay. -/
def Costs.Tame (k : Costs) : Prop :=
  k.dcMissCycles = 0 ∧ k.uncachedCycles = 0 ∧
    k.icMissCycles ≤ k.own + if 2 ≤ k.ilkMode then 1 else 0

omit [Inhabited Dev] in
theorem Costs.Tame.issue_stall {k : Costs} (h : k.Tame) {f : PipedFetcher Dev} (l : Pins Dev)
    (hf : f.pipe.costs = k) :
    (f.issue D pak fpu l).1.pipe.core.cpu.stallCycles ≤
      f.pipe.core.cpu.stallCycles + k.stallPerOpMax := by
  subst hf
  obtain ⟨hdc, hunc, hic⟩ := h
  refine PipedFetcher.issue_stall D pak fpu fun p fpe cache hfetch => ?_
  have hissue := f.issue_fetch D pak fpu l
  rw [hfetch] at hissue
  obtain ⟨-, -, hcosts⟩ := hissue
  rw [← hcosts] at hdc hunc hic
  rintro (⟨-, haccess⟩ | ⟨-, -, hlt⟩)
  · refine haccess ?_
    show max p.costs.dcMissCycles p.costs.uncachedCycles = 0
    rw [hdc, hunc]
    rfl
  · exact absurd hic (Nat.not_le_of_lt hlt)

/-- No instruction exceeds `stallPerOpMax` exactly at these prices. -/
theorem stallPerOp_iff (k : Costs) :
    (∀ (f : PipedFetcher Dev) (l : Pins Dev), f.pipe.costs = k →
      (f.issue D pak fpu l).1.pipe.core.cpu.stallCycles ≤
        f.pipe.core.cpu.stallCycles + k.stallPerOpMax) ↔ k.Tame := by
  constructor
  · intro h
    have hnever : ∀ {P : Prop}, (P → ∃ (f : PipedFetcher Dev) (l : Pins Dev), f.pipe.costs = k ∧
        f.pipe.core.cpu.stallCycles + k.stallPerOpMax <
          (f.issue D pak fpu l).1.pipe.core.cpu.stallCycles) → ¬ P := by
      intro P hover hP
      obtain ⟨f, l, hk, hlt⟩ := hover hP
      exact absurd (h f l hk) (Nat.not_le_of_lt hlt)
    have hdata := hnever (xlog_over D pak fpu (k := k))
    have hfill := hnever (fill_over D pak fpu (k := k))
    exact ⟨by omega, by omega, Nat.le_of_not_lt hfill⟩
  · exact fun h f l hf => h.issue_stall D pak fpu l hf

omit [Inhabited Dev] in
/-- Every instruction of a run keeps to the bound. -/
theorem stalls_le {k : Costs} (hk : k.Tame) (ls : List (Pins Dev)) {f : PipedFetcher Dev}
    (hf : f.pipe.costs = k) : ∀ d ∈ f.stalls D pak fpu ls, d ≤ k.stallPerOpMax := by
  induction ls generalizing f with
  | nil => exact fun d hd => absurd hd List.not_mem_nil
  | cons l ls ih =>
    have hrest := ih ((f.step_costs D pak fpu l).trans hf)
    have hstep := hk.issue_stall D pak fpu l hf
    unfold PipedFetcher.stalls
    dsimp only
    split_ifs
    · refine List.forall_mem_cons.mpr ⟨?_, hrest⟩
      omega
    · exact hrest

omit [Inhabited Dev] in
/-- A run, in blocks of any length, stays under both bounds. -/
theorem run_bounded {k : Costs} (hk : k.Tame) {s : Counters} (hs : k.costsOn ∨ s.Light)
    (ls : List (Pins Dev)) {f : PipedFetcher Dev} (hf : f.pipe.costs = k) {bs : List (List Nat)}
    (hfull : ∀ b ∈ bs, b ≠ []) (hbs : bs.flatten = f.stalls D pak fpu ls) :
    s.ticksOf (runEvents bs) ≤ k.countTicksMax s bs.flatten.length ∧
      (s.run (runEvents bs)).1.guestOps ≤ s.guestOps + k.guestOpsMax s bs.flatten.length := by
  have hle : ∀ d ∈ bs.flatten, d ≤ k.stallPerOpMax := by
    rw [hbs]
    exact stalls_le D pak fpu hk ls hf
  exact ⟨ticks_bounded k s hs hfull hle, guestOps_bounded k s hle⟩

/-- What the guards of the dynarec rely on, at the prices `k` with the
    counters at `s`. -/
structure Guarded (k : Costs) (s : Counters) : Prop where
  perOp : ∀ (f : PipedFetcher Dev) (l : Pins Dev), f.pipe.costs = k →
    (f.issue D pak fpu l).1.pipe.core.cpu.stallCycles ≤
      f.pipe.core.cpu.stallCycles + k.stallPerOpMax
  ticks : ∀ bs : List (List Nat), (∀ b ∈ bs, b ≠ []) → (∀ d ∈ bs.flatten, d ≤ k.stallPerOpMax) →
    s.ticksOf (runEvents bs) ≤ k.countTicksMax s bs.flatten.length
  guestOps : ∀ bs : List (List Nat), (∀ d ∈ bs.flatten, d ≤ k.stallPerOpMax) →
    (s.run (runEvents bs)).1.guestOps ≤ s.guestOps + k.guestOpsMax s bs.flatten.length
  opsForTicks : s.stallCycles = 0 → ∀ t, k.countTicksMax s (k.opsForTicks t) ≤ t
  opsForGuest : ∀ g, 1 ≤ g → k.guestOpsMax s (k.opsForGuest s g) ≤ g

/-- A step that is neither an `XLOG` nor a `Fill` behind a missed fetch keeps
    to the bound; the guards are safe exactly where no such step can exceed
    it and no old stall is forgotten. -/
theorem guards_safe_iff (k : Costs) (s : Counters) :
    (∀ (f : PipedFetcher Dev) (l : Pins Dev), f.pipe.costs = k →
      (∀ p fpe cache, f.fetch l = some (p, fpe, cache) → ¬ p.Over D pak fpe cache) →
      (f.issue D pak fpu l).1.pipe.core.cpu.stallCycles ≤
        f.pipe.core.cpu.stallCycles + k.stallPerOpMax) ∧
      (Guarded D pak fpu k s ↔ k.Tame ∧ (k.costsOn ∨ s.Light)) := by
  refine ⟨?_, ?_, ?_⟩
  · rintro f l rfl h
    exact f.issue_stall D pak fpu h
  · intro h
    refine ⟨(stallPerOp_iff D pak fpu k).mp h.perOp, or_iff_not_imp_left.mpr fun hcost => ?_⟩
    refine light_of_ticks hcost (h.ticks [[0]] ?_ ?_)
    · intro b hb
      rw [List.mem_singleton.mp hb]
      exact List.cons_ne_nil _ _
    · intro d hd
      rw [List.mem_singleton.mp hd]
      exact Nat.zero_le _
  · rintro ⟨htame, hs⟩
    exact
      { perOp := (stallPerOp_iff D pak fpu k).mpr htame
        ticks := fun bs hfull h => ticks_bounded k s hs hfull h
        guestOps := fun bs h => guestOps_bounded k s h
        opsForTicks := fun h t => countTicksMax_opsForTicks k h t
        opsForGuest := fun g hg => guestOpsMax_opsForGuest k s hg }

/-- With 60 cycles for a line of the instruction cache and nothing else
    charged, the bound is 60; the `Fill` costs 120. -/
theorem fill_exceeds :
    let k : Costs := ⟨60, 0, 0, 0, 0, 0⟩
    k.stallPerOpMax = 60 ∧
      ¬ ((trial k fillWord 0xffffffff80000000 0).issue noDevices .base noFpu
          (trialPins fillWord)).1.pipe.core.cpu.stallCycles ≤
        (trial k fillWord 0xffffffff80000000 0 : PipedFetcher Unit).pipe.core.cpu.stallCycles +
          k.stallPerOpMax := by
  refine ⟨by decide, ?_⟩
  rw [trial_fill]
  show ¬ 60 + 0 + 60 ≤ 0 + 60
  decide

end Trial

end Cpu
