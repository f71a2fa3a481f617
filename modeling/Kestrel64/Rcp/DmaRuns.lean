import Kestrel64.Rcp.DmaJournal
import Mathlib.Data.List.TakeWhile

/-! # RCP: Lazy DMA is Immediate DMA

    Runs of the RSP and the CPU over the journal of DMA writes. In every
    state of every run:

    * a look of the CPU at RDRAM sees what immediate transfers up to its
      clock give (`Journal.read`): either the journal is applied first, or
      the page counters say that nothing that waits touches those pages;
    * the counters count what waits;
    * the RSP's snapshot of RDRAM has all of its transfers, however far the
      CPU gets with the journal during the copy (`Journal.snapshot`).
-/

namespace Rcp.Dma

open Overlay

variable {pak : Cpu.Pak} {ram₀ : Ram} {done todo : List Logged} {s : State}

/-! ## Section 1: The reference -/

/-- The transfers among the entries, each made with `spDma` at once. -/
def immediate (pak : Cpu.Pak) (es : List Logged) (ram : Ram) : Ram :=
  es.foldl (fun ram e =>
    match e.dma with
    | some q => (spDma pak q.dmem q.imem q.regs q.len ram).1
    | none => ram) ram

theorem immediate_eq (es : List Logged) (ram : Ram) :
    immediate pak es ram = paintAll (overs 0 pak.size es) ram := by
  induction es generalizing ram with
  | nil => rfl
  | cons e es ih =>
    unfold immediate at ih ⊢
    rw [List.foldl_cons, ih]
    cases hd : e.dma with
    | none => simp [overs, hd]
    | some q => simp [overs, hd, spDma_fst]

/-! ## Section 2: What the CPU sees -/

/-- An address that no waiting transfer writes is up to date. -/
theorem Journal.quiet (h : Journal pak ram₀ done todo s) {x : Nat}
    (hx : ∀ e ∈ todo, ∀ q, e.dma = some q → q.painted 0 pak.size x = none) (now : Nat) :
    s.rdram x = paintAll (overs 0 pak.size (done ++ todo.takeWhile (·.at' ≤ now))) ram₀ x := by
  rw [overs_append, paintAll_append, ← h.ram, paintAll_of_none]
  intro o ho
  obtain ⟨e, he, heq⟩ := List.mem_filterMap.mp ho
  obtain ⟨q, hq, rfl⟩ := Option.map_eq_some_iff.mp heq
  exact hx e ((List.takeWhile_sublist _).subset he) q hq

/-- Nothing waits for a page whose counter is zero. -/
theorem Journal.quiet_page (h : Journal pak ram₀ done todo s) {x : Nat}
    (hpg : x / 0x1000 < kDmaPgN → s.dmaPg (x / 0x1000) = 0) :
    ∀ e ∈ todo, ∀ q, e.dma = some q → q.painted 0 pak.size x = none := by
  intro e he q hq
  by_contra hover
  have hlen := q.length_pos
  have hsize := pak.size_le
  obtain ⟨-, -, -, hlt⟩ := of_rowsPart (by omega) hover
  have hp : x / 0x1000 < kDmaPgN := by
    show x / 0x1000 < 0x800
    omega
  have hzero := hpg hp
  rw [h.pg _ hp, List.countP_eq_zero] at hzero
  refine hzero e he ?_
  simpa [Logged.touches, hq] using Req.touches_of_painted hover

theorem Journal.quiet_pend (h : Journal pak ram₀ done todo s) (h0 : s.dmaPgPend = 0) {x : Nat} :
    ∀ e ∈ todo, ∀ q, e.dma = some q → q.painted 0 pak.size x = none := by
  intro e he q hq
  rw [h.pend, List.countP_eq_zero] at h0
  exact absurd (by simp [Logged.isDma, hq]) (h0 e he)

/-- `dmaSettle` applies the journal or leaves everything, and leaves it only
    if nothing that waits writes where the CPU looks. -/
theorem Journal.dmaSettle_cases (h : Journal pak ram₀ done todo s) (now lo hi : Nat) :
    dmaSettle pak now lo hi s = Dma.dpLogApply pak now s ∨
      (dmaSettle pak now lo hi s = s ∧ ∀ x, (x = lo ∨ lo ≤ x ∧ x < hi) →
        ∀ e ∈ todo, ∀ q, e.dma = some q → q.painted 0 pak.size x = none) := by
  unfold dmaSettle
  split
  · next h0 => exact .inr ⟨rfl, fun x _ => h.quiet_pend h0⟩
  dsimp only
  split
  · next hfast =>
    -- one page, with nothing waiting for it
    refine .inr ⟨rfl, fun x hx => h.quiet_page fun _ => ?_⟩
    have hpage : x / 0x1000 = lo / 0x1000 := by omega
    rw [hpage]
    exact hfast.2.2.2
  unfold dmaSettleSlow
  dsimp only
  generalize hend : (if hi ≤ lo then lo + 1 else hi) = hi'
  split
  · exact .inl rfl
  · next hshort =>
    split
    · exact .inl rfl
    · next hnone =>
      refine .inr ⟨rfl, fun x hx => h.quiet_page fun hp => ?_⟩
      have hlt : x < hi' := by
        split at hend <;> omega
      simp only [List.any_eq_true, List.mem_range, Bool.and_eq_true, decide_eq_true_eq,
        not_exists, not_and, not_not] at hnone
      have hpage : lo / 0x1000 + (x / 0x1000 - lo / 0x1000) = x / 0x1000 := by
        have : lo / 0x1000 ≤ x / 0x1000 := Nat.div_le_div_right (by omega)
        omega
      have := hnone (x / 0x1000 - lo / 0x1000) (by omega) (by omega)
      rwa [hpage] at this

theorem Journal.read (h : Journal pak ram₀ done todo s) (now : Nat) {lo hi x : Nat}
    (hx : x = lo ∨ lo ≤ x ∧ x < hi) :
    (dmaSettle pak now lo hi s).rdram x =
      paintAll (overs 0 pak.size (done ++ todo.takeWhile (·.at' ≤ now))) ram₀ x := by
  rcases h.dmaSettle_cases now lo hi with heq | ⟨heq, hquiet⟩
  · rw [heq, (h.dpLogApply now).ram]
  · rw [heq]
    exact h.quiet (hquiet x hx) now

/-! ## Section 3: What the RSP sees -/

/-- The rings the RSP reads. -/
structure SameRings (s s' : State) : Prop where
  dpLog : s'.dpLog = s.dpLog
  dpLogDma : s'.dpLogDma = s.dpLogDma
  dmaPay : s'.dmaPay = s.dmaPay
  tail : s'.dpLogTail = s.dpLogTail

theorem SameRings.applyEnt (pak : Cpu.Pak) (s : State) : SameRings s (applyEnt pak s) := by
  unfold Dma.applyEnt spDmaLogApply
  dsimp only
  split_ifs <;> exact ⟨rfl, rfl, rfl, rfl⟩

theorem SameRings.applyLoop (pak : Cpu.Pak) (upTo k : Nat) (s : State) :
    SameRings s (applyLoop pak upTo k s) := by
  induction k generalizing s with
  | zero => exact ⟨rfl, rfl, rfl, rfl⟩
  | succ k ih =>
    rw [Dma.applyLoop]
    split
    · exact ⟨rfl, rfl, rfl, rfl⟩
    · obtain ⟨h1, h2, h3, h4⟩ := ih (Dma.applyEnt pak s)
      obtain ⟨g1, g2, g3, g4⟩ := applyEnt pak s
      exact ⟨h1.trans g1, h2.trans g2, h3.trans g3, h4.trans g4⟩

/-- What the CPU does while the RSP copies: it applies the journal, each time
    up to some instant. -/
def cpuApplies (pak : Cpu.Pak) (ts : List Nat) (s : State) : State :=
  ts.foldl (fun s t => dpLogApply pak t s) s

theorem Journal.cpuApplies (h : Journal pak ram₀ done todo s) (ts : List Nat) :
    SameRings s (cpuApplies pak ts s) ∧
      ∃ a b, todo = a ++ b ∧ Journal pak ram₀ (done ++ a) b (cpuApplies pak ts s) := by
  induction ts generalizing done todo s with
  | nil => exact ⟨⟨rfl, rfl, rfl, rfl⟩, [], todo, rfl, by simpa [Dma.cpuApplies] using h⟩
  | cons t ts ih =>
    obtain ⟨⟨h1, h2, h3, h4⟩, a, b, hab, hj⟩ := ih (h.dpLogApply t)
    obtain ⟨g1, g2, g3, g4⟩ := SameRings.applyLoop pak t (s.dpLogTail - s.dpLogHead) s
    refine ⟨⟨h1.trans g1, h2.trans g2, h3.trans g3, h4.trans g4⟩,
      todo.takeWhile (·.at' ≤ t) ++ a, b, ?_, ?_⟩
    · rw [List.append_assoc, ← hab, List.takeWhile_append_dropWhile]
    · rwa [← List.append_assoc]

/-- The entries of the journal laid over a copy. -/
theorem overlayLoop_eq {slots : Nat → DpLogDma} {pay : Ram} {h r t : Nat} {es : List Logged}
    (hlog : ∀ i (hi : i < es.length), (s.dpLog ((h + i) % kDpLogN)).reg = es[i].reg)
    (hok : ∀ e ∈ es, e.Ok) (hslots : Slots slots h r es) (hpay : PayChain pay r es t)
    (hs : s.dpLogDma = slots) (hp : s.dmaPay = pay) (a b : Nat) (base : Ram) :
    overlayLoop s a b h es.length base = paintAll (overs a b es) base := by
  induction es generalizing h r base with
  | nil => rfl
  | cons e es ih =>
    have hreg : (s.dpLog (h % kDpLogN)).reg = e.reg := hlog 0 (by simp)
    have hlog' : ∀ i (hi : i < es.length), (s.dpLog ((h + 1 + i) % kDpLogN)).reg = es[i].reg := by
      intro i hi
      have := hlog (i + 1) (by simpa using hi)
      rwa [show h + (i + 1) = h + 1 + i by omega] at this
    rw [List.forall_mem_cons] at hok
    have hkind := hok.1
    rw [List.length_cons, overlayLoop]
    cases hd : e.dma with
    | none =>
      simp only [Slots, PayChain, Logged.Ok, hd] at hslots hpay hkind
      rw [hreg, hkind, ih hlog' hok.2 hslots hpay]
      simp [overs, hd]
    | some q =>
      simp only [Slots, PayChain, Logged.Ok, hd] at hslots hpay hkind
      rw [hreg, hkind, if_pos (by decide), hs, hslots.1, spDmaOverlay_eq (hp ▸ hpay.1),
        ih hlog' hok.2 hslots.2 hpay.2]
      simp [overs, hd]

/-- Inside the window, a copy laid over is as if laid over without it. -/
theorem paintAll_window {a b c d x : Nat} (h1 : a ≤ x ∧ x < b) (h2 : c ≤ x ∧ x < d)
    (es : List Logged) (f : Ram) : paintAll (overs a b es) f x = paintAll (overs c d es) f x := by
  induction es generalizing f with
  | nil => rfl
  | cons e es ih =>
    cases hd : e.dma with
    | none => simpa [overs, hd] using ih f
    | some q =>
      have hover : paint (q.painted a b) f x = paint (q.painted c d) f x := by
        rw [paint, paint, q.painted_window h1 h2]
      have hpaint : ∀ lo hi, paintAll (overs lo hi (e :: es)) f =
          paintAll (overs lo hi es) (paint (q.painted lo hi) f) := by
        intro lo hi
        simp [overs, hd]
      rw [hpaint, hpaint, ih, paintAll_congr _ hover]

/-- **The RSP's snapshot.** `s` is the state in which the head is read and
    `s'` the one in which the journal is laid over the copy; each byte is
    copied in some state in between. The copy has every transfer. -/
theorem Journal.snapshot (h : Journal pak ram₀ done todo s) (ts : List Nat) {seen : Ram}
    (hseen : ∀ x, ∃ us : List Nat, seen x = (Dma.cpuApplies pak us s).rdram x)
    {current end' x : Nat} (sh : Ram) (hx : current % 0x1000000 ≤ x)
    (hx' : x < min (end' % 0x1000000) pak.size) :
    rdpSnapshot pak (Dma.cpuApplies pak ts s) s.dpLogHead seen current end' sh x =
      immediate pak (done ++ todo) ram₀ x := by
  obtain ⟨hrings, -⟩ := h.cpuApplies ts
  have htail : (Dma.cpuApplies pak ts s).dpLogTail - s.dpLogHead = todo.length := by
    rw [hrings.tail, h.tail, h.head]
    omega
  have hlog : ∀ i (hi : i < todo.length),
      ((Dma.cpuApplies pak ts s).dpLog ((s.dpLogHead + i) % kDpLogN)).reg = todo[i].reg := by
    intro i hi
    have hroom := h.room
    have hslot := h.ring (done.length + i) (by simp; omega) (by simp; omega)
    rw [hrings.dpLog, h.head, hslot]
    simp [List.getElem_append_right]
  have hloop := overlayLoop_eq hlog (fun e he => h.ok e (List.mem_append_right _ he))
    (h.head ▸ h.slots) h.pay hrings.dpLogDma hrings.dmaPay (current % 0x1000000)
    (min (end' % 0x1000000) pak.size)
  unfold rdpSnapshot
  rw [if_neg (by omega), htail, hloop,
    paintAll_window ⟨hx, hx'⟩ (show 0 ≤ x ∧ x < pak.size by omega)]
  -- the byte as copied is `RDRAM` with some of the waiting transfers in it
  obtain ⟨us, hus⟩ := hseen x
  obtain ⟨-, a, b, hab, hj⟩ := h.cpuApplies us
  have hcopy : memcpy sh (current % 0x1000000) seen (current % 0x1000000)
      (min (end' % 0x1000000) pak.size - current % 0x1000000) x =
        paintAll (overs 0 pak.size a) s.rdram x := by
    rw [memcpy, if_pos (by omega), Nat.add_sub_cancel' hx, hus, hj.ram, overs_append,
      paintAll_append, h.ram]
  rw [paintAll_congr _ hcopy, hab, overs_append, paintAll_again, ← overs_append, ← hab, h.ram,
    ← paintAll_append, ← overs_append, immediate_eq]

/-! ## Section 4: Runs -/

/-- The machine, the CPU's clock, and the entries accepted so far. -/
structure World where
  st : State
  now : Nat
  log : List Logged

inductive Label where
  /-- The RSP changes its memories and the registers of its DMA. -/
  | rsp (dmem imem : Ram) (regs : SpRegs)
  /-- A DMA to RDRAM goes to the journal. -/
  | push (hit : Bool) (at' len : Nat)
  /-- An entry of another kind. -/
  | other (at' reg : Nat)
  | tick (t : Nat)
  /-- The CPU applies the journal. -/
  | apply
  /-- The CPU looks at `[lo, hi)` of RDRAM. -/
  | look (lo hi : Nat)

/-- The RSP's instants do not go back, and a push that finds no room waits
    until the CPU has made it. -/
def step (pak : Cpu.Pak) (w : World) : Label → Option World
  | .rsp dmem imem regs =>
    some { w with st := { w.st with dmem := dmem, imem := imem, regs := regs } }
  | .push hit at' len =>
    if (∀ e ∈ w.log, e.at' ≤ at') ∧ mustWait w.st (lenLength len * lenCount len) = false then
      (spDmaLogPush w.st hit at' len).map fun s =>
        { w with st := s, log := w.log ++ [⟨at', 16, some (w.st.req len)⟩] }
    else none
  | .other at' reg =>
    if (∀ e ∈ w.log, e.at' ≤ at') ∧ reg.testBit 4 = false ∧
        w.st.dpLogTail - w.st.dpLogHead < kDpLogN then
      some { w with st := dpLogPush w.st at' reg, log := w.log ++ [⟨at', reg, none⟩] }
    else none
  | .tick t => if w.now ≤ t then some { w with now := t } else none
  | .apply => some { w with st := dpLogApply pak w.now w.st }
  | .look lo hi => some { w with st := dmaSettle pak w.now lo hi w.st }

/-- Nothing in the journal; memories, registers and the rings' bytes as they
    may be. -/
def Initial (ram₀ : Ram) (w : World) : Prop :=
  w.st.rdram = ram₀ ∧ w.st.dpLogHead = 0 ∧ w.st.dpLogTail = 0 ∧ w.st.dmaPayHead = 0 ∧
    w.st.dmaPayTail = 0 ∧ (∀ p, w.st.dmaPg p = 0) ∧ w.st.dmaPgPend = 0 ∧ w.log = []

def runs (pak : Cpu.Pak) (ram₀ : Ram) : LTS.System World Label where
  init := Initial ram₀
  step := fun w l w' => step pak w l = some w'

/-- The accepted entries are in order, those in RDRAM are due, and the journal
    holds the rest. -/
structure RunInv (pak : Cpu.Pak) (ram₀ : Ram) (w : World) : Prop where
  sorted : w.log.Pairwise fun a b => a.at' ≤ b.at'
  journal : ∃ done todo, w.log = done ++ todo ∧ (∀ e ∈ done, e.at' ≤ w.now) ∧
    Journal pak ram₀ done todo w.st

theorem RunInv.init {w : World} (h : Initial ram₀ w) : RunInv pak ram₀ w := by
  obtain ⟨hram, hhead, htail, hph, hpt, hpg, hpend, hlog⟩ := h
  refine ⟨by simp [hlog], [], [], by simp [hlog], by simp, ?_⟩
  refine ⟨by simp [hhead], by simp [htail], by simp, ?_, by simp, trivial, ?_, ?_, ?_, ?_, ?_⟩
  · exact RingLog.Holds.nil _ _
  · show _ = _
    rw [hph, hpt]
  · rw [hph, hpt]
    exact Nat.zero_le _
  · simpa [overs] using hram
  · intro p _
    simpa using hpg p
  · simpa using hpend

/-- Applying the journal up to the CPU's clock. -/
theorem RunInv.apply {w : World} (h : RunInv pak ram₀ w) :
    RunInv pak ram₀ { w with st := dpLogApply pak w.now w.st } := by
  obtain ⟨hsorted, done, todo, hlog, hdone, hj⟩ := h
  refine ⟨hsorted, _, _, ?_, ?_, hj.dpLogApply w.now⟩
  · rw [List.append_assoc, List.takeWhile_append_dropWhile]
    exact hlog
  · intro e he
    rcases List.mem_append.mp he with he | he
    · exact hdone e he
    · simpa using List.mem_takeWhile_imp he

theorem RunInv.snoc_sorted {w : World} (h : RunInv pak ram₀ w) {e : Logged}
    (hle : ∀ e' ∈ w.log, e'.at' ≤ e.at') : (w.log ++ [e]).Pairwise fun a b => a.at' ≤ b.at' := by
  rw [List.pairwise_append]
  refine ⟨h.sorted, by simp, fun a ha b hb => ?_⟩
  obtain rfl := List.mem_singleton.mp hb
  exact hle a ha

theorem RunInv.step {w w' : World} {l : Label} (h : RunInv pak ram₀ w)
    (hs : step pak w l = some w') : RunInv pak ram₀ w' := by
  obtain ⟨done, todo, hlog, hdone, hj⟩ := h.journal
  cases l with
  | rsp dmem imem regs =>
    obtain rfl := Option.some.inj hs
    refine ⟨h.sorted, done, todo, hlog, hdone, ?_⟩
    exact ⟨hj.head, hj.tail, hj.room, hj.ring, hj.ok, hj.slots, hj.pay, hj.payRoom, hj.ram, hj.pg,
      hj.pend⟩
  | push hit at' len =>
    simp only [Dma.step] at hs
    split at hs
    case isFalse => simp at hs
    next hguard =>
    obtain ⟨s, hpush, rfl⟩ := Option.map_eq_some_iff.mp hs
    refine ⟨h.snoc_sorted hguard.1, done, todo ++ [_], ?_, hdone, hj.pushDma hguard.2 hpush⟩
    rw [← List.append_assoc, ← hlog]
  | other at' reg =>
    simp only [Dma.step] at hs
    split at hs
    case isFalse => simp at hs
    next hguard =>
    obtain rfl := Option.some.inj hs
    refine ⟨h.snoc_sorted hguard.1, done, todo ++ [_], ?_, hdone,
      hj.pushOther hguard.2.1 hguard.2.2⟩
    rw [← List.append_assoc, ← hlog]
  | tick t =>
    simp only [Dma.step] at hs
    split at hs
    case isFalse => simp at hs
    next hle =>
    obtain rfl := Option.some.inj hs
    exact ⟨h.sorted, done, todo, hlog, fun e he => (hdone e he).trans hle, hj⟩
  | apply =>
    obtain rfl := Option.some.inj hs
    exact h.apply
  | look lo hi =>
    obtain rfl := Option.some.inj hs
    rcases hj.dmaSettle_cases w.now lo hi with heq | ⟨heq, -⟩
    · rw [heq]
      exact h.apply
    · rw [heq]
      exact h

/-- What is due by the CPU's clock is a prefix of the log. -/
theorem RunInv.due {w : World} (h : RunInv pak ram₀ w) {done todo : List Logged}
    (hlog : w.log = done ++ todo) (hdone : ∀ e ∈ done, e.at' ≤ w.now) :
    w.log.filter (·.at' ≤ w.now) = done ++ todo.takeWhile (·.at' ≤ w.now) := by
  have hsorted := h.sorted
  rw [hlog, List.pairwise_append] at hsorted
  have hdown : RingLog.Downward (fun e : Logged => decide (e.at' ≤ w.now)) todo := by
    refine hsorted.2.1.imp fun {a b} hab hb => ?_
    simp only [decide_eq_true_eq] at hb ⊢
    exact hab.trans hb
  rw [hlog, List.filter_append, hdown.filter_eq_takeWhile, List.filter_eq_self.mpr]
  intro e he
  simpa using hdone e he

/-- **Lazy DMA.** In every state of every run of pushes, applications and looks:

    * what the CPU sees when it looks at its clock is what immediate transfers
      dated up to then give;
    * a push leaves the registers of the immediate transfer;
    * the page counters and the total count the transfers not applied yet;
    * a snapshot on the RSP's side has every transfer pushed before, however
      the CPU applies the journal in the meantime. -/
theorem lazy_dma {w : World} (h : (runs pak ram₀).Reachable w) :
    (∀ lo hi x, (x = lo ∨ lo ≤ x ∧ x < hi) →
      (dmaSettle pak w.now lo hi w.st).rdram x =
        immediate pak (w.log.filter (·.at' ≤ w.now)) ram₀ x) ∧
    (∀ hit at' len s', spDmaLogPush w.st hit at' len = some s' → ∀ ram,
      s'.regs = (spDma pak w.st.dmem w.st.imem w.st.regs len ram).2) ∧
    (∀ p < kDmaPgN,
      w.st.dmaPg p = (w.log.drop w.st.dpLogHead).countP (Logged.touches p)) ∧
    w.st.dmaPgPend = (w.log.drop w.st.dpLogHead).countP Logged.isDma ∧
    (∀ (ts : List Nat) (seen sh : Ram) current end' x,
      (∀ y, ∃ us : List Nat, seen y = (cpuApplies pak us w.st).rdram y) →
      current % 0x1000000 ≤ x → x < min (end' % 0x1000000) pak.size →
      rdpSnapshot pak (cpuApplies pak ts w.st) w.st.dpLogHead seen current end' sh x =
        immediate pak w.log ram₀ x) := by
  have hinv : RunInv pak ram₀ w :=
    h.invariant (RunInv pak ram₀) (fun _ => .init) fun _ _ _ _ hw hs => hw.step hs
  obtain ⟨done, todo, hlog, hdone, hj⟩ := hinv.journal
  have hdrop : w.log.drop w.st.dpLogHead = todo := by
    rw [hlog, hj.head, List.drop_left]
  refine ⟨?_, ?_, ?_, ?_, ?_⟩
  · intro lo hi x hx
    rw [hinv.due hlog hdone, immediate_eq]
    exact hj.read w.now hx
  · intro hit at' len s' hp ram
    exact spDmaLogPush_regs hp ram
  · rw [hdrop]
    exact hj.pg
  · rw [hdrop]
    exact hj.pend
  · intro ts seen sh current end' x hseen hx hx'
    rw [hlog]
    exact hj.snapshot ts hseen sh hx hx'

/-- A page of RDRAM is touched by a transfer if some address of its span is in
    it. -/
theorem touches_iff {q : Req} {p : Nat} :
    q.touches p = true ↔
      ∃ x, q.dram ≤ x ∧ x < q.dram + (q.length + q.skip) * q.count ∧ x / 0x1000 = p := by
  have hspan : 0 < (q.length + q.skip) * q.count :=
    Nat.mul_pos (by have := q.length_pos; omega) q.count_pos
  simp only [Req.touches, Bool.and_eq_true, decide_eq_true_eq]
  constructor
  · rintro ⟨h1, h2⟩
    by_cases hp : q.dram / 0x1000 = p
    · exact ⟨q.dram, Nat.le_refl _, by omega, hp⟩
    · exact ⟨p * 0x1000, by omega, by omega, by omega⟩
  · rintro ⟨x, h1, h2, rfl⟩
    exact ⟨Nat.div_le_div_right h1, Nat.div_le_div_right (by omega)⟩

/-- Before the first entry. -/
def blank : World where
  st :=
    { rdram := fun _ => 0, dmem := fun x => BitVec.ofNat 8 x, imem := fun _ => 0
      regs := ⟨0, 0, 0, 0⟩
      dpLog := fun _ => ⟨0, 0⟩, dpLogDma := fun _ => ⟨0, 0, 0, 0, 0⟩
      dpLogHead := 0, dpLogTail := 0
      dmaPay := fun _ => 0, dmaPayHead := 0, dmaPayTail := 0
      dmaPg := fun _ => 0, dmaPgPend := 0 }
  now := 0
  log := []

/-- Two rows of eight bytes, the second 16 bytes on. -/
def twoRows : Nat := 0x00801007

/-- A transfer of two rows at instant 5, looked at then: address 17 has byte 9
    of the payload. -/
theorem lazy_dma_two_rows :
    ∃ w, (runs .base fun _ => 0).Reachable w ∧ w.now = 5 ∧ w.st.rdram 17 = 0 ∧
      (dmaSettle .base w.now 16 24 w.st).rdram 17 = 9 := by
  obtain ⟨s, hs⟩ : ∃ s, spDmaLogPush blank.st false 5 twoRows = some s :=
    Option.isSome_iff_exists.mp (by decide)
  have hinit : (runs .base fun _ => 0).Reachable blank :=
    .of_init ⟨rfl, rfl, rfl, rfl, rfl, fun _ => rfl, rfl, rfl⟩
  let log : List Logged := [⟨5, 16, some (blank.st.req twoRows)⟩]
  have hpush : step .base blank (.push false 5 twoRows) = some ⟨s, 0, log⟩ := by
    simp only [step]
    rw [if_pos (by decide), hs]
    rfl
  have htick : step .base ⟨s, 0, log⟩ (.tick 5) = some ⟨s, 5, log⟩ := rfl
  have hreach : (runs .base fun _ => 0).Reachable ⟨s, 5, log⟩ := (hinit.step hpush).step htick
  refine ⟨_, hreach, rfl, ?_, ?_⟩
  · obtain ⟨-, -, -, rfl⟩ := spDmaLogPush_eq hs
    rfl
  · rw [(lazy_dma hreach).1 16 24 17 (.inr (by decide)), immediate_eq]
    show paintAll (overs 0 Cpu.Pak.base.size [⟨5, 16, some (blank.st.req twoRows)⟩])
      (fun _ => 0) 17 = 9
    decide

end Rcp.Dma
