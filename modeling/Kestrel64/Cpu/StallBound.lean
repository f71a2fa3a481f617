import Kestrel64.Cpu.Spending

/-! # CPU: How Long One Instruction May Stall

    A step stalls for at most `stallPerOpMax`, unless its instruction is one
    of two kinds (`PipedFetcher.issue_stall`).

    An access to the data cache may charge the store before it; `Piped.due`
    counts that cycle in advance, so that no operation has to ask which
    access is the first. The second access of an unaligned store finds the
    line that the first one has brought.
-/

namespace Cpu

variable {Dev : Type}

/-! ## Section 1: Accesses through the pipeline -/

def Piped.costs (p : Piped Dev) : Costs where
  icMissCycles := p.core.mach.icMissCycles
  dcMissCycles := p.core.cpu.dcMissCycles
  uncachedCycles := p.core.cpu.uncachedCycles
  mulDivMode := p.core.mulDivMode
  fpuMode := p.fpuMode
  ilkMode := p.ilkMode

/-- The stalls so far, and the one that the next access to the data cache may
    owe to a store. -/
def Piped.due (p : Piped Dev) : Nat :=
  p.core.cpu.stallCycles + if p.dcbR.getLsbD 1 = true ∧ 2 ≤ p.ilkMode then 1 else 0

namespace Piped

structure Spent (n : Nat) (p q : Piped Dev) : Prop where
  due : q.due ≤ p.due + n
  costs : q.costs = p.costs

variable {n m : Nat} {p q r : Piped Dev}

theorem Spent.refl (p : Piped Dev) : Spent 0 p p := ⟨Nat.le_refl _, rfl⟩

theorem Spent.mono (h : Spent n p q) (hle : n ≤ m) : Spent m p q :=
  ⟨h.due.trans (Nat.add_le_add_left hle _), h.costs⟩

theorem Spent.trans (h : Spent n p q) (h' : Spent m q r) : Spent (n + m) p r := by
  have := h.due
  have := h'.due
  exact ⟨by omega, h'.costs.trans h.costs⟩

theorem costs_of_core {q : Piped Dev} (h : Core.Spent n p.core q.core)
    (hfpu : q.fpuMode = p.fpuMode) (hilk : q.ilkMode = p.ilkMode) : q.costs = p.costs := by
  unfold costs
  rw [h.icMiss, h.cpu.dcMiss, h.cpu.uncached, h.mulDiv, hfpu, hilk]

theorem due_of_clear (h : p.dcbR.getLsbD 1 = false) : p.due = p.core.cpu.stallCycles := by
  unfold Piped.due
  rw [h, if_neg fun hb => Bool.false_ne_true hb.1]
  rfl

/-- Nothing but the core has changed, or the pipeline is empty. -/
theorem Spent.on {c : Core Dev} (h : Core.Spent n p.core c) : Spent n p (p.on c) := by
  have hstall := h.cpu.stall
  unfold Piped.on
  split_ifs
  · refine ⟨?_, costs_of_core h rfl rfl⟩
    unfold Piped.due
    dsimp only
    omega
  · refine ⟨?_, costs_of_core h rfl rfl⟩
    rw [due_of_clear (show (0 : Byte).getLsbD 1 = false by decide)]
    unfold Piped.due
    dsimp only
    omega

theorem Spent.setCpu {t : State Dev} (h : Cpu.Spent n p.core.cpu t) : Spent n p (p.setCpu t) := by
  have hstall := h.stall
  refine ⟨?_, costs_of_core (Core.Spent.setCpu h) rfl rfl⟩
  unfold Piped.due
  show t.stallCycles + (if p.dcbR.getLsbD 1 = true ∧ 2 ≤ p.ilkMode then 1 else 0) ≤ _
  omega

theorem dcbTouch_clear (hit : Bool) (p : Piped Dev) :
    (p.dcbTouch hit).dcbR.getLsbD 1 = false := by
  have hclear : (p.dcbR &&& ~~~2).getLsbD 1 = false := by
    rw [BitVec.getLsbD_and, show (~~~2 : Byte).getLsbD 1 = false by decide, Bool.and_false]
  unfold Piped.dcbTouch
  dsimp only
  split_ifs <;> exact hclear

theorem dcbTouch_spent (hit : Bool) (h : p.dcbR.getLsbD 1 = true) : Spent 0 p (p.dcbTouch hit) := by
  refine ⟨?_, ?_⟩
  · rw [due_of_clear (dcbTouch_clear hit p)]
    unfold Piped.due Piped.dcbTouch
    dsimp only
    split_ifs with hcost hdue
    · exact Nat.le_refl _
    · exact absurd ⟨h, hcost.2⟩ hdue
    · exact Nat.le_add_right _ _
    · exact Nat.le_refl _
  · unfold Piped.dcbTouch
    dsimp only
    split_ifs <;> rfl

/-- The touch charges what was due, and leaves nothing due. -/
theorem touch_spent (write : Bool) (pe : Nat) (p : Piped Dev) :
    Spent 0 p (p.touch write pe) ∧ (p.touch write pe).dcbR.getLsbD 1 = false := by
  have hmark : ∀ b : Byte, (b ||| 1).getLsbD 1 = b.getLsbD 1 := fun b => by
    rw [BitVec.getLsbD_or, show (1 : Byte).getLsbD 1 = false by decide, Bool.or_false]
  have hfirst : Spent 0 p (if p.dcbR.getLsbD 1 then p.dcbTouch (p.core.cpu.resident pe) else p) ∧
      (if p.dcbR.getLsbD 1 then p.dcbTouch (p.core.cpu.resident pe) else p).dcbR.getLsbD 1 =
        false := by
    split_ifs with hdue
    · exact ⟨dcbTouch_spent _ hdue, dcbTouch_clear _ p⟩
    · exact ⟨.refl p, Bool.eq_false_iff.mpr hdue⟩
  unfold Piped.touch
  dsimp only
  generalize (if p.dcbR.getLsbD 1 then p.dcbTouch (p.core.cpu.resident pe) else p) = q at hfirst ⊢
  obtain ⟨hspent, hclear⟩ := hfirst
  split_ifs
  · refine ⟨⟨?_, hspent.costs⟩, (hmark _).trans hclear⟩
    rw [due_of_clear ((hmark _).trans hclear), ← due_of_clear hclear]
    exact hspent.due
  · exact ⟨hspent, hclear⟩

section Access

variable (D : Devices Dev) (pak : Pak)

/-- The dearer of the two accesses. -/
def access (p : Piped Dev) : Nat := max p.core.cpu.dcMissCycles p.core.cpu.uncachedCycles

theorem Spent.access (h : Spent n p q) : q.access = p.access := by
  have hdc : q.costs.dcMissCycles = p.costs.dcMissCycles := by rw [h.costs]
  have hunc : q.costs.uncachedCycles = p.costs.uncachedCycles := by rw [h.costs]
  exact congrArg₂ max hdc hunc

/-- One access behind what is free. -/
theorem Spent.thenCpu {t : State Dev} (hq : Spent 0 p q) (ht : Cpu.Spent n q.core.cpu t)
    (hn : n ≤ q.access) : Spent p.access p (q.setCpu t) := by
  rw [← hq.access, ← Nat.zero_add q.access]
  exact hq.trans (.mono (.setCpu ht) hn)

theorem readAt_spent (size : Nat) (v : BitVec 64) (pe : Nat) (p : Piped Dev) :
    Spent p.access p (p.readAt D pak size v pe).2 := by
  have hfront : Spent 0 p (if inRdram pak v.toNat pe p.core.cpu then p.touch false pe else p) := by
    split_ifs
    · exact (touch_spent false pe p).1
    · exact .refl p
  unfold Piped.readAt
  dsimp only
  generalize (if inRdram pak v.toNat pe p.core.cpu then p.touch false pe else p) = q at hfront ⊢
  by_cases hin : inRdram pak v.toNat pe q.core.cpu
  · rw [if_pos hin]
    exact hfront.thenCpu (dcTouch_le D pak pe q.core.cpu) (Nat.le_max_left _ _)
  · rw [if_neg hin]
    exact hfront.thenCpu (uncachedRead_spent D pak pe size q.core.cpu) (Nat.le_max_right _ _)

theorem load_spent (size : Nat) (v : BitVec 64) (p : Piped Dev) :
    Spent p.access p (p.load D pak size v).2 := by
  have hreach : Spent 0 p (p.on (p.core.reach v size .read).1) :=
    .on (p.core.reach_spent v size .read)
  unfold Piped.load
  generalize p.core.reach v size .read = r at hreach ⊢
  rcases r with ⟨c, none | a⟩
  · exact hreach.mono (Nat.zero_le _)
  · have hread := hreach.trans ((p.on c).readAt_spent D pak size v (busAddr c.cpu.status a size))
    rw [Nat.zero_add, hreach.access] at hread
    exact hread

theorem loadNoWatch_spent (size : Nat) (v : BitVec 64) (p : Piped Dev) :
    Spent p.access p (p.loadNoWatch D pak size v).2 := by
  have hload := (p.setWatch false).load_spent D pak size v
  exact ⟨hload.due, hload.costs⟩

/-- Behind the gates of a store: the touch, if there is one. -/
theorem touch_on {c : Core Dev} (hc : Core.Spent 0 p.core c) (b : Bool) (pe : Nat) :
    Spent 0 p (if b then (p.on c).touch true pe else p.on c) := by
  split_ifs
  · exact (Spent.on hc).trans (touch_spent true pe (p.on c)).1
  · exact .on hc

theorem store_spent (size : Nat) (v x : BitVec 64) (p : Piped Dev) :
    Spent p.access p (p.store D pak size v x) := by
  have hreach := p.core.reach_spent v size .write
  unfold Piped.store
  generalize p.core.reach v size .write = r at hreach ⊢
  rcases r with ⟨c, none | a⟩
  · exact (Spent.on hreach).mono (Nat.zero_le _)
  · exact (touch_on hreach _ _).thenCpu
      (cacheOrBus_le D pak size v.toNat _ x (ramSettle_spent D pak _ size _)) (Nat.le_max_left _ _)

theorem execLoad_spent (op : Op) (rt : Fin 32) (a : BitVec 64) (p : Piped Dev) :
    Spent p.access p (p.execLoad D pak op rt a) := by
  have hload := p.load_spent D pak op.size a
  unfold Piped.execLoad
  dsimp only
  split_ifs
  · exact hload
  · exact hload.trans (.setCpu (loadInto_spent op rt _ _))

theorem execStore_spent (i : Instr) (a : BitVec 64) (p : Piped Dev) :
    Spent p.access p (p.execStore D pak i a) := by
  have hreach := p.core.reach_spent a i.op.size .write
  unfold Piped.execStore
  generalize p.core.reach a i.op.size .write = r at hreach ⊢
  rcases r with ⟨c, none | q⟩
  · exact (Spent.on hreach).mono (Nat.zero_le _)
  · exact (touch_on hreach _ _).thenCpu (storeAt_spent D pak i a.toNat q _) (Nat.le_max_left _ _)

theorem execLinked_spent (w : Nat) (rt : Fin 32) (a : BitVec 64) (p : Piped Dev) :
    Spent p.access p (p.execLinked D pak w rt a) := by
  have hreach : Spent 0 p (p.on (p.core.reach a w .read).1) := .on (p.core.reach_spent a w .read)
  unfold Piped.execLinked
  generalize p.core.reach a w .read = r at hreach ⊢
  rcases r with ⟨c, none | pa⟩
  · exact hreach.mono (Nat.zero_le _)
  · have hread := hreach.trans ((p.on c).readAt_spent D pak w a (busAddr c.cpu.status pa w))
    rw [Nat.zero_add, hreach.access] at hread
    dsimp only
    generalize (p.on c).readAt D pak w a (busAddr c.cpu.status pa w) = r at hread ⊢
    have hset := r.2.core.set_spent rt (if w = 8 then r.1 else sext (r.1.setWidth 32))
    exact hread.trans (m := 0) (.on ⟨hset.cpu, hset.icMiss, hset.mulDiv⟩)

theorem execConditional_spent (w : Nat) (rt : Fin 32) (a : BitVec 64) (p : Piped Dev) :
    Spent p.access p (p.execConditional D pak w rt a) := by
  have hset : ∀ {q : Piped Dev} (x : BitVec 64), Spent p.access p q →
      Spent p.access p (q.on (q.core.set rt x)) :=
    fun x hq => hq.trans (.on (Core.set_spent _ rt x))
  unfold Piped.execConditional
  dsimp only
  by_cases halign : a.toNat % w ≠ 0
  · rw [if_pos halign]
    exact (Spent.on (p.core.fault_spent a _)).mono (Nat.zero_le _)
  rw [if_neg halign]
  cases p.core.mach.llbit with
  | true => exact hset _ (p.store_spent D pak w a _)
  | false => exact hset _ ((Spent.refl p).mono (Nat.zero_le _))

end Access

end Piped

/-! ## Section 2: The second access of an unaligned store -/

theorem Core.fault_abort (v : BitVec 64) (e : Exc) (c : Core Dev) :
    (c.fault v e).memAbort = true := by
  unfold Core.fault
  dsimp only
  split_ifs <;> rfl

theorem Core.xlatTo_none {v : BitVec 64} {acc : Access} {c c' : Core Dev}
    (h : c.xlatTo v acc = (c', none)) : c'.memAbort = true := by
  unfold Core.xlatTo at h
  split_ifs at h with habort
  · cases h
    exact habort
  · split at h
    · cases h
      exact c.fault_abort v _
    · cases h

/-- What stops an access is latched. -/
theorem Core.reach_none {v : BitVec 64} {size : Nat} {acc : Access} {c c' : Core Dev}
    (h : c.reach v size acc = (c', none)) : c'.memAbort = true := by
  unfold Core.reach at h
  split_ifs at h with halign
  · cases h
    exact c.fault_abort v _
  · split at h
    · rename_i hx
      cases h
      exact Core.xlatTo_none hx
    · split_ifs at h
      · cases h
        rfl
      · cases h

/-- An access that passes has been translated. -/
theorem Core.reach_some {v : BitVec 64} {size a : Nat} {acc : Access} {c c' : Core Dev}
    (h : c.reach v size acc = (c', some a)) :
    c.memAbort = false ∧
      ∃ attr, xlatResult c.status c.cpu.entryHi c.cpu.tlb v.toNat acc = .ok (a, attr) ∧
        c' = c.setCpu { c.cpu with xlatCacheable := attr.getD c.cpu.xlatCacheable } := by
  unfold Core.reach Core.xlatTo at h
  rw [xlat_eq_translate, translate_eq] at h
  split_ifs at h with _ habort
  · cases h
  · cases h
  · refine ⟨Bool.eq_false_iff.mpr habort, ?_⟩
    cases hx : xlatResult c.status c.cpu.entryHi c.cpu.tlb v.toNat acc with
    | error e =>
      rw [hx] at h
      cases h
    | ok r =>
      rw [hx] at h
      dsimp only [Except.map] at h
      split_ifs at h
      · cases h
      · obtain ⟨rfl, ha⟩ := Prod.mk.inj h
        cases ha
        exact ⟨r.2, rfl, rfl⟩

section Unaligned

variable (D : Devices Dev) (pak : Pak)

/-- What a read leaves: the line, if it went through the cache. -/
theorem read_keeps (b : Bool) (pe size : Nat) (s : State Dev) :
    let t := (if b then dcRead D pak pe size s else uncachedRead D pak pe size s).2
    QuietCpu s t ∧ t.xlatCacheable = s.xlatCacheable ∧ (b = true → t.resident pe = true) := by
  refine ⟨read_quiet D pak b pe size s, ?_, ?_⟩
  · split_ifs
    · unfold dcRead dcTouch dcMiss
      dsimp only
      split_ifs <;> rfl
    · unfold uncachedRead busLoad ramSettle
      dsimp only
      split_ifs <;> rfl
  · intro hb
    rw [if_pos hb]
    exact beq_iff_eq.mpr (dcTouch_tagv pe s)

namespace Piped

/-- The unit at `v` has just been read: an access has faulted, or the line
    that a store goes to is there. -/
def Fetched (size : Nat) (v : BitVec 64) (p : Piped Dev) : Prop :=
  p.core.memAbort = true ∨ ∃ a attr,
    xlatResult p.core.status p.core.cpu.entryHi p.core.cpu.tlb v.toNat .read = .ok (a, attr) ∧
    attr.getD p.core.cpu.xlatCacheable = p.core.cpu.xlatCacheable ∧
    (inRdram pak v.toNat (busAddr p.core.status a size) p.core.cpu →
      p.core.cpu.resident (busAddr p.core.status a size))

/-- The touch only stalls. -/
theorem touch_core (write : Bool) (pe : Nat) (p : Piped Dev) :
    ∃ n, (p.touch write pe).core = p.core.setCpu { p.core.cpu with stallCycles := n } := by
  unfold Piped.touch Piped.dcbTouch
  dsimp only
  split_ifs <;> exact ⟨_, rfl⟩

theorem readAt_fetched (size : Nat) {a : Nat} {v : BitVec 64} {attr : Option Bool} {p : Piped Dev}
    (hx : xlatResult p.core.status p.core.cpu.entryHi p.core.cpu.tlb v.toNat .read = .ok (a, attr))
    (hattr : attr.getD p.core.cpu.xlatCacheable = p.core.cpu.xlatCacheable) :
    (p.readAt D pak size v (busAddr p.core.status a size)).2.Fetched pak size v := by
  generalize hpe : busAddr p.core.status a size = pe
  have hfront : ∃ n, (if inRdram pak v.toNat pe p.core.cpu then p.touch false pe else p).core.cpu =
      { p.core.cpu with stallCycles := n } := by
    split_ifs
    · obtain ⟨n, hn⟩ := touch_core false pe p
      exact ⟨n, congrArg Core.cpu hn⟩
    · exact ⟨_, rfl⟩
  obtain ⟨n, hn⟩ := hfront
  unfold Piped.readAt
  dsimp only
  generalize (if inRdram pak v.toNat pe p.core.cpu then p.touch false pe else p) = q at hn ⊢
  obtain ⟨hquiet, hcacheable, hresident⟩ :=
    read_keeps D pak (inRdram pak v.toNat pe q.core.cpu) pe size q.core.cpu
  generalize (if inRdram pak v.toNat pe q.core.cpu then dcRead D pak pe size q.core.cpu
    else uncachedRead D pak pe size q.core.cpu) = r at hquiet hcacheable hresident ⊢
  have hstatus : r.2.status = p.core.status := hquiet.status.trans (by rw [hn])
  have hentry : r.2.entryHi = p.core.cpu.entryHi := hquiet.entryHi.trans (by rw [hn])
  have htlb : r.2.tlb = p.core.cpu.tlb := hquiet.tlb.trans (by rw [hn])
  have hattr' : r.2.xlatCacheable = p.core.cpu.xlatCacheable := hcacheable.trans (by rw [hn])
  refine .inr ⟨a, attr, ?_, ?_, ?_⟩
  · show xlatResult r.2.status r.2.entryHi r.2.tlb v.toNat .read = _
    rw [hstatus, hentry, htlb]
    exact hx
  · show attr.getD r.2.xlatCacheable = r.2.xlatCacheable
    rw [hattr']
    exact hattr
  · intro hin
    show r.2.resident (busAddr r.2.status a size) = true
    rw [hstatus, hpe]
    refine hresident ?_
    rw [← hin]
    show _ = inRdram pak v.toNat (busAddr r.2.status a size) r.2
    unfold inRdram cacheable
    rw [hstatus, hpe, hcacheable]

theorem load_fetched (size : Nat) (v : BitVec 64) (p : Piped Dev) :
    (p.load D pak size v).2.Fetched pak size v := by
  unfold Piped.load
  cases hr : p.core.reach v size .read with
  | mk c o =>
    cases o with
    | none => exact .inl ((congrArg Core.memAbort (p.on_core c)).trans (Core.reach_none hr))
    | some a =>
      obtain ⟨-, attr, hx, hc⟩ := Core.reach_some hr
      have hcore : (p.on c).core = p.core.setCpu
          { p.core.cpu with xlatCacheable := attr.getD p.core.cpu.xlatCacheable } :=
        (p.on_core c).trans hc
      have hx' : xlatResult (p.on c).core.status (p.on c).core.cpu.entryHi (p.on c).core.cpu.tlb
          v.toNat .read = .ok (a, attr) := by
        rw [hcore]
        exact hx
      have hread := readAt_fetched D pak size hx' (by rw [hcore]; cases attr <;> rfl)
      rw [p.on_core c] at hread
      exact hread

/-- A store right behind the load of its unit is free. -/
theorem Fetched.store_spent {size : Nat} {v : BitVec 64} {p : Piped Dev}
    (h : p.Fetched pak size v) (x : BitVec 64) : Spent 0 p (p.store D pak size v x) := by
  have hreach := p.core.reach_spent v size .write
  unfold Piped.store
  cases hr : p.core.reach v size .write with
  | mk c o =>
    rw [hr] at hreach
    cases o with
    | none => exact .on hreach
    | some a =>
      obtain ⟨hnone, attr, hx, hc⟩ := Core.reach_some hr
      rcases h with habort | ⟨a', attr', hx', hattr, hresident⟩
      · exact absurd (habort.symm.trans hnone) (by decide)
      obtain ⟨rfl, rfl⟩ := Prod.mk.inj (xlatResult_agree hx hx')
      have hcpu : (p.on c).core.cpu = p.core.cpu := by
        rw [p.on_core c, hc, hattr]
        rfl
      have hstatus : c.cpu.status = p.core.status := by
        rw [hc]
        rfl
      dsimp only
      rw [hstatus, hcpu]
      generalize busAddr p.core.status a size = pe at hresident ⊢
      have hfront : Spent 0 p (if inRdram pak v.toNat pe p.core.cpu then (p.on c).touch true pe
          else p.on c) ∧ ∃ n, (if inRdram pak v.toNat pe p.core.cpu then (p.on c).touch true pe
            else p.on c).core.cpu = { p.core.cpu with stallCycles := n } := by
        split_ifs
        · obtain ⟨n, hn⟩ := touch_core true pe (p.on c)
          refine ⟨(Spent.on hreach).trans (touch_spent true pe (p.on c)).1, n, ?_⟩
          rw [hn, hcpu]
          rfl
        · exact ⟨.on hreach, _, hcpu⟩
      obtain ⟨hspent, n, hn⟩ := hfront
      generalize (if inRdram pak v.toNat pe p.core.cpu then (p.on c).touch true pe
        else p.on c) = q at hspent hn ⊢
      refine hspent.trans (m := 0) (.setCpu ?_)
      refine (cacheOrBus_spent D pak size v.toNat pe x (ramSettle_spent D pak pe size _)).mono ?_
      rw [hn]
      show (if inRdram pak v.toNat pe p.core.cpu && !p.core.cpu.resident pe then _ else 0) ≤ 0
      cases hin : inRdram pak v.toNat pe p.core.cpu with
      | true =>
        rw [hresident hin]
        exact Nat.le_refl _
      | false => exact Nat.le_refl _

theorem execUnaligned_spent (op : UnOp) (rt : Fin 32) (a : BitVec 64) (p : Piped Dev) :
    Spent p.access p (p.execUnaligned D pak op rt a) := by
  unfold Piped.execUnaligned
  dsimp only
  split_ifs with hop
  · have hxlat : Spent 0 p (p.on (p.core.xlatTo a .write).1) := .on (p.core.xlatTo_spent a .write)
    generalize p.core.xlatTo a .write = r at hxlat ⊢
    rcases r with ⟨c, none | q⟩
    · exact hxlat.mono (Nat.zero_le _)
    · have hload := hxlat.trans ((p.on c).loadNoWatch_spent D pak op.width (alignDown a op.width))
      rw [Nat.zero_add, hxlat.access] at hload
      have hfetched : ((p.on c).loadNoWatch D pak op.width (alignDown a op.width)).2.Fetched pak
          op.width (alignDown a op.width) :=
        ((p.on c).setWatch false).load_fetched D pak op.width (alignDown a op.width)
      exact hload.trans (hfetched.store_spent D pak _)
  · exact (p.load_spent D pak op.width (alignDown a op.width)).trans (m := 0)
      (.on (Core.set_spent _ rt _))

end Piped

end Unaligned

/-! ## Section 3: One instruction -/

/-- The word is `CACHE` with the `Fill` of the instruction cache. -/
def isFill (w : BitVec 32) : Bool :=
  opOP w == 0x2f && (opRt w).val % 2 == 0 && (opRt w).val / 4 % 8 == 5

section Execute

variable (D : Devices Dev) (pak : Pak) (fpu : Fpu)

theorem icFill_spent (idx base : Nat) (c : Core Dev) :
    Core.Spent c.mach.icMissCycles c { c with mach := icFill D pak idx base c.mach } :=
  ⟨⟨Nat.le_refl (_ + _), rfl, rfl⟩, rfl, rfl⟩

theorem cacheOp_spent (op vaddr : Nat) (c : Core Dev) :
    Core.Spent (if op % 2 = 0 ∧ op / 4 % 8 = 5 then c.mach.icMissCycles else 0) c
      { c with mach := cacheOp D pak op vaddr c.mach } := by
  unfold cacheOp
  by_cases hD : op % 2 = 1
  · have h := cacheOpD_spent D pak (.decode (op / 4 % 8)) vaddr c.mach.tagLo c.cpu
    rw [if_pos hD, if_neg (by omega)]
    exact ⟨⟨h.stall, h.dcMiss, h.uncached⟩, rfl, rfl⟩
  rw [if_neg hD]
  by_cases hfill : op / 4 % 8 = 5
  · rw [if_pos (by omega), hfill]
    exact icFill_spent D pak _ _ c
  · rw [if_neg (by omega)]
    generalize hfn : ICacheFn.decode (op / 4 % 8) = fn
    have hne : fn ≠ .fill := by
      intro h
      rw [h] at hfn
      unfold ICacheFn.decode at hfn
      split at hfn <;> first
        | exact hfill ‹_›
        | cases hfn
    unfold cacheOpI
    cases fn with
    | fill => exact absurd rfl hne
    | hitInvalidate =>
      dsimp only
      split_ifs <;> exact .of_meter rfl
    | hitWriteback =>
      dsimp only
      split_ifs <;> exact .of_meter rfl
    | _ => exact .of_meter rfl

theorem execCache_spent (op : Fin 32) (a : BitVec 64) (c : Core Dev) :
    Core.Spent (if op.val % 2 = 0 ∧ op.val / 4 % 8 = 5 then c.mach.icMissCycles else 0) c
      (c.execCache D pak op a) := by
  have hxlat := c.xlatTo_spent a .read
  unfold Core.execCache
  by_cases hpriv : cpuMode c.status ≠ 0 && !c.status.testBit 28
  · rw [if_pos hpriv]
    exact (Core.raise_spent 11 c).mono (Nat.zero_le _)
  rw [if_neg hpriv]
  generalize c.xlatTo a .read = r at hxlat ⊢
  rcases r with ⟨c', none | q⟩
  · exact hxlat.mono (Nat.zero_le _)
  · have hop := hxlat.trans (cacheOp_spent D pak op a.toNat c')
    rw [Nat.zero_add, hxlat.icMiss] at hop
    exact hop

namespace Piped

theorem access_le (p : Piped Dev) : p.access ≤ p.costs.own := by
  unfold Piped.access Costs.own costs
  dsimp only
  split_ifs <;> omega

theorem decode_cache {n : Nat} (h : MemKind.decode n = some .cache) : n = 0x2f := by
  unfold MemKind.decode at h
  split at h <;> first
    | rfl
    | cases h

theorem execMem_spent {k : MemKind} {w : BitVec 32} (hk : MemKind.decode (opOP w) = some k)
    (hfill : isFill w = false) (p : Piped Dev) : Spent p.access p (p.execMem D pak k w) := by
  have hfree : ∀ {c : Core Dev}, Core.Spent 0 p.core c → Spent p.access p (p.on c) :=
    fun h => (Spent.on h).mono (Nat.zero_le _)
  unfold Piped.execMem
  cases k with
  | load op =>
    dsimp only
    split_ifs
    · exact hfree (p.core.perform_free rfl)
    · exact p.execLoad_spent D pak op _ _
  | store op =>
    dsimp only
    split_ifs
    · exact hfree (p.core.perform_free rfl)
    · exact p.execStore_spent D pak _ _
  | unaligned op => exact p.execUnaligned_spent D pak op _ _
  | linked width => exact p.execLinked_spent D pak width _ _
  | conditional width => exact p.execConditional_spent D pak width _ _
  | cache =>
    have hcache := execCache_spent D pak (opRt w) (p.core.cpu.gpr (opRs w) + opSimm w) p.core
    unfold isFill at hfill
    rw [decode_cache hk, beq_self_eq_true, Bool.true_and, Bool.and_eq_false_iff,
      beq_eq_false_iff_ne, beq_eq_false_iff_ne, ← not_and_or] at hfill
    rw [if_neg hfill] at hcache
    exact hfree hcache

/-- An access for every byte. -/
theorem xlog_spent (n : Nat) (ptr : BitVec 64) (p : Piped Dev) :
    Spent (n * p.access) p (p.xlog D pak n ptr) := by
  induction n generalizing p ptr with
  | zero => exact (Spent.refl p).mono (Nat.zero_le _)
  | succ n ih =>
    have hload := p.load_spent D pak 1 ptr
    have hrest := ih (ptr + 1) (p.load D pak 1 ptr).2
    rw [hload.access] at hrest
    exact (hload.trans hrest).mono (by rw [Nat.add_mul, Nat.one_mul, Nat.add_comm])

theorem execute_of_xlog {w : BitVec 32} {p : Piped Dev} (hx : isXlog w p.core = true) :
    p.execute D pak fpu w = p.execXlog D pak w := by
  have hOP : opOP w = 0x10 := by
    unfold isXlog at hx
    rw [Bool.and_eq_true, Bool.and_eq_true, Bool.and_eq_true, beq_iff_eq] at hx
    exact hx.1.1.1
  unfold Piped.execute
  rw [hOP]
  exact if_pos hx

/-- `Fill` is the core's and touches no data. -/
theorem execute_of_fill {w : BitVec 32} (hfill : isFill w = true) (p : Piped Dev) :
    ∃ c, p.execute D pak fpu w = p.on c ∧ Core.Spent p.costs.icMissCycles p.core c := by
  unfold isFill at hfill
  rw [Bool.and_eq_true, Bool.and_eq_true, beq_iff_eq, beq_iff_eq, beq_iff_eq] at hfill
  obtain ⟨⟨hOP, heven⟩, hfn⟩ := hfill
  have hcache := execCache_spent D pak (opRt w) (p.core.cpu.gpr (opRs w) + opSimm w) p.core
  rw [if_pos ⟨heven, hfn⟩] at hcache
  refine ⟨_, ?_, hcache⟩
  unfold Piped.execute
  rw [hOP]
  rfl

/-- What an instruction does itself. -/
theorem execute_spent {w : BitVec 32} {p : Piped Dev} (hfill : isFill w = false)
    (hx : isXlog w p.core = true → p.access = 0) :
    Spent p.costs.own p (p.execute D pak fpu w) := by
  cases hlog : isXlog w p.core with
  | true =>
    have h := p.xlog_spent D pak
      (xlogLen (p.core.cpu.gpr ⟨w.toNat / 2 ^ 15 % 32, Nat.mod_lt _ (by decide)⟩))
      (p.core.cpu.gpr ⟨w.toNat / 2 ^ 20 % 32, Nat.mod_lt _ (by decide)⟩)
    rw [hx hlog, Nat.mul_zero] at h
    rw [execute_of_xlog D pak fpu hlog]
    exact h.mono (Nat.zero_le _)
  | false =>
    unfold Piped.execute
    by_cases hres : isOp64 (opOP w) && reserved64 p.core.status
    · rw [if_pos hres]
      exact (Spent.on (p.core.perform_free rfl)).mono (Nat.zero_le _)
    rw [if_neg hres]
    cases hk : MemKind.decode (opOP w) with
    | some k => exact (p.execMem_spent D pak hk hfill).mono p.access_le
    | none =>
      dsimp only
      rw [hlog, if_neg Bool.false_ne_true]
      exact .on (Core.execute_spent D pak fpu (k := p.costs) rfl hk hlog)

/-- No instruction changes the prices. -/
theorem execute_costs (w : BitVec 32) (p : Piped Dev) :
    (p.execute D pak fpu w).costs = p.costs := by
  cases hfill : isFill w with
  | true =>
    obtain ⟨c, hexec, hspent⟩ := p.execute_of_fill D pak fpu hfill
    rw [hexec]
    exact (Spent.on hspent).costs
  | false =>
    cases hlog : isXlog w p.core with
    | true =>
      rw [execute_of_xlog D pak fpu hlog]
      exact (p.xlog_spent D pak _ _).costs
    | false =>
      refine (execute_spent D pak fpu hfill fun h => ?_).costs
      exact absurd (hlog.symm.trans h) Bool.false_ne_true

end Piped

/-! ## Section 4: A step -/

/-- The fetch goes through the instruction cache and does not find its
    line. -/
def fetchMisses (fpe : Nat) (cache : Bool) (c : Core Dev) : Bool :=
  cache && fpe < pak.size && (!(c.mach.icache (fpe / 32 % 512)).valid ||
    (c.mach.icache (fpe / 32 % 512)).ptag ≠ fpe / 32 * 32)

theorem fetchWord_spent (fpe : Nat) (cache : Bool) (c : Core Dev) :
    Core.Spent (if fetchMisses pak fpe cache c then c.mach.icMissCycles else 0) c
      (fetchWord D pak fpe cache c).2 := by
  unfold fetchWord fetchMisses
  cases hin : cache && decide (fpe < pak.size) with
  | false => exact .of_meter rfl
  | true =>
    rw [if_pos rfl, Bool.true_and]
    unfold icFetch
    dsimp only
    split_ifs
    · exact icFill_spent D pak _ _ c
    · exact .of_meter rfl

theorem fetchWord_status (fpe : Nat) (cache : Bool) (c : Core Dev) :
    (fetchWord D pak fpe cache c).2.status = c.status := by
  unfold fetchWord icFetch
  dsimp only
  split_ifs <;> rfl

namespace Piped

/-- The boundary costs a pair. -/
theorem ilkStep_spent (w : BitVec 32) (p : Piped Dev) :
    Core.Spent (if 2 ≤ p.ilkMode then 1 else 0) p.core (p.ilkStep w).core ∧
      (p.ilkStep w).costs = p.costs ∧ (p.ilkStep w).core.status = p.core.status := by
  unfold Piped.ilkStep
  dsimp only
  by_cases hpair : p.ilk &&& (ilkMasks w).1 ≠ 0 ∧ 2 ≤ p.ilkMode
  · rw [if_pos hpair, if_pos hpair.2]
    exact ⟨⟨⟨Nat.le_refl (_ + 1), rfl, rfl⟩, rfl, rfl⟩, rfl, rfl⟩
  · rw [if_neg hpair]
    exact ⟨(Core.Spent.refl p.core).mono (Nat.zero_le _), rfl, rfl⟩

theorem due_le (p : Piped Dev) :
    p.due ≤ p.core.cpu.stallCycles + if 2 ≤ p.ilkMode then 1 else 0 := by
  unfold Piped.due
  split_ifs with hdue hmode
  · exact Nat.le_refl _
  · exact absurd hdue.2 hmode
  · omega
  · exact Nat.le_refl _

theorem le_due (p : Piped Dev) : p.core.cpu.stallCycles ≤ p.due := Nat.le_add_right _ _

/-- What `stallPerOpMax` does not count: `XLOG` makes an access for every
    byte, and `Fill` fills a second line when its own fetch has missed. -/
def Over (fpe : Nat) (cache : Bool) (p : Piped Dev) : Prop :=
  let w := (fetchWord D pak fpe cache p.core).1
  isXlog w p.core = true ∧ p.access ≠ 0 ∨
    isFill w = true ∧ fetchMisses pak fpe cache p.core = true ∧
      p.costs.own + (if 2 ≤ p.ilkMode then 1 else 0) < p.costs.icMissCycles

/-- The front of an instruction: the fetch and the boundary. -/
theorem front_spent (fpe : Nat) (cache : Bool) (p : Piped Dev) :
    let r := fetchWord D pak fpe cache p.core
    let q := p.on r.2.advance
    let q := if q.ilkMode ≠ 0 then q.ilkStep r.1 else q
    Core.Spent ((if fetchMisses pak fpe cache p.core then p.costs.icMissCycles else 0) +
        if 2 ≤ p.ilkMode then 1 else 0) p.core q.core ∧
      q.costs = p.costs ∧ q.core.status = p.core.status := by
  have hfetch := fetchWord_spent D pak fpe cache p.core
  have hstatus := fetchWord_status D pak fpe cache p.core
  dsimp only
  generalize fetchWord D pak fpe cache p.core = r at hfetch hstatus ⊢
  have hword : Core.Spent (if fetchMisses pak fpe cache p.core then p.costs.icMissCycles else 0)
      p.core (p.on r.2.advance).core := by
    rw [p.on_core]
    exact ⟨hfetch.cpu, hfetch.icMiss, hfetch.mulDiv⟩
  have hon : (p.on r.2.advance).fpuMode = p.fpuMode ∧ (p.on r.2.advance).ilkMode = p.ilkMode := by
    unfold Piped.on
    split_ifs <;> exact ⟨rfl, rfl⟩
  have hcosts := costs_of_core hword hon.1 hon.2
  have hst : (p.on r.2.advance).core.status = p.core.status := by
    rw [p.on_core]
    exact hstatus
  have hstep := (p.on r.2.advance).ilkStep_spent r.1
  rw [hon.2] at hstep ⊢
  by_cases hilk : p.ilkMode ≠ 0
  · rw [if_pos hilk]
    exact ⟨hword.trans hstep.1, hstep.2.1.trans hcosts, hstep.2.2.trans hst⟩
  · rw [if_neg hilk]
    exact ⟨hword.mono (Nat.le_add_right _ _), hcosts, hst⟩

theorem isXlog_congr {c c' : Core Dev} (h : c'.status = c.status) (w : BitVec 32) :
    isXlog w c' = isXlog w c := by
  unfold isXlog
  rw [h]

/-- An instruction that is neither of the two kinds keeps to the bound. -/
theorem exec_stall {fpe : Nat} {cache : Bool} {p : Piped Dev} (h : ¬ p.Over D pak fpe cache) :
    (p.exec D pak fpu fpe cache).core.cpu.stallCycles ≤
      p.core.cpu.stallCycles + p.costs.stallPerOpMax := by
  obtain ⟨hfront, hcosts, hstatus⟩ := p.front_spent D pak fpe cache
  unfold Piped.Over at h
  unfold Piped.exec Costs.stallPerOpMax
  dsimp only at h hfront hcosts hstatus ⊢
  generalize hq : (if (p.on (fetchWord D pak fpe cache p.core).2.advance).ilkMode ≠ 0 then
    (p.on (fetchWord D pak fpe cache p.core).2.advance).ilkStep (fetchWord D pak fpe cache p.core).1
    else p.on (fetchWord D pak fpe cache p.core).2.advance) = q at hfront hcosts hstatus ⊢
  generalize (fetchWord D pak fpe cache p.core).1 = w at h ⊢
  have hstall := hfront.cpu.stall
  have hmode : p.costs.ilkMode = p.ilkMode := rfl
  cases hfill : isFill w with
  | true =>
    obtain ⟨c, hexec, hspent⟩ := q.execute_of_fill D pak fpu hfill
    have hspent := hspent.cpu.stall
    have hmiss : (if fetchMisses pak fpe cache p.core then p.costs.icMissCycles else 0) ≤
        p.costs.own + if 2 ≤ p.ilkMode then 1 else 0 := by
      by_cases hm : fetchMisses pak fpe cache p.core
      · rw [if_pos hm]
        exact Nat.le_of_not_lt fun hlt => h (.inr ⟨hfill, hm, hlt⟩)
      · rw [if_neg hm]
        exact Nat.zero_le _
    rw [hcosts] at hspent
    rw [hexec, q.on_core, hmode]
    split_ifs at hstall hmiss ⊢ <;> omega
  | false =>
    have hx : isXlog w q.core = true → q.access = 0 := by
      intro hlog
      rw [isXlog_congr hstatus] at hlog
      have haccess : q.access = p.access :=
        congrArg (fun k : Costs => max k.dcMissCycles k.uncachedCycles) hcosts
      rw [haccess]
      exact not_not.mp fun hne => h (.inl ⟨hlog, hne⟩)
    have hexec := (q.execute_spent D pak fpu hfill hx).due
    have hdue := q.due_le
    have hle := (q.execute D pak fpu w).le_due
    have hmodes : q.ilkMode = p.ilkMode := congrArg Costs.ilkMode hcosts
    rw [hcosts] at hexec
    rw [hmodes] at hdue
    rw [hmode]
    split_ifs at hstall hdue ⊢ <;> omega

end Piped

theorem deliver_spent (l : Pins Dev) (c : Core Dev) : Core.Spent 0 c (c.deliver l) := by
  unfold Core.deliver
  dsimp only
  split_ifs <;> exact .of_meter rfl

/-- What a step fetches: the pipeline in front of it, the address, and
    whether it is a cached one. -/
def PipedFetcher.fetch (f : PipedFetcher Dev) (l : Pins Dev) : Option (Piped Dev × Nat × Bool) :=
  let p := f.pipe.on (f.pipe.core.deliver l)
  let c := p.core
  if f.pipe.core.halted ∨ c.pc.toNat % 4 ≠ 0 then none
  else if f.line.hit c then some (p, f.line.addr c.pc, f.line.cache)
  else
    match translate false c.pc.toNat .fetch c.cpu with
    | .error _ => none
    | .ok (q, s) => some (p.setCpu s, reXor s.status q 4 % 2 ^ 32, cacheable c.pc.toNat s)

/-- A step executes what it has fetched, or enters the handler for
    nothing. -/
theorem PipedFetcher.issue_fetch (f : PipedFetcher Dev) (l : Pins Dev) :
    match f.fetch l with
    | some (p, fpe, cache) =>
      (f.issue D pak fpu l).1.pipe = p.exec D pak fpu fpe cache ∧
        Core.Spent 0 f.pipe.core p.core ∧ p.costs = f.pipe.costs
    | none =>
      Core.Spent 0 f.pipe.core (f.issue D pak fpu l).1.pipe.core ∧
        (f.issue D pak fpu l).1.pipe.costs = f.pipe.costs := by
  have hdel := deliver_spent l f.pipe.core
  have hon : Core.Spent 0 f.pipe.core (f.pipe.on (f.pipe.core.deliver l)).core := by
    rw [f.pipe.on_core]
    exact hdel
  have hcosts := (Piped.Spent.on hdel).costs
  unfold PipedFetcher.fetch PipedFetcher.issue
  dsimp only
  generalize f.pipe.on (f.pipe.core.deliver l) = p at hon hcosts ⊢
  by_cases hh : f.pipe.core.halted
  · rw [if_pos (.inl hh), if_pos hh]
    exact ⟨.refl _, rfl⟩
  by_cases hpc : p.core.pc.toNat % 4 ≠ 0
  · have hraise : Core.Spent 0 p.core (raise 4 (setBadVAddr p.core.pc p.core)) :=
      .of_meter rfl
    rw [if_pos (.inr hpc), if_neg hh, if_pos hpc]
    dsimp only
    rw [p.on_core]
    exact ⟨hon.trans hraise, (Piped.Spent.on hraise).costs.trans hcosts⟩
  rw [if_neg (not_or.mpr ⟨hh, hpc⟩), if_neg hh, if_neg hpc]
  by_cases hline : f.line.hit p.core
  · rw [if_pos hline, if_pos hline]
    exact ⟨rfl, hon, hcosts⟩
  rw [if_neg hline, if_neg hline]
  cases hx : translate false p.core.pc.toNat .fetch p.core.cpu with
  | error e =>
    have hfault := p.core.fault_spent p.core.pc e
    dsimp only
    rw [p.on_core]
    exact ⟨hon.trans hfault, (Piped.Spent.on hfault).costs.trans hcosts⟩
  | ok r =>
    obtain ⟨-, b, hs⟩ := translate_translated _ _ _ r.1 r.2 hx
    have hset : Core.Spent 0 p.core (p.setCpu r.2).core := by
      rw [hs]
      exact .of_meter rfl
    exact ⟨rfl, hon.trans hset, (Piped.costs_of_core hset rfl rfl).trans hcosts⟩

/-- A step stalls for at most `stallPerOpMax`, unless its instruction is one
    of the two kinds that are not counted in it. -/
theorem PipedFetcher.issue_stall {f : PipedFetcher Dev} {l : Pins Dev}
    (h : ∀ p fpe cache, f.fetch l = some (p, fpe, cache) → ¬ p.Over D pak fpe cache) :
    (f.issue D pak fpu l).1.pipe.core.cpu.stallCycles ≤
      f.pipe.core.cpu.stallCycles + f.pipe.costs.stallPerOpMax := by
  have hissue := f.issue_fetch D pak fpu l
  cases hf : f.fetch l with
  | none =>
    rw [hf] at hissue
    exact hissue.1.cpu.stall.trans (Nat.add_le_add_left (Nat.zero_le _) _)
  | some r =>
    obtain ⟨p, fpe, cache⟩ := r
    rw [hf] at hissue
    obtain ⟨hpipe, hspent, hcosts⟩ := hissue
    have hexec := Piped.exec_stall D pak fpu (h p fpe cache hf)
    have hstall := hspent.cpu.stall
    rw [hpipe, ← hcosts]
    omega

/-! ### Runs -/

/-- The commit starts the stalls anew. -/
theorem commit_spent (c : Core Dev) : Core.Spent 0 c c.retire.commit.tickRandom := by
  have hcommit : Core.Spent 0 c c.retire.commit := by
    unfold Core.commit
    dsimp only
    split_ifs <;> exact ⟨⟨Nat.zero_le _, rfl, rfl⟩, rfl, rfl⟩
  have hrandom : Core.Spent 0 c.retire.commit c.retire.commit.tickRandom := by
    unfold Core.tickRandom
    dsimp only
    split_ifs <;> exact .of_meter rfl
  exact hcommit.trans hrandom

theorem PipedFetcher.step_costs (f : PipedFetcher Dev) (l : Pins Dev) :
    (f.step D pak fpu l).pipe.costs = f.pipe.costs := by
  have hissue : (f.issue D pak fpu l).1.pipe.costs = f.pipe.costs := by
    have h := f.issue_fetch D pak fpu l
    cases hf : f.fetch l with
    | none =>
      rw [hf] at h
      exact h.2
    | some r =>
      obtain ⟨p, fpe, cache⟩ := r
      rw [hf] at h
      obtain ⟨hpipe, -, hcosts⟩ := h
      obtain ⟨-, hfront, -⟩ := p.front_spent D pak fpe cache
      rw [hpipe]
      exact (Piped.execute_costs D pak fpu _ _).trans (hfront.trans hcosts)
  unfold PipedFetcher.step
  dsimp only
  split_ifs
  · exact (Piped.Spent.on (commit_spent _)).costs.trans hissue
  · exact hissue

/-- What the instructions of a run stall for. -/
def PipedFetcher.stalls (f : PipedFetcher Dev) : List (Pins Dev) → List Nat
  | [] => []
  | l :: ls =>
    let r := f.issue D pak fpu l
    let rest := (f.step D pak fpu l).stalls ls
    if r.2 then (r.1.pipe.core.cpu.stallCycles - f.pipe.core.cpu.stallCycles) :: rest else rest

end Execute

end Cpu
