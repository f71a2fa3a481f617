import Kestrel64.Cpu.FetchMemo
import Kestrel64.Cpu.GuardBound
import Kestrel64.Cpu.Interlock

/-! # CPU: What an Instruction Spends

    Every operation of an instruction is `Spent n`: it stalls for at most `n`
    and leaves the prices alone. Here are the operations of the core; an
    instruction that touches no memory costs at most `Costs.own`
    (`Core.execute_spent`).
-/

namespace Cpu

variable {Dev : Type}

/-! ## Section 1: Spending -/

/-- `t` has stalled for at most `n` more than `s`, at the same prices. -/
structure Spent (n : Nat) (s t : State Dev) : Prop where
  stall : t.stallCycles ≤ s.stallCycles + n
  dcMiss : t.dcMissCycles = s.dcMissCycles
  uncached : t.uncachedCycles = s.uncachedCycles

/-- What is spent, and the prices. -/
def State.meter (s : State Dev) : Nat × Nat × Nat :=
  (s.stallCycles, s.dcMissCycles, s.uncachedCycles)

/-- An operation that leaves the meter alone is free. -/
theorem Spent.of_meter {n : Nat} {s t : State Dev} (h : t.meter = s.meter) : Spent n s t := by
  obtain ⟨hstall, hprices⟩ := Prod.mk.inj h
  obtain ⟨hdc, hunc⟩ := Prod.mk.inj hprices
  exact ⟨hstall.le.trans (Nat.le_add_right _ _), hdc, hunc⟩

theorem Spent.refl (s : State Dev) : Spent 0 s s := .of_meter rfl

theorem Spent.mono {n m : Nat} {s t : State Dev} (h : Spent n s t) (hle : n ≤ m) : Spent m s t :=
  ⟨h.stall.trans (Nat.add_le_add_left hle _), h.dcMiss, h.uncached⟩

theorem Spent.trans {n m : Nat} {s t u : State Dev} (h : Spent n s t) (h' : Spent m t u) :
    Spent (n + m) s u := by
  have := h.stall
  have := h'.stall
  exact ⟨by omega, h'.dcMiss.trans h.dcMiss, h'.uncached.trans h.uncached⟩

namespace Core

/-- The same of the core. -/
structure Spent (n : Nat) (c c' : Core Dev) : Prop where
  cpu : Cpu.Spent n c.cpu c'.cpu
  icMiss : c'.mach.icMissCycles = c.mach.icMissCycles
  mulDiv : c'.mulDivMode = c.mulDivMode

def meter (c : Core Dev) : (Nat × Nat × Nat) × Nat × Nat :=
  (c.cpu.meter, c.mach.icMissCycles, c.mulDivMode)

theorem Spent.of_meter {n : Nat} {c c' : Core Dev} (h : c'.meter = c.meter) : Spent n c c' := by
  obtain ⟨hcpu, hprices⟩ := Prod.mk.inj h
  obtain ⟨hic, hmul⟩ := Prod.mk.inj hprices
  exact ⟨.of_meter hcpu, hic, hmul⟩

theorem Spent.refl (c : Core Dev) : Spent 0 c c := .of_meter rfl

theorem Spent.mono {n m : Nat} {c c' : Core Dev} (h : Spent n c c') (hle : n ≤ m) : Spent m c c' :=
  ⟨h.cpu.mono hle, h.icMiss, h.mulDiv⟩

theorem Spent.trans {n m : Nat} {c c' c'' : Core Dev} (h : Spent n c c') (h' : Spent m c' c'') :
    Spent (n + m) c c'' :=
  ⟨h.cpu.trans h'.cpu, h'.icMiss.trans h.icMiss, h'.mulDiv.trans h.mulDiv⟩

/-- Only the processor has changed. -/
theorem Spent.setCpu {n : Nat} {c : Core Dev} {t : State Dev} (h : Cpu.Spent n c.cpu t) :
    Spent n c (c.setCpu t) := ⟨h, rfl, rfl⟩

end Core

/-! ## Section 2: The data cache and the bus -/

section Access

variable (D : Devices Dev) (pak : Pak)

theorem dcTouch_spent (pe : Nat) (s : State Dev) :
    Spent (if s.resident pe then 0 else s.dcMissCycles) s (dcTouch D pak pe s) := by
  unfold dcTouch State.resident
  dsimp only
  by_cases hit : (s.dcache (pe / 16 % 512)).tagv = pe / 16 * 16 + 1
  · rw [if_neg (not_not.mpr hit), if_pos (beq_iff_eq.mpr hit)]
    exact .refl s
  · rw [if_pos hit, if_neg (mt beq_iff_eq.mp hit)]
    unfold dcMiss
    dsimp only
    split_ifs <;> exact ⟨Nat.le_refl (_ + _), rfl, rfl⟩

theorem dcTouch_le (pe : Nat) (s : State Dev) :
    Spent s.dcMissCycles s (dcTouch D pak pe s) := by
  refine (dcTouch_spent D pak pe s).mono ?_
  split_ifs
  · exact Nat.zero_le _
  · exact Nat.le_refl _

theorem dcWrite_spent (pe : Nat) (x : BitVec 64) (size : Nat) (s : State Dev) :
    Spent (if s.resident pe then 0 else s.dcMissCycles) s (dcWrite D pak pe x size s) := by
  have htouch := dcTouch_spent D pak pe s
  exact ⟨htouch.stall, htouch.dcMiss, htouch.uncached⟩

theorem uncachedRead_spent (pe size : Nat) (s : State Dev) :
    Spent s.uncachedCycles s (uncachedRead D pak pe size s).2 := by
  unfold uncachedRead busLoad ramSettle
  dsimp only
  split_ifs <;> exact ⟨Nat.le_refl (_ + _), rfl, rfl⟩

theorem busStore_spent (size pe : Nat) (x : BitVec 64) (s : State Dev) :
    Spent 0 s (busStore D pak size pe x s) := by
  unfold busStore
  dsimp only
  split_ifs <;> exact .of_meter rfl

theorem ramSettle_spent (pe size : Nat) (s : State Dev) :
    Spent 0 s (ramSettle D pak pe size s) := by
  unfold ramSettle
  split_ifs <;> exact .of_meter rfl

/-- The last rung of a store. -/
theorem cacheOrBus_spent (size a pe : Nat) (x : BitVec 64) {s s' : State Dev} (h : Spent 0 s s') :
    Spent (if inRdram pak a pe s && !s.resident pe then s.dcMissCycles else 0) s
      (cacheOrBus D pak size a pe x s s') := by
  unfold cacheOrBus
  cases hin : inRdram pak a pe s with
  | true =>
    refine (dcWrite_spent D pak pe x size s).mono ?_
    cases s.resident pe <;> exact Nat.le_refl _
  | false => exact h.trans (busStore_spent D pak size pe x s')

theorem cacheOrBus_le (size a pe : Nat) (x : BitVec 64) {s s' : State Dev} (h : Spent 0 s s') :
    Spent s.dcMissCycles s (cacheOrBus D pak size a pe x s s') := by
  refine (cacheOrBus_spent D pak size a pe x h).mono ?_
  split_ifs
  · exact Nat.le_refl _
  · exact Nat.zero_le _

/-- The rungs above it only write memory. -/
theorem getD_spent {n : Nat} {s t : State Dev} {r : Option (State Dev)}
    (h : ∀ u, r = some u → Spent 0 s u) (ht : Spent n s t) : Spent n s (r.getD t) := by
  cases r with
  | none => exact ht
  | some u => exact (h u rfl).mono (Nat.zero_le n)

theorem storeRepeat_spent {pm size : Nat} {x : BitVec 64} {s u : State Dev}
    (h : storeRepeat D pak pm x size s = some u) : Spent 0 s u := by
  unfold storeRepeat at h
  split_ifs at h
  cases h
  exact .of_meter rfl

theorem storeCart_spent {pm size : Nat} {x : BitVec 64} {s u : State Dev}
    (h : storeCart D pm x size s = some u) : Spent 0 s u := by
  unfold storeCart at h
  split_ifs at h
  cases h
  exact .of_meter rfl

theorem storeQuirk_spent {pm size : Nat} {x : BitVec 64} {s u : State Dev}
    (h : storeQuirk D pak pm x size s = some u) : Spent 0 s u := by
  obtain ⟨m, -, rfl⟩ := Option.map_eq_some_iff.mp h
  exact .of_meter rfl

theorem storeAt_spent (i : Instr) (a p : Nat) (s : State Dev) :
    Spent s.dcMissCycles s (storeAt D pak i a p s) := by
  have hlast := fun pe => cacheOrBus_le D pak i.op.size a pe (storeVal i s)
    (ramSettle_spent D pak pe i.op.size s)
  unfold storeAt
  dsimp only
  split
  · exact getD_spent (fun _ hu => storeRepeat_spent D pak hu) (hlast _)
  · refine getD_spent (fun _ hu => storeRepeat_spent D pak hu) ?_
    refine getD_spent (fun _ hu => storeQuirk_spent D pak hu) ?_
    exact cacheOrBus_le D pak _ _ _ _ (.refl s)
  · exact hlast _
  · exact hlast _
  · refine getD_spent (fun _ hu => storeRepeat_spent D pak hu) ?_
    refine getD_spent (fun _ hu => storeCart_spent D hu) ?_
    exact getD_spent (fun _ hu => storeQuirk_spent D pak hu) (hlast _)

theorem cacheOpD_spent (fn : DCacheFn) (vaddr tagLo : Nat) (s : State Dev) :
    Spent 0 s (cacheOpD D pak fn vaddr tagLo s).2 := by
  have hflush : ∀ idx, Spent 0 s (dcFlush D pak idx s) := by
    intro idx
    unfold dcFlush
    dsimp only
    split_ifs <;> exact .of_meter rfl
  have hline : ∀ {t : State Dev}, Spent 0 s t → ∀ idx l, Spent 0 s (t.setLine idx l) :=
    fun h _ _ => ⟨h.stall, h.dcMiss, h.uncached⟩
  unfold cacheOpD
  cases fn with
  | indexWritebackInvalidate => exact hline (hflush _) _ _
  | indexLoadTag => exact .refl s
  | indexStoreTag => exact hline (.refl s) _ _
  | createDirtyExclusive =>
    dsimp only
    split_ifs
    · exact hline (hflush _) _ _
    · exact hline (.refl s) _ _
  | hitInvalidate =>
    dsimp only
    split_ifs
    · exact hline (.refl s) _ _
    · exact .refl s
  | hitWritebackInvalidate =>
    dsimp only
    split_ifs
    · exact hline (hflush _) _ _
    · exact .refl s
  | hitWriteback =>
    dsimp only
    split_ifs
    · exact hflush _
    · exact .refl s
  | reserved => exact .refl s

end Access

/-! ## Section 3: Instructions without memory -/

theorem State.set_spent (s : State Dev) (i : Fin 32) (v : BitVec 64) : Spent 0 s (s.set i v) := by
  unfold State.set
  split_ifs
  · exact .refl s
  · exact .of_meter rfl

theorem fprSet32_spent (s : State Dev) (i : Fin 32) (v : BitVec 32) :
    Spent 0 s (s.fprSet32 i v) := by
  obtain ⟨f, hf⟩ := fprSet32_frame s i v
  rw [hf]
  exact .of_meter rfl

theorem fprSet64_spent (s : State Dev) (i : Fin 32) (v : BitVec 64) :
    Spent 0 s (s.fprSet64 i v) := by
  obtain ⟨f, hf⟩ := fprSet64_frame s i v
  rw [hf]
  exact .of_meter rfl

theorem loadInto_spent (op : Op) (rt : Fin 32) (raw : BitVec 64) (s : State Dev) :
    Spent 0 s (loadInto op rt raw s) := by
  cases op with
  | lwc1 => exact fprSet32_spent s _ _
  | ldc1 => exact fprSet64_spent s _ _
  | _ => exact s.set_spent _ _

/-- The cycles of a multiplication or a division. -/
def Eff.cost : Eff → Nat
  | .mulDiv cost _ _ => cost
  | _ => 0

theorem unlessOverflow_cost {n : Nat} (bad : BitVec n) (i : Fin 32) (v : BitVec 64) :
    (unlessOverflow bad i v).cost = 0 := by
  unfold unlessOverflow
  split_ifs <;> rfl

theorem trapIf_cost (b : Bool) : (trapIf b).cost = 0 := by cases b <;> rfl

theorem div32_cost (a b : BitVec 32) : (div32 a b).cost = 37 ∧ (divu32 a b).cost = 37 := by
  unfold div32 divu32
  constructor <;> split_ifs <;> rfl

theorem div64_cost (a b : BitVec 64) : (div64 a b).cost = 69 ∧ (divu64 a b).cost = 69 := by
  unfold div64 divu64
  constructor <;> split_ifs <;> rfl

/-- The longest one is a division of doublewords. -/
theorem special_cost (w : BitVec 32) (c : Core Dev) : (special w c).cost ≤ 69 := by
  unfold special
  dsimp only
  by_cases h64 : isSpecial64 (opFunct w) && reserved64 c.status
  · rw [if_pos h64]
    exact Nat.zero_le _
  rw [if_neg h64]
  -- 53 functions: most have no latency, the divisions are read off above
  split
  all_goals first
    | exact (unlessOverflow_cost _ _ _).trans_le (Nat.zero_le _)
    | exact (trapIf_cost _).trans_le (Nat.zero_le _)
    | exact (div32_cost _ _).1.trans_le (by decide)
    | exact (div32_cost _ _).2.trans_le (by decide)
    | exact (div64_cost _ _).1.le
    | exact (div64_cost _ _).2.le
    | exact Nat.zero_le _
    | exact (by decide : 5 ≤ 69)
    | exact (by decide : 8 ≤ 69)

theorem regimm_cost (w : BitVec 32) (c : Core Dev) : (regimm w c).cost = 0 := by
  unfold regimm
  dsimp only
  split <;> first
    | rfl
    | exact trapIf_cost _

theorem immediate_cost (w : BitVec 32) (c : Core Dev) : (immediate w c).cost = 0 := by
  unfold immediate
  dsimp only
  split <;> first
    | rfl
    | exact unlessOverflow_cost _ _ _

theorem cop2op_cost (w : BitVec 32) (c : Core Dev) : (cop2op w c).cost = 0 := by
  unfold cop2op
  split_ifs
  · rfl
  · split <;> rfl

theorem fpuTable_le (fmt fn : Nat) : fpuTable fmt fn ≤ 58 := by
  unfold fpuTable
  dsimp only
  by_cases hcmp : 0x30 ≤ fn
  · rw [if_pos hcmp]
    decide
  rw [if_neg hcmp]
  split <;> first
    | decide
    | (split_ifs <;> decide)

theorem chargeFpu_le (mode : Nat) (w : BitVec 32) (fr : Bool) (fpr : Fin 32 → BitVec 64) :
    chargeFpu mode w fr fpr ≤ if 2 ≤ mode then 57 else 0 := by
  have := fpuTable_le (opRs w).val (opFunct w)
  unfold chargeFpu
  dsimp only
  split_ifs <;> omega

namespace Core

theorem raise_spent (code : Nat) (c : Core Dev) : Spent 0 c (raise code c) := .of_meter rfl

theorem fault_spent (v : BitVec 64) (e : Exc) (c : Core Dev) : Spent 0 c (c.fault v e) := by
  unfold Core.fault
  dsimp only
  split_ifs <;> exact .of_meter rfl

theorem set_meter (c : Core Dev) (i : Fin 32) (v : BitVec 64) : (c.set i v).meter = c.meter := by
  unfold Core.set State.set
  split_ifs <;> rfl

theorem set_spent (c : Core Dev) (i : Fin 32) (v : BitVec 64) : Spent 0 c (c.set i v) :=
  .of_meter (c.set_meter i v)

theorem perform_spent (c : Core Dev) (e : Eff) :
    Spent (if 2 ≤ c.mulDivMode then e.cost - 1 else 0) c (c.perform e) := by
  cases e with
  | nop => exact .of_meter rfl
  | set i v => exact .of_meter (c.set_meter i v)
  | hilo hi lo => exact .of_meter rfl
  | mulDiv cost hi lo =>
    unfold Core.perform Core.chargeMulDiv
    dsimp only
    split_ifs
    · omega
    · exact ⟨⟨Nat.le_refl (_ + _), rfl, rfl⟩, rfl, rfl⟩
    · exact .of_meter rfl
    · omega
  | jump link target =>
    cases link with
    | none => exact .of_meter rfl
    | some r => exact .of_meter (c.set_meter r c.linkAddr)
  | branch likely link taken target =>
    have hlink : (if link then c.set 31 c.linkAddr else c).meter = c.meter := by
      split_ifs
      · exact c.set_meter 31 c.linkAddr
      · rfl
    unfold Core.perform
    cases likely <;> cases taken <;> exact .of_meter hlink
  | raise e => exact .of_meter rfl
  | raiseCe e ce => exact .of_meter rfl
  | fpr32 i v => exact (Spent.setCpu (fprSet32_spent c.cpu i v)).mono (Nat.zero_le _)
  | fpr64 i v => exact (Spent.setCpu (fprSet64_spent c.cpu i v)).mono (Nat.zero_le _)
  | cp2 v => exact .of_meter rfl

/-- An operation without latency. -/
theorem perform_free (c : Core Dev) {e : Eff} (he : e.cost = 0) : Spent 0 c (c.perform e) := by
  have h := c.perform_spent e
  rwa [he, ite_self] at h

theorem writeCop0_spent (r : Nat) (v : BitVec 64) (c : Core Dev) : Spent 0 c (writeCop0 r v c) := by
  unfold writeCop0
  dsimp only
  split <;> exact .of_meter rfl

theorem tlbWrite_spent (i : Nat) (c : Core Dev) : Spent 0 c (tlbWrite i c) := by
  unfold tlbWrite
  dsimp only
  split_ifs
  · exact .refl c
  · exact .of_meter rfl

theorem tlbRead_spent (i : Nat) (c : Core Dev) : Spent 0 c (tlbRead i c) := by
  unfold tlbRead
  dsimp only
  split_ifs
  · exact .refl c
  · split
    · exact .refl c
    · exact .of_meter rfl

theorem tlbProbe_spent (c : Core Dev) : Spent 0 c (tlbProbe c) := by
  unfold tlbProbe
  split <;> exact .of_meter rfl

section Execute

variable (D : Devices Dev) (pak : Pak) (fpu : Fpu)

theorem emuxOp_spent {w : BitVec 32} (hfn : opFunct w ≠ 0x25) (c : Core Dev) :
    Spent 0 c (emuxOp D pak w c) := by
  unfold emuxOp
  dsimp only
  split
  · exact c.set_spent _ _
  · rename_i hfn'
    exact absurd hfn' hfn
  · split_ifs
    · exact .of_meter rfl
    · exact .refl c
  · exact .refl c

theorem cop0Co_spent {w : BitVec 32} (hfn : opFunct w ≠ 0x25) (c : Core Dev) :
    Spent 0 c (cop0Co D pak w c) := by
  unfold cop0Co
  split
  · exact .of_meter rfl
  · exact tlbRead_spent _ c
  · exact tlbWrite_spent _ c
  · exact tlbWrite_spent _ c
  · exact tlbProbe_spent c
  · exact emuxOp_spent D pak hfn c

theorem cop0op_spent {w : BitVec 32} {c : Core Dev} (hOP : opOP w = 0x10)
    (hx : isXlog w c = false) : Spent 0 c (cop0op D pak w c) := by
  unfold cop0op
  by_cases hcu : cpuMode c.status ≠ 0 && !c.status.testBit 28
  · rw [if_pos hcu]
    exact c.perform_free rfl
  rw [if_neg hcu]
  split
  · exact c.set_spent _ _
  · exact writeCop0_spent _ _ c
  · exact c.set_spent _ _
  · exact writeCop0_spent _ _ c
  · split_ifs with hco
    · -- with the function of `XLOG` the word would be one
      refine cop0Co_spent D pak (fun hfn => ?_) c
      unfold isXlog at hx
      rw [hOP, Bool.eq_false_iff.mpr hcu, hco, hfn] at hx
      cases hx
    · exact c.perform_free rfl

theorem ctc1_spent (w : BitVec 32) (c : Core Dev) : Spent 0 c (ctc1 D pak w c) := by
  unfold ctc1
  dsimp only
  split_ifs <;> exact .of_meter rfl

theorem cop1op_spent (mode : Nat) (w : BitVec 32) (c : Core Dev) :
    Spent (if 2 ≤ mode then 57 else 0) c (cop1op D pak (chargedFpu mode fpu) w c) := by
  have hcycles := chargeFpu_le mode w (c.status.testBit 26) c.cpu.fpr
  generalize (if 2 ≤ mode then 57 else 0) = n at hcycles ⊢
  unfold cop1op
  dsimp only
  by_cases hcu : !c.status.testBit 29
  · rw [if_pos hcu]
    exact (c.perform_free rfl).mono (Nat.zero_le _)
  rw [if_neg hcu]
  split
  · exact (c.perform_free rfl).mono (Nat.zero_le _)
  · exact (c.perform_free rfl).mono (Nat.zero_le _)
  · exact (c.perform_free rfl).mono (Nat.zero_le _)
  · exact (c.perform_free rfl).mono (Nat.zero_le _)
  · exact (c.perform_free rfl).mono (Nat.zero_le _)
  · exact (ctc1_spent D pak w c).mono (Nat.zero_le _)
  · exact (c.perform_free rfl).mono (Nat.zero_le _)
  · unfold fpuOp chargedFpu
    dsimp only
    split <;> exact ⟨⟨Nat.add_le_add_left hcycles _, rfl, rfl⟩, rfl, rfl⟩

/-- The instructions that touch no memory, at the prices `k`. -/
theorem execute_spent {k : Costs} {w : BitVec 32} {c : Core Dev} (hk : c.mulDivMode = k.mulDivMode)
    (hmem : MemKind.decode (opOP w) = none) (hx : isXlog w c = false) :
    Spent k.own c (c.execute D pak (chargedFpu k.fpuMode fpu) w) := by
  have hdiv : (if 2 ≤ k.mulDivMode then 68 else 0) ≤ k.own := by
    unfold Costs.own
    dsimp only
    split_ifs <;> omega
  have hfpu : (if 2 ≤ k.fpuMode then 57 else 0) ≤ k.own := by
    unfold Costs.own
    dsimp only
    split_ifs <;> omega
  unfold Core.execute
  by_cases hres : isOp64 (opOP w) && reserved64 c.status
  · rw [if_pos hres]
    exact (c.perform_free rfl).mono (Nat.zero_le _)
  rw [if_neg hres, hmem]
  dsimp only
  split
  · have hcost := special_cost w c
    have h := c.perform_spent (special w c)
    rw [hk] at h
    refine h.mono (le_trans ?_ hdiv)
    split_ifs <;> omega
  · exact (c.perform_free (regimm_cost w c)).mono (Nat.zero_le _)
  · rename_i hOP
    exact (cop0op_spent D pak hOP hx).mono (Nat.zero_le _)
  · exact (cop1op_spent D pak fpu k.fpuMode w c).mono hfpu
  · exact (c.perform_free (cop2op_cost w c)).mono (Nat.zero_le _)
  · exact (c.perform_free (immediate_cost w c)).mono (Nat.zero_le _)

theorem xlatTo_spent (v : BitVec 64) (acc : Access) (c : Core Dev) :
    Spent 0 c (c.xlatTo v acc).1 := by
  unfold Core.xlatTo
  rw [xlat_eq_translate]
  split_ifs
  · exact .refl c
  · cases hx : translate false v.toNat acc c.cpu with
    | error e => exact c.fault_spent v e
    | ok r =>
      obtain ⟨-, b, hs⟩ := translate_translated _ _ _ r.1 r.2 hx
      dsimp only
      rw [hs]
      exact .of_meter rfl

theorem reach_spent (v : BitVec 64) (size : Nat) (acc : Access) (c : Core Dev) :
    Spent 0 c (c.reach v size acc).1 := by
  have hx := c.xlatTo_spent v acc
  unfold Core.reach
  split_ifs
  · exact c.fault_spent v _
  · generalize c.xlatTo v acc = r at hx ⊢
    rcases r with ⟨c', none | a⟩
    · exact hx
    · dsimp only
      split_ifs
      · exact ⟨⟨hx.cpu.stall, hx.cpu.dcMiss, hx.cpu.uncached⟩, hx.icMiss, hx.mulDiv⟩
      · exact hx

end Execute

end Core

end Cpu
