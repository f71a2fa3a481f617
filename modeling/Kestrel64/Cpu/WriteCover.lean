import Kestrel64.Cpu.WriteBarrier

/-! # CPU: the Writes of an Instruction

    The events of `Cpu.WriteBarrier` against the state: with the journal of
    the RSP's transfers empty and the devices keeping to themselves, an
    instruction changes no byte of RDRAM, DMEM or IMEM that is not under a
    write of its events (`exec_covered`). With `guarded_iff` this says for
    whole runs when the write barrier is kept.
-/

namespace Cpu

variable {Dev : Type}

section Events

variable {D : Devices Dev} {pak : Pak}

/-! ## Section 1: Covered changes -/

/-- Nothing the RSP can see has changed. -/
structure SameRam (m m' : Mem Dev) : Prop where
  rdram : m'.rdram = m.rdram
  spMem : m'.spMem = m.spMem
  dpLog : m'.dpLog = m.dpLog

/-- The devices keep to their registers. A transfer that one of them starts is
    the device's doing, not the CPU's. -/
structure Devices.Inert (D : Devices Dev) : Prop where
  mmioRead32 : ∀ now a m, SameRam m (D.mmioRead32 now a m).2
  mmioWrite32 : ∀ now a v m, SameRam m (D.mmioWrite32 now a v m)
  cartRead : ∀ now a n m, SameRam m (D.cartRead now a n m).2
  cartWrite : ∀ now a v n m, SameRam m (D.cartWrite now a v n m)
  saveRead : ∀ a n m, SameRam m (D.saveRead a n m).2
  saveWrite : ∀ a v n m, SameRam m (D.saveWrite a v n m)
  isvWrite : ∀ a v n m m', D.isvWrite a v n m = some m' → SameRam m m'
  pifCommand : ∀ m, SameRam m (D.pifCommand m)

/-- A write of the list reaches the byte. -/
def Covers (es : List Ev) (area : Area) (a : Nat) : Prop :=
  ∃ lo n, Ev.write area lo n ∈ es ∧ lo ≤ a ∧ a < lo + n

/-- The bytes that differ are under the writes of the list. The journal has
    nothing to add. -/
structure Covered (es : List Ev) (m m' : Mem Dev) : Prop where
  quiet : m'.dpLog = []
  rdram : ∀ a, m'.rdram a ≠ m.rdram a → Covers es .rdram a
  sp : ∀ a, m'.spMem a ≠ m.spMem a → Covers es .sp a

theorem Covers.mono {es es' : List Ev} {area : Area} {a : Nat} (h : Covers es area a)
    (hsub : ∀ e ∈ es, e ∈ es') : Covers es' area a := by
  obtain ⟨lo, n, hin, hlo, hhi⟩ := h
  exact ⟨lo, n, hsub _ hin, hlo, hhi⟩

theorem Covered.mono {es es' : List Ev} {m m' : Mem Dev} (h : Covered es m m')
    (hsub : ∀ e ∈ es, e ∈ es') : Covered es' m m' :=
  ⟨h.quiet, fun a ha => (h.rdram a ha).mono hsub, fun a ha => (h.sp a ha).mono hsub⟩

theorem Covered.of_same {m m' : Mem Dev} (hq : m.dpLog = []) (h : SameRam m m') (es : List Ev) :
    Covered es m m' :=
  ⟨h.dpLog.trans hq, fun _ ha => absurd (congrFun h.rdram _) ha,
    fun _ ha => absurd (congrFun h.spMem _) ha⟩

theorem SameRam.refl (m : Mem Dev) : SameRam m m := ⟨rfl, rfl, rfl⟩

theorem Covered.trans {es es' : List Ev} {m m₁ m₂ : Mem Dev} (h : Covered es m m₁)
    (h' : Covered es' m₁ m₂) : Covered (es ++ es') m m₂ := by
  refine ⟨h'.quiet, fun a ha => ?_, fun a ha => ?_⟩
  · by_cases hm : m₂.rdram a = m₁.rdram a
    · exact (h.rdram a (hm ▸ ha)).mono fun _ he => List.mem_append_left _ he
    · exact (h'.rdram a hm).mono fun _ he => List.mem_append_right _ he
  · by_cases hm : m₂.spMem a = m₁.spMem a
    · exact (h.sp a (hm ▸ ha)).mono fun _ he => List.mem_append_left _ he
    · exact (h'.sp a hm).mono fun _ he => List.mem_append_right _ he

/-- A device that is asked afterwards adds nothing. -/
theorem Covered.then_same {es : List Ev} {m m₁ m₂ : Mem Dev} (h : Covered es m m₁)
    (h' : SameRam m₁ m₂) : Covered es m m₂ := by
  have ht := h.trans (Covered.of_same h.quiet h' [])
  rw [List.append_nil] at ht
  exact ht

theorem beWrite_ne {f : Nat → Byte} {off n a : Nat} {v : BitVec 64}
    (h : beWrite f off n v a ≠ f a) : off ≤ a ∧ a < off + n := by
  by_contra hin
  exact h (if_neg hin)

/-- A store that lands in a RAM is under its event. -/
theorem setArea_covered {m : Mem Dev} (hq : m.dpLog = []) {addr off rem : Nat} {area : Area}
    (hr : resolve pak addr = some (area, off, rem)) (n : Nat) (v : BitVec 64) :
    Covered (storeEv pak n addr) m (m.setArea (beWrite (m.area area) off n v) area) := by
  unfold resolve at hr
  dsimp only at hr
  split_ifs at hr with hsp hram hpif
  · cases hr
    have hev : storeEv pak n addr = [.write .sp (phys addr % 0x2000) n] :=
      if_pos (inSp_iff.mpr hsp)
    rw [hev]
    refine ⟨hq, fun a ha => absurd rfl ha, fun a ha => ?_⟩
    exact ⟨_, n, List.mem_singleton_self _, beWrite_ne ha⟩
  · cases hr
    have hev : storeEv pak n addr = [.write .rdram (phys addr) n] := by
      unfold storeEv
      dsimp only
      rw [if_neg (fun h => hsp (inSp_iff.mp h)), if_pos hram]
    rw [hev]
    refine ⟨hq, fun a ha => ?_, fun a ha => absurd rfl ha⟩
    exact ⟨_, n, List.mem_singleton_self _, beWrite_ne ha⟩
  · obtain ⟨rfl, -⟩ := Prod.mk.inj (Option.some.inj hr)
    have hsame : SameRam m (m.setArea (beWrite (m.area .pif) off n v) .pif) := ⟨rfl, rfl, rfl⟩
    exact Covered.of_same hq hsame _

theorem busWrite_covered (hD : D.Inert) {m : Mem Dev} (hq : m.dpLog = []) (now n addr : Nat)
    (v : BitVec 32) : Covered (storeEv pak n addr) m (busWrite D pak now n addr v m) := by
  have hmmio : Covered (storeEv pak n addr) m
      (if isMmio (phys addr) then
        if n = 4 then D.mmioWrite32 now (phys addr / 4 * 4) v m else mmioFold D now n (phys addr) v m
      else m) := by
    split_ifs
    · exact Covered.of_same hq (hD.mmioWrite32 ..) _
    · exact (Covered.of_same hq (hD.mmioRead32 ..) _).then_same (hD.mmioWrite32 ..)
    · exact Covered.of_same hq (SameRam.refl m) _
  unfold busWrite
  dsimp only
  split
  · rename_i m' hisv
    split_ifs at hisv
    exact Covered.of_same hq (hD.isvWrite _ _ _ _ _ hisv) _
  by_cases hcart : isCart m (phys addr)
  · rw [if_pos hcart]
    exact Covered.of_same hq (hD.cartWrite ..) _
  by_cases hsave : isSaveDomain (phys addr) && m.saveFitted
  · rw [if_neg hcart, if_pos hsave]
    exact Covered.of_same hq (hD.saveWrite ..) _
  rw [if_neg hcart, if_neg hsave]
  cases hr : resolve pak addr with
  | none => exact hmmio
  | some r =>
    obtain ⟨area, off, rem⟩ := r
    dsimp only
    by_cases hn : n ≤ rem
    · have hset := setArea_covered hq hr n (v.setWidth 64)
      rw [if_pos hn]
      by_cases hpif : n = 4 ∧ phys addr / 4 * 4 = basePifram + 0x3c
      · rw [if_pos hpif]
        exact hset.then_same (hD.pifCommand _)
      · rw [if_neg hpif]
        exact hset
    · rw [if_neg hn]
      exact hmmio

/-- The two words of an aligned doubleword are under one event. -/
theorem storeEv_doubleword {addr : Nat} (h : addr % 8 = 0) {area : Area} {a : Nat}
    (hc : Covers (storeEv pak 4 addr ++ storeEv pak 4 (addr + 4)) area a) :
    Covers (storeEv pak 8 addr) area a := by
  have hphys : phys (addr + 4) = phys addr + 4 := by
    unfold phys
    omega
  have hdvd := pak.size_dvd
  have halign : phys addr % 8 = 0 := by
    unfold phys
    omega
  have hsp : inSp (phys addr + 4) = inSp (phys addr) := by
    rw [Bool.eq_iff_iff, inSp_iff, inSp_iff]
    omega
  obtain ⟨lo, n, hin, hlo, hhi⟩ := hc
  unfold storeEv at hin ⊢
  dsimp only at hin ⊢
  rw [hphys, hsp] at hin
  cases hb : inSp (phys addr) with
  | true =>
    rw [hb] at hin
    simp only [if_true, List.cons_append, List.nil_append, List.mem_cons, List.not_mem_nil,
      or_false, Ev.write.injEq] at hin
    rcases hin with ⟨rfl, rfl, rfl⟩ | ⟨rfl, rfl, rfl⟩
    · exact ⟨_, 8, List.mem_singleton_self _, hlo, by omega⟩
    · exact ⟨_, 8, List.mem_singleton_self _, by omega, by omega⟩
  | false =>
    rw [hb] at hin
    by_cases hram : phys addr < pak.size
    · have hram' : phys addr + 4 < pak.size := by omega
      simp only [Bool.false_eq_true, if_false, if_pos hram, if_pos hram', List.cons_append,
        List.nil_append, List.mem_cons, List.not_mem_nil, or_false, Ev.write.injEq] at hin
      rw [if_pos hram]
      rcases hin with ⟨rfl, rfl, rfl⟩ | ⟨rfl, rfl, rfl⟩
      · exact ⟨_, 8, List.mem_singleton_self _, hlo, by omega⟩
      · exact ⟨_, 8, List.mem_singleton_self _, by omega, by omega⟩
    · have hram' : ¬ phys addr + 4 < pak.size := by omega
      simp [hram, hram'] at hin

theorem write64_covered (hD : D.Inert) {m : Mem Dev} (hq : m.dpLog = []) {addr : Nat}
    (h : addr % 8 = 0) (now : Nat) (v : BitVec 64) :
    Covered (storeEv pak 8 addr) m (write64 D pak now addr v m) := by
  have hhi : Covered (storeEv pak 4 addr) m _ := busWrite_covered hD hq now 4 addr ((v >>> 32).setWidth 32)
  have hlo : Covered (storeEv pak 4 (addr + 4)) _ _ :=
    busWrite_covered hD hhi.quiet now 4 (addr + 4) (v.setWidth 32)
  have hboth := hhi.trans hlo
  exact ⟨hboth.quiet, fun a ha => storeEv_doubleword h (hboth.rdram a ha),
    fun a ha => storeEv_doubleword h (hboth.sp a ha)⟩

theorem busStore_covered (hD : D.Inert) {s : State Dev} (hq : s.mem.dpLog = []) {size pe : Nat}
    (hsize : size = 1 ∨ size = 2 ∨ size = 4 ∨ size = 8) (h : pe % size = 0) (v : BitVec 64) :
    Covered (storeEv pak size pe) s.mem (busStore D pak size pe v s).mem := by
  rcases hsize with rfl | rfl | rfl | rfl
  · exact busWrite_covered hD hq _ 1 pe _
  · exact busWrite_covered hD hq _ 2 pe _
  · exact busWrite_covered hD hq _ 4 pe _
  · exact write64_covered hD hq h _ v

theorem busRead_same (hD : D.Inert) (now n addr : Nat) (m : Mem Dev) :
    SameRam m (busRead D pak now n addr m).2 := by
  have hmmio : SameRam m
      (if isMmio (phys addr) then
        ((D.mmioRead32 now (phys addr / 4 * 4) m).1 >>>
          (8 * (4 - n - phys addr % 4 / n * n)), (D.mmioRead32 now (phys addr / 4 * 4) m).2)
      else ((0 : BitVec 32), m)).2 := by
    split_ifs
    · exact hD.mmioRead32 ..
    · exact SameRam.refl m
  unfold busRead
  dsimp only
  by_cases hcart : isCart m (phys addr)
  · rw [if_pos hcart]
    exact hD.cartRead ..
  by_cases hsave : isSaveDomain (phys addr) && m.saveFitted
  · rw [if_neg hcart, if_pos hsave]
    exact hD.saveRead ..
  rw [if_neg hcart, if_neg hsave]
  cases resolve pak addr with
  | none => exact hmmio
  | some r =>
    dsimp only
    by_cases hn : n ≤ r.2.2
    · rw [if_pos hn]
      exact SameRam.refl m
    · rw [if_neg hn]
      exact hmmio

theorem SameRam.trans {m m₁ m₂ : Mem Dev} (h : SameRam m m₁) (h' : SameRam m₁ m₂) :
    SameRam m m₂ :=
  ⟨h'.rdram.trans h.rdram, h'.spMem.trans h.spMem, h'.dpLog.trans h.dpLog⟩

theorem ramSettle_of_quiet {s : State Dev} (h : s.mem.dpLog = []) (pe size : Nat) :
    ramSettle D pak pe size s = s := by
  unfold ramSettle
  rw [settle_of_quiet h]
  split_ifs <;> rfl

theorem uncachedRead_same (hD : D.Inert) {s : State Dev} (hq : s.mem.dpLog = []) (pe size : Nat) :
    SameRam s.mem (uncachedRead D pak pe size s).2.mem := by
  unfold uncachedRead
  dsimp only
  rw [ramSettle_of_quiet hq]
  unfold busLoad
  dsimp only
  split_ifs
  · exact busRead_same hD ..
  · exact busRead_same hD ..
  · exact busRead_same hD ..
  · exact SameRam.trans (busRead_same hD ..) (busRead_same hD ..)

/-! ## Section 2: One instruction -/

/-! ### The data cache -/

theorem flush_covered {s : State Dev} (hq : s.mem.dpLog = []) (idx : Nat) :
    Covered (dcMissEv pak idx s) s.mem (dcFlush D pak idx s).mem := by
  obtain hf | ⟨hv, hd⟩ := (s.dcache idx).flushed_or
  · rw [dcFlush_of_flushed hf]
    exact Covered.of_same hq (SameRam.refl _) _
  rw [dcFlush_dirty hq hv hd]
  refine ⟨hq, fun a ha => ?_, fun a ha => absurd rfl ha⟩
  have hin : (s.dcache idx).ptag ≤ a ∧ a < (s.dcache idx).ptag + 16 ∧ a < pak.size := by
    by_contra hout
    exact ha (if_neg hout)
  have hlt : (s.dcache idx).ptag < pak.size := by omega
  have hev : dcMissEv pak idx s = [.write .rdram (s.dcache idx).ptag 16] := by
    unfold dcMissEv
    simp [hv, hd, hlt]
  rw [hev]
  exact ⟨_, 16, List.mem_singleton_self _, hin.1, hin.2.1⟩

/-- `dcFlush` makes the same writes as the copy in `dcMiss`. -/
theorem dcMissEv_sub (idx : Nat) (s : State Dev) :
    ∀ e ∈ dcMissEv pak idx s, e ∈ dcFlushEv pak idx s := by
  intro e he
  unfold dcMissEv dcFlushEv at *
  dsimp only at he ⊢
  by_cases hc : (s.dcache idx).dirty && (s.dcache idx).valid && (s.dcache idx).ptag < pak.size
  · rw [if_pos hc] at he
    simp only [Bool.and_eq_true, decide_eq_true_eq] at hc
    obtain ⟨⟨hd, hv⟩, hlt⟩ := hc
    simp only [hd, hv, hlt, Bool.and_self, if_true]
    exact List.mem_cons_of_mem _ he
  · rw [if_neg hc] at he
    cases he

theorem miss_covered {s : State Dev} (hq : s.mem.dpLog = []) (idx base : Nat) :
    Covered (dcMissEv pak idx s) s.mem (dcMiss D pak idx base s).mem := by
  have hf : Covered (dcMissEv pak idx s) s.mem (dcFlush D pak idx s).mem := flush_covered hq idx
  rw [dcMiss_eq hq, dcFill_quiet hf.quiet]
  exact hf

theorem touch_covered {s : State Dev} (hq : s.mem.dpLog = []) (pe : Nat) :
    Covered (dcTouchEv pak pe s) s.mem (dcTouch D pak pe s).mem := by
  unfold dcTouchEv dcTouch
  dsimp only
  split_ifs
  · exact miss_covered hq _ _
  · exact Covered.of_same hq (SameRam.refl _) _

/-! ### Loads and stores -/

theorem read_covered (hD : D.Inert) {s : State Dev} (hq : s.mem.dpLog = []) (size a p : Nat) :
    Covered (readEv D pak size a p s) s.mem
      (if inRdram pak a (busAddr s.status p size) s
        then dcRead D pak (busAddr s.status p size) size s
        else uncachedRead D pak (busAddr s.status p size) size s).2.mem := by
  unfold readEv
  dsimp only
  split_ifs
  · exact touch_covered hq _
  · exact Covered.of_same hq (uncachedRead_same hD hq _ _) _

theorem cacheOrBus_covered (hD : D.Inert) {s s' : State Dev} (hq : s.mem.dpLog = [])
    (hs : s' = s) {size pe : Nat} (hsize : size = 1 ∨ size = 2 ∨ size = 4 ∨ size = 8)
    (h : pe % size = 0) (a : Nat) (v : BitVec 64) :
    Covered (if inRdram pak a pe s then dcTouchEv pak pe s else storeEv pak size pe) s.mem
      (cacheOrBus D pak size a pe v s s').mem := by
  unfold cacheOrBus
  split_ifs
  · exact touch_covered hq pe
  · rw [hs]
    exact busStore_covered hD hq hsize h v

theorem write_covered (hD : D.Inert) {s : State Dev} (hq : s.mem.dpLog = []) {size p : Nat}
    (hsize : size = 1 ∨ size = 2 ∨ size = 4 ∨ size = 8)
    (h : busAddr s.status p size % size = 0) (a : Nat) (v : BitVec 64) :
    Covered (writeEv pak size a p s) s.mem
      (cacheOrBus D pak size a (busAddr s.status p size) v s
        (ramSettle D pak (busAddr s.status p size) size s)).mem := by
  refine (cacheOrBus_covered hD hq (ramSettle_of_quiet hq _ _) hsize h a v).mono ?_
  unfold writeEv
  dsimp only
  split_ifs
  · exact fun _ he => he
  · exact fun _ he => List.mem_append_right _ he

/-- The broadcast stays inside the page. -/
theorem repeatRam_ne {page size unit : Nat} {w : BitVec 64}
    (js : List Nat) (a₀ : Nat) (ram : Nat → Byte) {x : Nat}
    (h : js.foldl (fun ram i =>
        if page + (a₀ + i) % 0x800 < size then
          fun y => if y = page + (a₀ + i) % 0x800 then beByte w unit ((a₀ + i) % unit) else ram y
        else ram) ram x ≠ ram x) : page ≤ x ∧ x < page + 0x800 := by
  induction js generalizing ram with
  | nil => exact absurd rfl h
  | cons j js ih =>
    rw [List.foldl_cons] at h
    by_cases hx : x = page + (a₀ + j) % 0x800
    · have := Nat.mod_lt (a₀ + j) (show 0 < 0x800 by decide)
      omega
    · refine ih _ fun heq => h (heq.trans ?_)
      split_ifs
      · exact if_neg hx
      · rfl

theorem repeat_covered {s : State Dev} (hq : s.mem.dpLog = []) {p : Nat}
    (hhit : repeatHit pak p s = true) (reg : BitVec 64) (sz : Nat) (last : State Dev) :
    Covered (repeatEv (storePhys p) s) s.mem
      ((storeRepeat D pak (storePhys p) reg sz s).getD last).mem := by
  rw [repeatHit, Bool.and_eq_true, decide_eq_true_iff] at hhit
  unfold storeRepeat
  rw [hhit.1, if_neg (by decide), if_neg (Nat.not_le.mpr hhit.2)]
  have hs : ∀ lo hi, dmaSettle D pak s.cartNow lo hi { s.mem with miRepeatOn := false } =
      { s.mem with miRepeatOn := false } := by
    intro lo hi
    apply dmaSettle_of_not_due
    unfold settleDue
    dsimp only
    rw [hq]
    exact Bool.and_false _
  refine ⟨?_, fun a ha => ?_, fun a ha => ?_⟩
  · dsimp only [Option.getD_some, miRepeatStore]
    rw [hs]
    exact hq
  · dsimp only [Option.getD_some, miRepeatStore] at ha
    rw [hs] at ha
    exact ⟨_, 0x800, List.mem_cons_of_mem _ (List.mem_singleton_self _), repeatRam_ne _ _ _ ha⟩
  · dsimp only [Option.getD_some, miRepeatStore] at ha
    rw [hs] at ha
    exact absurd rfl ha

theorem quirk_covered (hD : D.Inert) {s : State Dev} (hq : s.mem.dpLog = []) {pm w : Nat}
    (hw : w ≠ 4) (hrange : quirkRange pm = true) (reg : BitVec 64) (last : State Dev) :
    Covered (quirkEv pak pm s) s.mem ((storeQuirk D pak pm reg w s).getD last).mem := by
  unfold storeQuirk wordStoreQuirk quirkEv
  have hc : (!quirkRange pm || w == 4) = false := by
    rw [hrange, beq_eq_false_iff_ne.mpr hw]
    rfl
  rw [hc]
  exact (busWrite_covered hD hq _ 4 _ _).mono fun _ he => List.mem_append_right _ he

theorem storeQuirk_none {pm w : Nat} (h : quirkRange pm = false) (reg : BitVec 64) (s : State Dev) :
    storeQuirk D pak pm reg w s = none := by
  unfold storeQuirk wordStoreQuirk
  rw [h]
  rfl

theorem storeCart_none {pm w : Nat} {s : State Dev} (h : isCart s.mem pm = false)
    (reg : BitVec 64) : storeCart D pm reg w s = none := by
  unfold storeCart
  rw [h]
  rfl

theorem cart_covered (hD : D.Inert) {s : State Dev} (hq : s.mem.dpLog = []) {pm w : Nat}
    (h : isCart s.mem pm = true) (reg : BitVec 64) (last : State Dev) :
    Covered [] s.mem ((storeCart D pm reg w s).getD last).mem := by
  unfold storeCart
  rw [h]
  exact Covered.of_same hq (hD.cartWrite ..) _

/-- One rung of the ladder. -/
theorem rung_covered {c : Bool} {es rest : List Ev} {m : Mem Dev} {o : Option (State Dev)}
    {last : State Dev} (h : c = true → Covered es m (o.getD last).mem)
    (hnone : c = false → o = none) (hrest : c = false → Covered rest m last.mem) :
    Covered (if c then es else rest) m (o.getD last).mem := by
  cases c with
  | true => exact h rfl
  | false =>
    rw [hnone rfl]
    exact hrest rfl

theorem busAddr_aligned {size p : Nat} (hsize : size = 1 ∨ size = 2 ∨ size = 4 ∨ size = 8)
    (h : p % size = 0) (st : Nat) : busAddr st p size % size = 0 := by
  unfold busAddr reXor
  rcases hsize with rfl | rfl | rfl | rfl
  · exact Nat.mod_one _
  · have hx : (p ^^^ (8 - 2)) % 2 ^ 1 = 0 := by
      rw [Nat.xor_mod_two_pow]
      simp [h]
    split_ifs <;> omega
  · have hx : (p ^^^ (8 - 4)) % 2 ^ 2 = 0 := by
      rw [Nat.xor_mod_two_pow]
      simp [h]
    split_ifs <;> omega
  · rw [if_pos rfl]
    omega

theorem Op.size_cases (op : Op) : op.size = 1 ∨ op.size = 2 ∨ op.size = 4 ∨ op.size = 8 := by
  cases op <;> decide

theorem gate_mem {v size : Nat} {acc : Access} {s : State Dev} {r : Nat × State Dev}
    (h : gate v size acc s = .ok r) : r.2.mem = s.mem := by
  obtain ⟨c, hc⟩ := gate_frame h
  rw [hc]

theorem gate_aligned {v size : Nat} {acc : Access} {s : State Dev} {r : Nat × State Dev}
    (hdvd : size ∣ 2 ^ 12) (h : gate v size acc s = .ok r) : r.1 % size = 0 := by
  unfold gate at h
  split_ifs at h with halign
  have hp := (translate_translated v acc s r.1 r.2 h).1.offset
  rw [← Nat.mod_mod_of_dvd r.1 hdvd, hp, Nat.mod_mod_of_dvd _ hdvd]
  exact not_not.mp halign

theorem store_covered (hD : D.Inert) {s : State Dev} (hq : s.mem.dpLog = []) {i : Instr} {p : Nat}
    (hst : i.op.store = true) (h : p % i.op.size = 0) (a : Nat) :
    Covered (storeEvAt pak i a p s) s.mem (storeAt D pak i a p s).mem := by
  have halign := busAddr_aligned i.op.size_cases h s.status
  have hrep : ∀ sz reg last, repeatHit pak p s = true → Covered (repeatEv (storePhys p) s) s.mem
      ((storeRepeat D pak (storePhys p) reg sz s).getD last).mem :=
    fun sz reg last hhit => repeat_covered hq hhit reg sz last
  have hnorep : ∀ sz reg, repeatHit pak p s = false →
      storeRepeat D pak (storePhys p) reg sz s = none :=
    fun sz reg hhit => storeRepeat_of_not_hit D pak hhit reg sz
  have hlast : Covered (writeEv pak i.op.size a p s) s.mem _ :=
    write_covered hD hq i.op.size_cases halign a (storeVal i s)
  have hdirect : Covered (if inRdram pak a _ s then dcTouchEv pak _ s else storeEv pak i.op.size _)
      s.mem _ := cacheOrBus_covered hD hq rfl i.op.size_cases halign a (storeVal i s)
  have hone : (1 : Nat) ≠ 4 := by decide
  have htwo : (2 : Nat) ≠ 4 := by decide
  have height : (8 : Nat) ≠ 4 := by decide
  obtain ⟨op, rs, rt, simm⟩ := i
  cases op with
  | sw => exact rung_covered (hrep _ _ _) (hnorep _ _) fun _ => hlast
  | swc1 => exact hlast
  | sdc1 => exact hlast
  | sd =>
    exact rung_covered (hrep _ _ _) (hnorep _ _) fun _ =>
      rung_covered (fun hr => quirk_covered hD hq height hr _ _)
        (fun hr => storeQuirk_none hr _ s) fun _ => hdirect
  | sb =>
    exact rung_covered (hrep _ _ _) (hnorep _ _) fun _ =>
      rung_covered (fun hr => cart_covered hD hq hr _ _) (fun hr => storeCart_none hr _) fun _ =>
      rung_covered (fun hr => quirk_covered hD hq hone hr _ _)
        (fun hr => storeQuirk_none hr _ s) fun _ => hlast
  | sh =>
    exact rung_covered (hrep _ _ _) (hnorep _ _) fun _ =>
      rung_covered (fun hr => cart_covered hD hq hr _ _) (fun hr => storeCart_none hr _) fun _ =>
      rung_covered (fun hr => quirk_covered hD hq htwo hr _ _)
        (fun hr => storeQuirk_none hr _ s) fun _ => hlast
  | _ => cases hst

theorem set_mem (s : State Dev) (i : Fin 32) (v : BitVec 64) : (s.set i v).mem = s.mem := by
  unfold State.set
  split_ifs <;> rfl

theorem loadInto_mem (op : Op) (rt : Fin 32) (raw : BitVec 64) (s : State Dev) :
    (loadInto op rt raw s).mem = s.mem := by
  cases op <;> simp only [loadInto, set_mem, State.fprSet32, State.fprSet64, State.setFpr] <;>
    split_ifs <;> rfl

theorem execute_covered (hD : D.Inert) {m : Machine Dev} (hq : m.cpu.mem.dpLog = []) (i : Instr) :
    Covered (m.events D pak (.access i)) m.cpu.mem (m.exec D pak (.access i)).cpu.mem := by
  dsimp only [Machine.events, Machine.exec]
  rw [execute_eq]
  unfold accessEv
  cases hacc : i.access m.cpu with
  | error e => exact Covered.of_same hq (SameRam.refl _) _
  | ok r =>
    obtain ⟨p, s'⟩ := r
    have halign := access_aligned hacc
    have hmem := gate_mem (access_gate hacc)
    rw [← hmem] at hq
    rw [← hmem]
    dsimp only [Except.map]
    unfold interpAt
    cases hst : i.op.store with
    | true => exact store_covered hD hq hst halign _
    | false =>
      simp only [Bool.false_eq_true, if_false, loadAt, loadInto_mem]
      exact read_covered hD hq _ _ _

/-! ### The other instructions -/

theorem readN_covered (hD : D.Inert) {s s' : State Dev} (hq : s.mem.dpLog = []) {w : Nat}
    {v d : BitVec 64} (h : readN D pak w v s = .ok (d, s')) :
    Covered (readNEv D pak w v.toNat s) s.mem s'.mem := by
  rw [readN_eq] at h
  unfold readNEv
  cases hg : gate v.toNat w .read s with
  | error e => rw [hg] at h; cases h
  | ok r =>
    have hmem := gate_mem hg
    rw [hg] at h
    have heq := congrArg Prod.snd (Except.ok.inj h)
    dsimp only at heq
    rw [← heq, ← hmem]
    exact read_covered hD (hmem ▸ hq) w v.toNat r.1

theorem writeN_covered (hD : D.Inert) {s s' : State Dev} (hq : s.mem.dpLog = []) {w : Nat}
    (hw : w = 4 ∨ w = 8) {v x : BitVec 64} (h : writeN D pak w v x s = .ok s') :
    Covered (writeNEv pak w v.toNat s) s.mem s'.mem := by
  have heq : writeN D pak w v x s = (gate v.toNat w .write s).map fun r =>
      cacheOrBus D pak w v.toNat (busAddr r.2.status r.1 w) x r.2
        (ramSettle D pak (busAddr r.2.status r.1 w) w r.2) := alignBad_xlat ..
  rw [heq] at h
  unfold writeNEv
  cases hg : gate v.toNat w .write s with
  | error e => rw [hg] at h; cases h
  | ok r =>
    have hsize : w = 1 ∨ w = 2 ∨ w = 4 ∨ w = 8 := by omega
    have hdvd : w ∣ 2 ^ 12 := by rcases hw with rfl | rfl <;> decide
    have hmem := gate_mem hg
    rw [hg] at h
    rw [← Except.ok.inj h, ← hmem]
    exact write_covered hD (hmem ▸ hq) hsize
      (busAddr_aligned hsize (gate_aligned hdvd hg) _) v.toNat x

theorem storeUnaligned_covered (hD : D.Inert) {s : State Dev} (hq : s.mem.dpLog = []) (op : UnOp)
    (rt : Fin 32) (a : BitVec 64) :
    Covered (storeUnalignedEv D pak op a s) s.mem (storeUnaligned D pak op rt a s).mem := by
  have hw : op.width = 4 ∨ op.width = 8 := by cases op <;> decide
  unfold storeUnalignedEv storeUnaligned
  dsimp only
  cases hx : xlat a.toNat .write s with
  | error e => exact Covered.of_same hq (SameRam.refl _) _
  | ok r =>
    obtain ⟨p, s₀⟩ := r
    have hmem : s₀.mem = s.mem := by
      rw [xlat_eq_translate] at hx
      obtain ⟨c, hc⟩ := (translate_translated _ _ _ _ _ hx).2
      rw [hc]
    rw [← hmem] at hq ⊢
    dsimp only
    cases hr : readN D pak op.width (alignDown a op.width) s₀ with
    | error e => exact Covered.of_same hq (SameRam.refl _) _
    | ok q =>
      obtain ⟨d, s₁⟩ := q
      have hread := readN_covered hD hq hr
      dsimp only
      refine hread.trans ?_
      generalize op.stored (op.shift s₁.status a.toNat) (s₁.gpr rt) d = x
      cases hwr : writeN D pak op.width (alignDown a op.width) x s₁ with
      | error e => exact Covered.of_same hread.quiet (SameRam.refl _) _
      | ok s₂ => exact writeN_covered hD hread.quiet hw hwr

theorem loadUnaligned_covered (hD : D.Inert) {s : State Dev} (hq : s.mem.dpLog = []) (op : UnOp)
    (rt : Fin 32) (a : BitVec 64) :
    Covered (readNEv D pak op.width (alignDown a op.width).toNat s) s.mem
      (loadUnaligned D pak op rt a s).mem := by
  unfold loadUnaligned
  cases hr : readN D pak op.width (alignDown a op.width) s with
  | error e => exact Covered.of_same hq (SameRam.refl _) _
  | ok q =>
    dsimp only
    rw [set_mem]
    exact readN_covered hD hq hr

theorem linked_covered (hD : D.Inert) {m : Machine Dev} (hq : m.cpu.mem.dpLog = []) (w : Nat)
    (rt : Fin 32) (a : BitVec 64) :
    Covered (readNEv D pak w a.toNat m.cpu) m.cpu.mem (loadLinked D pak w rt a m).cpu.mem := by
  unfold loadLinked
  split
  · rename_i hg hr
    dsimp only
    rw [set_mem]
    exact readN_covered hD hq hr
  · exact Covered.of_same hq (SameRam.refl _) _

theorem conditional_covered (hD : D.Inert) {m : Machine Dev} (hq : m.cpu.mem.dpLog = []) {w : Nat}
    (hw : w = 4 ∨ w = 8) (rt : Fin 32) (a : BitVec 64) :
    Covered (if m.llbit then writeNEv pak w a.toNat m.cpu else []) m.cpu.mem
      (storeConditional D pak w rt a m).cpu.mem := by
  unfold storeConditional
  generalize (if w = 8 then m.cpu.gpr rt else zext ((m.cpu.gpr rt).setWidth 32)) = x
  by_cases ha : a.toNat % w ≠ 0
  · rw [if_pos ha]
    exact Covered.of_same hq (SameRam.refl _) _
  rw [if_neg ha]
  cases m.llbit with
  | true =>
    rw [if_pos rfl, if_pos rfl]
    cases hwr : writeN D pak w a x m.cpu with
    | error e => exact Covered.of_same hq (SameRam.refl _) _
    | ok s =>
      dsimp only
      rw [set_mem]
      exact writeN_covered hD hq hw hwr
  | false =>
    have hsame : SameRam m.cpu.mem (m.cpu.set rt 0).mem := by
      rw [set_mem]
      exact SameRam.refl _
    exact Covered.of_same hq hsame _

theorem cacheOpD_covered {s : State Dev} (hq : s.mem.dpLog = []) (fn : DCacheFn)
    (vaddr tagLo : Nat) :
    Covered (cacheOpDEv pak fn vaddr s) s.mem (cacheOpD D pak fn vaddr tagLo s).2.mem := by
  have hflush : ∀ idx, Covered (dcFlushEv pak idx s) s.mem (dcFlush D pak idx s).mem :=
    fun idx => (flush_covered hq idx).mono (dcMissEv_sub idx s)
  have hsame : ∀ es, Covered es s.mem s.mem := Covered.of_same hq (SameRam.refl _)
  unfold cacheOpDEv cacheOpD
  cases fn with
  | indexWritebackInvalidate => exact hflush _
  | createDirtyExclusive =>
    dsimp only [setLine_mem]
    split_ifs
    · exact hflush _
    · exact hsame _
  | hitWritebackInvalidate | hitWriteback =>
    dsimp only
    split_ifs
    · exact hflush _
    · exact hsame _
  | hitInvalidate =>
    dsimp only
    split_ifs <;> exact hsame _
  | _ => exact hsame _

theorem cacheOpI_covered {m : Machine Dev} (hq : m.cpu.mem.dpLog = []) (fn : ICacheFn)
    (vaddr : Nat) :
    Covered (cacheOpIEv pak fn vaddr m) m.cpu.mem (cacheOpI D pak fn vaddr m).cpu.mem := by
  have hsame : ∀ es, Covered es m.cpu.mem m.cpu.mem := Covered.of_same hq (SameRam.refl _)
  unfold cacheOpIEv cacheOpI
  cases fn with
  | hitWriteback =>
    dsimp only
    generalize m.icache (vaddr % 2 ^ 29 / 32 % 512) = l
    rw [settle_of_quiet hq]
    by_cases hhit : l.valid && l.ptag == vaddr % 2 ^ 29 / 32 * 32
    · rw [hhit, Bool.true_and, if_pos rfl]
      refine ⟨hq, fun a ha => ?_, fun a ha => absurd rfl ha⟩
      have hin : l.ptag ≤ a ∧ a < l.ptag + 32 ∧ a < pak.size := by
        by_contra hout
        exact ha (if_neg hout)
      rw [if_pos (decide_eq_true (by omega))]
      exact ⟨_, 32, List.mem_singleton_self _, hin.1, hin.2.1⟩
    · rw [if_neg hhit]
      exact hsame _
  | fill =>
    dsimp only [icFill, Machine.setILine]
    rw [settle_of_quiet hq]
    exact hsame _
  | hitInvalidate =>
    dsimp only
    split_ifs <;> exact hsame _
  | _ => exact hsame _

theorem cache_covered {m : Machine Dev} (hq : m.cpu.mem.dpLog = []) (op : Fin 32)
    (a : BitVec 64) :
    Covered (execCacheEv pak op a m) m.cpu.mem (execCache D pak op a m).cpu.mem := by
  unfold execCacheEv execCache
  by_cases hpriv : cpuMode m.cpu.status ≠ 0 && !m.cpu.status.testBit 28
  · rw [if_pos hpriv, if_pos hpriv]
    exact Covered.of_same hq (SameRam.refl _) _
  rw [if_neg hpriv, if_neg hpriv]
  cases hx : translate false a.toNat .read m.cpu with
  | error e => exact Covered.of_same hq (SameRam.refl _) _
  | ok r =>
    obtain ⟨p, s⟩ := r
    have hmem : s.mem = m.cpu.mem := by
      obtain ⟨c, hc⟩ := (translate_translated _ _ _ _ _ hx).2
      rw [hc]
    dsimp only
    unfold cacheOp
    rw [← hmem] at hq ⊢
    split_ifs
    · exact cacheOpD_covered hq _ _ _
    · exact cacheOpI_covered hq _ _

/-- With the journal empty and the devices inert, every byte an instruction
    changes is under a write of its events. -/
theorem exec_covered (hD : D.Inert) {m : Machine Dev} (hq : m.cpu.mem.dpLog = [])
    (i : MemInstr) :
    Covered (m.events D pak i) m.cpu.mem (m.exec D pak i).cpu.mem := by
  cases i with
  | access i => exact execute_covered hD hq i
  | unaligned op rs rt simm =>
    dsimp only [Machine.events, Machine.exec]
    split_ifs
    · exact Covered.of_same hq (SameRam.refl _) _
    · exact storeUnaligned_covered hD hq op rt _
    · exact loadUnaligned_covered hD hq op rt _
  | linked op rs rt simm =>
    have hw : op.width = 4 ∨ op.width = 8 := by cases op <;> decide
    dsimp only [Machine.events, Machine.exec]
    by_cases hres : reservedWidth op.width m.cpu
    · rw [if_pos hres, if_pos hres]
      exact Covered.of_same hq (SameRam.refl _) _
    rw [if_neg hres, if_neg hres]
    cases op.store with
    | true => exact conditional_covered hD hq hw rt _
    | false => exact linked_covered hD hq _ rt _
  | cache op rs simm => exact cache_covered hq op _

end Events

/-! ## Section 3: Runs -/

/-- One turn of the machine: an instruction that reaches the data cache or the
    bus, or anything else. -/
inductive CpuAction where
  | mem (i : MemInstr)
  | other

/-- The machine under any sequence of instructions. What happens between two
    memory instructions is left open. -/
def cpuSystem (D : Devices Dev) (pak : Pak) : LTS.System (Machine Dev) CpuAction where
  init := fun _ => True
  step := fun m l m' =>
    match l with
    | .mem i => m' = m.exec D pak i
    | .other => True

/-- The step keeps the barrier: each of its writes to RDRAM, DMEM and IMEM has
    a call before it and after the write before, and it changes no byte but
    under these writes. -/
def KeepsBarrier (D : Devices Dev) (pak : Pak) (m : Machine Dev) (l : CpuAction)
    (m' : Machine Dev) : Prop :=
  match l with
  | .mem i =>
    guarded false (m.events D pak i) = true ∧
      (D.Inert → m.cpu.mem.dpLog = [] → Covered (m.events D pak i) m.cpu.mem m'.cpu.mem)
  | .other => True

/-- The step takes no route without a barrier. -/
def NoLeak (pak : Pak) (m : Machine Dev) : CpuAction → Prop
  | .mem i => m.leaks pak i = false
  | .other => True

theorem keepsBarrier_iff (D : Devices Dev) (pak : Pak) {m m' : Machine Dev} {l : CpuAction}
    (h : (cpuSystem D pak).step m l m') : KeepsBarrier D pak m l m' ↔ NoLeak pak m l := by
  cases l with
  | other => exact Iff.rfl
  | mem i =>
    obtain rfl : m' = m.exec D pak i := h
    unfold KeepsBarrier NoLeak
    dsimp only
    rw [guarded_iff, Bool.not_eq_true']
    exact ⟨fun hk => hk.1, fun hn => ⟨hn, fun hD hq => exec_covered hD hq i⟩⟩

/-- **In every run the barrier is kept at every step exactly when no step
    takes one of the four routes.** -/
theorem writes_guarded (D : Devices Dev) (pak : Pak) {tr : List (Machine Dev × CpuAction)}
    {m : Machine Dev} (hrun : (cpuSystem D pak).Run tr m) :
    (∀ t ∈ LTS.stepsOf tr m, KeepsBarrier D pak t.1 t.2.1 t.2.2) ↔
      ∀ t ∈ LTS.stepsOf tr m, NoLeak pak t.1 t.2.1 := by
  have hstep := hrun.steps
  constructor
  · intro h t ht
    exact (keepsBarrier_iff D pak (hstep t ht)).mp (h t ht)
  · intro h t ht
    exact (keepsBarrier_iff D pak (hstep t ht)).mpr (h t ht)

/-- Both caches empty. -/
def coldMachine : Machine Unit where
  cpu := coldState
  icache := fun _ => { ptag := 0, valid := false, seq := 0, data := fun _ => 0 }
  icSeq := 0
  icMissCycles := 24
  tagLo := 0
  llbit := false
  llAddr := 0

/-- `sw r0, 0x10(r0)` through KSEG1. -/
def swUncached : MemInstr := .access { op := .sw, rs := 0, rt := 0, simm := 0xffffffffa0000010 }

theorem writes_guarded_uncached :
    KeepsBarrier noDevices .base coldMachine (CpuAction.mem swUncached)
      (coldMachine.exec noDevices .base swUncached) := by
  have hrun : (cpuSystem noDevices .base).Run [(coldMachine, CpuAction.mem swUncached)]
      (coldMachine.exec noDevices .base swUncached) := .step (.init trivial) rfl
  have hall := (writes_guarded noDevices .base hrun).mpr fun t ht => by
    rw [List.mem_singleton.mp ht]
    with_unfolding_all rfl
  exact hall _ (List.mem_singleton_self _)

/-- `sw r0, 0x10(r0)` through KSEG0: the line is dirty afterwards. -/
def swCached : MemInstr := .access { op := .sw, rs := 0, rt := 0, simm := 0xffffffff80000010 }

/-- `lw r1, 0x2010(r0)` through KSEG0: the same index of the data cache. -/
def lwConflict : MemInstr := .access { op := .lw, rs := 0, rt := 1, simm := 0xffffffff80002010 }

def dirtyMachine : Machine Unit := coldMachine.exec noDevices .base swCached

/-- `sd r0, 0x10(r0)` through KSEG1. -/
def sdUncached : MemInstr := .access { op := .sd, rs := 0, rt := 0, simm := 0xffffffffa0000010 }

/-- `sw r0` to an uncached xkphys address 512 MB up. -/
def swAliased : MemInstr := .access { op := .sw, rs := 0, rt := 0, simm := 0x9000000020000010 }

/-- Kernel mode with 64-bit addressing. -/
def wideMachine : Machine Unit := { coldMachine with cpu := { coldState with status := 0x34000080 } }

/-- `CACHE` Fill and Hit_Writeback on the instruction cache. -/
def icFillInstr : MemInstr := .cache 20 0 0xffffffff80000000
def icWritebackInstr : MemInstr := .cache 24 0 0xffffffff80000000

/-- The line was filled before the word under it was stored. -/
def staleMachine : Machine Unit :=
  (coldMachine.exec noDevices .base icFillInstr).exec noDevices .base swUncached

/-- The instruction changes the byte at `a` of RDRAM without a barrier. -/
def Leaks (m : Machine Unit) (i : MemInstr) (a : Nat) : Prop :=
  guarded false (m.events noDevices .base i) = false ∧
    (m.exec noDevices .base i).cpu.mem.rdram a ≠ m.cpu.mem.rdram a

theorem four_routes_leak :
    ¬ (∀ t ∈ LTS.stepsOf
          [(dirtyMachine, CpuAction.mem lwConflict), (coldMachine, CpuAction.mem swCached)]
          (dirtyMachine.exec noDevices .base lwConflict),
        KeepsBarrier noDevices .base t.1 t.2.1 t.2.2) ∧
      Leaks dirtyMachine lwConflict 0x10 ∧ Leaks coldMachine sdUncached 0x10 ∧
      Leaks wideMachine swAliased 0x10 ∧ Leaks staleMachine icWritebackInstr 0x10 := by
  have hevict : guarded false (dirtyMachine.events noDevices .base lwConflict) = false := by
    with_unfolding_all rfl
  refine ⟨fun h => ?_, ⟨hevict, by with_unfolding_all decide⟩,
    ⟨by with_unfolding_all rfl, by with_unfolding_all decide⟩,
    ⟨by with_unfolding_all rfl, by with_unfolding_all decide⟩,
    ⟨by with_unfolding_all rfl, by with_unfolding_all decide⟩⟩
  have hk := (h _ (List.mem_cons_self ..)).1
  rw [hevict] at hk
  cases hk

end Cpu
