import Kestrel64.Cpu.LoadStore

/-! # CPU: Dynarec Helpers against the Interpreter

    All three ladders start with the same gates: reserved opcode, unusable
    coprocessor, alignment, translation. `Instr.access` is these gates as one
    function, `execute_eq`, `jitMem_eq` and `jitMemOp_eq` say that each copy
    runs them and only then touches the machine.

    Behind the gates the loads are one function. The stores are not: three
    opcodes take rungs in a helper that the interpreter does not have.

    * `SWC1` and `SDC1` fire the MI repeat arm.
    * `SDC1` drops its low word on the RCP's RAMs and registers.
    * `SD` outside the cache settles the journal first.

    `helpers_iff` says that these are all: a helper and the interpreter agree
    exactly where none of the three makes a difference.
-/

namespace Cpu

variable {Dev : Type}

/-! ## Section 1: The gates -/

/-- Alignment and translation. -/
def gate (v size : Nat) (acc : Access) (s : State Dev) : Except Exc (Nat × State Dev) :=
  if v % size ≠ 0 then .error (.addressError acc) else translate false v acc s

/-- The checks in front of an access: a fault, or the physical address. -/
def Instr.access (i : Instr) (s : State Dev) : Except Exc (Nat × State Dev) :=
  if i.op.is64 && reserved64 s.status then .error .reservedInstruction
  else if i.op.isFp && !s.status.testBit 29 then .error .copUnusable
  else gate (i.addr s).toNat i.op.size i.op.access s

theorem Op.size_dvd (op : Op) : op.size ∣ 2 ^ 12 := by cases op <;> decide

/-- The gates change nothing but the latched cache attribute. -/
theorem gate_frame {v size : Nat} {acc : Access} {s : State Dev} {r : Nat × State Dev}
    (h : gate v size acc s = .ok r) : ∃ c, r.2 = { s with xlatCacheable := c } := by
  unfold gate at h
  split_ifs at h
  exact (translate_translated v acc s r.1 r.2 h).2

theorem access_gate {i : Instr} {s : State Dev} {r : Nat × State Dev} (h : i.access s = .ok r) :
    gate (i.addr s).toNat i.op.size i.op.access s = .ok r := by
  unfold Instr.access at h
  split_ifs at h
  exact h

/-- What passes the gates is aligned on the bus too. -/
theorem access_aligned {i : Instr} {s : State Dev} {r : Nat × State Dev}
    (h : i.access s = .ok r) : r.1 % i.op.size = 0 := by
  have hg := access_gate h
  unfold gate at hg
  split_ifs at hg with halign
  have hp := (translate_translated _ _ _ r.1 r.2 hg).1.offset
  rw [← Nat.mod_mod_of_dvd r.1 i.op.size_dvd, hp, Nat.mod_mod_of_dvd _ i.op.size_dvd]
  exact not_not.mp halign

theorem alignBad_xlat {α : Type} (v size : Nat) (acc : Access) (s : State Dev)
    (f : Nat × State Dev → α) :
    (do alignBad v size acc; let r ← xlat v acc s; return f r) = (gate v size acc s).map f := by
  rw [xlat_eq_translate]
  unfold alignBad gate
  split_ifs
  · cases translate false v acc s <;> rfl
  · rfl

theorem map_bind_pure {α β γ : Type} (x : Except Exc α) (f : α → β) (g : β → γ) :
    (do let r ← x.map f; return g r) = x.map fun r => g (f r) := by
  cases x <;> rfl

theorem map_congr {α β : Type} {x : Except Exc α} {f g : α → β}
    (h : ∀ r, x = .ok r → f r = g r) : x.map f = x.map g := by
  cases x with
  | error e => rfl
  | ok r => exact congrArg Except.ok (h r rfl)

/-! ## Section 2: Behind the gates -/

section Behind

variable (D : Devices Dev) (pak : Pak)

/-- The address a store shows to the repeat arm, the cartridge latch and the
    word-store quirk. -/
def storePhys (p : Nat) : Nat := p % 2 ^ 32 % 2 ^ 29

/-- A load once the address is known. -/
def loadAt (i : Instr) (a p : Nat) (s : State Dev) : State Dev :=
  let pe := busAddr s.status p i.op.size
  let r := if inRdram pak a pe s then dcRead D pak pe i.op.size s
    else uncachedRead D pak pe i.op.size s
  loadInto i.op i.rt r.1 r.2

/-- The last rung of a store: the cache, or the bus from the state `s'`. -/
def cacheOrBus (sz a pe : Nat) (reg : BitVec 64) (s s' : State Dev) : State Dev :=
  if inRdram pak a pe s then dcWrite D pak pe reg sz s else busStore D pak sz pe reg s'

/-- The register a store takes its value from. -/
def storeVal (i : Instr) (s : State Dev) : BitVec 64 :=
  match i.op with
  | .swc1 => zext (s.fprGet32 i.rt)
  | .sdc1 => s.fprGet64 i.rt
  | _ => s.gpr i.rt

/-- The interpreter's store once the address is known. -/
def storeAt (i : Instr) (a p : Nat) (s : State Dev) : State Dev :=
  let sz := i.op.size
  let pm := storePhys p
  let pe := busAddr s.status p sz
  let reg := storeVal i s
  let last := cacheOrBus D pak sz a pe reg s (ramSettle D pak pe sz s)
  match i.op with
  | .sw => (storeRepeat D pak pm reg sz s).getD last
  | .sd =>
    (storeRepeat D pak pm reg sz s).getD <|
      (storeQuirk D pak pm reg sz s).getD <|
      cacheOrBus D pak sz a pe reg s s
  | .swc1 => last
  | .sdc1 => last
  | _ =>
    (storeRepeat D pak pm reg sz s).getD <|
      (storeCart D pm reg sz s).getD <|
      (storeQuirk D pak pm reg sz s).getD last

/-- What the interpreter does behind the gates. -/
def interpAt (i : Instr) (a p : Nat) (s : State Dev) : State Dev :=
  if i.op.store then storeAt D pak i a p s else loadAt D pak i a p s

/-- What the helpers do behind the gates. -/
def helperAt (i : Instr) (a p : Nat) (s : State Dev) : State Dev :=
  if i.op.store then jitStore D pak i.op.size a p (storeVal i s) s else loadAt D pak i a p s

theorem readN_eq (size : Nat) (v : BitVec 64) (s : State Dev) :
    readN D pak size v s = (gate v.toNat size .read s).map fun r =>
      if inRdram pak v.toNat (busAddr r.2.status r.1 size) r.2
      then dcRead D pak (busAddr r.2.status r.1 size) size r.2
      else uncachedRead D pak (busAddr r.2.status r.1 size) size r.2 :=
  alignBad_xlat ..

theorem executeOp_load (i : Instr) (s : State Dev) (h : i.op.store = false) :
    executeOp D pak i s = (gate (i.addr s).toNat i.op.size i.op.access s).map fun r =>
      loadAt D pak i (i.addr s).toNat r.1 r.2 := by
  obtain ⟨op, rs, rt, simm⟩ := i
  cases op with
  | lb | lbu =>
    simp only [executeOp, State.read8, readN_eq, map_bind_pure]
    rfl
  | lh | lhu =>
    simp only [executeOp, State.read16, readN_eq, map_bind_pure]
    rfl
  | lw | lwu | lwc1 =>
    simp only [executeOp, State.read32, readN_eq, map_bind_pure]
    rfl
  | ld | ldc1 =>
    simp only [executeOp, State.read64, readN_eq, map_bind_pure]
    rfl
  | sb | sh | sw | sd | swc1 | sdc1 => cases h

/-- The value of a store does not depend on the cache attribute the
    translation latches. -/
theorem executeOp_store (i : Instr) (s : State Dev) (h : i.op.store = true) :
    executeOp D pak i s = (gate (i.addr s).toNat i.op.size i.op.access s).map fun r =>
      storeAt D pak i (i.addr s).toNat r.1 r.2 := by
  obtain ⟨op, rs, rt, simm⟩ := i
  cases op with
  | sb | sh | sw | sd | swc1 | sdc1 =>
    refine (alignBad_xlat ..).trans (map_congr fun r hr => ?_)
    obtain ⟨c, hc⟩ := gate_frame hr
    obtain ⟨p, s'⟩ := r
    cases hc
    rfl
  | lb | lbu | lh | lhu | lw | lwu | lwc1 | ld | ldc1 => cases h

theorem execute_eq (i : Instr) (s : State Dev) :
    execute D pak i s = (i.access s).map fun r => interpAt D pak i (i.addr s).toNat r.1 r.2 := by
  unfold execute Instr.access
  split_ifs
  · rfl
  · rfl
  · unfold interpAt
    cases h : i.op.store with
    | true => exact executeOp_store D pak i s h
    | false => exact executeOp_load D pak i s h

/-- The probe of the helpers, behind the alignment check, against the gate. -/
theorem probe_eq {v size : Nat} {acc : Access} {s : State Dev} (h : v % size = 0) :
    translate true v acc s = probed s (gate v size acc s) := by
  unfold gate
  rw [if_neg (not_not.mpr h), translate_probing]

/-- No translation gives the address a failed probe returns. -/
theorem gate_ne_allOnes {v size : Nat} {acc : Access} {s : State Dev} {r : Nat × State Dev}
    (h : gate v size acc s = .ok r) : r.1 ≠ 2 ^ 64 - 1 := by
  unfold gate at h
  split_ifs at h
  have hlt := (translate_translated v acc s r.1 r.2 h).1.lt
  omega

theorem jitXlat_eq {v size : Nat} {acc : Access} {s : State Dev} (h : v % size = 0) :
    jitXlat v acc s = (gate v size acc s).toOption := by
  unfold jitXlat
  split
  · rename_i p hp
    unfold gate
    rw [if_neg (not_not.mpr h), translate_of_xlatDirect hp]
    rfl
  · rw [probe_eq h]
    cases hg : gate v size acc s with
    | error e => rfl
    | ok r => exact if_neg (gate_ne_allOnes hg)

/-- The alignment check of the helpers is left out for bytes, where it cannot
    fail. -/
theorem align_iff (op : Op) (a : Nat) : (1 < op.size ∧ a % op.size ≠ 0) ↔ a % op.size ≠ 0 := by
  refine ⟨And.right, fun h => ⟨?_, h⟩⟩
  cases op <;> simp only [Op.size] at h ⊢ <;> omega

theorem jitMem_eq (i : Instr) (s : State Dev) (h : i.op.isFp = false) :
    jitMem D pak i s =
      match i.access s with
      | .error _ => (0, s)
      | .ok (p, s') => (1, helperAt D pak i (i.addr s).toNat p s') := by
  have hval : ∀ s' : State Dev, storeVal i s' = s'.gpr i.rt := by
    intro s'
    unfold storeVal
    split <;> simp_all [Op.isFp]
  have hfp : ¬ (i.op.isFp && !s.status.testBit 29) = true := by simp [h]
  unfold jitMem Instr.access
  dsimp only
  rw [h, if_neg Bool.false_ne_true]
  rw [h] at hfp
  by_cases h64 : (i.op.is64 && reserved64 s.status) = true
  · rw [if_pos h64, if_pos h64]
  rw [if_neg h64, if_neg h64, if_neg hfp]
  by_cases ha : (i.addr s).toNat % i.op.size = 0
  · rw [if_neg (by rw [align_iff]; exact not_not.mpr ha), probe_eq ha]
    cases hg : gate (i.addr s).toNat i.op.size i.op.access s with
    | error e => rfl
    | ok r =>
      have hne := gate_ne_allOnes hg
      simp only [probed, hne, if_false]
      unfold helperAt
      rw [hval]
      by_cases hst : i.op.store = true
      · rw [if_pos hst, if_pos hst]
      · rw [if_neg hst, if_neg hst]
        rfl
  · rw [if_pos ((align_iff _ _).mpr ha)]
    unfold gate
    rw [if_pos ha]

theorem armed_ne_zero (s s' : State Dev) : armed D s s' ≠ 0 := by
  unfold armed
  split_ifs <;> decide

/-- The two copies of the store ladder are one function, up to the code. -/
theorem jitMemOpStore_spec (sz a p : Nat) (reg : BitVec 64) (s : State Dev) :
    (jitMemOpStore D pak sz a p reg s).1 ≠ 0 ∧
      (jitMemOpStore D pak sz a p reg s).2 = jitStore D pak sz a p reg s := by
  unfold jitMemOpStore jitStore
  dsimp only
  cases storeRepeat D pak (p % 2 ^ 32 % 2 ^ 29) reg sz s with
  | some s' => exact ⟨Nat.one_ne_zero, rfl⟩
  | none =>
    cases (if sz = 1 ∨ sz = 2 then storeCart D (p % 2 ^ 32 % 2 ^ 29) reg sz s else none) with
    | some s' => exact ⟨Nat.one_ne_zero, rfl⟩
    | none =>
      cases (if sz ≠ 4 then storeQuirk D pak (p % 2 ^ 32 % 2 ^ 29) reg sz s else none) with
      | some s' => exact ⟨Nat.one_ne_zero, rfl⟩
      | none =>
        simp only [Option.getD_none]
        split_ifs
        · exact ⟨Nat.one_ne_zero, rfl⟩
        · exact ⟨armed_ne_zero D _ _, rfl⟩

theorem jitMemOpLoad_spec (i : Instr) (a p : Nat) (s : State Dev) :
    (jitMemOpLoad D pak i.op a p i.rt s).1 ≠ 0 ∧
      (jitMemOpLoad D pak i.op a p i.rt s).2 = loadAt D pak i a p s := by
  unfold jitMemOpLoad loadAt
  dsimp only
  split_ifs
  · exact ⟨Nat.one_ne_zero, rfl⟩
  · exact ⟨armed_ne_zero D _ _, rfl⟩

/-- The call of the specialised helper the dynarec emits for `i`. -/
def callMemOp (i : Instr) (s : State Dev) : Nat × State Dev :=
  jitMemOp D pak i.op (i.addr s) i.rt (s.gpr i.rt) s

/-- The specialised helper runs the gates, and only then its body. -/
theorem callMemOp_eq (i : Instr) (s : State Dev) :
    callMemOp D pak i s =
      match i.access s with
      | .error _ => (0, s)
      | .ok (p, s') =>
        if i.op.store then jitMemOpStore D pak i.op.size (i.addr s).toNat p (storeVal i s') s'
        else jitMemOpLoad D pak i.op (i.addr s).toNat p i.rt s' := by
  unfold callMemOp jitMemOp Instr.access
  dsimp only
  by_cases hfp : (i.op.isFp && !s.status.testBit 29) = true
  · have h64 : ¬ (i.op.is64 && reserved64 s.status) = true := by
      cases hop : i.op <;> simp_all [Op.isFp, Op.is64]
    rw [if_pos hfp, if_neg h64, if_pos hfp]
  rw [if_neg hfp, if_neg hfp]
  by_cases h64 : (i.op.is64 && reserved64 s.status) = true
  · rw [if_pos h64, if_pos h64]
  rw [if_neg h64, if_neg h64]
  by_cases ha : (i.addr s).toNat % i.op.size = 0
  · rw [if_neg (by rw [align_iff]; exact not_not.mpr ha), jitXlat_eq ha]
    cases hg : gate (i.addr s).toNat i.op.size i.op.access s with
    | error e => rfl
    | ok r =>
      obtain ⟨c, hc⟩ := gate_frame hg
      obtain ⟨p, s'⟩ := r
      cases hc
      obtain ⟨op, rs, rt, simm⟩ := i
      cases op <;> rfl
  · rw [if_pos ((align_iff _ _).mpr ha)]
    unfold gate
    rw [if_pos ha]

theorem callMemOp_ok {i : Instr} {s s' : State Dev} {p : Nat} (h : i.access s = .ok (p, s')) :
    (callMemOp D pak i s).1 ≠ 0 ∧
      (callMemOp D pak i s).2 = helperAt D pak i (i.addr s).toNat p s' := by
  rw [callMemOp_eq, h]
  unfold helperAt
  dsimp only
  split_ifs
  · exact jitMemOpStore_spec D pak _ _ _ _ _
  · exact jitMemOpLoad_spec D pak i _ _ _

end Behind

/-! ## Section 3: The three rungs -/

section Rungs

variable (D : Devices Dev) (pak : Pak)

/-- The repeat arm is set and the store goes to RDRAM. -/
def repeatHit (p : Nat) (s : State Dev) : Bool :=
  s.mem.miRepeatOn && decide (storePhys p < pak.size)

/-- The store of the low word, after that of the high word, changes nothing. -/
def LowWordIdle (pe : Nat) (v : BitVec 64) (s : State Dev) : Prop :=
  write64 D pak s.cartNow pe v s.mem = write32 D pak s.cartNow pe ((v >>> 32).setWidth 32) s.mem

/-- The rungs that only a helper takes make no difference to this access. -/
def Exact (i : Instr) (a p : Nat) (s : State Dev) : Prop :=
  match i.op with
  | .swc1 => repeatHit pak p s = false
  | .sdc1 =>
    repeatHit pak p s = false ∧
      (quirkRange (storePhys p) = true → LowWordIdle D pak (p % 2 ^ 32) (storeVal i s) s)
  | .sd =>
    repeatHit pak p s = false → p % 2 ^ 32 < pak.size → cacheable a s = false →
      settleDue s.mem s.cartNow (p % 2 ^ 32) (p % 2 ^ 32 + 8) = false
  | _ => True

theorem storeRepeat_of_not_hit {p : Nat} {s : State Dev} (h : repeatHit pak p s = false)
    (reg : BitVec 64) (sz : Nat) : storeRepeat D pak (storePhys p) reg sz s = none := by
  unfold storeRepeat
  cases hon : s.mem.miRepeatOn with
  | false => rfl
  | true =>
    rw [repeatHit, hon, Bool.true_and, decide_eq_false_iff_not, Nat.not_lt] at h
    rw [if_neg (by decide), if_pos h]

theorem storeRepeat_of_hit {p : Nat} {s : State Dev} (h : repeatHit pak p s = true)
    (reg : BitVec 64) (sz : Nat) :
    ∃ s', storeRepeat D pak (storePhys p) reg sz s = some s' ∧ s'.mem.miRepeatOn = false := by
  rw [repeatHit, Bool.and_eq_true, decide_eq_true_iff] at h
  unfold storeRepeat
  rw [h.1, if_neg (by decide), if_neg (Nat.not_le.mpr h.2)]
  refine ⟨_, rfl, ?_⟩
  simp only [miRepeatStore, dmaSettle_miRepeatOn]

/-- A unit stays inside its doubleword when it is moved. -/
theorem phys_busAddr {sz : Nat} (h : sz = 4 ∨ sz = 8) (st p : Nat) :
    phys (busAddr st p sz) / 8 = storePhys p / 8 := by
  have hx : (p ^^^ (8 - 4)) / 2 ^ 3 = p / 2 ^ 3 := by
    rw [Nat.xor_div_two_pow]
    simp
  unfold busAddr reXor phys storePhys
  obtain rfl | rfl := h
  · split_ifs <;> omega
  · rw [if_pos rfl]
    rfl

theorem busStore_miRepeatOn {sz p : Nat} (h : sz = 4 ∨ sz = 8) (hp : storePhys p < pak.size)
    (st : Nat) (v : BitVec 64) (s : State Dev) :
    (busStore D pak sz (busAddr st p sz) v s).mem.miRepeatOn = s.mem.miRepeatOn := by
  have hlow : phys (busAddr st p sz) < 0x800000 := by
    have h8 := phys_busAddr h st p
    have hle := pak.size_le
    omega
  obtain rfl | rfl := h
  · obtain ⟨ram, hr⟩ := busWrite_low D pak (n := 4) (lt_trans hlow (by decide)) s.cartNow
      (v.setWidth 32) s.mem
    simp only [busStore, write32, hr]
    rfl
  · obtain ⟨ram, hr⟩ := write64_low D pak hlow s.cartNow v s.mem
    simp only [busStore, hr]
    rfl

@[simp] theorem settle_miRepeatOn (s : State Dev) (lo hi : Nat) :
    (s.settle D pak lo hi).mem.miRepeatOn = s.mem.miRepeatOn :=
  dmaSettle_miRepeatOn D pak _ lo hi s.mem

theorem ramSettle_miRepeatOn (pe sz : Nat) (s : State Dev) :
    (ramSettle D pak pe sz s).mem.miRepeatOn = s.mem.miRepeatOn := by
  unfold ramSettle
  split_ifs
  · exact settle_miRepeatOn D pak s _ _
  · rfl

theorem dcMiss_miRepeatOn (idx base : Nat) (s : State Dev) :
    (dcMiss D pak idx base s).mem.miRepeatOn = s.mem.miRepeatOn := by
  unfold dcMiss
  dsimp only
  split_ifs
  · simp
  · simp

theorem dcWrite_miRepeatOn (pe : Nat) (v : BitVec 64) (sz : Nat) (s : State Dev) :
    (dcWrite D pak pe v sz s).mem.miRepeatOn = s.mem.miRepeatOn := by
  unfold dcWrite dcTouch
  dsimp only
  split_ifs
  · exact dcMiss_miRepeatOn D pak _ _ s
  · rfl

/-- The last rung keeps the repeat arm on a store to RDRAM. -/
theorem cacheOrBus_miRepeatOn {sz p : Nat} (h : sz = 4 ∨ sz = 8) (hp : storePhys p < pak.size)
    (st a : Nat) (v : BitVec 64) (s : State Dev) :
    (cacheOrBus D pak sz a (busAddr st p sz) v s
      (ramSettle D pak (busAddr st p sz) sz s)).mem.miRepeatOn = s.mem.miRepeatOn := by
  unfold cacheOrBus
  split_ifs
  · exact dcWrite_miRepeatOn D pak _ v sz s
  · rw [busStore_miRepeatOn D pak h hp, ramSettle_miRepeatOn]

/-- The broadcast consumes the arm, the ordinary store keeps it. -/
theorem repeat_ne {sz p : Nat} {s : State Dev} (hhit : repeatHit pak p s = true)
    (h : sz = 4 ∨ sz = 8) (a : Nat) (v : BitVec 64) (t : State Dev) :
    (storeRepeat D pak (storePhys p) v sz s).getD t ≠
      cacheOrBus D pak sz a (busAddr s.status p sz) v s
        (ramSettle D pak (busAddr s.status p sz) sz s) := by
  obtain ⟨s', hs', hoff⟩ := storeRepeat_of_hit D pak hhit v sz
  rw [repeatHit, Bool.and_eq_true, decide_eq_true_iff] at hhit
  rw [hs']
  intro heq
  have hon := congrArg (fun t : State Dev => t.mem.miRepeatOn) heq
  simp only [Option.getD_some, cacheOrBus_miRepeatOn D pak h hhit.2, hoff, hhit.1] at hon
  exact absurd hon (by decide)

theorem le_of_quirkRange {a : Nat} (h : quirkRange a = true) : 0x03f00000 ≤ a := by
  simp only [quirkRange, isMmio, Bool.or_eq_true, Bool.and_eq_true, decide_eq_true_eq] at h
  unfold baseDmem baseSp basePifram piframSize baseRdramReg at h
  omega

/-- The bus address of a doubleword in RDRAM is what the store shows. -/
theorem storePhys_of_lt {p : Nat} (h : p % 2 ^ 32 < pak.size) : storePhys p = p % 2 ^ 32 := by
  have hle := pak.size_le
  unfold storePhys
  omega

theorem storeQuirk_eq (pm : Nat) (reg : BitVec 64) (s : State Dev) :
    storeQuirk D pak pm reg 8 s =
      if quirkRange pm then
        some { s with
          mem := write32 D pak s.cartNow (pm / 4 * 4) ((reg >>> 32).setWidth 32) s.mem }
      else none := by
  unfold storeQuirk wordStoreQuirk
  cases quirkRange pm <;> rfl

theorem ramSettle_of_le {pe : Nat} (h : pak.size ≤ pe) (sz : Nat) (s : State Dev) :
    ramSettle D pak pe sz s = s :=
  if_neg (Nat.not_lt.mpr h)

/-- `SD` on the bus: the journal tells the settled store from the other. -/
theorem busStore_settled_iff {pe : Nat} (h : pe < pak.size) (v : BitVec 64) (s : State Dev) :
    busStore D pak 8 pe v (ramSettle D pak pe 8 s) = busStore D pak 8 pe v s ↔
      settleDue s.mem s.cartNow pe (pe + 8) = false := by
  have hset : ramSettle D pak pe 8 s = s.settle D pak pe (pe + 8) := if_pos h
  have hlow : phys pe < 0x800000 := by
    have hle := pak.size_le
    unfold phys
    omega
  have hlog : ∀ t : State Dev, (busStore D pak 8 pe v t).mem.dpLog = t.mem.dpLog := by
    intro t
    obtain ⟨ram, hr⟩ := write64_low D pak hlow t.cartNow v t.mem
    simp only [busStore, hr]
    rfl
  rw [hset]
  constructor
  · intro heq
    by_contra hdue
    have hlt := dmaSettle_length_lt D pak ((Bool.not_eq_false _).mp hdue)
    have hsame := congrArg (fun t : State Dev => t.mem.dpLog) heq
    simp only [hlog] at hsame
    rw [← hsame] at hlt
    exact Nat.lt_irrefl _ hlt
  · intro hdue
    unfold State.settle
    rw [dmaSettle_of_not_due D pak hdue]

theorem helperAt_sd_iff {i : Instr} (hop : i.op = .sd) (a p : Nat) (s : State Dev) :
    helperAt D pak i a p s = interpAt D pak i a p s ↔ Exact D pak i a p s := by
  have hh : helperAt D pak i a p s =
      (storeRepeat D pak (storePhys p) (storeVal i s) 8 s).getD
        ((storeQuirk D pak (storePhys p) (storeVal i s) 8 s).getD
          (cacheOrBus D pak 8 a (p % 2 ^ 32) (storeVal i s) s
            (ramSettle D pak (p % 2 ^ 32) 8 s))) := by
    unfold helperAt
    rw [hop]
    rfl
  have hi : interpAt D pak i a p s =
      (storeRepeat D pak (storePhys p) (storeVal i s) 8 s).getD
        ((storeQuirk D pak (storePhys p) (storeVal i s) 8 s).getD
          (cacheOrBus D pak 8 a (p % 2 ^ 32) (storeVal i s) s s)) := by
    unfold interpAt storeAt
    rw [hop]
    rfl
  unfold Exact
  rw [hh, hi, hop]
  dsimp only
  cases hhit : repeatHit pak p s with
  | true =>
    obtain ⟨s', hs', -⟩ := storeRepeat_of_hit D pak hhit (storeVal i s) 8
    rw [hs']
    exact iff_of_true rfl (fun h => absurd h (by decide))
  | false =>
    rw [storeRepeat_of_not_hit D pak hhit, storeQuirk_eq]
    by_cases hlt : p % 2 ^ 32 < pak.size
    · -- RDRAM: no quirk, and the cache decides whether the bus is reached
      have hq : quirkRange (storePhys p) = false := by
        by_contra hq
        have hge := le_of_quirkRange ((Bool.not_eq_false _).mp hq)
        have hle := pak.size_le
        rw [storePhys_of_lt pak hlt] at hge
        omega
      rw [hq, if_neg Bool.false_ne_true, Option.getD_none, Option.getD_none]
      unfold cacheOrBus inRdram
      cases hc : cacheable a s with
      | true =>
        rw [if_pos (by simpa using hlt), if_pos (by simpa using hlt)]
        exact iff_of_true rfl (fun _ _ h => absurd h (by decide))
      | false =>
        rw [if_neg (by simp), if_neg (by simp)]
        refine (busStore_settled_iff D pak hlt (storeVal i s) s).trans ?_
        exact ⟨fun hd _ _ _ => hd, fun hd => hd rfl hlt rfl⟩
    · rw [ramSettle_of_le D pak (Nat.not_lt.mp hlt)]
      exact iff_of_true rfl (fun _ h => absurd h hlt)

theorem helperAt_swc1_iff {i : Instr} (hop : i.op = .swc1) (a p : Nat) (s : State Dev) :
    helperAt D pak i a p s = interpAt D pak i a p s ↔ Exact D pak i a p s := by
  have hh : helperAt D pak i a p s =
      (storeRepeat D pak (storePhys p) (storeVal i s) 4 s).getD
        (cacheOrBus D pak 4 a (busAddr s.status p 4) (storeVal i s) s
          (ramSettle D pak (busAddr s.status p 4) 4 s)) := by
    unfold helperAt
    rw [hop]
    rfl
  have hi : interpAt D pak i a p s =
      cacheOrBus D pak 4 a (busAddr s.status p 4) (storeVal i s) s
        (ramSettle D pak (busAddr s.status p 4) 4 s) := by
    unfold interpAt storeAt
    rw [hop]
    rfl
  unfold Exact
  rw [hh, hi, hop]
  dsimp only
  cases hhit : repeatHit pak p s with
  | true => exact iff_of_false (repeat_ne D pak hhit (.inl rfl) a _ _) (by decide)
  | false =>
    rw [storeRepeat_of_not_hit D pak hhit]
    exact iff_of_true rfl rfl

theorem helperAt_sdc1_iff {i : Instr} (hop : i.op = .sdc1) {a p : Nat} {s : State Dev}
    (halign : p % 8 = 0) :
    helperAt D pak i a p s = interpAt D pak i a p s ↔ Exact D pak i a p s := by
  have hh : helperAt D pak i a p s =
      (storeRepeat D pak (storePhys p) (storeVal i s) 8 s).getD
        ((storeQuirk D pak (storePhys p) (storeVal i s) 8 s).getD
          (cacheOrBus D pak 8 a (busAddr s.status p 8) (storeVal i s) s
            (ramSettle D pak (busAddr s.status p 8) 8 s))) := by
    unfold helperAt
    rw [hop]
    rfl
  have hi : interpAt D pak i a p s =
      cacheOrBus D pak 8 a (busAddr s.status p 8) (storeVal i s) s
        (ramSettle D pak (busAddr s.status p 8) 8 s) := by
    unfold interpAt storeAt
    rw [hop]
    rfl
  unfold Exact
  rw [hh, hi, hop]
  dsimp only
  cases hhit : repeatHit pak p s with
  | true =>
    exact iff_of_false (repeat_ne D pak hhit (.inr rfl) a _ _) (fun h => absurd h.1 (by decide))
  | false =>
    rw [storeRepeat_of_not_hit D pak hhit, storeQuirk_eq, Option.getD_none]
    cases hq : quirkRange (storePhys p) with
    | false => exact iff_of_true rfl ⟨rfl, fun h => absurd h (by decide)⟩
    | true =>
      -- a device: the interpreter's store reaches the bus, both words of it
      have hge : pak.size ≤ p % 2 ^ 32 := by
        by_contra hlt
        have hge := le_of_quirkRange hq
        have hle := pak.size_le
        rw [storePhys_of_lt pak (Nat.not_le.mp hlt)] at hge
        omega
      have hbus : busAddr s.status p 8 = p % 2 ^ 32 := if_pos rfl
      have hout : inRdram pak a (p % 2 ^ 32) s = false := by
        unfold inRdram
        rw [Bool.and_eq_false_iff, decide_eq_false_iff_not]
        exact .inr (Nat.not_lt.mpr hge)
      have hphys : phys (storePhys p / 4 * 4) = phys (p % 2 ^ 32) := by
        unfold storePhys phys
        omega
      have hword : write32 D pak s.cartNow (storePhys p / 4 * 4)
            ((storeVal i s >>> 32).setWidth 32) s.mem =
          write32 D pak s.cartNow (p % 2 ^ 32) ((storeVal i s >>> 32).setWidth 32) s.mem :=
        busWrite_phys D pak hphys _ _ _
      rw [hbus, ramSettle_of_le D pak hge, if_pos rfl, Option.getD_some, hword]
      unfold cacheOrBus LowWordIdle
      rw [hout, if_neg Bool.false_ne_true]
      constructor
      · intro heq
        exact ⟨rfl, fun _ => (congrArg State.mem heq).symm⟩
      · intro hidle
        unfold busStore
        dsimp only
        rw [if_neg (by decide), if_neg (by decide), if_neg (by decide), hidle.2 rfl]

/-- Behind the gates a helper does what the interpreter does exactly where
    the extra rungs make no difference. -/
theorem helperAt_iff {i : Instr} {p : Nat} (halign : p % i.op.size = 0) (a : Nat)
    (s : State Dev) :
    helperAt D pak i a p s = interpAt D pak i a p s ↔ Exact D pak i a p s := by
  cases hop : i.op with
  | sd => exact helperAt_sd_iff D pak hop a p s
  | swc1 => exact helperAt_swc1_iff D pak hop a p s
  | sdc1 =>
    rw [hop] at halign
    exact helperAt_sdc1_iff D pak hop halign
  | lb | lh | lw | lbu | lhu | lwu | ld | lwc1 | ldc1 | sb | sh | sw =>
    unfold helperAt interpAt Exact storeAt
    rw [hop]
    exact iff_of_true rfl trivial

end Rungs

/-! ## Section 4: The contract -/

/-- The contract of a helper: a non-zero code means the interpreter's result,
    zero means nothing happened. -/
def Agrees (r : Nat × State Dev) (e : Except Exc (State Dev)) (s : State Dev) : Prop :=
  (r.1 ≠ 0 → e = .ok r.2) ∧ (r.1 = 0 → r.2 = s)

theorem Agrees.bail {e : Except Exc (State Dev)} (s : State Dev) : Agrees (0, s) e s :=
  ⟨fun h => absurd rfl h, fun _ => rfl⟩

theorem agrees_iff_of_ne_zero {r : Nat × State Dev} (h : r.1 ≠ 0) (t s : State Dev) :
    Agrees r (.ok t) s ↔ r.2 = t := by
  constructor
  · intro ha
    exact (Except.ok.inj (ha.1 h)).symm
  · intro heq
    exact ⟨fun _ => congrArg Except.ok heq.symm, fun h0 => absurd h0 h⟩

/-- For every load and store, in every state: the generic helper and the
    specialised one meet their contract if and only if the access faults or
    the extra rungs make no difference to it. -/
theorem helpers_iff (D : Devices Dev) (pak : Pak) (i : Instr) (s : State Dev) :
    (Agrees (jitMem D pak i s) (execute D pak i s) s ∧
      Agrees (jitMemOp D pak i.op (i.addr s) i.rt (s.gpr i.rt) s) (execute D pak i s) s) ↔
    ∀ p s', i.access s = .ok (p, s') → Exact D pak i (i.addr s).toNat p s' := by
  cases hacc : i.access s with
  | error e =>
    -- a fault: both helpers bail out
    have hmem : jitMem D pak i s = (0, s) := by
      cases hfp : i.op.isFp with
      | true => exact if_pos hfp
      | false => rw [jitMem_eq D pak i s hfp, hacc]
    have hop : jitMemOp D pak i.op (i.addr s) i.rt (s.gpr i.rt) s = (0, s) := by
      have h := callMemOp_eq D pak i s
      rw [hacc] at h
      exact h
    rw [hmem, hop]
    exact iff_of_true ⟨Agrees.bail s, Agrees.bail s⟩ nofun
  | ok r =>
    obtain ⟨p, s'⟩ := r
    have hexact := helperAt_iff D pak (access_aligned hacc) (i.addr s).toNat s'
    have hexec : execute D pak i s = .ok (interpAt D pak i (i.addr s).toNat p s') := by
      rw [execute_eq, hacc]
      rfl
    obtain ⟨hcode, hstate⟩ := callMemOp_ok D pak hacc
    have hop : Agrees (jitMemOp D pak i.op (i.addr s) i.rt (s.gpr i.rt) s)
        (execute D pak i s) s ↔ Exact D pak i (i.addr s).toNat p s' := by
      rw [hexec, ← hexact, ← hstate]
      exact agrees_iff_of_ne_zero hcode _ s
    have hmem : Exact D pak i (i.addr s).toNat p s' →
        Agrees (jitMem D pak i s) (execute D pak i s) s := by
      intro hx
      cases hfp : i.op.isFp with
      | true =>
        have hbail : jitMem D pak i s = (0, s) := if_pos hfp
        rw [hbail]
        exact Agrees.bail s
      | false =>
        rw [jitMem_eq D pak i s hfp, hacc, hexec]
        exact (agrees_iff_of_ne_zero Nat.one_ne_zero _ s).mpr (hexact.mpr hx)
    constructor
    · intro h p₂ s₂ heq
      cases heq
      exact hop.mp h.2
    · intro h
      exact ⟨hmem (h p s' rfl), hop.mpr (h p s' rfl)⟩

/-! ### The repeat arm under `SWC1` -/

/-- Kernel mode with the FPU on, an empty cache and journal, and `MI_MODE`
    armed for 16 bytes. -/
def repeatArmed : State Unit where
  gpr := fun _ => 0
  fpr := fun _ => 0
  status := 0x20000000
  entryHi := 0
  tlb := []
  dcache := fun _ => { tagv := 0, dirty := false, data := fun _ => 0 }
  xlatCacheable := false
  stGuardRepeat := true
  stallCycles := 0
  clock := { retired := 0, pending := 0, stall := 0, stallRem := 0, cpi256 := 128 }
  dcMissCycles := 0
  uncachedCycles := 0
  mem :=
    { rdram := fun _ => 0, spMem := fun _ => 0, pifram := fun _ => 0
      miRepeatOn := true, miRepeatLen := 16, dpLog := [], romLoaded := false
      scOn := false, scKey := 0, saveFitted := false, dev := () }

/-- `swc1 f0, 0x1000(r0)` with the segment of KSEG0 in the immediate. -/
def swc1Kseg0 : Instr := { op := .swc1, rs := 0, rt := 0, simm := 0xffffffff80001000 }

theorem swc1_consumes_repeat :
    ¬ Agrees (jitMemOp noDevices .base .swc1 (swc1Kseg0.addr repeatArmed) 0 0 repeatArmed)
      (execute noDevices .base swc1Kseg0 repeatArmed) repeatArmed := by
  intro h
  have hacc : swc1Kseg0.access repeatArmed = .ok (0x1000, repeatArmed) := rfl
  obtain ⟨hcode, hstate⟩ := callMemOp_ok noDevices .base hacc
  have hexec : execute noDevices .base swc1Kseg0 repeatArmed =
      .ok (interpAt noDevices .base swc1Kseg0 (swc1Kseg0.addr repeatArmed).toNat 0x1000
        repeatArmed) := by
    rw [execute_eq, hacc]
    rfl
  have heq := Except.ok.inj (hexec.symm.trans (h.1 hcode))
  have hmiss : repeatHit .base 0x1000 repeatArmed = false :=
    (helperAt_swc1_iff noDevices .base (i := swc1Kseg0) rfl _ 0x1000 repeatArmed).mp
      (hstate.symm.trans heq.symm)
  exact absurd hmiss (by decide)

end Cpu
