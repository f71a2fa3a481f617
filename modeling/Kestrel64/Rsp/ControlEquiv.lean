import Kestrel64.Rsp.Control

/-! # RSP: Compiled Control Flow against the Interpreter

    A block leaves the machine where the interpreter is after the same
    instructions, up to one thing: it never writes `pendingTarget`, since a
    branch and its slot are one unit inside a block. The latch only means
    something while `inDelay` is set, and no block is left with it set.
    `Same` is equality of states up to that.

    * `runOps_sim` — the body of a block, by induction on its words.
    * `runChain_sim` — a chain of linked blocks.
    * `jitLoop_sim` — a chunk.
    * `jit_step_same` — `Rsp::step`.
-/

namespace Rsp

variable {X : Type}

/-! ## Section 1: States up to a dead latch -/

structure Same (s t : St X) : Prop where
  core : s.core = t.core
  pc : s.pc = t.pc
  inDelay : s.inDelay = t.inDelay
  trace : s.trace = t.trace
  pendingTarget : s.inDelay = true → s.pendingTarget = t.pendingTarget

theorem Same.refl (s : St X) : Same s s := ⟨rfl, rfl, rfl, rfl, fun _ => rfl⟩

theorem Same.of_eq {s t : St X} (h : s = t) : Same s t := h ▸ Same.refl s

theorem Same.trans {s t u : St X} (h : Same s t) (h' : Same t u) : Same s u where
  core := h.core.trans h'.core
  pc := h.pc.trans h'.pc
  inDelay := h.inDelay.trans h'.inDelay
  trace := h.trace.trans h'.trace
  pendingTarget := fun hd =>
    (h.pendingTarget hd).trans (h'.pendingTarget (h.inDelay.symm.trans hd))

/-- The result of a loop: the state up to the latch, and what is left. -/
def SameRun (p q : St X × Nat) : Prop := Same p.1 q.1 ∧ p.2 = q.2

theorem SameRun.refl (p : St X × Nat) : SameRun p p := ⟨Same.refl _, rfl⟩

theorem SameRun.trans {p q r : St X × Nat} (h : SameRun p q) (h' : SameRun q r) : SameRun p r :=
  ⟨h.1.trans h'.1, h.2.trans h'.2⟩

theorem interpStep_same (E : Exec X) (left : Nat) {s t : St X} (h : Same s t) :
    Same (interpStep E left s) (interpStep E left t) := by
  obtain ⟨core, pc, inDelay, pt, trace⟩ := s
  obtain ⟨core', pc', inDelay', pt', trace'⟩ := t
  obtain ⟨rfl, rfl, rfl, rfl, hpt⟩ := h
  dsimp only at hpt
  cases inDelay with
  | true =>
    rw [hpt rfl]
    exact Same.refl _
  | false =>
    unfold interpStep
    dsimp only [St.visit]
    simp only [Bool.false_eq_true, if_false]
    split
    · exact ⟨rfl, rfl, rfl, rfl, fun _ => rfl⟩
    · exact ⟨rfl, rfl, rfl, rfl, nofun⟩

theorem interpLoop_same (E : Exec X) (c : Nat) {s t : St X} (h : Same s t) :
    SameRun (interpLoop E c s) (interpLoop E c t) := by
  induction c generalizing s t with
  | zero => exact ⟨h, rfl⟩
  | succ c ih =>
    unfold interpLoop
    rw [h.core]
    split_ifs
    · exact ⟨h, rfl⟩
    · exact ih (interpStep_same E c h)

/-! ## Section 2: Branches -/

theorem selPc_eq (cc : Bool) (fall tgt : Word) : selPc cc fall tgt = if cc then tgt else fall := by
  unfold selPc
  cases cc with
  | true =>
    simp only [if_true]
    have hones : (0xffffffff : Word) = BitVec.allOnes 32 := by decide
    rw [hones, BitVec.allOnes_and, BitVec.xor_comm fall tgt, BitVec.xor_assoc, BitVec.xor_self,
      BitVec.xor_zero]
  | false => simp

theorem takeIdx_mask (v : Word) : takeIdx (v &&& 0xffc) = takeIdx v := by
  have hmask : (v &&& 0xffc).toNat / 4 = v.toNat / 4 % 2 ^ 10 :=
    calc (v &&& 0xffc).toNat / 4
        = (v.toNat &&& 0xffc) >>> 2 := by
          rw [BitVec.toNat_and, Nat.shiftRight_eq_div_pow]
          rfl
      _ = v.toNat >>> 2 &&& (2 ^ 10 - 1) := Nat.shiftRight_and_distrib
      _ = v.toNat / 4 % 2 ^ 10 := by
          rw [Nat.and_two_pow_sub_one_eq_mod, Nat.shiftRight_eq_div_pow]
  unfold takeIdx Pc.ofNat
  rw [hmask]
  exact Fin.ext (Nat.mod_mod _ _)

theorem takeIdx_linkVal (pc : Pc) : takeIdx (linkVal pc) = pc.next.next := by
  have hpc := pc.isLt
  have hmask (v : Word) : (v &&& 0xfff).toNat = v.toNat % 2 ^ 12 := by
    rw [BitVec.toNat_and]
    exact Nat.and_two_pow_sub_one_eq_mod v.toNat 12
  unfold takeIdx linkVal Pc.next Pc.ofNat Pc.addr
  apply Fin.ext
  rw [hmask, BitVec.toNat_add, BitVec.toNat_ofNat]
  simp only [BitVec.reduceToNat]
  omega

/-- The branches, by their fields. -/
theorem classify_branch {op : Word} (h : classify op = .branch) :
    (Word.maj op = 0 ∧ (Word.funct op = 8 ∨ Word.funct op = 9)) ∨
    (Word.maj op = 1 ∧ Word.rt op ∈ [0, 1, 16, 17]) ∨
    Word.maj op ∈ [2, 3, 4, 5, 6, 7] := by
  unfold classify at h
  dsimp only at h
  split_ifs at h with h0 _ hf h1 hr hm
  · exact .inl ⟨h0, hf⟩
  · exact .inr (.inl ⟨h1, hr⟩)
  · exact .inr (.inr hm)

/-- What `emitBranch` writes is what `exec` asks for. -/
theorem emitBranch_eq {op : Word} (h : classify op = .branch) (pc : Pc) (r : Regs) :
    emitBranch op pc r = ((execBranch op pc r).1, (execBranch op pc r).2.getD pc.next.next) := by
  have hsel (cc : Bool) (t : Word) :
      takeIdx (selPc cc (linkVal pc) (t &&& 0xffc)) =
        (if cc then some (takeIdx t) else none).getD pc.next.next := by
    rw [selPc_eq]
    cases cc with
    | true => exact takeIdx_mask t
    | false => exact takeIdx_linkVal pc
  unfold emitBranch execBranch
  dsimp only
  simp only [hsel, takeIdx_mask]
  obtain ⟨hm, hf | hf⟩ | ⟨hm, hr⟩ | hm := classify_branch h
  · simp [hm, hf]
  · simp [hm, hf]
  · simp only [List.mem_cons, List.not_mem_nil, or_false] at hr
    obtain hr | hr | hr | hr := hr <;> simp [hm, hr]
  · simp only [List.mem_cons, List.not_mem_nil, or_false] at hm
    obtain hm | hm | hm | hm | hm | hm := hm <;> simp [hm]

/-! ## Section 3: One instruction -/

theorem Pc.ofNat_next (n : Nat) : (Pc.ofNat n).next = Pc.ofNat (n + 1) := by
  unfold Pc.next Pc.ofNat
  apply Fin.ext
  dsimp only
  omega

theorem Pc.ofNat_val {n : Nat} (h : n < 1024) : (Pc.ofNat n).val = n := Nat.mod_eq_of_lt h

theorem Pc.ofNat_self (p : Pc) : Pc.ofNat p.val = p := Fin.ext (Nat.mod_eq_of_lt p.isLt)

/-- Outside COP0 the clock does not matter, and the core runs on under the
    same IMEM. -/
theorem exec_plain (E : Exec X) {op : Word} (hin : (classify op).inner) (h0 : classify op ≠ .cop0)
    (left : Nat) (c : Core X) :
    exec E left op c = exec E 0 op c ∧ (exec E 0 op c).imem = c.imem ∧
      (exec E 0 op c).halt = c.halt := by
  unfold exec
  cases hk : classify op with
  | stop | branch => exact absurd (hk ▸ hin) (by decide)
  | cop0 => exact absurd hk h0
  | native | cop2 | lwc2 | swc2 | mem => exact ⟨rfl, rfl, rfl⟩

/-- An instruction that is no branch and in no delay slot. -/
theorem interpStep_inner (E : Exec X) (left : Nat) (s : St X) (a : Pc)
    (hin : (classify (s.core.imem a.val)).inner) (hd : s.inDelay = false) :
    interpStep E left { s with pc := a } =
      { s.visit a (s.core.imem a.val) with
        core := exec E left (s.core.imem a.val) s.core, pc := a.next } := by
  have hb : classify (s.core.imem a.val) ≠ .branch := fun h => absurd (h ▸ hin) (by decide)
  unfold interpStep
  dsimp only [St.visit]
  rw [if_neg hb, if_neg hb, if_neg (by rw [hd]; decide)]

/-- A branch that is in no delay slot. -/
theorem interpStep_branch (E : Exec X) (left : Nat) (s : St X) (a : Pc)
    (hb : classify (s.core.imem a.val) = .branch) (hd : s.inDelay = false) :
    interpStep E left { s with pc := a } =
      { s.visit a (s.core.imem a.val) with
        core := { s.core with r := (execBranch (s.core.imem a.val) a s.core.r).1 }
        pendingTarget := (execBranch (s.core.imem a.val) a s.core.r).2.getD s.pendingTarget
        inDelay := (execBranch (s.core.imem a.val) a s.core.r).2.isSome
        pc := a.next } := by
  unfold interpStep
  dsimp only [St.visit]
  rw [if_pos hb, if_pos hb, if_neg (by rw [hd]; decide)]
  cases (execBranch (s.core.imem a.val) a s.core.r).2 with
  | some t => rfl
  | none =>
    rw [hd]
    rfl

/-- A branch and its delay slot. The PC afterwards is the one `emitBranch`
    computed before the slot ran. -/
theorem interpStep_pair (E : Exec X) (left left' : Nat) (s : St X) (a : Pc)
    (hb : classify (s.core.imem a.val) = .branch)
    (hin : (classify (s.core.imem a.next.val)).inner) (hd : s.inDelay = false) :
    Same (interpStep E left (interpStep E left' { s with pc := a }))
      { s with
        trace := (a.next, s.core.imem a.next.val) :: (a, s.core.imem a.val) :: s.trace
        pc := (emitBranch (s.core.imem a.val) a s.core.r).2
        core := exec E left (s.core.imem a.next.val)
          { s.core with r := (emitBranch (s.core.imem a.val) a s.core.r).1 } } := by
  have hnb : classify (s.core.imem a.next.val) ≠ .branch := fun h => absurd (h ▸ hin) (by decide)
  rw [emitBranch_eq hb, interpStep_branch E left' s a hb hd]
  unfold interpStep
  dsimp only [St.visit]
  rw [if_neg hnb, if_neg hnb]
  -- the slot runs under the latch, or falls through
  cases (execBranch (s.core.imem a.val) a s.core.r).2 with
  | some t => exact ⟨rfl, rfl, hd.symm, rfl, nofun⟩
  | none => exact ⟨rfl, rfl, hd.symm, rfl, nofun⟩

/-! ## Section 4: The body of a block -/

/-- The words of a block from index `n` of IMEM on: straight-line, closed by
    a branch with its slot when `eb` says so. -/
inductive Runs (imem : Imem) : Bool → Nat → List Word → Prop
  | nil (n : Nat) : Runs imem false n []
  | inner {eb : Bool} {n : Nat} {rest : List Word} (hin : (classify (imem n)).inner)
      (hrest : Runs imem eb (n + 1) rest) : Runs imem eb n (imem n :: rest)
  | pair {n : Nat} (hb : classify (imem n) = .branch) (hin : (classify (imem (n + 1))).inner) :
      Runs imem true n [imem n, imem (n + 1)]

theorem Runs.ne_nil {imem : Imem} {n : Nat} {ops : List Word} (h : Runs imem true n ops) :
    ops.isEmpty = false := by
  cases h with
  | inner => rfl
  | pair => rfl

/-- `k` straight words in front of a run. -/
theorem Runs.append {imem : Imem} {eb : Bool} {n k : Nat} {ops : List Word}
    (hin : ∀ i < k, (classify (imem (n + i))).inner) (h : Runs imem eb (n + k) ops) :
    Runs imem eb n ((List.range k).map (fun i => imem (n + i)) ++ ops) := by
  induction k generalizing ops with
  | zero => exact h
  | succ k ih =>
    rw [List.range_succ, List.map_append, List.append_assoc]
    exact ih (fun i hi => hin i (by omega)) (.inner (hin k (by omega)) h)

theorem blockWords_runs {pc0 : Nat} (hpc : pc0 < imemWords) (imem : Imem) :
    Runs imem (form imem pc0).endsBranch pc0 (blockWords imem pc0) := by
  have hs := form_shape hpc imem
  unfold blockWords
  cases he : (form imem pc0).endsBranch with
  | false =>
    have h := Runs.append (hs.straight he) (.nil _)
    rwa [List.append_nil] at h
  | true =>
    obtain ⟨n, hn, hin, hb, hslot⟩ := hs.branch he
    rw [hn, List.range_succ, List.range_succ, List.map_append, List.map_append, List.append_assoc]
    exact Runs.append hin (.pair hb hslot)

/-- What the interpreter makes of `r`, which a body of `len` words left when
    it was entered in `s` with `b` instructions of the chunk behind it. -/
structure BodySim (E : Exec X) (b len : Nat) (s : St X) (r : Bool × Int × St X) : Prop where
  nonneg : 0 ≤ r.2.1
  used : r.2.1 ≤ b + (len - 1 : Nat)
  kept : r.1 = false → r.2.1 = b ∧ r.2.2.core.halt = false
  noDelay : r.2.2.inDelay = false
  same : SameRun (interpLoop E (b + len) s) (interpLoop E r.2.1.toNat r.2.2)

theorem interpLoop_succ (E : Exec X) (c : Nat) {s : St X} (h : s.core.halt = false) :
    interpLoop E (c + 1) s = interpLoop E c (interpStep E c s) :=
  if_neg (by rw [h]; decide)

/-- One more word in front of a body. -/
theorem BodySim.cons {E : Exec X} {b len : Nat} {s : St X} {r : Bool × Int × St X}
    (hh : s.core.halt = false) (h : BodySim E b len (interpStep E (b + len) s) r) :
    BodySim E b (len + 1) s r where
  nonneg := h.nonneg
  used := by
    have := h.used
    omega
  kept := h.kept
  noDelay := h.noDelay
  same := by
    rw [← Nat.add_assoc, interpLoop_succ E _ hh]
    exact h.same

/-- A body that COP0 cut after its first word. -/
theorem BodySim.cut {E : Exec X} {b len : Nat} {s s' : St X} (hh : s.core.halt = false)
    (hd : s'.inDelay = false) (h : Same (interpStep E (b + len) s) s') :
    BodySim E b (len + 1) s (true, (b : Int) + len, s') where
  nonneg := by
    dsimp only
    omega
  used := by
    dsimp only
    omega
  kept := nofun
  noDelay := hd
  same := by
    rw [← Nat.add_assoc, interpLoop_succ E _ hh, show ((b : Int) + len).toNat = b + len by omega]
    exact interpLoop_same E _ h

/-- A branch and its slot, whatever the slot does. -/
theorem BodySim.pair {E : Exec X} {b : Nat} {s s' : St X} {cut : Bool}
    (hh : s.core.halt = false) (hh' : (interpStep E (b + 1) s).core.halt = false)
    (hd : s'.inDelay = false)
    (hc : cut = false → s'.core.halt = false)
    (h : Same (interpStep E b (interpStep E (b + 1) s)) s') :
    BodySim E b 2 s (cut, (b : Int), s') where
  nonneg := by
    dsimp only
    omega
  used := by
    dsimp only
    omega
  kept := fun hcut => ⟨rfl, hc hcut⟩
  noDelay := hd
  same := by
    rw [interpLoop_succ E (b + 1) hh, interpLoop_succ E b hh']
    exact interpLoop_same E _ h

theorem runOps_plain (E : Exec X) (eb : Bool) (a : Pc) {op : Word} (rest : List Word) (budget : Int)
    (s : St X) (hin : (classify op).inner) (h0 : classify op ≠ .cop0) :
    runOps E eb a (op :: rest) budget s =
      runOps E eb a.next rest budget { s.visit a op with core := exec E 0 op s.core } := by
  rw [runOps]
  cases hk : classify op with
  | stop | branch => exact absurd (hk ▸ hin) (by decide)
  | cop0 => exact absurd hk h0
  | native | cop2 | lwc2 | swc2 | mem => rfl

/-- COP0 in a block runs with the interpreter's clock. -/
theorem runOps_cop0 (E : Exec X) (eb : Bool) (a : Pc) {op : Word} (rest : List Word) (b : Nat)
    (s : St X) (h0 : classify op = .cop0) :
    runOps E eb a (op :: rest) b s =
      let s' := { s.visit a op with core := exec E (b + rest.length) op s.core }
      if s'.core.halt || (E.special (b + rest.length) op (s.core.r, s.core.x)).imem.isSome then
        (true, (b : Int) + rest.length, if eb && rest.isEmpty then s' else { s' with pc := a.next })
      else runOps E eb a.next rest b s' := by
  have hleft : ((b : Int) + rest.length).toNat = b + rest.length := by omega
  rw [runOps, h0]
  dsimp only
  rw [hleft]

/-- COP0 that wrote no IMEM. -/
theorem exec_cop0_imem (E : Exec X) (left : Nat) {op : Word} (c : Core X)
    (h0 : classify op = .cop0) (h : (E.special left op (c.r, c.x)).imem.isSome = false) :
    (exec E left op c).imem = c.imem := by
  unfold exec
  rw [h0]
  dsimp only
  rw [Option.isSome_eq_false_iff, Option.isNone_iff_eq_none] at h
  rw [h]
  rfl

theorem runOps_sim (E : Exec X) {imem : Imem} {eb : Bool} {n : Nat} {ops : List Word}
    (h : Runs imem eb n ops) (hn : n + ops.length ≤ imemWords) (b : Nat) (s : St X)
    (hi : s.core.imem = imem) (hd : s.inDelay = false) (hh : s.core.halt = false) :
    BodySim E b ops.length { s with pc := Pc.ofNat n } (runOps E eb (Pc.ofNat n) ops b s) := by
  induction h generalizing s with
  | nil n =>
    exact ⟨Int.natCast_nonneg b, Int.le_refl _, fun _ => ⟨rfl, hh⟩, hd, SameRun.refl _⟩
  | @inner eb n rest hin hrest ih =>
    subst hi
    simp only [List.length_cons] at hn ⊢
    have ha : s.core.imem (Pc.ofNat n).val = s.core.imem n :=
      congrArg _ (Pc.ofNat_val (by unfold imemWords at hn; omega))
    have hstep := interpStep_inner E (b + rest.length) s (Pc.ofNat n) (ha ▸ hin) hd
    rw [ha, Pc.ofNat_next] at hstep
    -- the rest of the body, from a state that agrees with the interpreter's up to the PC
    have hrun (s' : St X) (himem : s'.core.imem = s.core.imem) (hd' : s'.inDelay = false)
        (hh' : s'.core.halt = false)
        (hs : interpStep E (b + rest.length) { s with pc := Pc.ofNat n } =
          { s' with pc := Pc.ofNat (n + 1) }) :
        BodySim E b (rest.length + 1) { s with pc := Pc.ofNat n }
          (runOps E eb (Pc.ofNat (n + 1)) rest b s') :=
      BodySim.cons hh (hs ▸ ih (by omega) s' himem hd' hh')
    by_cases h0 : classify (s.core.imem n) = .cop0
    · rw [runOps_cop0 E eb _ rest b s h0, Pc.ofNat_next]
      dsimp only
      have hslot : (eb && rest.isEmpty) = false := by
        cases eb with
        | false => rfl
        | true => exact hrest.ne_nil
      rw [hslot, if_neg Bool.false_ne_true]
      split_ifs with hcut
      · exact BodySim.cut hh hd (Same.of_eq hstep)
      · rw [Bool.not_eq_true, Bool.or_eq_false_iff] at hcut
        exact hrun _ (exec_cop0_imem E _ s.core h0 hcut.2) hd hcut.1 hstep
    · obtain ⟨hclock, himem, hhalt⟩ := exec_plain E hin h0 (b + rest.length) s.core
      rw [runOps_plain E eb _ rest b s hin h0, Pc.ofNat_next]
      rw [hclock] at hstep
      exact hrun _ himem hd (hhalt.trans hh) hstep
  | @pair n hb hin =>
    subst hi
    simp only [List.length_cons, List.length_nil, imemWords] at hn ⊢
    have ha : s.core.imem (Pc.ofNat n).val = s.core.imem n := congrArg _ (Pc.ofNat_val (by omega))
    have hnext : s.core.imem (Pc.ofNat n).next.val = s.core.imem (n + 1) := by
      rw [Pc.ofNat_next, Pc.ofNat_val (by omega)]
    have hpair := interpStep_pair E b (b + 1) s (Pc.ofNat n) (ha ▸ hb) (hnext ▸ hin) hd
    have hfirst := interpStep_branch E (b + 1) s (Pc.ofNat n) (ha ▸ hb) hd
    have hhalt : (interpStep E (b + 1) { s with pc := Pc.ofNat n }).core.halt = false := by
      rw [hfirst]
      exact hh
    rw [ha, hnext] at hpair
    rw [runOps, hb]
    dsimp only
    by_cases h0 : classify (s.core.imem (n + 1)) = .cop0
    · rw [runOps_cop0 E true _ [] b _ h0]
      dsimp only [St.visit, List.length_nil, List.isEmpty_nil, Bool.and_true]
      rw [if_pos (Bool.and_self true)]
      split_ifs with hcut
      · exact BodySim.pair hh hhalt hd nofun hpair
      · rw [Bool.not_eq_true, Bool.or_eq_false_iff] at hcut
        exact BodySim.pair hh hhalt hd (fun _ => hcut.1) hpair
    · rw [runOps_plain E true _ [] b _ hin h0]
      dsimp only [St.visit, runOps]
      obtain ⟨hclock, himem, hhalt'⟩ := exec_plain E hin h0 b
        { s.core with r := (emitBranch (s.core.imem n) (Pc.ofNat n) s.core.r).1 }
      rw [hclock] at hpair
      exact BodySim.pair hh hhalt hd (fun _ => hhalt'.trans hh) hpair

/-! ## Section 5: Blocks, chains and chunks -/

theorem runBlock_sim (E : Exec X) (b : Nat) (s : St X) (hd : s.inDelay = false)
    (hh : s.core.halt = false) :
    BodySim E b (form s.core.imem s.pc.val).nOps s (runBlock E b s) := by
  have hlen : (blockWords s.core.imem s.pc.val).length = (form s.core.imem s.pc.val).nOps := by
    rw [blockWords, List.length_map, List.length_range]
  have hs := form_shape s.pc.isLt s.core.imem
  have h := runOps_sim E (blockWords_runs s.pc.isLt s.core.imem) (hlen ▸ hs.noWrap) b s rfl hd hh
  rw [hlen, Pc.ofNat_self] at h
  exact h

/-- What a chain of blocks leaves, entered in `s` with `b` instructions of
    the chunk behind its first block. -/
structure ChainSim (E : Exec X) (b : Nat) (s : St X) (r : Int × St X) : Prop where
  nonneg : 0 ≤ r.1
  used : r.1 ≤ b + ((form s.core.imem s.pc.val).nOps - 1 : Nat)
  same : SameRun (interpLoop E (b + (form s.core.imem s.pc.val).nOps) s)
    (interpLoop E r.1.toNat r.2)

theorem BodySim.chain {E : Exec X} {b : Nat} {s : St X} {r : Bool × Int × St X}
    (h : BodySim E b (form s.core.imem s.pc.val).nOps s r) : ChainSim E b s r.2 :=
  ⟨h.nonneg, h.used, h.same⟩

theorem runChain_sim (E : Exec X) (live : Site → St X → Bool) (k b : Nat) (s : St X)
    (hd : s.inDelay = false) (hh : s.core.halt = false) :
    ChainSim E b s (runChain E live k b s) := by
  induction k generalizing b s with
  | zero =>
    have hb := runBlock_sim E b s hd hh
    unfold runChain
    dsimp only
    split_ifs
    · exact hb.chain
    · exact hb.chain
  | succ k ih =>
    have hb := runBlock_sim E b s hd hh
    unfold runChain
    dsimp only
    generalize runBlock E b s = r at hb ⊢
    obtain ⟨cut, left, s'⟩ := r
    dsimp only
    split_ifs with hcut hlink
    · exact hb.chain
    · -- the next block fits, so it is charged to what the chunk has left
      obtain ⟨rfl, hhalt⟩ : left = b ∧ s'.core.halt = false := hb.kept (Bool.eq_false_iff.mpr hcut)
      simp only [Bool.and_eq_true, decide_eq_true_eq] at hlink
      have hfit := Int.ofNat_le.mp hlink.2
      rw [← Int.ofNat_sub hfit]
      have hnext := ih (b - (form s'.core.imem s'.pc.val).nOps) s' hb.noDelay hhalt
      have hsame := hnext.same
      rw [Nat.sub_add_cancel hfit] at hsame
      refine ⟨hnext.nonneg, ?_, hb.same.trans hsame⟩
      have := hnext.used
      omega
    · exact hb.chain

theorem jitLoop_sim (E : Exec X) (live : Site → St X → Bool) (k c : Nat) (s : St X) (hk : c ≤ k) :
    SameRun (interpLoop E c s) (jitLoop E live k c s) := by
  induction k generalizing c s with
  | zero =>
    rw [Nat.le_zero.mp hk]
    exact SameRun.refl _
  | succ k ih =>
    unfold jitLoop
    dsimp only
    split_ifs with hstop hblock
    · obtain rfl | hhalt := hstop
      · exact SameRun.refl _
      · cases c with
        | zero => exact SameRun.refl _
        | succ c =>
          unfold interpLoop
          rw [if_pos hhalt]
          exact SameRun.refl _
    · push Not at hstop
      simp only [Bool.and_eq_true, Bool.not_eq_true', decide_eq_true_eq] at hblock
      obtain ⟨⟨⟨⟨hd, -⟩, -⟩, hmin⟩, hfit⟩ := hblock
      rw [← Int.ofNat_sub hfit]
      have h := runChain_sim E live c (c - (form s.core.imem s.pc.val).nOps) s hd
        (Bool.eq_false_iff.mpr hstop.2)
      have hsame := h.same
      rw [Nat.sub_add_cancel hfit] at hsame
      refine hsame.trans (ih _ _ ?_)
      have := h.used
      unfold kMinOps at hmin
      omega
    · push Not at hstop
      obtain ⟨c, rfl⟩ := Nat.exists_eq_succ_of_ne_zero hstop.1
      rw [interpLoop_succ E c (Bool.eq_false_iff.mpr hstop.2)]
      exact ih _ _ (by omega)

/-! ## Section 6: `Rsp::step` -/

/-- Two ends of `step` that agree: the same instructions in the same order,
    the same core, PC and latch, the same watchdog and the same number of
    retired instructions. -/
structure SameStep (p q : Stepped X) : Prop where
  st : Same p.st q.st
  watch : p.watch = q.watch
  ran : p.ran = q.ran

theorem stepLoop_same (env : Env) {loop loop' : Nat → St X → St X × Nat}
    (hloop : ∀ c s t, Same s t → SameRun (loop c s) (loop' c t)) (k maxInsns : Nat) (w : Watch)
    {s t : St X} (h : Same s t) :
    SameStep (stepLoop env loop k maxInsns w s) (stepLoop env loop' k maxInsns w t) := by
  induction k generalizing maxInsns w s t with
  | zero => exact ⟨h, rfl, rfl⟩
  | succ k ih =>
    unfold stepLoop
    dsimp only
    rw [h.core]
    split_ifs
    · exact ⟨h, rfl, rfl⟩
    · generalize min (min maxInsns w.budget) env.kRspTanda = chunk
      have hr := hloop chunk s t h
      rw [hr.1.core, hr.2]
      have hrest := ih (maxInsns - (chunk - (loop' chunk t).2))
        (w.spend env (chunk - (loop' chunk t).2) (loop' chunk t).1.core.halt) hr.1
      exact ⟨hrest.st, hrest.watch, congrArg (_ + ·) hrest.ran⟩

theorem jit_step_same (env : Env) (E : Exec X) (live : Site → St X → Bool) (maxInsns : Nat)
    (w : Watch) (s : St X) :
    SameStep (stepInterp env E maxInsns w s) (stepJit env E live maxInsns w s) :=
  stepLoop_same env
    (fun c _ t h => (interpLoop_same E c h).trans (jitLoop_sim E live c c t (Nat.le_refl c)))
    maxInsns maxInsns w (Same.refl s)

/-- `j 8` at address 0, and `nop`s. -/
def jumpImem : Imem := fun i => if i = 0 then 0x08000002 else 0

def jumpState : St Unit :=
  { core := { r := fun _ => 0, x := (), imem := jumpImem, halt := false }
    pc := 0, inDelay := false, pendingTarget := 0, trace := [] }

def idleExec : Exec Unit :=
  { plain := fun _ c => c
    special := fun _ _ c => { r := c.1, x := c.2, halt := false, imem := none } }

/-- The dead latch itself is not kept: after the jump and its slot the
    interpreter's holds the target, the block's what it held before. -/
theorem dead_latch_differs :
    let w : Watch := { budget := 10, hangTicks := 0 }
    let p := stepInterp { rspTanda := 0, rspBudget := 0 } idleExec 2 w jumpState
    let q := stepJit { rspTanda := 0, rspBudget := 0 } idleExec (fun _ _ => true) 2 w jumpState
    p.st.pc = 2 ∧ q.st.pc = 2 ∧ p.ran = 2 ∧ q.ran = 2 ∧
      p.st.pendingTarget = 2 ∧ q.st.pendingTarget = 0 := by
  decide

end Rsp
