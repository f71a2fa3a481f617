import Kestrel64.Cpu.CacheTags

/-! # CPU: CACHE by Address

    The operations of the `CACHE` instruction that name a line by an address:
    `Create_Dirty_Exclusive`, the three hit operations, and `Fill` on the
    instruction cache. `execute` translates the address for its faults and
    then hands the virtual one to `cacheOp`, which takes its low 29 bits.

    `AddrOp.act` is the operation on the line of a physical address.
    `cache_translated_iff` says when `execute` does that to the line a load
    would read from.
-/

namespace Cpu

variable {Dev : Type}

/-! ## Section 1: The operations on a physical line -/

inductive AddrOp where
  | createDirtyExclusive
  | hitInvalidate
  | hitWritebackInvalidate
  | hitWriteback
  | fill
  deriving DecidableEq, Repr

/-- The `rt` field of the instruction. -/
def AddrOp.field : AddrOp → Fin 32
  | .createDirtyExclusive => 13
  | .hitInvalidate => 17
  | .hitWritebackInvalidate => 21
  | .hitWriteback => 25
  | .fill => 20

section Act

variable (D : Devices Dev) (pak : Pak)

/-- What the operation does to the line of the physical address `phys`. -/
def AddrOp.act (phys : Nat) (m : Machine Dev) : AddrOp → Machine Dev
  | .createDirtyExclusive =>
    let l := m.cpu.dcache (phys / 16 % 512)
    let s := if l.valid && l.dirty && l.ptag ≠ phys / 16 * 16 then
        dcFlush D pak (phys / 16 % 512) m.cpu
      else m.cpu
    { m with
      cpu := s.setLine (phys / 16 % 512)
        { s.dcache (phys / 16 % 512) with tagv := phys / 16 * 16 + 1, dirty := true } }
  | .hitInvalidate =>
    if m.cpu.dHits phys then
      { m with
        cpu := m.cpu.setLine (phys / 16 % 512)
          { (m.cpu.dcache (phys / 16 % 512)).invalidate with dirty := false } }
    else m
  | .hitWritebackInvalidate =>
    if m.cpu.dHits phys then
      let s := dcFlush D pak (phys / 16 % 512) m.cpu
      { m with cpu := s.setLine (phys / 16 % 512) (s.dcache (phys / 16 % 512)).invalidate }
    else m
  | .hitWriteback =>
    if m.cpu.dHits phys then { m with cpu := dcFlush D pak (phys / 16 % 512) m.cpu } else m
  | .fill => icFill D pak (phys / 32 % 512) (phys / 32 * 32) m

variable {D pak} in
/-- An operation on the data cache that leaves `TagLo`. -/
theorem cacheOp_data {op v : Nat} {fn : DCacheFn} {m : Machine Dev} {s : State Dev}
    (hodd : op % 2 = 1) (hfn : .decode (op / 4 % 8) = fn)
    (h : cacheOpD D pak fn v m.tagLo m.cpu = (m.tagLo, s)) :
    cacheOp D pak op v m = { m with cpu := s } := by
  unfold cacheOp
  rw [if_pos hodd, hfn, h]

/-- `cacheOp` is the operation at the low 29 bits of the virtual address. -/
theorem cacheOp_field (op : AddrOp) (vaddr : Nat) (m : Machine Dev) :
    cacheOp D pak op.field vaddr m = op.act D pak (vaddr % 2 ^ 29) m := by
  have hhit : m.cpu.dHits (vaddr % 2 ^ 29) = true ↔
      (m.cpu.dcache (vaddr % 2 ^ 29 / 16 % 512)).tagv = vaddr % 2 ^ 29 / 16 * 16 + 1 :=
    beq_iff_eq
  unfold AddrOp.act
  cases op with
  | createDirtyExclusive => rfl
  | fill => rfl
  | hitInvalidate =>
    dsimp only
    split_ifs with h
    · exact cacheOp_data rfl rfl (if_pos (hhit.mp h))
    · exact cacheOp_data rfl rfl (if_neg (mt hhit.mpr h))
  | hitWritebackInvalidate =>
    dsimp only
    split_ifs with h
    · exact cacheOp_data rfl rfl (if_pos (hhit.mp h))
    · exact cacheOp_data rfl rfl (if_neg (mt hhit.mpr h))
  | hitWriteback =>
    dsimp only
    split_ifs with h
    · exact cacheOp_data rfl rfl (congrArg (Prod.mk _) (if_pos (hhit.mp h)))
    · exact cacheOp_data rfl rfl (congrArg (Prod.mk _) (if_neg (mt hhit.mpr h)))

/-- It stays with that line. -/
theorem AddrOp.act_other (op : AddrOp) (phys : Nat) (m : Machine Dev) :
    (∀ j ≠ phys / 16 % 512, (op.act D pak phys m).cpu.dcache j = m.cpu.dcache j) ∧
      ∀ j ≠ phys / 32 % 512, (op.act D pak phys m).icache j = m.icache j := by
  unfold AddrOp.act
  cases op with
  | createDirtyExclusive =>
    refine ⟨fun j hj => ?_, fun j _ => rfl⟩
    dsimp only
    rw [setLine_other hj]
    split_ifs
    · exact dcFlush_other hj _
    · rfl
  | hitInvalidate =>
    dsimp only
    split_ifs
    · exact ⟨fun j hj => setLine_other hj _ _, fun j _ => rfl⟩
    · exact ⟨fun j _ => rfl, fun j _ => rfl⟩
  | hitWritebackInvalidate =>
    dsimp only
    split_ifs
    · exact ⟨fun j hj => (setLine_other hj _ _).trans (dcFlush_other hj _), fun j _ => rfl⟩
    · exact ⟨fun j _ => rfl, fun j _ => rfl⟩
  | hitWriteback =>
    dsimp only
    split_ifs
    · exact ⟨fun j hj => dcFlush_other hj _, fun j _ => rfl⟩
    · exact ⟨fun j _ => rfl, fun j _ => rfl⟩
  | fill => exact ⟨fun j _ => rfl, fun j hj => setILine_other hj _ _⟩

/-! ## Section 2: The operation tells the line -/

/-- The machine with other lines in its caches. -/
def Machine.withLines (m : Machine Dev) (dc : Nat → DCacheLine) (ic : Nat → ICacheLine) :
    Machine Dev :=
  { m with cpu := { m.cpu with dcache := dc }, icache := ic }

/-- The machine with another cache attribute latched. -/
def Machine.latch (m : Machine Dev) (c : Bool) : Machine Dev :=
  { m with cpu := { m.cpu with xlatCacheable := c } }

def emptyILines : Nat → ICacheLine :=
  fun _ => { ptag := 0, valid := false, seq := 0, data := fun _ => 0 }

/-- The data cache with one dirty line, that of `phys`. -/
def oneLine (phys : Nat) : Nat → DCacheLine := fun j =>
  if j = phys / 16 % 512 then
    { tagv := phys / 16 * 16 + 1, dirty := true, data := fun _ => 0 }
  else { tagv := 0, dirty := false, data := fun _ => 0 }

theorem oneLine_hits {m : Machine Dev} {phys v : Nat} {ic : Nat → ICacheLine} :
    (m.withLines (oneLine phys) ic).cpu.dHits v = true ↔ v / 16 = phys / 16 := by
  have htag : ((m.withLines (oneLine phys) ic).cpu.dcache (v / 16 % 512)).tagv =
      if v / 16 % 512 = phys / 16 % 512 then phys / 16 * 16 + 1 else 0 := by
    change (oneLine phys (v / 16 % 512)).tagv = _
    unfold oneLine
    split_ifs <;> rfl
  unfold State.dHits
  rw [beq_iff_eq, htag]
  by_cases hidx : v / 16 % 512 = phys / 16 % 512
  · rw [if_pos hidx]
    omega
  · rw [if_neg hidx]
    constructor
    · nofun
    · intro h
      rw [h] at hidx
      exact absurd rfl hidx

theorem dcFlush_tagv (idx : Nat) (s : State Dev) :
    ((dcFlush D pak idx s).dcache idx).tagv = (s.dcache idx).tagv := by
  unfold dcFlush
  dsimp only
  split_ifs
  · rfl
  · rw [setLine_same]

variable {D pak}

/-- Whatever the caches hold, the operation does the same at two addresses of
    one page offset only if they are the same address. -/
theorem AddrOp.act_inj {op : AddrOp} {m : Machine Dev} {p v : Nat}
    (hoff : p % 2 ^ 12 = v % 2 ^ 12)
    (h : ∀ dc ic, op.act D pak v (m.withLines dc ic) = op.act D pak p (m.withLines dc ic)) :
    p = v := by
  by_contra hne
  have h16 : ¬v / 16 = p / 16 := by omega
  have h32 : ¬v / 32 = p / 32 := by omega
  have hmiss := mt (@oneLine_hits _ m p v emptyILines).mp h16
  have hhit := (@oneLine_hits _ m p p emptyILines).mpr rfl
  have hline : (m.withLines (oneLine p) emptyILines).cpu.dcache (p / 16 % 512) =
      { tagv := p / 16 * 16 + 1, dirty := true, data := fun _ => 0 } := if_pos rfl
  have hboth := h (oneLine p) emptyILines
  unfold AddrOp.act at h hboth
  cases op with
  | createDirtyExclusive =>
    -- with nothing cached: the line of `v` appears under one of them only
    have hv := congrArg (fun m => (m.cpu.dcache (v / 16 % 512)).tagv)
      (h emptyLines emptyILines)
    dsimp only at hv
    rw [setLine_same] at hv
    by_cases hidx : v / 16 % 512 = p / 16 % 512
    · rw [hidx, setLine_same] at hv
      dsimp only at hv
      omega
    · rw [setLine_other hidx] at hv
      dsimp only at hv
      exact absurd hv (by unfold Machine.withLines emptyLines; simp [DCacheLine.valid])
  | hitInvalidate =>
    -- with the line of `p` cached: only there does it go
    dsimp only at hboth
    rw [if_neg hmiss, if_pos hhit] at hboth
    have hp := congrArg (fun m => (m.cpu.dcache (p / 16 % 512)).dirty) hboth
    dsimp only at hp
    rw [setLine_same, hline] at hp
    cases hp
  | hitWritebackInvalidate =>
    dsimp only at hboth
    rw [if_neg hmiss, if_pos hhit] at hboth
    have hp := congrArg (fun m => (m.cpu.dcache (p / 16 % 512)).tagv) hboth
    dsimp only at hp
    rw [setLine_same] at hp
    unfold DCacheLine.invalidate at hp
    dsimp only at hp
    rw [dcFlush_tagv, hline] at hp
    dsimp only at hp
    omega
  | hitWriteback =>
    dsimp only at hboth
    rw [if_neg hmiss, if_pos hhit] at hboth
    have hp := congrArg (fun m => m.cpu.dcache (p / 16 % 512)) hboth
    dsimp only at hp
    have hflushed := @dcFlush_flushed _ D pak (m.withLines (oneLine p) emptyILines).cpu
      (p / 16 % 512)
    rw [← hp, hline] at hflushed
    have hvalid : (p / 16 * 16 + 1) % 2 = 1 := by omega
    cases hflushed (beq_iff_eq.mpr hvalid)
  | fill =>
    have hv := congrArg (fun m => m.icache (v / 32 % 512)) (h emptyLines emptyILines)
    dsimp only at hv
    unfold icFill at hv
    dsimp only at hv
    rw [setILine_same] at hv
    by_cases hidx : v / 32 % 512 = p / 32 % 512
    · rw [hidx, setILine_same] at hv
      have htag := congrArg ICacheLine.ptag hv
      dsimp only at htag
      omega
    · rw [setILine_other hidx] at hv
      cases congrArg ICacheLine.valid hv

/-! ## Section 3: The address of a load -/

/-- A naturally aligned unit stays in its doubleword. -/
theorem busAddr_unit {st p n : Nat} (hn : n = 1 ∨ n = 2 ∨ n = 4 ∨ n = 8) (hp : p % n = 0) :
    busAddr st p n % n = 0 ∧ busAddr st p n / 8 = p % 2 ^ 32 / 8 := by
  have hmove : ∀ j k, k < 8 → p % 2 ^ j = 0 → k % 2 ^ j = 0 → j ≤ 3 →
      (p ^^^ k) % 2 ^ 32 % 2 ^ j = 0 ∧ (p ^^^ k) % 2 ^ 32 / 8 = p % 2 ^ 32 / 8 := by
    intro j k hk hpj hkj hj
    have hdvd : 2 ^ j ∣ 2 ^ 32 := Nat.pow_dvd_pow 2 (by omega)
    refine ⟨?_, ?_⟩
    · rw [Nat.mod_mod_of_dvd _ hdvd, Nat.xor_mod_two_pow, hpj, hkj, Nat.xor_self]
    · rw [Nat.xor_mod_two_pow, Nat.mod_eq_of_lt (show k < 2 ^ 32 by omega),
        show (8 : Nat) = 2 ^ 3 from rfl, Nat.xor_div_two_pow,
        Nat.div_eq_of_lt (show k < 2 ^ 3 from hk), Nat.xor_zero]
  unfold busAddr reXor
  rcases hn with rfl | rfl | rfl | rfl
  · rw [if_neg (by decide)]
    split_ifs
    · exact hmove 0 7 (by decide) hp (by decide) (by decide)
    · exact ⟨by omega, rfl⟩
  · rw [if_neg (by decide)]
    split_ifs
    · exact hmove 1 6 (by decide) hp (by decide) (by decide)
    · exact ⟨by omega, rfl⟩
  · rw [if_neg (by decide)]
    split_ifs
    · exact hmove 2 4 (by decide) hp (by decide) (by decide)
    · exact ⟨by omega, rfl⟩
  · rw [if_pos rfl]
    exact ⟨by omega, rfl⟩

theorem dcWrite_sameXlat (pe n : Nat) (x : BitVec 64) (s : State Dev) :
    SameXlat s (dcWrite D pak pe x n s) := by
  obtain ⟨hst, hhi, htlb, hattr⟩ := dcTouch_sameXlat D pak pe s
  exact ⟨hst, hhi, htlb, hattr⟩

/-- Only `Status`, `EntryHi` and the TLB decide where an address goes. -/
theorem translate_again {a pa : Nat} {acc : Access} {s t : State Dev}
    (h : translate false a acc s = .ok (pa, t)) {u : State Dev} (hst : u.status = s.status)
    (hhi : u.entryHi = s.entryHi) (htlb : u.tlb = s.tlb) :
    ∃ c, translate false a acc u = .ok (pa, { u with xlatCacheable := c }) := by
  rw [translate_eq] at h ⊢
  rw [hst, hhi, htlb]
  cases hx : xlatResult s.status s.entryHi s.tlb a acc with
  | error e =>
    rw [hx] at h
    cases h
  | ok q =>
    rw [hx] at h
    have hpa : q.1 = pa := congrArg Prod.fst (Except.ok.inj h)
    exact ⟨q.2.getD u.xlatCacheable, by rw [← hpa]; rfl⟩

/-- `CACHE` runs in kernel mode, or where coprocessor 0 is usable. -/
def privileged (st : Nat) : Prop := cpuMode st = 0 ∨ st.testBit 28 = true

theorem execCache_field {m : Machine Dev} {a : BitVec 64} {pa : Nat} {t : State Dev}
    (hpriv : privileged m.cpu.status) (hx : translate false a.toNat .read m.cpu = .ok (pa, t))
    (op : AddrOp) :
    execCache D pak op.field a m = op.act D pak (a.toNat % 2 ^ 29) { m with cpu := t } := by
  unfold execCache
  rw [if_neg, hx]
  · exact cacheOp_field D pak op _ _
  · rcases hpriv with h | h <;> simp [h]

/-! ## Section 4: Store and write back -/

/-- What a write-back leaves in RDRAM. -/
theorem dcFlush_rdram {s : State Dev} {idx : Nat} (hv : (s.dcache idx).valid = true)
    (hd : (s.dcache idx).dirty = true) :
    (dcFlush D pak idx s).mem.rdram =
      (s.dcache idx).writeTo pak.size
        (s.settle D pak (s.dcache idx).ptag ((s.dcache idx).ptag + 16)).mem.rdram := by
  unfold dcFlush
  dsimp only
  rw [if_neg (by simp [hv, hd])]
  rfl

/-- The line a store has just gone into. -/
theorem dcWrite_line (pe n : Nat) (x : BitVec 64) (s : State Dev) :
    (dcWrite D pak pe x n s).dcache (pe / 16 % 512) =
      { tagv := pe / 16 * 16 + 1
        dirty := true
        data := beWrite ((dcTouch D pak pe s).dcache (pe / 16 % 512)).data (pe % 16) n x } := by
  rw [← @dcTouch_tagv _ D pak pe s]
  exact if_pos rfl

/-- Its write-back brings the bytes to RDRAM. -/
theorem dcFlush_dcWrite {pe n : Nat} (ha : Natural pak.size pe n) (x : BitVec 64) (c : Bool)
    (s : State Dev) {i : Nat} (hi : i < n) :
    (dcFlush D pak (pe / 16 % 512)
      { dcWrite D pak pe x n s with xlatCacheable := c }).mem.rdram (pe + i) = beByte x n i := by
  have hline := ha.line
  have hin := ha.inside
  set w := { dcWrite D pak pe x n s with xlatCacheable := c } with hw
  have hl := @dcWrite_line _ D pak pe n x s
  change w.dcache (pe / 16 % 512) = _ at hl
  have htag : (w.dcache (pe / 16 % 512)).ptag = pe / 16 * 16 := by
    unfold DCacheLine.ptag
    rw [hl]
    dsimp only
    omega
  have hvalid : (w.dcache (pe / 16 % 512)).valid = true := by
    unfold DCacheLine.valid
    rw [hl, beq_iff_eq]
    dsimp only
    omega
  rw [dcFlush_rdram hvalid (by rw [hl])]
  unfold DCacheLine.writeTo
  rw [htag, if_pos (by omega), hl]
  unfold beWrite
  dsimp only
  rw [if_pos (by omega), show pe + i - pe / 16 * 16 - pe % 16 = i by omega]

/-! ## Section 5: What execute does -/

variable (D pak)

/-- Whatever the caches hold, the operation at `a` is the operation on the
    line that holds the physical address a load from `a` reads. -/
def ActsTranslated (m : Machine Dev) (a : BitVec 64) (op : AddrOp) : Prop :=
  ∀ dc ic pa t, xlat a.toNat .read (m.withLines dc ic).cpu = .ok (pa, t) →
    execCache D pak op.field a (m.withLines dc ic) =
      op.act D pak (pa % 2 ^ 32) { m.withLines dc ic with cpu := t }

/-- Whatever the caches hold, a store at `a` into the data cache and
    `Hit_Writeback` at `a` bring the value to RDRAM. -/
def StoreWritesBack (m : Machine Dev) (a : BitVec 64) : Prop :=
  ∀ dc ic n x s pa t, (n = 1 ∨ n = 2 ∨ n = 4 ∨ n = 8) →
    xlat a.toNat .write (m.withLines dc ic).cpu = .ok (pa, t) →
    inRdram pak a.toNat (busAddr t.status pa n) t = true →
    writeN D pak n a x (m.withLines dc ic).cpu = .ok s →
    ∀ i < n,
      (execCache D pak AddrOp.hitWriteback.field a { m.withLines dc ic with cpu := s }).cpu.mem.rdram
        (busAddr t.status pa n + i) = beByte x n i

/-- A byte store at `a` goes into the data cache. -/
def Storable (m : Machine Dev) (a : BitVec 64) : Prop :=
  ∃ pa t, xlat a.toNat .write m.cpu = .ok (pa, t) ∧
    inRdram pak a.toNat (busAddr t.status pa 1) t = true

variable {D pak}

/-- The caches do not matter to a translation. -/
theorem xlat_withLines {m : Machine Dev} {a pa : Nat} {acc : Access} {t : State Dev}
    (h : xlat a acc m.cpu = .ok (pa, t)) :
    ∃ c, ∀ dc ic, xlat a acc (m.withLines dc ic).cpu =
      .ok (pa, { (m.withLines dc ic).cpu with xlatCacheable := c }) := by
  rw [xlat_eq_translate, translate_eq] at h
  cases hx : xlatResult m.cpu.status m.cpu.entryHi m.cpu.tlb a acc with
  | error e =>
    rw [hx] at h
    cases h
  | ok q =>
    rw [hx] at h
    have hpa : q.1 = pa := congrArg Prod.fst (Except.ok.inj h)
    refine ⟨q.2.getD m.cpu.xlatCacheable, ?_⟩
    intro dc ic
    have hx' : xlatResult (m.withLines dc ic).cpu.status (m.withLines dc ic).cpu.entryHi
        (m.withLines dc ic).cpu.tlb a acc = .ok q := hx
    rw [xlat_eq_translate, translate_eq, hx', ← hpa]
    rfl

/-- The page offset is not translated. -/
theorem xlat_offset {a pa : Nat} {acc : Access} {s t : State Dev}
    (h : xlat a acc s = .ok (pa, t)) : pa % 2 ^ 32 % 2 ^ 12 = a % 2 ^ 29 % 2 ^ 12 := by
  rw [xlat_eq_translate] at h
  obtain ⟨⟨-, hoff⟩, -⟩ := translate_translated a acc s pa t h
  omega

theorem actsTranslated_iff {m : Machine Dev} {a : BitVec 64} {pa : Nat} {t : State Dev}
    (hpriv : privileged m.cpu.status) (hx : xlat a.toNat .read m.cpu = .ok (pa, t)) (op : AddrOp) :
    ActsTranslated D pak m a op ↔ pa % 2 ^ 32 = a.toNat % 2 ^ 29 := by
  obtain ⟨c, hc⟩ := xlat_withLines hx
  have hexec : ∀ dc ic, execCache D pak op.field a (m.withLines dc ic) =
      op.act D pak (a.toNat % 2 ^ 29)
        ((m.latch c).withLines dc ic) := by
    intro dc ic
    have hread := hc dc ic
    rw [xlat_eq_translate] at hread
    exact @execCache_field _ D pak (m.withLines dc ic) _ _ _ hpriv hread op
  constructor
  · intro h
    refine @AddrOp.act_inj _ D pak op (m.latch c) _ _ (xlat_offset hx) fun dc ic => ?_
    rw [← hexec]
    exact h dc ic pa _ (hc dc ic)
  · intro hsame dc ic pa' t' hx'
    rw [hc] at hx'
    cases hx'
    rw [hexec, hsame]
    rfl

theorem xlat_agree {a pa pa' : Nat} {acc acc' : Access} {s t t' : State Dev}
    (h : xlat a acc s = .ok (pa, t)) (h' : xlat a acc' s = .ok (pa', t')) : pa = pa' := by
  rw [xlat_eq_translate, translate_eq] at h h'
  cases hx : xlatResult s.status s.entryHi s.tlb a acc with
  | error e =>
    rw [hx] at h
    cases h
  | ok q =>
    cases hx' : xlatResult s.status s.entryHi s.tlb a acc' with
    | error e =>
      rw [hx'] at h'
      cases h'
    | ok q' =>
      rw [hx] at h
      rw [hx', ← xlatResult_agree hx hx'] at h'
      cases h
      cases h'
      rfl

theorem writeN_eq (n : Nat) (v x : BitVec 64) (s : State Dev) :
    writeN D pak n v x s = (gate v.toNat n .write s).map fun r =>
      if inRdram pak v.toNat (busAddr r.2.status r.1 n) r.2
      then dcWrite D pak (busAddr r.2.status r.1 n) x n r.2
      else busStore D pak n (busAddr r.2.status r.1 n) x
        (ramSettle D pak (busAddr r.2.status r.1 n) n r.2) := alignBad_xlat ..

/-- A store that goes through the cache. -/
theorem writeN_cached {n pa : Nat} {a x : BitVec 64} {s s' t : State Dev}
    (hw : xlat a.toNat .write s = .ok (pa, t))
    (hin : inRdram pak a.toNat (busAddr t.status pa n) t = true) :
    writeN D pak n a x s = .ok s' ↔
      a.toNat % n = 0 ∧ s' = dcWrite D pak (busAddr t.status pa n) x n t := by
  rw [xlat_eq_translate] at hw
  rw [writeN_eq]
  unfold gate
  split_ifs with hal
  · exact ⟨nofun, fun h => absurd h.1 hal⟩
  · rw [hw]
    simp only [Except.map, hin, if_true, Except.ok.injEq]
    exact ⟨fun h => ⟨not_not.mp hal, h.symm⟩, fun h => h.2.symm⟩

theorem Pak.size_aligned (pak : Pak) : pak.size % 16 = 0 := by cases pak <;> decide

/-- The machine after a cached store at `a` and the write-back at `a`. -/
theorem execCache_stored {m : Machine Dev} {a x : BitVec 64} {pa pa' pe n : Nat} {t t' : State Dev}
    (hpriv : privileged m.cpu.status) (hx : xlat a.toNat .read m.cpu = .ok (pa, t))
    (hw : xlat a.toNat .write m.cpu = .ok (pa', t')) :
    ∃ c, execCache D pak AddrOp.hitWriteback.field a { m with cpu := dcWrite D pak pe x n t' } =
      AddrOp.hitWriteback.act D pak (a.toNat % 2 ^ 29)
        { m with cpu := { dcWrite D pak pe x n t' with xlatCacheable := c } } := by
  rw [xlat_eq_translate] at hx hw
  obtain ⟨-, c', rfl⟩ := translate_translated a.toNat .write m.cpu pa' t' hw
  set t' : State Dev := { m.cpu with xlatCacheable := c' } with ht'
  obtain ⟨hst, hhi, htlb, -⟩ := @dcWrite_sameXlat _ D pak pe n x t'
  obtain ⟨c, hc⟩ := translate_again hx hst hhi htlb
  refine ⟨c, ?_⟩
  have hpriv' : privileged (dcWrite D pak pe x n t').status := by rwa [hst]
  exact @execCache_field _ D pak { m with cpu := dcWrite D pak pe x n t' } _ _ _ hpriv' hc
    .hitWriteback

theorem storeWritesBack_of_same {m : Machine Dev} {a : BitVec 64} {pa : Nat} {t : State Dev}
    (hpriv : privileged m.cpu.status) (hx : xlat a.toNat .read m.cpu = .ok (pa, t))
    (hsame : pa % 2 ^ 32 = a.toNat % 2 ^ 29) : StoreWritesBack D pak m a := by
  intro dc ic n x s pa' t' hn hw hin hs i hi
  obtain ⟨hal, rfl⟩ := (writeN_cached hw hin).mp hs
  obtain ⟨c₀, hread⟩ := xlat_withLines hx
  obtain rfl := xlat_agree (hread dc ic) hw
  -- the unit lies in the line that the write-back at `a` looks for
  have hpan : pa % n = 0 := by
    have := xlat_offset hx
    rcases hn with rfl | rfl | rfl | rfl <;> omega
  obtain ⟨hpen, hpe8⟩ := @busAddr_unit t'.status pa n hn hpan
  have hlt : busAddr t'.status pa n < pak.size := by
    have := (Bool.and_eq_true_iff.mp hin).2
    exact of_decide_eq_true this
  generalize busAddr t'.status pa n = pe at *
  have hnat : Natural pak.size pe n := by
    have := pak.size_aligned
    refine ⟨hn, hpen, ?_⟩
    rcases hn with rfl | rfl | rfl | rfl <;> omega
  have hline : a.toNat % 2 ^ 29 / 16 = pe / 16 := by omega
  obtain ⟨c, hexec⟩ := @execCache_stored _ D pak (m.withLines dc ic) a x pa pa pe n _ t' hpriv
    (hread dc ic) hw
  rw [hexec]
  unfold AddrOp.act
  dsimp only
  rw [if_pos]
  · rw [hline]
    exact dcFlush_dcWrite hnat x c t' hi
  · unfold State.dHits
    rw [hline, beq_iff_eq]
    exact congrArg DCacheLine.tagv (dcWrite_line pe n x t')

theorem same_of_storeWritesBack {m : Machine Dev} {a : BitVec 64} {pa : Nat} {t : State Dev}
    (hpriv : privileged m.cpu.status) (hx : xlat a.toNat .read m.cpu = .ok (pa, t))
    (hst : Storable pak m a) (h : StoreWritesBack D pak m a) :
    pa % 2 ^ 32 = a.toNat % 2 ^ 29 := by
  by_contra hne
  have hoff := xlat_offset hx
  obtain ⟨pa', t', hw, hin⟩ := hst
  obtain rfl := xlat_agree hx hw
  obtain ⟨c₀, hread⟩ := xlat_withLines hx
  obtain ⟨c', hwrite⟩ := xlat_withLines hw
  obtain rfl : t' = { m.cpu with xlatCacheable := c' } := by
    have hm := (hwrite m.cpu.dcache m.icache).symm.trans hw
    exact (congrArg Prod.snd (Except.ok.inj hm)).symm
  -- out of an empty cache, the store fills a line that the write-back does not look for
  set u : State Dev := { (m.withLines emptyLines m.icache).cpu with xlatCacheable := c' }
  have hpe8 := (@busAddr_unit u.status pa 1 (.inl rfl) (Nat.mod_one _)).2
  have hin' : inRdram pak a.toNat (busAddr u.status pa 1) u = true := hin
  have hval := fun x => h emptyLines m.icache 1 x _ pa u (.inl rfl) (hwrite _ _) hin'
    ((writeN_cached (hwrite _ _) hin').mpr ⟨Nat.mod_one _, rfl⟩) 0 (by decide)
  generalize busAddr u.status pa 1 = pe at hpe8 hval
  have hram : ∀ x, (dcTouch D pak pe u).mem.rdram pe = beByte x 1 0 := by
    intro x
    obtain ⟨c, hexec⟩ := @execCache_stored _ D pak (m.withLines emptyLines m.icache) a x pa pa pe
      1 _ u hpriv (hread _ _) (hwrite _ _)
    have hmiss : ¬ State.dHits { dcWrite D pak pe x 1 u with xlatCacheable := c }
        (a.toNat % 2 ^ 29) = true := by
      have hbase : ¬ pe / 16 = a.toNat % 2 ^ 29 / 16 := by omega
      unfold State.dHits
      rw [beq_iff_eq]
      dsimp only
      by_cases hidx : a.toNat % 2 ^ 29 / 16 % 512 = pe / 16 % 512
      · rw [hidx, dcWrite_line]
        dsimp only
        omega
      · have hother : (dcWrite D pak pe x 1 u).dcache (a.toNat % 2 ^ 29 / 16 % 512) =
            emptyLines (a.toNat % 2 ^ 29 / 16 % 512) :=
          (if_neg hidx).trans (dcTouch_other hidx u)
        rw [hother]
        exact nofun
    have hx := hval x
    rw [hexec] at hx
    unfold AddrOp.act at hx
    dsimp only at hx
    rw [if_neg hmiss] at hx
    exact hx
  have hbad := (hram 0).symm.trans (hram 1)
  revert hbad
  decide

end Act

/-- **The operations at `a` act on the line a load from `a` reads, whatever
    the caches hold, exactly when the translation keeps the low 29 bits of
    `a` and nothing else. Then a store and the write-back that follows it
    reach RDRAM, and otherwise they do not.** -/
theorem cache_translated_iff (D : Devices Dev) (pak : Pak) {m : Machine Dev} {a : BitVec 64}
    {pa : Nat} {t : State Dev} (hpriv : privileged m.cpu.status)
    (hx : xlat a.toNat .read m.cpu = .ok (pa, t)) :
    (∀ op, ActsTranslated D pak m a op ↔ pa % 2 ^ 32 = a.toNat % 2 ^ 29) ∧
      (pa % 2 ^ 32 = a.toNat % 2 ^ 29 → StoreWritesBack D pak m a) ∧
      (Storable pak m a → StoreWritesBack D pak m a → pa % 2 ^ 32 = a.toNat % 2 ^ 29) :=
  ⟨actsTranslated_iff hpriv hx, storeWritesBack_of_same hpriv hx,
    same_of_storeWritesBack hpriv hx⟩

/-- KSEG0. -/
theorem cache_translated_kseg0 :
    (∀ op, ActsTranslated noDevices .base coldMachine 0xffffffff80000010 op) ∧
      StoreWritesBack noDevices .base coldMachine 0xffffffff80000010 := by
  have hx : xlat (0xffffffff80000010 : BitVec 64).toNat .read coldMachine.cpu =
      .ok (0x10, coldState) := by with_unfolding_all rfl
  have hall := cache_translated_iff noDevices .base (.inl (by decide)) hx
  exact ⟨fun op => (hall.1 op).mpr (by decide), hall.2.1 (by decide)⟩

/-- The pages `0x2000` and `0x3000` are at `0x5000`. -/
def pagedMachine : Machine Unit :=
  { coldMachine with
    cpu := { coldState with
      tlb := [{ mask := 0, hi := 0x2000, lo0 := 0x15e, lo1 := 0x15e, global := true }] } }

/-- The byte stored at `0x2010` stays in the cache. -/
theorem cache_translated_mapped :
    ¬ ∀ (m : Machine Unit) (a : BitVec 64) (pa : Nat) (t : State Unit),
      privileged m.cpu.status → xlat a.toNat .read m.cpu = .ok (pa, t) →
        (∀ op, ActsTranslated noDevices .base m a op) ∧ StoreWritesBack noDevices .base m a := by
  intro h
  set t : State Unit := { pagedMachine.cpu with xlatCacheable := true }
  have hread : xlat (0x2010 : BitVec 64).toNat .read pagedMachine.cpu = .ok (0x5010, t) := by
    with_unfolding_all rfl
  have hwrite : xlat (0x2010 : BitVec 64).toNat .write
      (pagedMachine.withLines emptyLines emptyILines).cpu = .ok (0x5010, t) := by
    with_unfolding_all rfl
  have hstores := (h pagedMachine 0x2010 0x5010 t (.inl (by decide)) hread).2
  have hin : inRdram .base (0x2010 : BitVec 64).toNat (busAddr t.status 0x5010 1) t = true := by
    decide
  have hbyte := hstores emptyLines emptyILines 1 0xab _ 0x5010 t (.inl rfl) hwrite hin
    ((writeN_cached hwrite hin).mpr ⟨Nat.mod_one _, rfl⟩) 0 (by decide)
  revert hbyte
  with_unfolding_all decide

end Cpu
