import Mathlib.Data.List.Basic
import Kestrel64.Cpu.LoadStore
import Kestrel64.Lib.Transition

/-! # CPU: the Data Cache

    The write-back data cache of `cpu/cpu.cpp`: 512 direct-mapped lines of 16
    bytes, the address, the valid bit and the dirty bit of each beside its
    data. `dcRead`, `dcWrite` and `dcMiss` are those of the load and store
    ladder; here are `dcFill`, `dcFlush` and the data half of the `CACHE`
    instruction.

    The cache is for nothing but speed: seen through it, RDRAM is one flat
    memory. `State.flat` is that memory, `Coherent` is the invariant that
    makes the lines agree with it, and `dcache_transparent` compares any
    sequence of cache operations with the same sequence on the flat memory.
-/

namespace Cpu

variable {Dev : Type}

/-! ## Section 1: Lines -/

/-- `ptag()`. -/
def DCacheLine.ptag (l : DCacheLine) : Nat := l.tagv / 16 * 16

def DCacheLine.valid (l : DCacheLine) : Bool := l.tagv % 2 == 1

/-- `tagv &= ~1`. -/
def DCacheLine.invalidate (l : DCacheLine) : DCacheLine := { l with tagv := l.tagv / 2 * 2 }

/-- RDRAM with the bytes of the line over it; those past its end are lost. -/
def DCacheLine.writeTo (l : DCacheLine) (size : Nat) (ram : Nat → Byte) : Nat → Byte := fun a =>
  if l.ptag ≤ a ∧ a < l.ptag + 16 ∧ a < size then l.data (a - l.ptag) else ram a

def State.setLine (s : State Dev) (idx : Nat) (l : DCacheLine) : State Dev :=
  { s with dcache := fun j => if j = idx then l else s.dcache j }

@[simp] theorem setLine_same (s : State Dev) (idx : Nat) (l : DCacheLine) :
    (s.setLine idx l).dcache idx = l := if_pos rfl

theorem setLine_other {idx j : Nat} (h : j ≠ idx) (s : State Dev) (l : DCacheLine) :
    (s.setLine idx l).dcache j = s.dcache j := if_neg h

@[simp] theorem setLine_mem (s : State Dev) (idx : Nat) (l : DCacheLine) :
    (s.setLine idx l).mem = s.mem := rfl

/-! ## Section 2: Fill, flush and the CACHE instruction -/

section Operations

variable (D : Devices Dev) (pak : Pak)

/-- Load the line from RDRAM; past its end it is padded with zeros. -/
def dcFill (idx base : Nat) (s : State Dev) : State Dev :=
  let s := s.settle D pak base (base + 16)
  s.setLine idx
    { tagv := base + 1
      dirty := false
      data := fun i => if base + i < pak.size then s.mem.rdram (base + i) else 0 }

/-- Push a dirty line to RDRAM. -/
def dcFlush (idx : Nat) (s : State Dev) : State Dev :=
  let l := s.dcache idx
  if !l.valid || !l.dirty then s
  else
    let tag := l.ptag
    let s := s.settle D pak tag (tag + 16)
    let s := { s with mem := { s.mem with rdram := l.writeTo pak.size s.mem.rdram } }
    s.setLine idx { l with dirty := false }

/-- The operations of `CACHE` on the data cache, bits 4 to 2 of its field. -/
inductive DCacheFn where
  | indexWritebackInvalidate
  | indexLoadTag
  | indexStoreTag
  | createDirtyExclusive
  | hitInvalidate
  | hitWritebackInvalidate
  | hitWriteback
  | reserved
  deriving DecidableEq, Repr

def DCacheFn.decode : Nat → DCacheFn
  | 0 => .indexWritebackInvalidate
  | 1 => .indexLoadTag
  | 2 => .indexStoreTag
  | 3 => .createDirtyExclusive
  | 4 => .hitInvalidate
  | 5 => .hitWritebackInvalidate
  | 6 => .hitWriteback
  | _ => .reserved

/-- The data half of `cacheOp`. The first component is `TagLo`. -/
def cacheOpD (fn : DCacheFn) (vaddr tagLo : Nat) (s : State Dev) : Nat × State Dev :=
  let phys := vaddr % 2 ^ 29
  let idx := phys / 16 % 512
  let base := phys / 16 * 16
  let l := s.dcache idx
  match fn with
  | .indexWritebackInvalidate =>
    let s := dcFlush D pak idx s
    (tagLo, s.setLine idx { (s.dcache idx).invalidate with dirty := false })
  | .indexLoadTag =>
    let pstate := if l.valid then 3 else 0
    (pstate * 2 ^ 6 ||| l.ptag / 2 ^ 12 * 2 ^ 8, s)
  | .indexStoreTag =>
    let pstate := tagLo / 2 ^ 6 % 4
    let tagv := tagLo / 2 ^ 8 % 2 ^ 20 * 2 ^ 12 + if pstate ≠ 0 then 1 else 0
    (tagLo, s.setLine idx { l with tagv := tagv, dirty := false })
  | .createDirtyExclusive =>
    let s := if l.valid && l.dirty && l.ptag ≠ base then dcFlush D pak idx s else s
    (tagLo, s.setLine idx { s.dcache idx with tagv := base + 1, dirty := true })
  | .hitInvalidate =>
    if l.tagv = base + 1 then
      (tagLo, s.setLine idx { l.invalidate with dirty := false })
    else (tagLo, s)
  | .hitWritebackInvalidate =>
    if l.tagv = base + 1 then
      let s := dcFlush D pak idx s
      (tagLo, s.setLine idx (s.dcache idx).invalidate)
    else (tagLo, s)
  | .hitWriteback => (tagLo, if l.tagv = base + 1 then dcFlush D pak idx s else s)
  | .reserved => (tagLo, s)

/-- The first `n` lines, in order. -/
def dcFlushAll (n : Nat) (s : State Dev) : State Dev :=
  (List.range n).foldl (fun s idx => dcFlush D pak idx s) s

/-! ## Section 3: The flat memory -/

/-- What the CPU sees at `a` through the cache. -/
def State.flat (s : State Dev) (a : Nat) : Byte :=
  let l := s.dcache (a / 16 % 512)
  if l.tagv = a / 16 * 16 + 1 then l.data (a % 16) else s.mem.rdram a

/-- The invariant of the cache while nobody else writes RDRAM. -/
structure Coherent (s : State Dev) : Prop where
  /-- No transfer is waiting to be applied. -/
  quiet : s.mem.dpLog = []
  /-- A line to be written back stands where its address maps. -/
  placed : ∀ idx, (s.dcache idx).valid = true → (s.dcache idx).dirty = true →
    ∃ k, (s.dcache idx).tagv = 16 * k + 1 ∧ k % 512 = idx
  /-- A line that is not to be written back holds what RDRAM does. -/
  clean : ∀ a < pak.size, (s.dcache (a / 16 % 512)).tagv = a / 16 * 16 + 1 →
    (s.dcache (a / 16 % 512)).dirty = false →
    (s.dcache (a / 16 % 512)).data (a % 16) = s.mem.rdram a

variable {D pak}

theorem settle_of_quiet {s : State Dev} (h : s.mem.dpLog = []) (lo hi : Nat) :
    s.settle D pak lo hi = s := by
  have hd : dmaSettle D pak s.cartNow lo hi s.mem = s.mem := by
    apply dmaSettle_of_not_due
    unfold settleDue
    rw [h]
    exact Bool.and_false _
  unfold State.settle
  rw [hd]

/-- A line with nothing to write back. -/
def DCacheLine.Flushed (l : DCacheLine) : Prop := l.valid = true → l.dirty = false

theorem DCacheLine.flushed_or (l : DCacheLine) :
    l.Flushed ∨ l.valid = true ∧ l.dirty = true := by
  unfold DCacheLine.Flushed
  cases l.valid <;> cases l.dirty <;> simp

/-- Such a line shows RDRAM's bytes, whether it hits or not. -/
theorem Coherent.flat_of_flushed {s : State Dev} (h : Coherent pak s) {a : Nat}
    (ha : a < pak.size) (hf : (s.dcache (a / 16 % 512)).Flushed) :
    s.flat a = s.mem.rdram a := by
  unfold State.flat
  dsimp only
  split_ifs with hit
  · have hv : (s.dcache (a / 16 % 512)).valid = true := by
      unfold DCacheLine.valid
      rw [beq_iff_eq, hit]
      omega
    exact h.clean a ha hit (hf hv)
  · rfl

variable (pak) in
/-- The CPU sees the memory `m` through the cache. -/
def Shows (s : State Dev) (m : Nat → Byte) : Prop :=
  Coherent pak s ∧ ∀ a < pak.size, s.flat a = m a

/-! ## Section 4: Operations keep the view -/

theorem Shows.stall {s : State Dev} {m : Nat → Byte} (h : Shows pak s m) (n : Nat) :
    Shows pak { s with stallCycles := n } m :=
  ⟨⟨h.1.quiet, h.1.placed, h.1.clean⟩, h.2⟩

/-- A line with nothing to write back may be replaced by any other line that
    has nothing to write back and holds what RDRAM does. -/
theorem Shows.replace {s : State Dev} {m : Nat → Byte} (h : Shows pak s m) {idx : Nat}
    {l : DCacheLine} (hold : (s.dcache idx).Flushed) (hnew : l.Flushed)
    (hdata : ∀ a < pak.size, l.tagv = a / 16 * 16 + 1 → l.data (a % 16) = s.mem.rdram a) :
    Shows pak (s.setLine idx l) m := by
  have hco : Coherent pak (s.setLine idx l) := by
    refine ⟨h.1.quiet, ?_, ?_⟩
    · intro j hv hd
      by_cases hj : j = idx
      · subst hj
        rw [setLine_same] at hv hd
        rw [hnew hv] at hd
        cases hd
      · rw [setLine_other hj] at hv hd ⊢
        exact h.1.placed j hv hd
    · intro a ha hit hd
      by_cases hj : a / 16 % 512 = idx
      · rw [hj, setLine_same] at hit ⊢
        exact hdata a ha hit
      · rw [setLine_other hj] at hit hd ⊢
        exact h.1.clean a ha hit hd
  refine ⟨hco, fun a ha => ?_⟩
  rw [← h.2 a ha]
  by_cases hj : a / 16 % 512 = idx
  · -- both lines show RDRAM here
    rw [h.1.flat_of_flushed ha (by rw [hj]; exact hold),
      hco.flat_of_flushed ha (by rw [hj, setLine_same]; exact hnew), setLine_mem]
  · unfold State.flat
    dsimp only
    rw [setLine_other hj, setLine_mem]

theorem dcFlush_of_flushed {s : State Dev} {idx : Nat} (h : (s.dcache idx).Flushed) :
    dcFlush D pak idx s = s := by
  refine if_pos ?_
  cases hv : (s.dcache idx).valid with
  | false => rfl
  | true => rw [h hv]; rfl

theorem dcFlush_other {j idx : Nat} (h : j ≠ idx) (s : State Dev) :
    (dcFlush D pak idx s).dcache j = s.dcache j := by
  unfold dcFlush
  dsimp only
  split_ifs
  · rfl
  · exact setLine_other h _ _

theorem dcFlush_flushed (s : State Dev) (idx : Nat) :
    ((dcFlush D pak idx s).dcache idx).Flushed := by
  by_cases hf : (s.dcache idx).Flushed
  · rw [dcFlush_of_flushed hf]
    exact hf
  · unfold dcFlush
    dsimp only
    split_ifs with h
    · exact absurd (fun hv => by simpa [hv] using h) hf
    · rw [setLine_same]
      exact fun _ => rfl

theorem dcFlush_keeps_flushed {s : State Dev} {j : Nat} (h : (s.dcache j).Flushed) (idx : Nat) :
    ((dcFlush D pak idx s).dcache j).Flushed := by
  by_cases hj : j = idx
  · subst hj
    exact dcFlush_flushed s j
  · rw [dcFlush_other hj]
    exact h

/-- What the write-back of a dirty line does. -/
theorem dcFlush_dirty {s : State Dev} {idx : Nat} (hq : s.mem.dpLog = [])
    (hv : (s.dcache idx).valid = true) (hd : (s.dcache idx).dirty = true) :
    dcFlush D pak idx s =
      State.setLine
        { s with mem := { s.mem with rdram := (s.dcache idx).writeTo pak.size s.mem.rdram } }
        idx { s.dcache idx with dirty := false } := by
  unfold dcFlush
  dsimp only
  rw [hv, hd, settle_of_quiet hq]
  rfl

theorem Shows.flush {s : State Dev} {m : Nat → Byte} (h : Shows pak s m) (idx : Nat) :
    Shows pak (dcFlush D pak idx s) m := by
  obtain hf | ⟨hv, hd⟩ := (s.dcache idx).flushed_or
  · rw [dcFlush_of_flushed hf]
    exact h
  obtain ⟨k, htag, hk⟩ := h.1.placed idx hv hd
  have hptag : (s.dcache idx).ptag = 16 * k := by
    unfold DCacheLine.ptag
    omega
  -- the bytes that change are under the line, and the line shows them already
  have hin : ∀ a < pak.size, a / 16 = k →
      (s.dcache idx).writeTo pak.size s.mem.rdram a = (s.dcache idx).data (a % 16) := by
    intro a ha hak
    have hoff : a - 16 * k = a % 16 := by omega
    unfold DCacheLine.writeTo
    rw [hptag, if_pos ⟨by omega, by omega, ha⟩, hoff]
  have hout : ∀ a, a / 16 ≠ k →
      (s.dcache idx).writeTo pak.size s.mem.rdram a = s.mem.rdram a := by
    intro a hak
    unfold DCacheLine.writeTo
    rw [hptag, if_neg (by omega)]
  rw [dcFlush_dirty h.1.quiet hv hd]
  refine ⟨⟨h.1.quiet, ?_, ?_⟩, ?_⟩
  · intro j hv' hd'
    by_cases hj : j = idx
    · subst hj
      rw [setLine_same] at hd'
      cases hd'
    · rw [setLine_other hj] at hv' hd' ⊢
      exact h.1.placed j hv' hd'
  · intro a ha hit hd'
    dsimp only [setLine_mem]
    by_cases hj : a / 16 % 512 = idx
    · rw [hj, setLine_same] at hit ⊢
      have hak : a / 16 = k := by
        rw [htag] at hit
        omega
      exact (hin a ha hak).symm
    · rw [setLine_other hj] at hit hd' ⊢
      rw [hout a (fun hak => hj (hak ▸ hk))]
      exact h.1.clean a ha hit hd'
  · intro a ha
    rw [← h.2 a ha]
    unfold State.flat
    dsimp only [setLine_mem]
    by_cases hj : a / 16 % 512 = idx
    · rw [hj, setLine_same]
      dsimp only
      split_ifs with hit
      · rfl
      · exact hout a (fun hak => hit (by rw [htag, hak]; omega))
    · rw [setLine_other hj]
      split_ifs with hit
      · rfl
      · exact hout a (fun hak => hj (hak ▸ hk))

theorem dcFill_quiet {s : State Dev} (hq : s.mem.dpLog = []) (idx base : Nat) :
    dcFill D pak idx base s =
      s.setLine idx
        { tagv := base + 1
          dirty := false
          data := fun i => if base + i < pak.size then s.mem.rdram (base + i) else 0 } := by
  unfold dcFill
  rw [settle_of_quiet hq]

theorem Shows.fill {s : State Dev} {m : Nat → Byte} (h : Shows pak s m) {idx base : Nat}
    (hf : (s.dcache idx).Flushed) (hbase : base % 16 = 0) :
    Shows pak (dcFill D pak idx base s) m := by
  rw [dcFill_quiet h.1.quiet]
  refine h.replace hf (fun _ => rfl) ?_
  intro a ha hit
  dsimp only at hit ⊢
  have hab : base + a % 16 = a := by omega
  rw [hab, if_pos ha]

/-- A miss is a flush and a fill, apart from the cycles it costs. -/
theorem dcMiss_eq {s : State Dev} (hq : s.mem.dpLog = []) (idx base : Nat) :
    dcMiss D pak idx base s =
      { dcFill D pak idx base (dcFlush D pak idx s) with
        stallCycles := s.stallCycles + s.dcMissCycles } := by
  have hq' : ({ s with stallCycles := s.stallCycles + s.dcMissCycles } : State Dev).mem.dpLog = [] :=
    hq
  unfold dcMiss
  dsimp only
  rw [settle_of_quiet hq']
  obtain hf | ⟨hv, hd⟩ := (s.dcache idx).flushed_or
  · -- nothing to write back
    have hno : ((s.dcache idx).dirty && (s.dcache idx).tagv % 2 == 1) = false := by
      cases hv : (s.dcache idx).valid with
      | false => exact Bool.and_eq_false_imp.mpr fun _ => hv
      | true => rw [hf hv]; rfl
    rw [hno, dcFlush_of_flushed hf, dcFill_quiet hq]
    rfl
  · have hyes : ((s.dcache idx).dirty && (s.dcache idx).tagv % 2 == 1) = true := by
      rw [hd]
      exact hv
    rw [hyes, if_pos rfl, settle_of_quiet hq', dcFlush_dirty hq hv hd]
    rw [dcFill_quiet]
    · unfold State.setLine
      dsimp only
      congr 1
      funext j
      split_ifs <;> rfl
    · exact hq

theorem Shows.miss {s : State Dev} {m : Nat → Byte} (h : Shows pak s m) {idx base : Nat}
    (hbase : base % 16 = 0) : Shows pak (dcMiss D pak idx base s) m := by
  rw [dcMiss_eq h.1.quiet]
  exact ((h.flush idx).fill (dcFlush_flushed s idx) hbase).stall _

theorem dcMiss_tagv {s : State Dev} (idx base : Nat) :
    ((dcMiss D pak idx base s).dcache idx).tagv = base + 1 := by
  unfold dcMiss
  dsimp only
  rw [if_pos rfl]

/-- After the touch the line of the address is there. -/
theorem dcTouch_tagv (pe : Nat) (s : State Dev) :
    ((dcTouch D pak pe s).dcache (pe / 16 % 512)).tagv = pe / 16 * 16 + 1 := by
  unfold dcTouch
  dsimp only
  split_ifs with hm
  · exact dcMiss_tagv _ _
  · exact not_not.mp hm

theorem Shows.touch {s : State Dev} {m : Nat → Byte} (h : Shows pak s m) (pe : Nat) :
    Shows pak (dcTouch D pak pe s) m := by
  unfold dcTouch
  dsimp only
  split_ifs
  · exact h.miss (by omega)
  · exact h

/-- A naturally aligned access inside RDRAM. -/
structure Natural (size pe n : Nat) : Prop where
  width : n = 1 ∨ n = 2 ∨ n = 4 ∨ n = 8
  aligned : pe % n = 0
  inside : pe + n ≤ size

/-- It does not leave its line. -/
theorem Natural.line {size pe n : Nat} (h : Natural size pe n) : pe % 16 + n ≤ 16 := by
  obtain ⟨hw, ha, -⟩ := h
  rcases hw with rfl | rfl | rfl | rfl <;> omega

theorem beRead_congr {f g : Nat → Byte} {off off' n : Nat}
    (h : ∀ i < n, f (off + i) = g (off' + i)) : beRead f off n = beRead g off' n := by
  unfold beRead
  refine List.foldl_ext _ _ _ ?_
  intro v i hi
  rw [h i (List.mem_range.mp hi)]

theorem Shows.read {s : State Dev} {m : Nat → Byte} (h : Shows pak s m) {pe n : Nat}
    (ha : Natural pak.size pe n) :
    (dcRead D pak pe n s).1 = beRead m pe n ∧ Shows pak (dcRead D pak pe n s).2 m := by
  have ht := h.touch (D := D) pe
  have htag : ((dcTouch D pak pe s).dcache (pe / 16 % 512)).tagv = pe / 16 * 16 + 1 :=
    dcTouch_tagv pe s
  refine ⟨beRead_congr fun i hi => ?_, ht⟩
  have hline := ha.line
  have hin := ha.inside
  have hdiv : (pe + i) / 16 = pe / 16 := by omega
  have hmod : (pe + i) % 16 = pe % 16 + i := by omega
  rw [← ht.2 (pe + i) (by omega)]
  unfold State.flat
  dsimp only
  rw [hdiv, hmod, if_pos htag]

theorem Shows.write {s : State Dev} {m : Nat → Byte} (h : Shows pak s m) {pe n : Nat}
    (ha : Natural pak.size pe n) (v : BitVec 64) :
    Shows pak (dcWrite D pak pe v n s) (beWrite m pe n v) := by
  have ht := h.touch (D := D) pe
  have htag : ((dcTouch D pak pe s).dcache (pe / 16 % 512)).tagv = pe / 16 * 16 + 1 :=
    dcTouch_tagv pe s
  have hline := ha.line
  unfold dcWrite
  dsimp only
  generalize dcTouch D pak pe s = t at ht htag ⊢
  refine ⟨⟨ht.1.quiet, ?_, ?_⟩, ?_⟩
  · intro j hv hd
    by_cases hj : j = pe / 16 % 512
    · refine ⟨pe / 16, ?_, hj.symm⟩
      rw [hj]
      dsimp only
      rw [if_pos rfl, htag, Nat.mul_comm]
    · dsimp only at hv hd ⊢
      rw [if_neg hj] at hv hd ⊢
      exact ht.1.placed j hv hd
  · intro a hlt hit hd
    dsimp only at hit hd ⊢
    by_cases hj : a / 16 % 512 = pe / 16 % 512
    · rw [if_pos hj] at hd
      cases hd
    · rw [if_neg hj] at hit hd ⊢
      exact ht.1.clean a hlt hit hd
  · intro a hlt
    have hold := ht.2 a hlt
    unfold State.flat at hold ⊢
    unfold beWrite
    dsimp only at hold ⊢
    by_cases hj : a / 16 % 512 = pe / 16 % 512
    · rw [hj] at hold ⊢
      rw [if_pos rfl, htag] at *
      dsimp only
      by_cases hit : pe / 16 * 16 + 1 = a / 16 * 16 + 1
      · -- the line of the access: the unit is at the same place in it
        rw [if_pos hit] at hold ⊢
        have hoff : a % 16 - pe % 16 = a - pe := by omega
        rw [hold, hoff]
        exact if_congr (by omega) rfl rfl
      · rw [if_neg hit] at hold ⊢
        rw [if_neg (by omega), hold]
    · have hne : ¬ (pe ≤ a ∧ a < pe + n) := by omega
      rw [if_neg hj, if_neg hne]
      exact hold

/-! ## Section 5: Runs -/

/-- The operations on the cache. -/
inductive DcOp where
  | read (pe size : Nat)
  | write (pe : Nat) (val : BitVec 64) (size : Nat)
  | miss (idx : Fin 512) (base : Nat)
  | flush (idx : Fin 512)
  | fill (idx : Fin 512) (base : Nat)
  | cache (fn : DCacheFn) (vaddr tagLo : Nat)

variable (D pak) in
/-- One operation, and what a read returns. -/
def dcStep (s : State Dev) : DcOp → State Dev × Option (BitVec 64)
  | .read pe size =>
    let r := dcRead D pak pe size s
    (r.2, some r.1)
  | .write pe val size => (dcWrite D pak pe val size s, none)
  | .miss idx base => (dcMiss D pak idx base s, none)
  | .flush idx => (dcFlush D pak idx s, none)
  | .fill idx base => (dcFill D pak idx base s, none)
  | .cache fn vaddr tagLo => ((cacheOpD D pak fn vaddr tagLo s).2, none)

/-- The same operation on a flat memory. -/
def flatStep (m : Nat → Byte) : DcOp → (Nat → Byte) × Option (BitVec 64)
  | .read pe size => (m, some (beRead m pe size))
  | .write pe val size => (beWrite m pe size val, none)
  | _ => (m, none)

/-- The operations that write back what they throw away. -/
def DCacheFn.keeps : DCacheFn → Bool
  | .indexWritebackInvalidate | .hitWritebackInvalidate | .hitWriteback => true
  | _ => false

variable (pak) in
/-- Accesses are aligned and inside RDRAM, a line starts at a line's address,
    and only a line that is not dirty is filled on its own. -/
def DcOp.Ok (s : State Dev) : DcOp → Prop
  | .read pe size => Natural pak.size pe size
  | .write pe _ size => Natural pak.size pe size
  | .miss _ base => base % 16 = 0 ∧ base + 16 < 2 ^ 32
  | .flush _ => True
  | .fill idx base => (s.dcache idx).dirty = false ∧ base % 16 = 0 ∧ base + 16 < 2 ^ 32
  | .cache fn _ _ => fn.keeps = true

theorem invalidate_not_valid (l : DCacheLine) : l.invalidate.valid = false := by
  unfold DCacheLine.valid DCacheLine.invalidate
  rw [beq_eq_false_iff_ne]
  dsimp only
  omega

/-- A line with nothing to write back may be thrown away. -/
theorem Shows.invalidate {s : State Dev} {m : Nat → Byte} (h : Shows pak s m) {idx : Nat}
    (hf : (s.dcache idx).Flushed) (d : Bool) :
    Shows pak (s.setLine idx { (s.dcache idx).invalidate with dirty := d }) m := by
  refine h.replace hf (fun hv => ?_) ?_
  · have hno := invalidate_not_valid (s.dcache idx)
    exact absurd hv (ne_true_of_eq_false hno)
  · intro a _ hit
    dsimp only [DCacheLine.invalidate] at hit
    omega

theorem Shows.cacheOpD {s : State Dev} {m : Nat → Byte} (h : Shows pak s m) {fn : DCacheFn}
    (hfn : fn.keeps = true) (vaddr tagLo : Nat) :
    Shows pak (cacheOpD D pak fn vaddr tagLo s).2 m := by
  unfold Cpu.cacheOpD
  dsimp only
  cases fn with
  | indexWritebackInvalidate => exact (h.flush _).invalidate (dcFlush_flushed s _) false
  | hitWritebackInvalidate =>
    dsimp only
    split_ifs
    · exact (h.flush _).invalidate (dcFlush_flushed s _) _
    · exact h
  | hitWriteback =>
    dsimp only
    split_ifs
    · exact h.flush _
    · exact h
  | _ => cases hfn

/-- **Step lemma.** An operation on the cache is the operation on the flat
    memory that the CPU sees. -/
theorem Shows.step {s : State Dev} {m : Nat → Byte} {op : DcOp} (h : Shows pak s m)
    (hok : op.Ok pak s) :
    (dcStep D pak s op).2 = (flatStep m op).2 ∧
      Shows pak (dcStep D pak s op).1 (flatStep m op).1 := by
  cases op with
  | read pe size =>
    obtain ⟨hval, hshow⟩ := h.read (D := D) hok
    exact ⟨congrArg some hval, hshow⟩
  | write pe val size => exact ⟨rfl, h.write hok val⟩
  | miss idx base => exact ⟨rfl, h.miss hok.1⟩
  | flush idx => exact ⟨rfl, h.flush idx⟩
  | fill idx base => exact ⟨rfl, h.fill (fun _ => hok.1) hok.2.1⟩
  | cache fn vaddr tagLo => exact ⟨rfl, h.cacheOpD hok vaddr tagLo⟩

theorem foldl_dcFlush {s : State Dev} {m : Nat → Byte} (h : Shows pak s m) (is : List Nat) :
    Shows pak (is.foldl (fun s idx => dcFlush D pak idx s) s) m ∧
      ∀ j, (j ∈ is ∨ (s.dcache j).Flushed) →
        ((is.foldl (fun s idx => dcFlush D pak idx s) s).dcache j).Flushed := by
  induction is generalizing s with
  | nil => exact ⟨h, fun j hj => hj.elim (fun hin => absurd hin List.not_mem_nil) id⟩
  | cons i is ih =>
    obtain ⟨hshow, hall⟩ := ih (h.flush (D := D) i)
    refine ⟨hshow, fun j hj => hall j ?_⟩
    rcases hj with hin | hf
    · rcases List.mem_cons.mp hin with rfl | hin
      · exact .inr (dcFlush_flushed s j)
      · exact .inl hin
    · exact .inr (dcFlush_keeps_flushed hf i)

/-- Under a line that is written back RDRAM is the memory the CPU sees. -/
theorem Shows.rdram_of_mem {s : State Dev} {m : Nat → Byte} (h : Shows pak s m) (is : List Nat)
    {a : Nat} (ha : a < pak.size) (hin : a / 16 % 512 ∈ is) :
    (is.foldl (fun s idx => dcFlush D pak idx s) s).mem.rdram a = m a := by
  obtain ⟨hshow, hall⟩ := foldl_dcFlush (D := D) h is
  rw [← hshow.2 a ha, hshow.1.flat_of_flushed ha (hall _ (.inl hin))]

theorem Shows.flushAll {s : State Dev} {m : Nat → Byte} (h : Shows pak s m) {n a : Nat}
    (ha : a < pak.size) (hn : a / 16 % 512 < n) : (dcFlushAll D pak n s).mem.rdram a = m a :=
  h.rdram_of_mem (List.range n) ha (List.mem_range.mpr hn)

variable (pak) in
/-- No line differs from RDRAM. -/
def CleanCache (s : State Dev) : Prop :=
  ∀ idx, (s.dcache idx).valid = true → (s.dcache idx).dirty = false ∧
    ∀ i < 16, (s.dcache idx).ptag + i < pak.size →
      (s.dcache idx).data i = s.mem.rdram ((s.dcache idx).ptag + i)

theorem Shows.of_clean {s : State Dev} (hq : s.mem.dpLog = []) (hc : CleanCache pak s) :
    Shows pak s s.mem.rdram := by
  have hco : Coherent pak s := by
    refine ⟨hq, fun idx hv hd => ?_, fun a ha hit _ => ?_⟩
    · rw [(hc idx hv).1] at hd
      cases hd
    · have hv : (s.dcache (a / 16 % 512)).valid = true := by
        unfold DCacheLine.valid
        rw [beq_iff_eq, hit]
        omega
      have hptag : (s.dcache (a / 16 % 512)).ptag + a % 16 = a := by
        unfold DCacheLine.ptag
        rw [hit]
        omega
      have hdata := (hc _ hv).2 (a % 16) (Nat.mod_lt _ (by decide)) (by rw [hptag]; exact ha)
      rw [hptag] at hdata
      exact hdata
  exact ⟨hco, fun a ha => hco.flat_of_flushed ha fun hv => (hc _ hv).1⟩

end Operations

/-- **Transparency.** Any sequence of cache operations returns what it returns
    on the flat memory RDRAM was, and RDRAM is that memory once every line is
    written back. A miss is a flush followed by a fill. -/
theorem dcache_transparent (D : Devices Dev) (pak : Pak) (s : State Dev)
    (hq : s.mem.dpLog = []) (hc : CleanCache pak s) (ops : List DcOp)
    (hok : LTS.Along (DcOp.Ok pak) (dcStep D pak) s ops) :
    LTS.outputs (dcStep D pak) s ops = LTS.outputs flatStep s.mem.rdram ops ∧
      (∀ a < pak.size,
        (dcFlushAll D pak 512 (LTS.after (dcStep D pak) s ops)).mem.rdram a =
          LTS.after flatStep s.mem.rdram ops a) ∧
      ∀ (t : State Dev) (idx base : Nat), t.mem.dpLog = [] →
        (dcMiss D pak idx base t).dcache = (dcFill D pak idx base (dcFlush D pak idx t)).dcache ∧
        (dcMiss D pak idx base t).mem.rdram =
          (dcFill D pak idx base (dcFlush D pak idx t)).mem.rdram := by
  obtain ⟨hout, hend⟩ := LTS.outputs_sim (f := dcStep D pak) (g := flatStep) (DcOp.Ok pak)
    (Shows pak) (fun _ _ _ hs hop => hs.step hop) (Shows.of_clean hq hc) hok
  refine ⟨hout, fun a ha => hend.flushAll ha (Nat.mod_lt _ (by decide)), fun t idx base ht => ?_⟩
  rw [dcMiss_eq ht]
  exact ⟨rfl, rfl⟩

/-- A machine out of reset. -/
def coldState : State Unit where
  gpr := fun _ => 0
  fpr := fun _ => 0
  status := 0x34000000
  entryHi := 0
  tlb := []
  dcache := fun _ => { tagv := 0, dirty := false, data := fun _ => 0 }
  xlatCacheable := false
  stGuardRepeat := false
  stallCycles := 0
  clock := { retired := 0, pending := 0, stall := 0, stallRem := 0, cpi256 := 128 }
  dcMissCycles := 22
  uncachedCycles := 20
  mem :=
    { rdram := fun a => BitVec.ofNat 8 a, spMem := fun _ => 0, pifram := fun _ => 0
      miRepeatOn := false, miRepeatLen := 0, dpLog := [], romLoaded := false
      scOn := false, scKey := 0, saveFitted := false, dev := () }

/-- A dirty line is thrown out by another one with the same index, comes back,
    and is written back by `CACHE`; the line next to it is only filled. -/
def conflictOps : List DcOp :=
  [.write 0x14 0x11223344 4, .read 0x2010 8, .read 0x10 8, .write 0x17 0x55 1, .fill 2 0x20,
    .cache .hitWritebackInvalidate 0x80000010 0, .read 0x14 4, .flush 1, .miss 1 0x4010]

theorem dcache_transparent_conflict :
    LTS.outputs (dcStep noDevices .base) coldState conflictOps =
        LTS.outputs flatStep coldState.mem.rdram conflictOps ∧
      LTS.outputs flatStep coldState.mem.rdram conflictOps =
        [none, some 0x1011121314151617, some 0x1011121311223344, none, none, none,
          some 0x11223355, none, none] := by
  have hclean : CleanCache .base coldState := fun _ hv => nomatch hv
  have hnat : ∀ pe n, n = 1 ∨ n = 2 ∨ n = 4 ∨ n = 8 → pe % n = 0 → pe + n ≤ Pak.size .base →
      Natural (Pak.size .base) pe n := fun _ _ hw ha hi => ⟨hw, ha, hi⟩
  have hok : LTS.Along (DcOp.Ok .base) (dcStep noDevices .base) coldState conflictOps :=
    ⟨hnat _ _ (by decide) (by decide) (by decide), hnat _ _ (by decide) (by decide) (by decide),
      hnat _ _ (by decide) (by decide) (by decide), hnat _ _ (by decide) (by decide) (by decide),
      ⟨rfl, by decide, by decide⟩, rfl, hnat _ _ (by decide) (by decide) (by decide), trivial,
      ⟨by decide, by decide⟩, trivial⟩
  exact ⟨(dcache_transparent noDevices .base coldState rfl hclean conflictOps hok).1,
    by with_unfolding_all rfl⟩

end Cpu
