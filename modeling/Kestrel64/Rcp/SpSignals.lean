import Mathlib.Data.List.Basic
import Mathlib.Data.BitVec
import Mathlib.Data.List.Pairwise

/-! # RCP: The Journal of SP_STATUS Signals

    The CPU runs ahead of the RSP in guest time, and its writes to the
    signals SIG0..SIG7 land in `SP_STATUS` at once. Each is therefore entered
    in a journal with the instant from which the RSP may see it and what the
    changed bits were before; `spStatusForRsp` drops the entries that are due
    and undoes the others, newest first.

    What it ought to show is `Ref`: every write in the order it was made, the
    RSP's own always applied, the CPU's from their stamp on. The two agree in
    every run in which the RSP never rewrites a pending signal with the value
    the register already holds (`signals_replay`); such a write is not
    noticed, and the RSP then sees its own write undone
    (`own_write_undone`).

    The mutex of the source makes each operation a step. Launching the core
    (`spSigAtKick`) and a DMA into the SP (`spSigUpTo`) restamp the journal
    and are events of their own. The flags that only the end of a task reads
    are entered, not used.
-/

namespace Rcp

abbrev Reg := BitVec 32

/-! ## Section 1: The register and the journal -/

structure SpSigWr where
  stamp : Nat
  raw : Nat
  mask : Reg
  prev : Reg
  flags : Reg
  deriving DecidableEq, Repr

/-- The ring as a list, oldest entry first. -/
structure Sp where
  sp_status : Reg
  sp_intr_on_break : Bool
  spSigRing : List SpSigWr
  deriving DecidableEq, Repr

def kSpSigN : Nat := 32

/-- A (clear, set) pair of bits acts on a field of one bit; both at once do
    nothing. -/
def pair (v : Reg) (clrBit setBit : Nat) (b : Bool) : Bool :=
  if v.getLsbD clrBit && !v.getLsbD setBit then false
  else if v.getLsbD setBit && !v.getLsbD clrBit then true
  else b

def setBit (st : Reg) (m : Nat) (b : Bool) : Reg :=
  if b then st ||| (1#32 <<< m) else st &&& ~~~(1#32 <<< m)

/-- What a write does to signal `i`. -/
def sigPair (v : Reg) (i : Nat) (b : Bool) : Bool := pair v (9 + 2 * i) (10 + 2 * i) b

/-- The signals `SIG0`..`SIG7` of a write, at bits 7..14. -/
def writeSignals (v st : Reg) : Reg :=
  (List.range 8).foldl (fun st i => setBit st (7 + i) (sigPair v i (st.getLsbD (7 + i)))) st

/-- The fields of `SP_STATUS` besides the signals. -/
def writeControl (v : Reg) (s : Sp) : Sp :=
  let st := setBit s.sp_status 0 (pair v 0 1 (s.sp_status.getLsbD 0))
  let st := if v.getLsbD 2 then setBit st 1 false else st
  { s with sp_status := st, sp_intr_on_break := pair v 7 8 s.sp_intr_on_break }

def sigMask : Reg := 0x7f80

/-- The grain of visibility: 2 to the `l`. -/
def spSigQuant (l : Nat) : Nat := 2 ^ l

/-- The next edge of the grain. -/
def edge (l t : Nat) : Nat := (t + spSigQuant l - 1) / spSigQuant l * spSigQuant l

/-- A write of the CPU at `cartNow`. -/
def Sp.cpuWrite (l cartNow : Nat) (v : Reg) (s : Sp) : Sp :=
  let wasHalted := s.sp_status.getLsbD 0
  let s := writeControl v s
  let before := s.sp_status
  let after := writeSignals v before
  let changed := (before ^^^ after) &&& sigMask
  let lateHalt := !wasHalted && v.getLsbD 0 && !v.getLsbD 1
  if changed ≠ 0 ∨ lateHalt then
    let ring := if s.spSigRing.length = kSpSigN then s.spSigRing.tail else s.spSigRing
    let raw := cartNow + 1
    { s with
      sp_status := after
      spSigRing := ring ++
        [{ stamp := edge l raw, raw := raw, mask := changed, prev := before &&& changed
           flags := (if lateHalt then 1 else 0) ||| (if v.getLsbD 2 then 2 else 0) }] }
  else { s with sp_status := after }

/-- A write of the RSP: the pending entries may no longer undo what it
    changed. -/
def Sp.rspWrite (v : Reg) (s : Sp) : Sp :=
  let s := writeControl v s
  let after := writeSignals v s.sp_status
  let changed := (s.sp_status ^^^ after) &&& sigMask
  { s with
    sp_status := after
    spSigRing :=
      if changed ≠ 0 then s.spSigRing.map fun w => { w with mask := w.mask &&& ~~~changed }
      else s.spSigRing }

def Sp.spSigAtKick (s : Sp) : Sp :=
  { s with
    spSigRing := s.spSigRing.map fun w =>
      { w with stamp := w.raw, flags := w.flags &&& ~~~1#32 } }

/-- The loop of `spSigUpTo`, up to the first entry that is too late. -/
def upTo (upto now : Nat) : List SpSigWr → List SpSigWr
  | [] => []
  | w :: ws =>
    if upto < w.raw then w :: ws
    else { w with stamp := min w.raw now, flags := w.flags &&& ~~~1#32 } :: upTo upto now ws

def Sp.spSigUpTo (upto now : Nat) (s : Sp) : Sp :=
  { s with spSigRing := upTo upto now s.spSigRing }

/-- Undoes an entry. -/
def undo (w : SpSigWr) (v : Reg) : Reg := v &&& ~~~w.mask ||| w.prev &&& w.mask

def Sp.spStatusForRsp (now : Nat) (s : Sp) : Sp × Reg :=
  let ring := s.spSigRing.dropWhile fun w => w.stamp ≤ now
  let v := ring.foldr undo s.sp_status
  ({ s with spSigRing := ring }, v ||| if s.sp_intr_on_break then 0x40 else 0)

/-! ## Section 2: What the RSP ought to see -/

/-- A write in the order it was made. The RSP's own have stamp 0 and are
    never pending; the CPU's are pending until a read has seen them. -/
structure SigWrite where
  v : Reg
  stamp : Nat
  raw : Nat
  pending : Bool
  deriving DecidableEq, Repr

structure Ref where
  initial : Reg
  log : List SigWrite
  deriving DecidableEq, Repr

def Ref.cpuWrite (l cartNow : Nat) (v : Reg) (r : Ref) : Ref :=
  { r with log := r.log ++ [⟨v, edge l (cartNow + 1), cartNow + 1, true⟩] }

def Ref.rspWrite (v : Reg) (r : Ref) : Ref := { r with log := r.log ++ [⟨v, 0, 0, false⟩] }

/-- Gives the pending writes a new stamp. -/
def SigWrite.restamp (f : SigWrite → Nat) (w : SigWrite) : SigWrite :=
  if w.pending then { w with stamp := f w } else w

def Ref.restamp (f : SigWrite → Nat) (r : Ref) : Ref := { r with log := r.log.map (.restamp f) }

def SigWrite.see (now : Nat) (w : SigWrite) : SigWrite :=
  { w with pending := w.pending && now < w.stamp }

/-- Signal `i` after the writes that satisfy `p`. -/
def replayOf (p : SigWrite → Bool) (log : List SigWrite) (i : Nat) (b : Bool) : Bool :=
  log.foldl (fun b w => if p w then sigPair w.v i b else b) b

/-- Signal `i` as the RSP ought to see it at `now`. -/
def Ref.replay (r : Ref) (i now : Nat) : Bool :=
  replayOf (fun w => w.stamp ≤ now) r.log i (r.initial.getLsbD (7 + i))

def Ref.see (now : Nat) (r : Ref) : Ref := { r with log := r.log.map (.see now) }

/-! ## Section 3: Runs -/

inductive SpEvent where
  | cpuWrite (cartNow : Nat) (v : Reg)
  | rspWrite (v : Reg)
  | kick
  | dma (upto now : Nat)
  | read (now : Nat)
  deriving DecidableEq, Repr

def Sp.step (l : Nat) (s : Sp) : SpEvent → Sp
  | .cpuWrite t v => s.cpuWrite l t v
  | .rspWrite v => s.rspWrite v
  | .kick => s.spSigAtKick
  | .dma upto now => s.spSigUpTo upto now
  | .read now => (s.spStatusForRsp now).1

def Ref.step (l : Nat) (r : Ref) : SpEvent → Ref
  | .cpuWrite t v => r.cpuWrite l t v
  | .rspWrite v => r.rspWrite v
  | .kick => r.restamp fun w => w.raw
  | .dma upto now => r.restamp fun w => if upto < w.raw then w.stamp else min w.raw now
  | .read now => r.see now

/-- The signals each read of a run returns. -/
def Sp.reads (l : Nat) : Sp → List SpEvent → List (List Bool)
  | _, [] => []
  | s, e :: es =>
    let rest := (s.step l e).reads l es
    match e with
    | .read now =>
      ((List.range 8).map fun i => (s.spStatusForRsp now).2.getLsbD (7 + i)) :: rest
    | _ => rest

/-- The signals each read ought to return. -/
def Ref.reads (l : Nat) : Ref → List SpEvent → List (List Bool)
  | _, [] => []
  | r, e :: es =>
    let rest := (r.step l e).reads l es
    match e with
    | .read now => ((List.range 8).map fun i => r.replay i now) :: rest
    | _ => rest

/-- Instants never go back, for the CPU and for the RSP, and the ring never
    overflows. -/
def InOrder (l : Nat) : Nat → Nat → Sp → List SpEvent → Prop
  | _, _, _, [] => True
  | cpu, rsp, s, e :: es =>
    match e with
    | .cpuWrite t _ => cpu ≤ t ∧ s.spSigRing.length < kSpSigN ∧ InOrder l t rsp (s.step l e) es
    | .dma _ now | .read now => rsp ≤ now ∧ InOrder l cpu now (s.step l e) es
    | _ => InOrder l cpu rsp (s.step l e) es

/-- The RSP's write sets or clears no pending signal that already has that
    value in the register. -/
def Sp.NoRewrite (v : Reg) (s : Sp) : Prop :=
  ∀ i < 8, (∀ b, sigPair v i b = s.sp_status.getLsbD (7 + i)) →
    ∀ w ∈ s.spSigRing, w.mask.getLsbD (7 + i) = false

/-- A run in which no write of the RSP is of that kind. -/
def NoRewrites (l : Nat) : Sp → List SpEvent → Prop
  | _, [] => True
  | s, e :: es =>
    (match e with
      | .rspWrite v => s.NoRewrite v
      | _ => True) ∧ NoRewrites l (s.step l e) es

/-! ## Section 4: Bits -/

theorem getLsbD_setBit (st : Reg) {m j : Nat} (hm : m < 32) (hj : j < 32) (b : Bool) :
    (setBit st m b).getLsbD j = if j = m then b else st.getLsbD j := by
  have hbit : (1#32 <<< m).getLsbD j = decide (j = m) := by
    rw [← BitVec.twoPow_eq, BitVec.getLsbD_twoPow]
    by_cases h : j = m
    · subst h
      simp [hj]
    · simp [h, Ne.symm h]
  unfold setBit
  cases b with
  | true =>
    rw [if_pos rfl, BitVec.getLsbD_or, hbit]
    split_ifs with h <;> simp [h]
  | false =>
    rw [if_neg Bool.false_ne_true, BitVec.getLsbD_and, BitVec.getLsbD_not, hbit]
    split_ifs with h <;> simp [h, hj]

theorem getLsbD_writeControl (v : Reg) (s : Sp) {i : Nat} (hi : i < 8) :
    (writeControl v s).sp_status.getLsbD (7 + i) = s.sp_status.getLsbD (7 + i) := by
  have h (st : Reg) {m : Nat} (hm : m < 7) (b : Bool) :
      (setBit st m b).getLsbD (7 + i) = st.getLsbD (7 + i) := by
    rw [getLsbD_setBit st (by omega) (by omega), if_neg (by omega)]
  unfold writeControl
  dsimp only
  split_ifs
  · rw [h _ (by decide), h _ (by decide)]
  · rw [h _ (by decide)]

theorem getLsbD_writeSignals (v st : Reg) {i : Nat} (hi : i < 8) :
    (writeSignals v st).getLsbD (7 + i) = sigPair v i (st.getLsbD (7 + i)) := by
  -- after the first `n` signals
  have h (n : Nat) (hn : n ≤ 8) :
      ((List.range n).foldl
        (fun st i => setBit st (7 + i) (sigPair v i (st.getLsbD (7 + i)))) st).getLsbD (7 + i) =
        if i < n then sigPair v i (st.getLsbD (7 + i)) else st.getLsbD (7 + i) := by
    induction n with
    | zero => rfl
    | succ n ih =>
      rw [List.range_succ, List.foldl_append, List.foldl_cons, List.foldl_nil,
        getLsbD_setBit _ (by omega) (by omega), ih (by omega)]
      by_cases hlast : i = n
      · subst hlast
        rw [if_pos rfl, if_pos (Nat.lt_succ_self i), ih (by omega), if_neg (Nat.lt_irrefl i)]
      · rw [if_neg (by omega)]
        exact if_congr (by omega) rfl rfl
  rw [writeSignals, h 8 (Nat.le_refl 8), if_pos hi]

/-- The bit of `changed` that belongs to a signal. -/
theorem getLsbD_changed (a b : Reg) {i : Nat} (hi : i < 8) :
    ((a ^^^ b) &&& sigMask).getLsbD (7 + i) = (a.getLsbD (7 + i) != b.getLsbD (7 + i)) := by
  have hmask : ∀ i < 8, sigMask.getLsbD (7 + i) = true := by decide
  rw [BitVec.getLsbD_and, BitVec.getLsbD_xor, hmask i hi, Bool.and_true]

theorem getLsbD_undo (w : SpSigWr) (v : Reg) {j : Nat} (hj : j < 32) :
    (undo w v).getLsbD j = if w.mask.getLsbD j then w.prev.getLsbD j else v.getLsbD j := by
  unfold undo
  rw [BitVec.getLsbD_or, BitVec.getLsbD_and, BitVec.getLsbD_and, BitVec.getLsbD_not]
  cases w.mask.getLsbD j <;> simp [hj]

theorem getLsbD_foldr_undo (ring : List SpSigWr) (v : Reg) {j : Nat} (hj : j < 32) :
    (ring.foldr undo v).getLsbD j =
      ring.foldr (fun w b => if w.mask.getLsbD j then w.prev.getLsbD j else b) (v.getLsbD j) := by
  induction ring with
  | nil => rfl
  | cons w ring ih => rw [List.foldr_cons, List.foldr_cons, getLsbD_undo w _ hj, ih]

/-- A write sets a signal, clears it, or leaves it alone. -/
theorem sigPair_cases (v : Reg) (i : Nat) :
    (∃ x, ∀ b, sigPair v i b = x) ∨ ∀ b, sigPair v i b = b := by
  unfold sigPair pair
  by_cases hc : (v.getLsbD (9 + 2 * i) && !v.getLsbD (10 + 2 * i)) = true
  · exact .inl ⟨false, fun b => if_pos hc⟩
  by_cases hs : (v.getLsbD (10 + 2 * i) && !v.getLsbD (9 + 2 * i)) = true
  · exact .inl ⟨true, fun b => by rw [if_neg hc, if_pos hs]⟩
  · exact .inr fun b => by rw [if_neg hc, if_neg hs]

/-! ## Section 5: The journal against the log -/

/-- What a journal entry holds besides its dates. -/
structure Note where
  mask : Reg
  prev : Reg
  flags : Reg

/-- A write of the log with the entry it made, if it made one. -/
structure Item where
  w : SigWrite
  note : Option Note

def Item.entry (x : Item) : Option SpSigWr :=
  if x.w.pending then x.note.map fun n => ⟨x.w.stamp, x.w.raw, n.mask, n.prev, n.flags⟩ else none

def ringOf (J : List Item) : List SpSigWr := J.filterMap Item.entry

def logOf (J : List Item) : List SigWrite := J.map (·.w)

/-- Does the entry undo signal `i`, and to what, while the writes in `p` are
    visible? -/
def Item.undoes (p : SigWrite → Bool) (i : Nat) (x : Item) : Option Bool :=
  if x.w.pending && !p x.w then
    match x.note with
    | some n => if n.mask.getLsbD (7 + i) then some (n.prev.getLsbD (7 + i)) else none
    | none => none
  else none

/-- Signal `i` with the entries outside `p` undone. -/
def viewOf (p : SigWrite → Bool) (i : Nat) (J : List Item) (b : Bool) : Bool :=
  J.foldr (fun x b => (x.undoes p i).getD b) b

/-- A set of writes that can be all that is visible: whatever is not pending,
    and of the pending ones none without those before it. -/
structure Closed (p : SigWrite → Bool) (log : List SigWrite) : Prop where
  seen : ∀ w ∈ log, w.pending = false → p w = true
  down : log.Pairwise fun a b => b.pending = true → p b = true → p a = true

/-- Dates are in order: entries of the CPU by their real instant, and by
    stamp as far as no read has passed it. -/
structure Ordered (l cpu rsp : Nat) (log : List SigWrite) : Prop where
  seen : ∀ w ∈ log, w.pending = false → w.stamp ≤ rsp
  raw_le : ∀ w ∈ log, w.raw ≤ cpu + 1
  stamp_le : ∀ w ∈ log, w.stamp ≤ edge l w.raw
  raws : log.Pairwise fun a b => a.pending = true → b.pending = true → a.raw ≤ b.raw
  stamps : log.Pairwise fun a b => a.pending = true → b.pending = true → a.stamp ≤ max b.stamp rsp

/-- The register and the journal, against the log of writes. -/
structure Sim (l cpu rsp : Nat) (s : Sp) (r : Ref) (J : List Item) : Prop where
  ring : s.spSigRing = ringOf J
  log : r.log = logOf J
  ordered : Ordered l cpu rsp (logOf J)
  view : ∀ i < 8, ∀ p, Closed p (logOf J) →
    viewOf p i J (s.sp_status.getLsbD (7 + i)) =
      replayOf p (logOf J) i (r.initial.getLsbD (7 + i))

theorem viewOf_append (p : SigWrite → Bool) (i : Nat) (J : List Item) (x : Item) (b : Bool) :
    viewOf p i (J ++ [x]) b = viewOf p i J ((x.undoes p i).getD b) := by
  unfold viewOf
  rw [List.foldr_append]
  rfl

theorem replayOf_append (p : SigWrite → Bool) (log : List SigWrite) (w : SigWrite) (i : Nat)
    (b : Bool) : replayOf p (log ++ [w]) i b =
      if p w then sigPair w.v i (replayOf p log i b) else replayOf p log i b := by
  unfold replayOf
  rw [List.foldl_append]
  rfl

/-- No entry that undoes the signal. -/
theorem viewOf_eq_self {p : SigWrite → Bool} {i : Nat} {J : List Item}
    (h : ∀ x ∈ J, x.undoes p i = none) (b : Bool) : viewOf p i J b = b := by
  induction J with
  | nil => rfl
  | cons x J ih =>
    unfold viewOf
    rw [List.foldr_cons, h x List.mem_cons_self]
    exact ih fun y hy => h y (List.mem_cons_of_mem x hy)

/-- The view of a list whose writes were changed in a way that undoing does
    not see. -/
theorem viewOf_map {p q : SigWrite → Bool} {i : Nat} {J : List Item} (f : Item → Item)
    (h : ∀ x ∈ J, (f x).undoes p i = x.undoes q i) (b : Bool) :
    viewOf p i (J.map f) b = viewOf q i J b := by
  induction J with
  | nil => rfl
  | cons x J ih =>
    unfold viewOf at ih ⊢
    rw [List.map_cons, List.foldr_cons, List.foldr_cons, h x List.mem_cons_self,
      ih fun y hy => h y (List.mem_cons_of_mem x hy)]

theorem replayOf_map {p q : SigWrite → Bool} {log : List SigWrite} (f : SigWrite → SigWrite)
    (hv : ∀ w, (f w).v = w.v) (h : ∀ w ∈ log, p (f w) = q w) (i : Nat) (b : Bool) :
    replayOf p (log.map f) i b = replayOf q log i b := by
  induction log generalizing b with
  | nil => rfl
  | cons w log ih =>
    unfold replayOf at ih ⊢
    rw [List.map_cons, List.foldl_cons, List.foldl_cons, hv, h w List.mem_cons_self,
      ih fun y hy => h y (List.mem_cons_of_mem w hy)]

/-! ## Section 6: Dates -/

theorem le_edge (l t : Nat) : t ≤ edge l t := by
  have hpos : 0 < spSigQuant l := Nat.two_pow_pos l
  have h := Nat.lt_div_mul_add hpos (a := t + spSigQuant l - 1)
  unfold edge
  omega

theorem edge_mono (l : Nat) {a b : Nat} (h : a ≤ b) : edge l a ≤ edge l b :=
  Nat.mul_le_mul_right _ (Nat.div_le_div_right (by omega))

theorem pairwise_append_one {α : Type} {R : α → α → Prop} {l : List α} {x : α}
    (hl : l.Pairwise R) (hx : ∀ a ∈ l, R a x) : (l ++ [x]).Pairwise R :=
  List.pairwise_append.mpr ⟨hl, List.pairwise_singleton R x, fun a ha b hb => by
    rw [List.mem_singleton.mp hb]
    exact hx a ha⟩

variable {l cpu rsp : Nat} {log : List SigWrite}

theorem Ordered.cpuWrite (h : Ordered l cpu rsp log) {t : Nat} (ht : cpu ≤ t) (v : Reg) :
    Ordered l t rsp (log ++ [⟨v, edge l (t + 1), t + 1, true⟩]) where
  seen := by
    intro w hw hp
    obtain hw | hw := List.mem_append.mp hw
    · exact h.seen w hw hp
    · rw [List.mem_singleton.mp hw] at hp
      exact absurd hp nofun
  raw_le := by
    intro w hw
    obtain hw | hw := List.mem_append.mp hw
    · exact (h.raw_le w hw).trans (by omega)
    · rw [List.mem_singleton.mp hw]
  stamp_le := by
    intro w hw
    obtain hw | hw := List.mem_append.mp hw
    · exact h.stamp_le w hw
    · rw [List.mem_singleton.mp hw]
  raws := pairwise_append_one h.raws fun a ha _ _ => (h.raw_le a ha).trans (Nat.succ_le_succ ht)
  stamps := pairwise_append_one h.stamps fun a ha _ _ =>
    ((h.stamp_le a ha).trans (edge_mono l ((h.raw_le a ha).trans (by omega)))).trans
      (Nat.le_max_left _ _)

theorem Ordered.rspWrite (h : Ordered l cpu rsp log) (v : Reg) :
    Ordered l cpu rsp (log ++ [⟨v, 0, 0, false⟩]) where
  seen := by
    intro w hw hp
    obtain hw | hw := List.mem_append.mp hw
    · exact h.seen w hw hp
    · rw [List.mem_singleton.mp hw]
      exact Nat.zero_le _
  raw_le := by
    intro w hw
    obtain hw | hw := List.mem_append.mp hw
    · exact h.raw_le w hw
    · rw [List.mem_singleton.mp hw]
      exact Nat.zero_le _
  stamp_le := by
    intro w hw
    obtain hw | hw := List.mem_append.mp hw
    · exact h.stamp_le w hw
    · rw [List.mem_singleton.mp hw]
      exact Nat.zero_le _
  raws := pairwise_append_one h.raws fun _ _ _ => nofun
  stamps := pairwise_append_one h.stamps fun _ _ _ => nofun

theorem SigWrite.restamp_raw (f : SigWrite → Nat) (w : SigWrite) : (w.restamp f).raw = w.raw := by
  unfold SigWrite.restamp
  split_ifs <;> rfl

theorem SigWrite.restamp_v (f : SigWrite → Nat) (w : SigWrite) : (w.restamp f).v = w.v := by
  unfold SigWrite.restamp
  split_ifs <;> rfl

theorem SigWrite.restamp_pending (f : SigWrite → Nat) (w : SigWrite) :
    (w.restamp f).pending = w.pending := by
  unfold SigWrite.restamp
  split_ifs <;> rfl

theorem SigWrite.restamp_stamp {w : SigWrite} (h : w.pending = true) (f : SigWrite → Nat) :
    (w.restamp f).stamp = f w := by
  unfold SigWrite.restamp
  rw [if_pos h]

/-- New stamps for the pending writes, at an instant `rsp'` of the RSP. -/
theorem Ordered.restamp (h : Ordered l cpu rsp log) {rsp' : Nat} (hle : rsp ≤ rsp')
    (f : SigWrite → Nat) (hf : ∀ w ∈ log, f w ≤ edge l w.raw)
    (hs : log.Pairwise fun a b => a.pending = true → b.pending = true → f a ≤ max (f b) rsp') :
    Ordered l cpu rsp' (log.map (.restamp f)) where
  seen := by
    intro w hw hp
    obtain ⟨u, hu, rfl⟩ := List.mem_map.mp hw
    rw [SigWrite.restamp_pending] at hp
    unfold SigWrite.restamp
    rw [if_neg (by rw [hp]; decide)]
    exact (h.seen u hu hp).trans hle
  raw_le := by
    intro w hw
    obtain ⟨u, hu, rfl⟩ := List.mem_map.mp hw
    rw [SigWrite.restamp_raw]
    exact h.raw_le u hu
  stamp_le := by
    intro w hw
    obtain ⟨u, hu, rfl⟩ := List.mem_map.mp hw
    rw [SigWrite.restamp_raw]
    unfold SigWrite.restamp
    split_ifs
    · exact hf u hu
    · exact h.stamp_le u hu
  raws := by
    refine List.pairwise_map.mpr (h.raws.imp fun hab ha hb => ?_)
    rw [SigWrite.restamp_pending] at ha hb
    rw [SigWrite.restamp_raw, SigWrite.restamp_raw]
    exact hab ha hb
  stamps := by
    refine List.pairwise_map.mpr (hs.imp fun hab ha hb => ?_)
    rw [SigWrite.restamp_pending] at ha hb
    rw [SigWrite.restamp_stamp ha, SigWrite.restamp_stamp hb]
    exact hab ha hb

theorem Ordered.kick (h : Ordered l cpu rsp log) :
    Ordered l cpu rsp (log.map (.restamp fun w => w.raw)) :=
  h.restamp (Nat.le_refl _) _ (fun w _ => le_edge l w.raw)
    (h.raws.imp fun hab ha hb => (hab ha hb).trans (Nat.le_max_left _ _))

theorem Ordered.dma (h : Ordered l cpu rsp log) {now : Nat} (hle : rsp ≤ now) (upto : Nat) :
    Ordered l cpu now
      (log.map (.restamp fun w => if upto < w.raw then w.stamp else min w.raw now)) := by
  refine h.restamp hle _ (fun w hw => ?_) ?_
  · split_ifs
    · exact h.stamp_le w hw
    · exact (Nat.min_le_left _ _).trans (le_edge l w.raw)
  · refine (h.raws.and h.stamps).imp fun hab ha hb => ?_
    have hraw := hab.1 ha hb
    have hstamp := hab.2 ha hb
    -- what is restamped is visible from `now` on
    split_ifs <;> omega

theorem Ordered.see (h : Ordered l cpu rsp log) {now : Nat} (hle : rsp ≤ now) :
    Ordered l cpu now (log.map (.see now)) where
  seen := by
    intro w hw hp
    obtain ⟨u, hu, rfl⟩ := List.mem_map.mp hw
    change (u.pending && decide (now < u.stamp)) = false at hp
    rw [Bool.and_eq_false_iff, decide_eq_false_iff_not, Nat.not_lt] at hp
    obtain hp | hp := hp
    · exact (h.seen u hu hp).trans hle
    · exact hp
  raw_le := by
    intro w hw
    obtain ⟨u, hu, rfl⟩ := List.mem_map.mp hw
    exact h.raw_le u hu
  stamp_le := by
    intro w hw
    obtain ⟨u, hu, rfl⟩ := List.mem_map.mp hw
    exact h.stamp_le u hu
  raws := by
    refine List.pairwise_map.mpr (h.raws.imp fun hab ha hb => ?_)
    exact hab (Bool.and_eq_true_iff.mp ha).1 (Bool.and_eq_true_iff.mp hb).1
  stamps := by
    refine List.pairwise_map.mpr (h.stamps.imp fun hab ha hb => ?_)
    have := hab (Bool.and_eq_true_iff.mp ha).1 (Bool.and_eq_true_iff.mp hb).1
    change _ ≤ max _ now
    exact this.trans (max_le_max (Nat.le_refl _) hle)

/-- What a read at `now` makes visible is a set the journal can show. -/
theorem Ordered.closed (h : Ordered l cpu rsp log) {now : Nat} (hle : rsp ≤ now) :
    Closed (fun w => w.stamp ≤ now) log where
  seen := fun w hw hp => decide_eq_true ((h.seen w hw hp).trans hle)
  down := by
    refine List.Pairwise.imp_of_mem (fun {a b} ha _ hab hb hp => ?_) h.stamps
    have hbnow : b.stamp ≤ now := of_decide_eq_true hp
    apply decide_eq_true
    cases hap : a.pending with
    | true => exact (hab hap hb).trans (max_le hbnow hle)
    | false => exact (h.seen a ha hap).trans hle

/-! ## Section 7: One event -/

variable {s : Sp} {r : Ref} {J : List Item}

/-- A map on items that acts on their entries as `F`. -/
theorem ringOf_map (g : Item → Item) (F : SpSigWr → SpSigWr)
    (h : ∀ x ∈ J, (g x).entry = x.entry.map F) : ringOf (J.map g) = (ringOf J).map F := by
  induction J with
  | nil => rfl
  | cons x J ih =>
    have htail := ih fun y hy => h y (List.mem_cons_of_mem x hy)
    unfold ringOf at htail ⊢
    rw [List.map_cons, List.filterMap_cons, List.filterMap_cons, h x List.mem_cons_self, htail]
    cases x.entry with
    | none => rfl
    | some e => rfl

theorem ringOf_append (J : List Item) (x : Item) : ringOf (J ++ [x]) = ringOf J ++ x.entry.toList := by
  unfold ringOf
  rw [List.filterMap_append, List.filterMap_cons, List.filterMap_nil]
  cases x.entry with
  | none => rfl
  | some e => rfl

theorem logOf_append (J : List Item) (x : Item) : logOf (J ++ [x]) = logOf J ++ [x.w] := by
  unfold logOf
  rw [List.map_append]
  rfl

theorem logOf_map (g : Item → Item) (f : SigWrite → SigWrite) (h : ∀ x, (g x).w = f x.w) :
    logOf (J.map g) = (logOf J).map f := by
  unfold logOf
  rw [List.map_map, List.map_map]
  exact List.map_congr_left fun x _ => h x

theorem Item.undoes_visible {p : SigWrite → Bool} {x : Item} (h : p x.w = true) (i : Nat) :
    x.undoes p i = none := by
  unfold Item.undoes
  rw [h, Bool.not_true, Bool.and_false, if_neg Bool.false_ne_true]

/-- An entry that cannot undo the signal. -/
theorem Item.undoes_unmasked {p : SigWrite → Bool} {x : Item} {i : Nat}
    (h : ∀ e ∈ x.entry, e.mask.getLsbD (7 + i) = false) : x.undoes p i = none := by
  unfold Item.undoes
  split_ifs with hp
  · obtain ⟨hpend, -⟩ := Bool.and_eq_true_iff.mp hp
    cases hn : x.note with
    | none => rfl
    | some n =>
      have := h ⟨x.w.stamp, x.w.raw, n.mask, n.prev, n.flags⟩ (by
        unfold Item.entry
        rw [if_pos hpend, hn]
        rfl)
      dsimp only at this ⊢
      rw [this, if_neg Bool.false_ne_true]
  · rfl

theorem Closed.left {p : SigWrite → Bool} {w : SigWrite} (h : Closed p (log ++ [w])) :
    Closed p log :=
  ⟨fun u hu => h.seen u (List.mem_append_left _ hu), (List.pairwise_append.mp h.down).1⟩

/-- A visible pending write has everything before it visible. -/
theorem Closed.all {p : SigWrite → Bool} {w : SigWrite} (h : Closed p (log ++ [w]))
    (hw : w.pending = true) (hp : p w = true) : ∀ u ∈ log, p u = true := fun u hu =>
  (List.pairwise_append.mp h.down).2.2 u hu w (List.mem_singleton_self w) hw hp

/-- A write of the CPU enters the log; `note` is what the journal has of
    it. -/
theorem Sim.push (h : Sim l cpu rsp s r J) {t : Nat} (ht : cpu ≤ t) (v : Reg) (note : Option Note)
    (s' : Sp) (hring : s'.spSigRing = ringOf J ++
      (Item.entry ⟨⟨v, edge l (t + 1), t + 1, true⟩, note⟩).toList)
    (hbit : ∀ i < 8, s'.sp_status.getLsbD (7 + i) = sigPair v i (s.sp_status.getLsbD (7 + i)))
    (hnote : ∀ i < 8, (∃ n ∈ note, n.mask.getLsbD (7 + i) = true ∧
        n.prev.getLsbD (7 + i) = s.sp_status.getLsbD (7 + i)) ∨
      ((∀ n ∈ note, n.mask.getLsbD (7 + i) = false) ∧
        sigPair v i (s.sp_status.getLsbD (7 + i)) = s.sp_status.getLsbD (7 + i))) :
    Sim l t rsp s' (r.cpuWrite l t v) (J ++ [⟨⟨v, edge l (t + 1), t + 1, true⟩, note⟩]) where
  ring := by rw [hring, ringOf_append]
  log := by
    rw [logOf_append]
    exact congrArg (· ++ _) h.log
  ordered := by
    rw [logOf_append]
    exact h.ordered.cpuWrite ht v
  view := by
    intro i hi p hp
    rw [logOf_append] at hp ⊢
    have hview := h.view i hi p hp.left
    rw [viewOf_append, replayOf_append, hbit i hi]
    by_cases hpw : p ⟨v, edge l (t + 1), t + 1, true⟩ = true
    · -- the whole journal is visible
      rw [if_pos hpw, Item.undoes_visible hpw]
      have hall (b : Bool) : viewOf p i J b = b :=
        viewOf_eq_self (fun x hx => Item.undoes_visible
          (hp.all rfl hpw x.w (List.mem_map_of_mem hx)) i) b
      rw [hall] at hview
      rw [hall, Option.getD_none, hview]
      rfl
    · rw [if_neg hpw]
      refine Eq.trans (congrArg _ ?_) hview
      unfold Item.undoes
      rw [Bool.eq_false_iff.mpr hpw, Bool.not_false, Bool.and_true, if_pos rfl]
      obtain ⟨n, hn, hm, hprev⟩ | ⟨hm, hsame⟩ := hnote i hi
      · -- it is undone to what the bit was
        rw [Option.mem_def.mp hn]
        dsimp only
        rw [if_pos hm]
        exact hprev
      · rw [hsame]
        cases hn : note with
        | none => rfl
        | some n =>
          dsimp only
          rw [if_neg (by rw [hm n hn]; decide), Option.getD_none]

theorem Sim.cpuWrite (h : Sim l cpu rsp s r J) {t : Nat} (ht : cpu ≤ t)
    (hroom : s.spSigRing.length < kSpSigN) (v : Reg) :
    ∃ J', Sim l t rsp (s.cpuWrite l t v) (r.cpuWrite l t v) J' := by
  have hctl (i : Nat) (hi : i < 8) := getLsbD_writeControl v s hi
  have hbit (i : Nat) (hi : i < 8) :
      (writeSignals v (writeControl v s).sp_status).getLsbD (7 + i) =
        sigPair v i (s.sp_status.getLsbD (7 + i)) := by
    rw [getLsbD_writeSignals v _ hi, hctl i hi]
  have hchanged (i : Nat) (hi : i < 8) :
      (((writeControl v s).sp_status ^^^ writeSignals v (writeControl v s).sp_status) &&&
        sigMask).getLsbD (7 + i) =
        (s.sp_status.getLsbD (7 + i) != sigPair v i (s.sp_status.getLsbD (7 + i))) := by
    rw [getLsbD_changed _ _ hi, hbit i hi, hctl i hi]
  have hfull : (writeControl v s).spSigRing.length ≠ kSpSigN := Nat.ne_of_lt hroom
  unfold Sp.cpuWrite
  dsimp only
  rw [if_neg hfull]
  generalize ((writeControl v s).sp_status ^^^ writeSignals v (writeControl v s).sp_status) &&&
    sigMask = changed at hchanged ⊢
  generalize (if (!s.sp_status.getLsbD 0 && v.getLsbD 0 && !v.getLsbD 1) = true then (1 : Reg)
    else 0) ||| (if v.getLsbD 2 = true then 2 else 0) = flags
  -- a signal that did not change keeps its value
  have hkeep {i : Nat} (hi : i < 8) (hm : changed.getLsbD (7 + i) = false) :
      sigPair v i (s.sp_status.getLsbD (7 + i)) = s.sp_status.getLsbD (7 + i) := by
    rw [hchanged i hi] at hm
    exact (bne_eq_false_iff_eq.mp hm).symm
  split_ifs with hnote
  · refine ⟨_, h.push ht v (some ⟨changed, (writeControl v s).sp_status &&& changed, flags⟩) _
      (congrArg (· ++ _) h.ring) hbit fun i hi => ?_⟩
    cases hm : changed.getLsbD (7 + i) with
    | true =>
      refine .inl ⟨_, rfl, hm, ?_⟩
      rw [BitVec.getLsbD_and, hm, Bool.and_true, hctl i hi]
    | false =>
      refine .inr ⟨fun n hn => ?_, hkeep hi hm⟩
      rw [← Option.some.inj hn]
      exact hm
  · push Not at hnote
    refine ⟨_, h.push ht v none _ (h.ring.trans (List.append_nil _).symm) hbit fun i hi => ?_⟩
    exact .inr ⟨nofun, hkeep hi (by rw [hnote.1]; exact BitVec.getLsbD_zero)⟩

/-- An item whose entry can no longer undo the bits of `c`. -/
def Item.settle (c : Reg) (x : Item) : Item :=
  { x with note := x.note.map fun n => { n with mask := n.mask &&& ~~~c } }

theorem Item.settle_entry (c : Reg) (x : Item) :
    (x.settle c).entry = x.entry.map fun w => { w with mask := w.mask &&& ~~~c } := by
  unfold Item.entry Item.settle
  dsimp only
  split_ifs
  · rw [Option.map_map, Option.map_map]
    rfl
  · rfl

theorem Item.settle_undoes {c : Reg} {i : Nat} (hi : i < 8) (hc : c.getLsbD (7 + i) = false)
    (p : SigWrite → Bool) (x : Item) : (x.settle c).undoes p i = x.undoes p i := by
  unfold Item.undoes Item.settle
  cases x.note with
  | none => rfl
  | some n =>
    have hmask : (n.mask &&& ~~~c).getLsbD (7 + i) = n.mask.getLsbD (7 + i) := by
      rw [BitVec.getLsbD_and, BitVec.getLsbD_not, hc]
      simp [show 7 + i < 32 by omega]
    dsimp only [Option.map_some]
    rw [hmask]

/-- The journal without the bits of `c`, `c` being what the RSP changed. -/
theorem ringOf_settle (c : Reg) :
    (if c ≠ 0 then (ringOf J).map fun w => { w with mask := w.mask &&& ~~~c } else ringOf J) =
      ringOf (J.map (.settle c)) := by
  rw [ringOf_map (.settle c) _ fun x _ => x.settle_entry c]
  split_ifs with hc
  · rfl
  · rw [not_not.mp hc]
    refine (List.map_id _).symm.trans (List.map_congr_left fun w _ => ?_)
    have hmask : w.mask &&& ~~~(0 : Reg) = w.mask := BitVec.and_allOnes
    rw [hmask]
    rfl

/-- Once the RSP has set or cleared a signal, no entry undoes it: the bit
    changed and left every mask, or it was in none. -/
theorem settled_undoes (h : Sim l cpu rsp s r J) {v : Reg} (hv : s.NoRewrite v) {c : Reg} {i : Nat}
    (hi : i < 8) (hc : c.getLsbD (7 + i) =
      (s.sp_status.getLsbD (7 + i) != sigPair v i (s.sp_status.getLsbD (7 + i))))
    {b : Bool} (hb : ∀ a, sigPair v i a = b) (p : SigWrite → Bool) :
    ∀ x ∈ J.map (Item.settle c), x.undoes p i = none := by
  intro x hx
  obtain ⟨y, hy, rfl⟩ := List.mem_map.mp hx
  refine Item.undoes_unmasked fun e he => ?_
  rw [Item.settle_entry] at he
  obtain ⟨w, hw, rfl⟩ := Option.mem_map.mp he
  dsimp only
  rw [BitVec.getLsbD_and, BitVec.getLsbD_not, hc, hb]
  cases hlive : s.sp_status.getLsbD (7 + i) != b with
  | true => rw [Bool.not_true, Bool.and_false, Bool.and_false]
  | false =>
    have hmem : w ∈ s.spSigRing := by
      rw [h.ring]
      exact List.mem_filterMap.mpr ⟨y, hy, hw⟩
    have hmask := hv i hi (fun a => (hb a).trans (bne_eq_false_iff_eq.mp hlive).symm) w hmem
    rw [hmask, Bool.false_and]

/-- The RSP's own write. -/
theorem Sim.rspWrite (h : Sim l cpu rsp s r J) {v : Reg} (hv : s.NoRewrite v) :
    ∃ J', Sim l cpu rsp (s.rspWrite v) (r.rspWrite v) J' := by
  have hbit (i : Nat) (hi : i < 8) :
      (s.rspWrite v).sp_status.getLsbD (7 + i) = sigPair v i (s.sp_status.getLsbD (7 + i)) := by
    unfold Sp.rspWrite
    dsimp only
    rw [getLsbD_writeSignals v _ hi, getLsbD_writeControl v s hi]
  obtain ⟨c, hring, hc⟩ : ∃ c, (s.rspWrite v).spSigRing = ringOf (J.map (Item.settle c)) ∧
      ∀ i < 8, c.getLsbD (7 + i) =
        (s.sp_status.getLsbD (7 + i) != sigPair v i (s.sp_status.getLsbD (7 + i))) := by
    refine ⟨((writeControl v s).sp_status ^^^ writeSignals v (writeControl v s).sp_status) &&&
      sigMask, ?_, fun i hi => ?_⟩
    · rw [← ringOf_settle, ← h.ring]
      rfl
    · rw [getLsbD_changed _ _ hi, getLsbD_writeSignals v _ hi, getLsbD_writeControl v s hi]
  have hlog : logOf (J.map (Item.settle c)) = logOf J := by
    rw [logOf_map (Item.settle c) id fun _ => rfl, List.map_id]
  refine ⟨J.map (Item.settle c) ++ [⟨⟨v, 0, 0, false⟩, none⟩], ?_, ?_, ?_, ?_⟩
  · rw [hring, ringOf_append]
    exact (List.append_nil _).symm
  · rw [logOf_append, hlog]
    exact congrArg (· ++ _) h.log
  · rw [logOf_append, hlog]
    exact h.ordered.rspWrite v
  · intro i hi p hp
    rw [logOf_append, hlog] at hp ⊢
    have hown : p ⟨v, 0, 0, false⟩ = true :=
      hp.seen _ (List.mem_append_right _ (List.mem_singleton_self _)) rfl
    rw [viewOf_append, replayOf_append, hbit i hi, if_pos hown, Item.undoes_visible hown,
      Option.getD_none, show (r.rspWrite v).initial = r.initial from rfl, ← h.view i hi p hp.left]
    obtain ⟨b, hb⟩ | hid := sigPair_cases v i
    · rw [viewOf_eq_self (settled_undoes h hv hi (hc i hi) hb p), hb, hb]
    · rw [hid, hid]
      refine viewOf_map _ (fun x _ => x.settle_undoes hi ?_ p) _
      rw [hc i hi, hid]
      exact bne_self_eq_false _

/-- New stamps for the pending writes; the flag of a late `CLEAR_HALT` goes
    with those in `c`. -/
def Item.restamp (f : SigWrite → Nat) (c : SigWrite → Bool) (x : Item) : Item where
  w := x.w.restamp f
  note := x.note.map fun n => { n with flags := if c x.w then n.flags &&& ~~~1#32 else n.flags }

theorem Item.restamp_entry {f : SigWrite → Nat} {c : SigWrite → Bool} {F : SpSigWr → SpSigWr}
    (hF : ∀ (w : SigWrite) (n : Note), F ⟨w.stamp, w.raw, n.mask, n.prev, n.flags⟩ =
      ⟨f w, w.raw, n.mask, n.prev, if c w then n.flags &&& ~~~1#32 else n.flags⟩) (x : Item) :
    (x.restamp f c).entry = x.entry.map F := by
  unfold Item.entry Item.restamp
  dsimp only
  rw [SigWrite.restamp_pending]
  cases hp : x.w.pending with
  | false => rfl
  | true =>
    rw [if_pos rfl, if_pos rfl, SigWrite.restamp_stamp hp, SigWrite.restamp_raw]
    cases x.note with
    | none => rfl
    | some n => exact congrArg some (hF x.w n).symm

theorem Item.restamp_undoes (f : SigWrite → Nat) (c : SigWrite → Bool) (p : SigWrite → Bool)
    (i : Nat) (x : Item) :
    (x.restamp f c).undoes p i = x.undoes (fun w => p (w.restamp f)) i := by
  unfold Item.undoes Item.restamp
  dsimp only
  rw [SigWrite.restamp_pending]
  cases x.note with
  | none => rfl
  | some n => rfl

/-- Restamping keeps the register: only the dates differ. -/
theorem Sim.restamp (h : Sim l cpu rsp s r J) {rsp' : Nat} {f : SigWrite → Nat}
    {c : SigWrite → Bool} {s' : Sp} (hord : Ordered l cpu rsp' ((logOf J).map (.restamp f)))
    (hst : s'.sp_status = s.sp_status)
    (hring : s'.spSigRing = ringOf (J.map (Item.restamp f c))) :
    Sim l cpu rsp' s' (r.restamp f) (J.map (Item.restamp f c)) := by
  have hlog : logOf (J.map (Item.restamp f c)) = (logOf J).map (.restamp f) :=
    logOf_map _ _ fun _ => rfl
  refine ⟨hring, ?_, ?_, fun i hi p hp => ?_⟩
  · rw [hlog]
    exact congrArg (List.map _) h.log
  · rw [hlog]
    exact hord
  · rw [hlog] at hp ⊢
    have hclosed : Closed (fun w => p (w.restamp f)) (logOf J) := by
      refine ⟨fun w hw hpend => hp.seen _ (List.mem_map_of_mem hw) ?_, ?_⟩
      · rw [SigWrite.restamp_pending]
        exact hpend
      · refine (List.pairwise_map.mp hp.down).imp fun hab hb => hab ?_
        rw [SigWrite.restamp_pending]
        exact hb
    rw [viewOf_map (Item.restamp f c) (fun x _ => x.restamp_undoes f c p i),
      replayOf_map (.restamp f) (SigWrite.restamp_v f) (fun _ _ => rfl), hst]
    exact h.view i hi _ hclosed

theorem Sim.kick (h : Sim l cpu rsp s r J) :
    ∃ J', Sim l cpu rsp s.spSigAtKick (r.restamp fun w => w.raw) J' := by
  refine ⟨_, h.restamp (c := fun _ => true) h.ordered.kick rfl ?_⟩
  unfold Sp.spSigAtKick
  rw [h.ring]
  exact (ringOf_map _ _ fun x _ => Item.restamp_entry (fun w n => by rw [if_pos rfl]) x).symm

/-- Entries stand in the order of their real instants, so the loop's early
    exit leaves out nothing. -/
theorem upTo_eq_map {upto now : Nat} {ring : List SpSigWr}
    (h : ring.Pairwise fun a b => a.raw ≤ b.raw) :
    upTo upto now ring = ring.map fun w =>
      if upto < w.raw then w
      else { w with stamp := min w.raw now, flags := w.flags &&& ~~~1#32 } := by
  induction ring with
  | nil => rfl
  | cons w ring ih =>
    obtain ⟨hw, hring⟩ := List.pairwise_cons.mp h
    unfold upTo
    rw [List.map_cons]
    split_ifs with hlate
    · refine congrArg (w :: ·) ((List.map_id _).symm.trans (List.map_congr_left fun u hu => ?_))
      rw [if_pos (Nat.lt_of_lt_of_le hlate (hw u hu))]
      rfl
    · rw [ih hring]

theorem Item.mem_entry {x : Item} {e : SpSigWr} (h : e ∈ x.entry) :
    x.w.pending = true ∧ e.stamp = x.w.stamp ∧ e.raw = x.w.raw := by
  unfold Item.entry at h
  split_ifs at h with hp
  · obtain ⟨n, -, rfl⟩ := Option.mem_map.mp h
    exact ⟨hp, rfl, rfl⟩
  · exact absurd h nofun

theorem Ordered.ring_raws (h : Ordered l cpu rsp (logOf J)) :
    (ringOf J).Pairwise fun a b => a.raw ≤ b.raw := by
  refine List.Pairwise.filterMap _ (fun x y hxy e he u hu => ?_) (List.pairwise_map.mp h.raws)
  obtain ⟨hx, -, hraw⟩ := Item.mem_entry he
  obtain ⟨hy, -, hraw'⟩ := Item.mem_entry hu
  rw [hraw, hraw']
  exact hxy hx hy

theorem Sim.dma (h : Sim l cpu rsp s r J) {now : Nat} (hle : rsp ≤ now) (upto : Nat) :
    ∃ J', Sim l cpu now (s.spSigUpTo upto now)
      (r.restamp fun w => if upto < w.raw then w.stamp else min w.raw now) J' := by
  refine ⟨_, h.restamp (c := fun w => !decide (upto < w.raw)) (h.ordered.dma hle upto) rfl ?_⟩
  unfold Sp.spSigUpTo
  rw [h.ring, upTo_eq_map h.ordered.ring_raws]
  refine (ringOf_map _ _ fun x _ => Item.restamp_entry (fun w n => ?_) x).symm
  by_cases hlate : upto < w.raw
  · simp only [hlate, if_pos, decide_true, Bool.not_true, Bool.false_eq_true, if_false]
  · simp only [hlate, if_false, decide_false, Bool.not_false, if_true]

/-! ## Section 8: A read -/

def Item.see (now : Nat) (x : Item) : Item := { x with w := x.w.see now }

/-- A read forgets the entries that are due. -/
theorem Item.see_entry (now : Nat) (x : Item) :
    (x.see now).entry = x.entry.filter fun e => decide (now < e.stamp) := by
  unfold Item.entry Item.see SigWrite.see
  dsimp only
  cases x.w.pending with
  | false => rfl
  | true =>
    rw [Bool.true_and, if_pos rfl]
    cases x.note with
    | none => exact ite_self none
    | some n => rfl

theorem ringOf_see (now : Nat) (J : List Item) :
    ringOf (J.map (Item.see now)) = (ringOf J).filter fun e => decide (now < e.stamp) := by
  unfold ringOf
  rw [List.filter_filterMap, List.filterMap_map]
  exact List.filterMap_congr fun x _ => x.see_entry now

/-- Where what is due comes first, dropping it from the front drops it
    all. -/
theorem dropWhile_due {now : Nat} {ring : List SpSigWr}
    (h : ring.Pairwise fun a b => b.stamp ≤ now → a.stamp ≤ now) :
    (ring.dropWhile fun w => decide (w.stamp ≤ now)) =
      ring.filter fun w => decide (now < w.stamp) := by
  induction ring with
  | nil => rfl
  | cons w ring ih =>
    obtain ⟨hw, hring⟩ := List.pairwise_cons.mp h
    rw [List.dropWhile_cons]
    by_cases hdue : w.stamp ≤ now
    · rw [if_pos (decide_eq_true hdue), List.filter_cons_of_neg, ih hring]
      rw [decide_eq_true_eq, Nat.not_lt]
      exact hdue
    · rw [if_neg (by rw [decide_eq_true_eq]; exact hdue)]
      refine (List.filter_eq_self.mpr fun u hu => decide_eq_true ?_).symm
      obtain rfl | hu := List.mem_cons.mp hu
      · exact Nat.lt_of_not_le hdue
      · exact Nat.lt_of_not_le fun hle => hdue (hw u hu hle)

theorem Ordered.ring_due (h : Ordered l cpu rsp (logOf J)) {now : Nat} (hle : rsp ≤ now) :
    (ringOf J).Pairwise fun a b => b.stamp ≤ now → a.stamp ≤ now := by
  refine List.Pairwise.filterMap _ (fun x y hxy e he u hu hdue => ?_)
    (List.pairwise_map.mp h.stamps)
  obtain ⟨hx, hstamp, -⟩ := Item.mem_entry he
  obtain ⟨hy, hstamp', -⟩ := Item.mem_entry hu
  rw [hstamp'] at hdue
  rw [hstamp]
  exact (hxy hx hy).trans (max_le hdue hle)

theorem Item.see_undoes {p : SigWrite → Bool} {now : Nat} {x : Item}
    (h : (x.w.see now).pending = false → p (x.w.see now) = true) (i : Nat) :
    (x.see now).undoes p i = x.undoes (fun w => p (w.see now)) i := by
  unfold Item.undoes Item.see
  dsimp only
  cases hp : (x.w.see now).pending with
  | false => simp only [h hp, Bool.not_true, Bool.and_false]
  | true =>
    have hpend : x.w.pending = true := (Bool.and_eq_true_iff.mp hp).1
    rw [hpend]

/-- What may be visible after a read may be visible before. -/
theorem Closed.unsee {p : SigWrite → Bool} {now : Nat} (hle : rsp ≤ now)
    (hord : Ordered l cpu rsp log) (h : Closed p (log.map (.see now))) :
    Closed (fun w => p (w.see now)) log where
  seen := by
    intro w hw hpend
    refine h.seen _ (List.mem_map_of_mem hw) ?_
    change (w.pending && _) = false
    rw [hpend, Bool.false_and]
  down := by
    refine List.Pairwise.imp_of_mem (fun {a b} ha hb hab hbp hp => ?_)
      ((List.pairwise_map.mp h.down).and (hord.closed hle).down)
    cases hsee : (b.see now).pending with
    | true => exact hab.1 hsee hp
    | false =>
      -- `b` is due, so `a` is
      refine h.seen _ (List.mem_map_of_mem ha) ?_
      change (b.pending && decide (now < b.stamp)) = false at hsee
      rw [hbp, Bool.true_and, decide_eq_false_iff_not, Nat.not_lt] at hsee
      have hdue := of_decide_eq_true (hab.2 hbp (decide_eq_true hsee))
      change (a.pending && decide (now < a.stamp)) = false
      rw [decide_eq_false (Nat.not_lt.mpr hdue), Bool.and_false]

theorem Sim.see (h : Sim l cpu rsp s r J) {now : Nat} (hle : rsp ≤ now) :
    Sim l cpu now (s.spStatusForRsp now).1 (r.see now) (J.map (Item.see now)) := by
  have hlog : logOf (J.map (Item.see now)) = (logOf J).map (.see now) :=
    logOf_map _ _ fun _ => rfl
  refine ⟨?_, ?_, ?_, fun i hi p hp => ?_⟩
  · rw [ringOf_see, ← dropWhile_due (h.ordered.ring_due hle), ← h.ring]
    rfl
  · rw [hlog]
    exact congrArg (List.map _) h.log
  · rw [hlog]
    exact h.ordered.see hle
  · rw [hlog] at hp ⊢
    rw [viewOf_map (Item.see now) (fun x hx => Item.see_undoes (hp.seen _
        (List.mem_map_of_mem (List.mem_map_of_mem hx))) i),
      replayOf_map (.see now) (fun _ => rfl) (fun _ _ => rfl)]
    exact h.view i hi _ (hp.unsee hle h.ordered)

/-- The loop of `spStatusForRsp` over a journal with nothing due. -/
theorem foldr_ringOf {p : SigWrite → Bool} (h : ∀ x ∈ J, x.w.pending = true → p x.w = false)
    (i : Nat) (b : Bool) :
    (ringOf J).foldr (fun w b => if w.mask.getLsbD (7 + i) then w.prev.getLsbD (7 + i) else b) b =
      viewOf p i J b := by
  induction J with
  | nil => rfl
  | cons x J ih =>
    have htail := ih fun y hy => h y (List.mem_cons_of_mem x hy)
    have hx := h x List.mem_cons_self
    unfold ringOf viewOf at htail ⊢
    rw [List.filterMap_cons, List.foldr_cons, ← htail]
    unfold Item.entry Item.undoes
    cases hp : x.w.pending with
    | false => rfl
    | true =>
      rw [hx hp, if_pos rfl]
      cases x.note with
      | none => rfl
      | some n =>
        dsimp only [Option.map_some]
        rw [List.foldr_cons, if_pos (show (true && !false) = true from rfl)]
        split_ifs <;> rfl

/-- A read shows the writes that are visible, replayed. -/
theorem Sim.read (h : Sim l cpu rsp s r J) {now : Nat} (hle : rsp ≤ now) {i : Nat} (hi : i < 8) :
    (s.spStatusForRsp now).2.getLsbD (7 + i) = r.replay i now := by
  have hsee := h.see hle
  have hring : (s.spSigRing.dropWhile fun w => decide (w.stamp ≤ now)) =
      ringOf (J.map (Item.see now)) := hsee.ring
  have hbreak : ∀ i < 8, ∀ b : Bool, (if b then (0x40 : Reg) else 0).getLsbD (7 + i) = false := by
    decide
  have hpending : ∀ x ∈ J.map (Item.see now), x.w.pending = true →
      decide (x.w.stamp ≤ now) = false := by
    intro x hx hp
    obtain ⟨y, -, rfl⟩ := List.mem_map.mp hx
    have hlate := of_decide_eq_true (Bool.and_eq_true_iff.mp hp).2
    exact decide_eq_false (Nat.not_le.mpr hlate)
  unfold Sp.spStatusForRsp
  dsimp only
  rw [BitVec.getLsbD_or, hbreak i hi, Bool.or_false, hring, getLsbD_foldr_undo _ _ (by omega),
    foldr_ringOf (p := fun w => decide (w.stamp ≤ now)) hpending]
  refine (hsee.view i hi _ (hsee.ordered.closed (Nat.le_refl now))).trans ?_
  unfold Ref.replay
  rw [h.log, logOf_map (Item.see now) (.see now) fun _ => rfl]
  exact replayOf_map (.see now) (fun _ => rfl) (fun _ _ => rfl) i _

/-! ## Section 9: Runs -/

/-- What one event keeps. -/
theorem Sim.step (h : Sim l cpu rsp s r J) {e : SpEvent} {es : List SpEvent}
    (hin : InOrder l cpu rsp s (e :: es)) (hno : NoRewrites l s (e :: es)) :
    ∃ cpu' rsp' J', Sim l cpu' rsp' (s.step l e) (r.step l e) J' ∧
      InOrder l cpu' rsp' (s.step l e) es := by
  cases e with
  | cpuWrite t v =>
    obtain ⟨ht, hroom, hin⟩ := hin
    obtain ⟨J', h'⟩ := h.cpuWrite ht hroom v
    exact ⟨t, rsp, J', h', hin⟩
  | rspWrite v =>
    obtain ⟨J', h'⟩ := h.rspWrite hno.1
    exact ⟨cpu, rsp, J', h', hin⟩
  | kick =>
    obtain ⟨J', h'⟩ := h.kick
    exact ⟨cpu, rsp, J', h', hin⟩
  | dma upto now =>
    obtain ⟨hle, hin⟩ := hin
    obtain ⟨J', h'⟩ := h.dma hle upto
    exact ⟨cpu, now, J', h', hin⟩
  | read now =>
    obtain ⟨hle, hin⟩ := hin
    exact ⟨cpu, now, _, h.see hle, hin⟩

theorem Sim.reads (h : Sim l cpu rsp s r J) {es : List SpEvent} (hin : InOrder l cpu rsp s es)
    (hno : NoRewrites l s es) : s.reads l es = r.reads l es := by
  induction es generalizing cpu rsp s r J with
  | nil => rfl
  | cons e es ih =>
    obtain ⟨cpu', rsp', J', h', hin'⟩ := h.step hin hno
    have hrest := ih h' hin' hno.2
    unfold Sp.reads Ref.reads
    rw [hrest]
    cases e with
    | read now =>
      dsimp only
      have hbits : ((List.range 8).map fun i => (s.spStatusForRsp now).2.getLsbD (7 + i)) =
          (List.range 8).map fun i => r.replay i now :=
        List.map_congr_left fun i hi => h.read hin.1 (List.mem_range.mp hi)
      rw [hbits]
    | _ => rfl

theorem sim_start (l cpu rsp : Nat) (st : Reg) (onBreak : Bool) :
    Sim l cpu rsp ⟨st, onBreak, []⟩ ⟨st, []⟩ [] where
  ring := rfl
  log := rfl
  ordered := ⟨nofun, nofun, nofun, List.Pairwise.nil, List.Pairwise.nil⟩
  view := fun _ _ _ _ => rfl

/-- In a run in which the RSP never writes a pending signal with the value
    it already has, every read shows the writes that are visible to the RSP
    and no others. -/
theorem signals_replay (l cpu rsp : Nat) (st : Reg) (onBreak : Bool) (es : List SpEvent)
    (hin : InOrder l cpu rsp ⟨st, onBreak, []⟩ es) (hno : NoRewrites l ⟨st, onBreak, []⟩ es) :
    Sp.reads l ⟨st, onBreak, []⟩ es = Ref.reads l ⟨st, []⟩ es :=
  (sim_start l cpu rsp st onBreak).reads hin hno

/-- The CPU sets `SIG0`; before it may be seen the RSP sets `SIG1`, and both
    are read. -/
theorem signals_replay_sample :
    Sp.reads 4 ⟨0, false, []⟩
      [.cpuWrite 100 0x400, .rspWrite 0x1000, .read 50, .kick, .read 101] =
    Ref.reads 4 ⟨0, []⟩
      [.cpuWrite 100 0x400, .rspWrite 0x1000, .read 50, .kick, .read 101] := by
  refine signals_replay 4 0 0 0 false _ ?_ ?_
  · simp only [InOrder]
    decide
  · refine ⟨trivial, ?_, trivial, trivial, trivial, trivial⟩
    intro i hi _
    revert i
    decide

/-- The CPU sets `SIG0` at 100 and the RSP sets it too. Reading at 50, the
    RSP finds it clear. -/
theorem own_write_undone :
    InOrder 4 0 0 ⟨0, false, []⟩ [.cpuWrite 100 0x400, .rspWrite 0x400, .read 50] ∧
    Sp.reads 4 ⟨0, false, []⟩ [.cpuWrite 100 0x400, .rspWrite 0x400, .read 50] ≠
      Ref.reads 4 ⟨0, []⟩ [.cpuWrite 100 0x400, .rspWrite 0x400, .read 50] := by
  constructor
  · simp only [InOrder]
    decide
  · decide

end Rcp
