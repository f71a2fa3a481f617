import Mathlib.Algebra.Group.Nat.Defs
import Mathlib.Data.Nat.Basic
import Mathlib.Data.Fin.Basic
import Kestrel64.Lib.Index

/-! # RSP Dynarec: Forming a Block

    The front half of `compile` in `rsp/rspjit.cpp`: which instructions the
    dynarec takes into a block, and where a block ends.

    A block is a straight run of words of IMEM, at most `kMaxOps` of them and
    never around the end of IMEM. A branch closes it together with its delay
    slot. `scan_shape` is all that the rest of the development knows about
    the scan.

    The PC of the RSP is 12 bits wide and a multiple of four (`sp_pc` and
    `take` mask it), so a PC is the index of a word here.
-/

namespace Rsp

abbrev Word := BitVec 32

/-- IMEM, by word. -/
abbrev Imem := Nat → Word

def imemWords : Nat := 1024

def kMinOps : Nat := 2
def kMaxOps : Nat := 64

/-! ## Section 1: Instruction fields -/

def Word.maj (op : Word) : Nat := op.toNat / 2 ^ 26
def Word.rs (op : Word) : Nat := op.toNat / 2 ^ 21 % 32
def Word.rt (op : Word) : Nat := op.toNat / 2 ^ 16 % 32
def Word.rd (op : Word) : Nat := op.toNat / 2 ^ 11 % 32
def Word.funct (op : Word) : Nat := op.toNat % 64

/-! ## Section 2: Kinds -/

/-- What the compiler does with an instruction. -/
inductive Kind where
  | stop
  | native
  | cop2
  | lwc2
  | swc2
  | mem
  | branch
  | cop0
  deriving DecidableEq, Repr

/-- `SPECIAL` instructions that are emitted natively. -/
def nativeFuncts : List Nat :=
  [0x00, 0x02, 0x03, 0x04, 0x06, 0x07, 0x20, 0x21, 0x22, 0x23, 0x24, 0x25, 0x26, 0x27, 0x2a, 0x2b]

def classify (op : Word) : Kind :=
  let maj := Word.maj op
  if maj = 0x00 then
    if Word.funct op ∈ nativeFuncts then .native
    else if Word.funct op = 0x08 ∨ Word.funct op = 0x09 then .branch
    else .stop
  else if maj = 0x01 then
    if Word.rt op ∈ [0x00, 0x01, 0x10, 0x11] then .branch else .stop
  else if maj ∈ [0x02, 0x03, 0x04, 0x05, 0x06, 0x07] then .branch
  else if maj ∈ [0x08, 0x09, 0x0a, 0x0b, 0x0c, 0x0d, 0x0e, 0x0f] then .native
  else if maj ∈ [0x20, 0x24, 0x28] then .native
  else if maj ∈ [0x21, 0x23, 0x25, 0x27, 0x29, 0x2b] then .mem
  else if maj = 0x10 then
    if Word.rs op = 0x00 ∨ Word.rs op = 0x04 then .cop0 else .stop
  else if maj = 0x12 then .cop2
  else if maj = 0x32 then .lwc2
  else if maj = 0x3a then .swc2
  else .stop

/-- The kinds a block can hold anywhere. -/
def Kind.inner : Kind → Bool
  | .stop | .branch => false
  | _ => true

/-! ## Section 3: The scan -/

/-- The loop of `compile` that counts instructions: `k` more are allowed,
    `n` are taken. The second result says that the block ends in a branch and
    its delay slot. -/
def scan (imem : Imem) (pc0 : Nat) : Nat → Nat → Nat × Bool
  | 0, n => (n, false)
  | k + 1, n =>
    let a := (pc0 + n) % imemWords
    -- a block does not wrap around IMEM
    if n ≠ 0 ∧ a < pc0 then (n, false)
    else
      match classify (imem a) with
      | .stop => (n, false)
      | .branch =>
        if kMaxOps < n + 2 then (n, false)
        else
          let ad := (a + 1) % imemWords
          if ad ≠ a + 1 then (n, false)
          else if !(classify (imem ad)).inner then (n, false)
          else (n + 2, true)
      | _ => scan imem pc0 k (n + 1)

/-- A block as the compiler sees it. -/
structure Form where
  nOps : Nat
  endsBranch : Bool

def form (imem : Imem) (pc0 : Nat) : Form :=
  let r := scan imem pc0 kMaxOps 0
  { nOps := r.1, endsBranch := r.2 }

/-- What the scan guarantees of the words it takes. -/
structure Shape (imem : Imem) (pc0 : Nat) (f : Form) : Prop where
  bound : f.nOps ≤ kMaxOps
  noWrap : pc0 + f.nOps ≤ imemWords
  straight : f.endsBranch = false → ∀ i < f.nOps, (classify (imem (pc0 + i))).inner
  branch : f.endsBranch = true → ∃ n, f.nOps = n + 2 ∧
    (∀ i < n, (classify (imem (pc0 + i))).inner) ∧
    classify (imem (pc0 + n)) = .branch ∧ (classify (imem (pc0 + n + 1))).inner

/-- The scan stops at `n` without a branch. -/
theorem Shape.stopped {imem : Imem} {pc0 : Nat} (n : Nat) (hb : n ≤ kMaxOps)
    (hw : pc0 + n ≤ imemWords) (hin : ∀ i < n, (classify (imem (pc0 + i))).inner) :
    Shape imem pc0 { nOps := n, endsBranch := false } where
  bound := hb
  noWrap := hw
  straight := fun _ => hin
  branch := nofun

theorem scan_shape {imem : Imem} {pc0 : Nat} (hpc : pc0 < imemWords) (k n : Nat)
    (hk : n + k = kMaxOps) (hw : pc0 + n ≤ imemWords)
    (hin : ∀ i < n, (classify (imem (pc0 + i))).inner) :
    Shape imem pc0
      { nOps := (scan imem pc0 k n).1, endsBranch := (scan imem pc0 k n).2 } := by
  induction k generalizing n with
  | zero => exact Shape.stopped n (Nat.le_of_eq hk) hw hin
  | succ k ih =>
    have hstop := Shape.stopped n (by omega) hw hin
    unfold scan
    dsimp only
    by_cases hwrap : n ≠ 0 ∧ (pc0 + n) % imemWords < pc0
    · rw [if_pos hwrap]
      exact hstop
    rw [if_neg hwrap]
    -- the scan has not wrapped, so the next address is the next word
    have hlt : pc0 + n < imemWords := by
      unfold imemWords kMaxOps at *
      omega
    rw [Nat.mod_eq_of_lt hlt]
    have hnext : (classify (imem (pc0 + n))).inner →
        ∀ i < n + 1, (classify (imem (pc0 + i))).inner := by
      intro hn i hi
      obtain hi' | rfl := Nat.lt_succ_iff_lt_or_eq.mp hi
      · exact hin i hi'
      · exact hn
    cases hc : classify (imem (pc0 + n)) with
    | stop => exact hstop
    | branch =>
      dsimp only
      by_cases hroom : kMaxOps < n + 2
      · rw [if_pos hroom]
        exact hstop
      rw [if_neg hroom]
      by_cases hslot : (pc0 + n + 1) % imemWords ≠ pc0 + n + 1
      · rw [if_pos hslot]
        exact hstop
      rw [if_neg hslot, not_not.mp hslot]
      have hlt' : pc0 + n + 1 < imemWords := by
        unfold imemWords at *
        omega
      cases hin' : (classify (imem (pc0 + n + 1))).inner with
      | false => exact hstop
      | true =>
        exact
          { bound := Nat.not_lt.mp hroom
            noWrap := hlt'
            straight := nofun
            branch := fun _ => ⟨n, rfl, hin, hc, hin'⟩ }
    | native | cop2 | lwc2 | swc2 | mem | cop0 =>
      exact ih (n + 1) (by omega) hlt (hnext (by rw [hc]; rfl))

theorem form_shape {pc0 : Nat} (hpc : pc0 < imemWords) (imem : Imem) :
    Shape imem pc0 (form imem pc0) :=
  scan_shape hpc kMaxOps 0 (Nat.zero_add _) (by omega) (fun _ h => absurd h (Nat.not_lt_zero _))

/-- The words of the block formed at `pc0`. -/
def blockWords (imem : Imem) (pc0 : Nat) : List Word :=
  (List.range (form imem pc0).nOps).map fun i => imem (pc0 + i)

end Rsp
