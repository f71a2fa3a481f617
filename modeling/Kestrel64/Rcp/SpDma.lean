import Kestrel64.Rcp.DmaJournal

/-! # RCP: The DMA Engine of the SP

    `spDma` moves rows between RDRAM and the 4 KiB of DMEM or IMEM. With
    `watchAddr` set it goes byte by byte; without, in blocks that end where
    the SP's memory wraps and where the chips end, copied by `dmaCopy`. Past
    the chips zeros are read, and writes are lost.

    * `dmaCopy_eq` — the short copy is a copy.
    * `spDma_blocks` — blocks are bytes, and the loop over them ends.
    * `spDma_write` — to RDRAM it is the reference of the journal.
-/

namespace Rcp.SpDma

open Overlay
open Dma (Ram SpRegs memcpy lenLength lenCount lenSkip memOffOf isImem dramOf regsAfter)

/-! ## Section 1: The short copy -/

/-- `for(; i + step <= n; i += step)` -/
def copyLoop (step : Nat) (body : Nat → Ram → Ram) (n i : Nat) (f : Ram) : Nat × Ram :=
  if i + step ≤ n ∧ 0 < step then copyLoop step body n (i + step) (body i f) else (i, f)
termination_by n - i

def dmaCopy (f : Ram) (dst : Nat) (src : Ram) (from' n : Nat) : Ram :=
  if 256 ≤ n then memcpy f dst src from' n
  else
    let word := fun i f => memcpy f (dst + i) src (from' + i) 8
    let r := copyLoop 16 (fun i f => word (i + 8) (word i f)) n 0 f
    let r := copyLoop 8 word n r.1 r.2
    (copyLoop 1 (fun i f => Function.update f (dst + i) (src (from' + i))) n r.1 r.2).2

section Copy

variable (f src : Ram) (dst from' : Nat)

theorem memcpy_zero : memcpy f dst src from' 0 = f := by
  funext x
  unfold memcpy
  rw [if_neg (by omega)]

/-- A copy goes on where it was left. -/
theorem memcpy_memcpy (i k : Nat) :
    memcpy (memcpy f dst src from' i) (dst + i) src (from' + i) k =
      memcpy f dst src from' (i + k) := by
  funext x
  unfold memcpy
  by_cases hold : dst ≤ x ∧ x < dst + i
  · rw [if_neg (by omega), if_pos hold, if_pos (by omega)]
  · by_cases hnew : dst + i ≤ x ∧ x < dst + i + k
    · rw [if_pos hnew, if_pos (by omega)]
      congr 1
      omega
    · rw [if_neg hnew, if_neg hold, if_neg (by omega)]

theorem memcpy_one : memcpy f dst src from' 1 = Function.update f dst (src from') := by
  funext x
  unfold memcpy Function.update
  by_cases hx : x = dst
  · subst hx
    rw [if_pos ⟨Nat.le_refl _, Nat.lt_succ_self _⟩, Nat.sub_self, dif_pos rfl]
    rfl
  · rw [if_neg (by omega), dif_neg hx]

/-- A loop that copies `step` bytes at a time stops less than `step` short of
    the end. -/
theorem copyLoop_eq {step n i : Nat} (body : Nat → Ram → Ram) (hstep : 0 < step)
    (hbody : ∀ i f, body i f = memcpy f (dst + i) src (from' + i) step) (hi : i ≤ n) :
    ∃ j, i ≤ j ∧ j ≤ n ∧ n < j + step ∧
      copyLoop step body n i (memcpy f dst src from' i) = (j, memcpy f dst src from' j) := by
  induction hd : n - i using Nat.strong_induction_on generalizing i with
  | _ d ih =>
    unfold copyLoop
    by_cases hroom : i + step ≤ n
    · rw [if_pos ⟨hroom, hstep⟩, hbody, memcpy_memcpy]
      obtain ⟨j, hij, hjn, hlast, heq⟩ := ih (n - (i + step)) (by omega) hroom rfl
      exact ⟨j, by omega, hjn, hlast, heq⟩
    · rw [if_neg fun h => hroom h.1]
      exact ⟨i, Nat.le_refl _, hi, by omega, rfl⟩

/-- The short copy is a copy. -/
theorem dmaCopy_eq (f : Ram) (dst : Nat) (src : Ram) (from' n : Nat) :
    dmaCopy f dst src from' n = memcpy f dst src from' n := by
  unfold dmaCopy
  split_ifs with hlong
  · rfl
  · dsimp only
    have hpair (i : Nat) (f : Ram) : memcpy (memcpy f (dst + i) src (from' + i) 8) (dst + (i + 8))
        src (from' + (i + 8)) 8 = memcpy f (dst + i) src (from' + i) 16 := by
      rw [← Nat.add_assoc, ← Nat.add_assoc, memcpy_memcpy]
    obtain ⟨i, -, hi, -, h16⟩ := copyLoop_eq f src dst from'
      (fun i f => memcpy (memcpy f (dst + i) src (from' + i) 8) (dst + (i + 8)) src
        (from' + (i + 8)) 8) (by decide) hpair (Nat.zero_le n)
    rw [memcpy_zero] at h16
    rw [h16]
    obtain ⟨j, -, hj, -, h8⟩ := copyLoop_eq f src dst from'
      (fun i f => memcpy f (dst + i) src (from' + i) 8) (by decide) (fun _ _ => rfl) hi
    rw [h8]
    obtain ⟨k, -, hk, hlast, h1⟩ := copyLoop_eq f src dst from'
      (fun i f => Function.update f (dst + i) (src (from' + i))) (by decide)
      (fun _ _ => (memcpy_one _ _ _ _).symm) hj
    rw [h1, show k = n by omega]

end Copy

/-! ## Section 2: The engine -/

/-- The two sides of a transfer: DMEM or IMEM, and RDRAM. -/
structure Mem where
  sp : Ram
  rdram : Ram

/-- A row of `length` bytes at `memOff` of the SP's memory and `dram` of an
    RDRAM of `size` bytes. -/
structure Row where
  toRam : Bool
  size : Nat
  length : Nat
  memOff : Nat
  dram : Nat

/-- Byte `i` of a row. -/
def Row.byteStep (r : Row) (m : Mem) (i : Nat) : Mem :=
  let mo := (r.memOff + i) % 0x1000
  let d := r.dram + i
  if r.toRam then
    if d < r.size then { m with rdram := Function.update m.rdram d (m.sp mo) } else m
  else { m with sp := Function.update m.sp mo (if d < r.size then m.rdram d else 0) }

/-- How many bytes from byte `i` go at once. -/
def Row.blockLen (r : Row) (i : Nat) : Nat :=
  let mo := (r.memOff + i) % 0x1000
  let d := r.dram + i
  let n := r.length - i
  let n := if 0x1000 - mo < n then 0x1000 - mo else n
  if d < r.size then (if r.size - d < n then r.size - d else n) else n

/-- `memset(&f[dst], 0, n)` -/
def memset (f : Ram) (dst n : Nat) : Ram := memcpy f dst (fun _ => 0) 0 n

def Row.blockStep (r : Row) (i n : Nat) (m : Mem) : Mem :=
  let mo := (r.memOff + i) % 0x1000
  let d := r.dram + i
  if d < r.size then
    if r.toRam then { m with rdram := dmaCopy m.rdram d m.sp mo n }
    else { m with sp := dmaCopy m.sp mo m.rdram d n }
  else if !r.toRam then { m with sp := memset m.sp mo n }
  else m

def Row.move (r : Row) (byByte : Bool) (m : Mem) : Option Mem :=
  if byByte then some ((List.range r.length).foldl r.byteStep m)
  else blockLoop r.blockLen r.blockStep r.length r.length 0 m

/-- The rows that are left, with the two addresses as they advance. -/
def spDmaRows (byByte toRam : Bool) (size length skip : Nat) :
    Nat → Nat → Nat → Mem → Option (Mem × Nat × Nat)
  | 0, memOff, dram, m => some (m, memOff, dram)
  | c + 1, memOff, dram, m => do
    let m ← Row.move ⟨toRam, size, length, memOff, dram⟩ byByte m
    spDmaRows byByte toRam size length skip c ((memOff + length) % 0x1000) (dram + (length + skip)) m

/-- What `spDma` reads and writes. `J` is what `jitInvalidate` works on: the
    compiled blocks of the RSP. -/
structure State (J : Type) where
  dmem : Ram
  imem : Ram
  rdram : Ram
  regs : SpRegs
  jit : J

def spDma {J : Type} (jitInvalidate : Nat → Nat → Ram → J → J) (size watchAddr : Nat)
    (toRam : Bool) (s : State J) : Option (State J) := do
  let len := if toRam then s.regs.sp_wr_len else s.regs.sp_rd_len
  let length := lenLength len
  let count := lenCount len
  let imem := isImem s.regs
  let memOff0 := memOffOf s.regs
  let sp := if imem then s.imem else s.dmem
  let (m, memOff, dram) ← spDmaRows (watchAddr ≠ 0) toRam size length (lenSkip len) count memOff0
    (dramOf s.regs) ⟨sp, s.rdram⟩
  return {
    dmem := if imem then s.dmem else m.sp
    imem := if imem then m.sp else s.imem
    rdram := m.rdram
    regs := regsAfter s.regs memOff dram
    jit := if imem && !toRam then jitInvalidate memOff0 (count * length) m.sp s.jit else s.jit }

/-! ## Section 3: Blocks are bytes -/

section Row

variable (r : Row)

/-- A block of a row ends before the SP's memory wraps, and before the
    chips end. -/
theorem Row.blockLen_spec {i : Nat} (hi : i < r.length) :
    0 < r.blockLen i ∧ i + r.blockLen i ≤ r.length ∧
      (r.memOff + i) % 0x1000 + r.blockLen i ≤ 0x1000 ∧
      (r.dram + i < r.size → r.dram + i + r.blockLen i ≤ r.size) := by
  have hmo := Nat.mod_lt (r.memOff + i) (show 0 < 0x1000 by decide)
  unfold Row.blockLen
  dsimp only
  split_ifs <;> omega

/-- The bytes of a block are the next bytes of the row. -/
theorem Row.foldl_byteStep {i n : Nat} (m : Mem) (hwrap : (r.memOff + i) % 0x1000 + n ≤ 0x1000)
    (hchips : r.dram + i < r.size → r.dram + i + n ≤ r.size) :
    (List.range' i n).foldl r.byteStep m = r.blockStep i n m := by
  induction n with
  | zero =>
    unfold Row.blockStep memset
    simp only [dmaCopy_eq, memcpy_zero]
    split_ifs <;> rfl
  | succ n ih =>
    have hmo : (r.memOff + (i + n)) % 0x1000 = (r.memOff + i) % 0x1000 + n := by omega
    have hcopy (f src : Ram) (dst from' : Nat) : Function.update (memcpy f dst src from' n)
        (dst + n) (src (from' + n)) = memcpy f dst src from' (n + 1) := by
      rw [← memcpy_one, memcpy_memcpy]
    rw [List.range'_1_concat, List.foldl_append, ih (by omega) (by omega), List.foldl_cons,
      List.foldl_nil]
    unfold Row.blockStep Row.byteStep memset
    simp only [dmaCopy_eq]
    rw [hmo, ← Nat.add_assoc]
    by_cases hin : r.dram + i < r.size
    · have hlast : r.dram + i + n < r.size := by omega
      simp only [hin, hlast, if_true]
      cases r.toRam with
      | true => simp only [if_true, hcopy]
      | false => simp only [Bool.false_eq_true, if_false, hcopy]
    · have hlast : ¬ r.dram + i + n < r.size := by omega
      simp only [hin, hlast, if_false]
      cases r.toRam with
      | true => simp
      | false =>
        have hzero := hcopy m.sp (fun _ => 0) ((r.memOff + i) % 0x1000) 0
        simp only [Bool.not_false, if_true, Bool.false_eq_true, if_false]
        rw [← hzero]

/-- The blocks of a row end, and are its bytes. -/
theorem Row.move_blocks (m : Mem) : r.move false m = r.move true m := by
  have hblocks : blockLoop r.blockLen r.blockStep r.length r.length 0 m =
      some ((List.range' 0 (r.length - 0)).foldl r.byteStep m) :=
    blockLoop_eq_foldl (fun i hi => (r.blockLen_spec hi).1) (fun i hi => (r.blockLen_spec hi).2.1)
      (fun i hi s => (r.foldl_byteStep s (r.blockLen_spec hi).2.2.1
        (r.blockLen_spec hi).2.2.2).symm) (Nat.zero_le r.length) (Nat.sub_le _ _) m
  unfold Row.move
  rw [if_neg Bool.false_ne_true, if_pos rfl, hblocks, List.range_eq_range']
  rfl

end Row

theorem spDmaRows_blocks (toRam : Bool) (size length skip count memOff dram : Nat) (m : Mem) :
    spDmaRows false toRam size length skip count memOff dram m =
      spDmaRows true toRam size length skip count memOff dram m ∧
    (spDmaRows true toRam size length skip count memOff dram m).isSome := by
  induction count generalizing memOff dram m with
  | zero => exact ⟨rfl, rfl⟩
  | succ c ih =>
    unfold spDmaRows
    rw [Row.move_blocks]
    exact ih _ _ _

/-- **The blocks of `spDma` end, and do what the byte loop does.** -/
theorem spDma_blocks {J : Type} (jitInvalidate : Nat → Nat → Ram → J → J) (size watchAddr : Nat)
    (hwatch : watchAddr ≠ 0) (toRam : Bool) (s : State J) :
    ∃ s', spDma jitInvalidate size 0 toRam s = some s' ∧
      spDma jitInvalidate size watchAddr toRam s = some s' := by
  obtain ⟨heq, hsome⟩ := spDmaRows_blocks toRam size
    (lenLength (if toRam then s.regs.sp_wr_len else s.regs.sp_rd_len))
    (lenSkip (if toRam then s.regs.sp_wr_len else s.regs.sp_rd_len))
    (lenCount (if toRam then s.regs.sp_wr_len else s.regs.sp_rd_len)) (memOffOf s.regs)
    (dramOf s.regs) ⟨if isImem s.regs then s.imem else s.dmem, s.rdram⟩
  obtain ⟨out, hout⟩ := Option.isSome_iff_exists.mp hsome
  have hbytes : decide (watchAddr ≠ 0) = true := decide_eq_true hwatch
  unfold spDma
  dsimp only
  rw [hbytes, show decide (0 ≠ 0) = false from rfl, heq, hout]
  exact ⟨_, rfl, rfl⟩

/-- A row of 16 bytes that wraps in DMEM and runs past the chips. -/
theorem spDma_blocks_wrap :
    ∃ s', spDma (J := Unit) (fun _ _ _ j => j) 16 0 false
        ⟨fun _ => 0, fun _ => 0, fun a => .ofNat 8 a, ⟨0xff8, 8, 15, 0⟩, ()⟩ = some s' ∧
      spDma (J := Unit) (fun _ _ _ j => j) 16 1 false
        ⟨fun _ => 0, fun _ => 0, fun a => .ofNat 8 a, ⟨0xff8, 8, 15, 0⟩, ()⟩ = some s' :=
  spDma_blocks _ 16 1 (by decide) false _

/-! ## Section 4: To RDRAM -/

/-- One byte of a row over RDRAM. -/
theorem paint_part_one (v : Nat → Dma.Byte) (size dram n : Nat) (f : Ram) :
    paint (part (spanIdx dram 0 size) v n (n + 1)) f =
      if dram + n < size then Function.update f (dram + n) (v n) else f := by
  funext x
  unfold paint part spanIdx
  by_cases hx : x = dram + n
  · subst hx
    by_cases hin : dram + n < size
    · rw [if_pos ⟨by omega, Nat.zero_le _, hin⟩, if_pos hin, Function.update_self,
        Nat.add_sub_cancel_left, Option.bind_some, if_pos ⟨Nat.le_refl _, Nat.lt_succ_self _⟩]
      rfl
    · rw [if_neg (by omega), if_neg hin]
      rfl
  · have hright : (if dram + n < size then Function.update f (dram + n) (v n) else f) x = f x := by
      split_ifs
      · exact Function.update_of_ne hx _ _
      · rfl
    rw [hright]
    split_ifs
    · rw [Option.bind_some, if_neg (by omega)]
      rfl
    · rfl

variable (pak : Cpu.Pak)

/-- The bytes of a row to RDRAM are the row of the journal's reference. -/
theorem Row.foldl_write (length memOff dram : Nat) (m : Mem) :
    (List.range length).foldl (Row.byteStep ⟨true, pak.size, length, memOff, dram⟩) m =
      { m with rdram := Dma.spDmaRow pak m.sp length memOff dram m.rdram } := by
  rw [Dma.spDmaRow_eq]
  -- the induction is on the bytes done, not on the length of the row
  have hprefix (n : Nat) :
      (List.range n).foldl (Row.byteStep ⟨true, pak.size, length, memOff, dram⟩) m =
        { m with rdram := paint (part (spanIdx dram 0 pak.size)
            (fun k => m.sp ((memOff + k) % 0x1000)) 0 n) m.rdram } := by
    induction n with
    | zero =>
      rw [paint_part_self]
      rfl
    | succ n ih =>
      rw [List.range_succ, List.foldl_append, ih, List.foldl_cons, List.foldl_nil,
        ← paint_part_part (Nat.zero_le n) (Nat.le_succ n), paint_part_one]
      unfold Row.byteStep
      dsimp only
      rw [if_pos rfl]
      split_ifs <;> rfl
  exact hprefix length

theorem spDmaRows_write (length skip count memOff dram : Nat) (m : Mem) :
    spDmaRows true true pak.size length skip count memOff dram m =
      some ({ m with rdram := (Dma.spDmaRows pak m.sp length skip count memOff dram m.rdram).1 },
        (Dma.spDmaRows pak m.sp length skip count memOff dram m.rdram).2) := by
  induction count generalizing memOff dram m with
  | zero => rfl
  | succ c ih =>
    unfold spDmaRows Dma.spDmaRows Row.move
    rw [if_pos rfl, Row.foldl_write, ← Nat.add_assoc]
    exact ih _ _ _

/-- To RDRAM `spDma` is the reference of the journal. -/
theorem spDma_write {J : Type} (jitInvalidate : Nat → Nat → Ram → J → J) (s : State J) :
    ∃ s', spDma jitInvalidate pak.size 0 true s = some s' ∧
      (s'.rdram, s'.regs) = Dma.spDma pak s.dmem s.imem s.regs s.regs.sp_wr_len s.rdram ∧
      s'.dmem = s.dmem ∧ s'.imem = s.imem ∧ s'.jit = s.jit := by
  obtain ⟨s', hblocks, hbytes⟩ :=
    spDma_blocks jitInvalidate pak.size 1 Nat.one_ne_zero true s
  refine ⟨s', hblocks, ?_⟩
  unfold spDma at hbytes
  dsimp only at hbytes
  rw [show decide (1 ≠ 0) = true from rfl, if_pos rfl, spDmaRows_write] at hbytes
  obtain rfl := Option.some.inj hbytes
  refine ⟨rfl, ?_, ?_, ?_⟩
  · dsimp only
    split_ifs <;> rfl
  · dsimp only
    split_ifs <;> rfl
  · dsimp only
    rw [Bool.not_true, Bool.and_false]
    rfl

end Rcp.SpDma
