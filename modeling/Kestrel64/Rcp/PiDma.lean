import Kestrel64.Lib.Checked
import Kestrel64.Rcp.SpDma

/-! # RCP: The DMA Engine of the PI

    `piDma` from the cartridge to RDRAM, in blocks of at most 128 bytes that
    end at the rows of 2 KiB. A first block that does not start at a multiple
    of 8 loses as many bytes as it is off, and the later blocks start at the
    next multiple of 8.

    * `Cart.block_eq` — one block.
    * `Cart.loop_aligned` — from a multiple of 8 on, a plain copy.
    * `Cart.loop_one`, `Cart.loop_rest`, `Cart.loop_moved` — whole transfers:
      of one block, of more, and of more than two from less than 8 bytes
      before the end of a row, where the rest is moved on.
    * `Cart.piDma_copies` — against the byte loop.

    `s32` differences that go below zero end their loops as zero does; they
    are natural numbers here.
-/

namespace Rcp.PiDma

open Overlay
open Dma (Ram)

/-! ## Section 1: Model -/

def BASE_CART : Nat := 0x10000000
def kScBuf : Nat := 0x1ffe0000
def kScBufSz : Nat := 0x2000

/-- What the PI reads from: the ROM and, if it is there, the buffer of the
    SummerCart64. -/
structure Cart where
  rom : List Dma.Byte
  scOn : Bool
  scBuf : List Dma.Byte

/-- `data`, as its two bytes. -/
def Cart.halfword (c : Cart) (cart : Nat) : Dma.Byte × Dma.Byte :=
  if c.scOn ∧ kScBuf ≤ cart ∧ cart + 1 < kScBuf + kScBufSz then
    (c.scBuf.getD (cart - kScBuf) 0, c.scBuf.getD (cart - kScBuf + 1) 0)
  else if BASE_CART ≤ cart then
    (c.rom.getD (cart - BASE_CART) 0, c.rom.getD (cart - BASE_CART + 1) 0)
  else (0, 0)

/-- The variables of the block loop. -/
structure Xfer where
  length : Nat
  maxBlock : Nat
  firstBlock : Bool
  cart : Nat
  dram : Nat
  rdram : Ram
  blk : List Dma.Byte

/-- `for(i < curLen; i += 2)`: the bytes of a block. -/
def Cart.fill (c : Cart) (curLen : Nat) : Nat → Nat → Xfer → Checked Xfer
  | 0, i, x => if i < curLen then .error .fuel else .ok x
  | fuel + 1, i, x =>
    if i < curLen then do
      let data := c.halfword x.cart
      let blk ← Checked.write x.blk i data.1
      let blk ← Checked.write blk (i + 1) data.2
      c.fill curLen fuel (i + 2) { x with blk := blk, cart := x.cart + 2, length := x.length - 2 }
    else .ok x

/-- `if(dram < rdram.size()) rdram[dram] = blk[i]; dram++;` -/
def putByte (size i : Nat) (x : Xfer) : Checked Xfer :=
  if x.dram < size then do
    let b ← Checked.read x.blk i
    return { x with rdram := Function.update x.rdram x.dram b, dram := x.dram + 1 }
  else .ok { x with dram := x.dram + 1 }

def putBytes (size n : Nat) : Nat → Nat → Xfer → Checked Xfer
  | 0, i, x => if i < n then .error .fuel else .ok x
  | fuel + 1, i, x =>
    if i < n then do
      let x ← putByte size i x
      putBytes size n fuel (i + 1) x
    else .ok x

def putPairs (size n : Nat) : Nat → Nat → Xfer → Checked Xfer
  | 0, i, x => if i < n then .error .fuel else .ok x
  | fuel + 1, i, x =>
    if i < n then do
      let x ← putByte size i x
      let x ← putByte size (i + 1) x
      putPairs size n fuel (i + 2) x
    else .ok x

def Xfer.misalign (x : Xfer) : Nat := x.dram % 8

def Xfer.distEndOfRow (x : Xfer) : Nat := 0x800 - x.dram % 0x800

def Xfer.curLen (x : Xfer) : Nat := min x.length (min (x.maxBlock - x.misalign) x.distEndOfRow)

/-- The bytes of a block go to RDRAM, one by one if the first block is short. -/
def putBlock (size curLen misalign : Nat) (x : Xfer) : Checked Xfer :=
  let n := curLen - misalign
  if x.firstBlock ∧ curLen < 127 - misalign then putBytes size n n 0 x else putPairs size n n 0 x

def Cart.block (c : Cart) (size : Nat) (x : Xfer) : Checked Xfer := do
  let misalign := x.misalign
  let distEndOfRow := x.distEndOfRow
  let curLen := x.curLen
  let y ← c.fill curLen curLen 0 x
  let y ← putBlock size curLen misalign y
  return { y with
    dram := (y.dram + 7) / 8 * 8
    firstBlock := false
    maxBlock := if distEndOfRow < 8 then 128 - misalign else 128 }

/-- `while(length > 0)` -/
def Cart.loop (c : Cart) (size : Nat) : Nat → Xfer → Checked Xfer
  | 0, x => if 0 < x.length then .error .fuel else .ok x
  | fuel + 1, x =>
    if 0 < x.length then do
      let x ← c.block size x
      c.loop size fuel x
    else .ok x

structure PiRegs where
  pi_cart_addr : Nat
  pi_dram_addr : Nat
  pi_wr_len : Nat
  deriving DecidableEq, Repr

def PiRegs.length (r : PiRegs) : Nat := r.pi_wr_len % 2 ^ 24 + 1

def PiRegs.start (r : PiRegs) (rdram : Ram) (blk : List Dma.Byte) : Xfer where
  length := r.length
  maxBlock := 128
  firstBlock := true
  cart := r.pi_cart_addr % 2 ^ 29 / 2 * 2
  dram := r.pi_dram_addr % 2 ^ 24
  rdram := rdram
  blk := blk

/-- `piDma` from the cartridge. `blk` is uninitialised: it holds any 128
    bytes. -/
def Cart.piDma (c : Cart) (size : Nat) (r : PiRegs) (rdram : Ram) (blk : List Dma.Byte) :
    Checked (PiRegs × Ram) := do
  let x ← c.loop size r.length (r.start rdram blk)
  return ({ r with
    pi_cart_addr := x.cart % 2 ^ 32 / 2 * 2
    pi_dram_addr := x.dram % 2 ^ 24 / 2 * 2 }, x.rdram)

/-! ## Section 2: One block -/

/-- The byte at an address of the cartridge's bus. -/
def Cart.cartByte (c : Cart) (a : Nat) : Dma.Byte :=
  if a % 2 = 0 then (c.halfword (a / 2 * 2)).1 else (c.halfword (a / 2 * 2)).2

/-- Rounded up to even. -/
def even (n : Nat) : Nat := (n + 1) / 2 * 2

/-- Bytes `[i, j)` of a transfer, over RDRAM. -/
def landed (size dram : Nat) (v : Nat → Dma.Byte) (i j : Nat) (f : Ram) : Ram :=
  paint (part (spanIdx dram 0 size) v i j) f

section Landed

variable {size dram i j k : Nat} {v w : Nat → Dma.Byte} {f : Ram}

theorem landed_self : landed size dram v i i f = f := paint_part_self _ _ _ _

theorem landed_landed (hij : i ≤ j) (hjk : j ≤ k) :
    landed size dram v j k (landed size dram v i j f) = landed size dram v i k f :=
  paint_part_part hij hjk f

theorem landed_one :
    landed size dram v i (i + 1) f =
      if dram + i < size then Function.update f (dram + i) (v i) else f :=
  SpDma.paint_part_one v size dram i f

theorem landed_congr (h : ∀ k, i ≤ k → k < j → v k = w k) :
    landed size dram v i j f = landed size dram w i j f := by
  unfold landed
  congr 1
  funext x
  unfold part
  cases spanIdx dram 0 size x with
  | none => rfl
  | some k =>
    rw [Option.bind_some, Option.bind_some]
    split_ifs with hk
    · rw [h k hk.1 hk.2]
    · rfl

/-- The same bytes, counted from another start. -/
theorem landed_shift (c : Nat) :
    landed size (dram + c) (fun k => v (c + k)) i j f = landed size dram v (c + i) (c + j) f := by
  unfold landed
  congr 1
  funext x
  unfold part spanIdx
  by_cases hx : dram + c ≤ x ∧ 0 ≤ x ∧ x < size
  · rw [if_pos hx, if_pos (by omega), Option.bind_some, Option.bind_some]
    have hk : x - dram = c + (x - (dram + c)) := by omega
    rw [hk]
    split_ifs <;> first | rfl | omega
  · rw [if_neg hx, Option.bind_none]
    split_ifs
    · rw [Option.bind_some, if_neg (by omega)]
    · rfl

theorem landed_of_ne {x : Nat} (h : landed size dram v i j f x ≠ f x) :
    dram + i ≤ x ∧ x < dram + j ∧ x < size := by
  by_contra hout
  refine h ?_
  unfold landed paint part spanIdx
  split_ifs with hx
  · rw [Option.bind_some, if_neg (by omega)]
    rfl
  · rfl

end Landed

section Block

variable (c : Cart) {size curLen n fuel i : Nat} {x : Xfer}

/-- A halfword is two bytes. -/
theorem Cart.halfword_eq {a : Nat} (ha : a % 2 = 0) :
    c.halfword a = (c.cartByte a, c.cartByte (a + 1)) := by
  have hodd : ¬ (a + 1) % 2 = 0 := by omega
  have hlow : a / 2 * 2 = a := by omega
  have hlow' : (a + 1) / 2 * 2 = a := by omega
  unfold Cart.cartByte
  rw [if_pos ha, if_neg hodd, hlow, hlow']

theorem Cart.fill_eq (hblk : x.blk.length = 128) (hcur : curLen ≤ 128) (hi : i % 2 = 0)
    (hcart : x.cart % 2 = 0) (hfuel : curLen - i ≤ fuel) :
    ∃ blk, c.fill curLen fuel i x = .ok { x with
        blk := blk
        cart := x.cart + (even curLen - i)
        length := x.length - (even curLen - i) } ∧
      blk.length = 128 ∧ (∀ k < i, blk.getD k 0 = x.blk.getD k 0) ∧
      ∀ k, i ≤ k → k < even curLen → blk.getD k 0 = c.cartByte (x.cart + (k - i)) := by
  have hdone {i : Nat} (hi : i % 2 = 0) (hlt : ¬ i < curLen) : even curLen - i = 0 := by
    unfold even
    omega
  induction fuel generalizing i x with
  | zero =>
    have hlt : ¬ i < curLen := by omega
    unfold Cart.fill
    rw [if_neg hlt, hdone hi hlt]
    refine ⟨x.blk, rfl, hblk, fun _ _ => rfl, fun k hk hk' => ?_⟩
    have := hdone hi hlt
    omega
  | succ fuel ih =>
    unfold Cart.fill
    by_cases hlt : i < curLen
    · have hroom : i + 2 ≤ even curLen := by
        unfold even
        omega
      rw [if_pos hlt, c.halfword_eq hcart]
      dsimp only
      rw [Checked.write_eq (by omega), Checked.ok_bind,
        Checked.write_eq (by rw [List.length_set]; omega), Checked.ok_bind]
      obtain ⟨blk, heq, hlen, hkeep, hnew⟩ := ih (i := i + 2)
        (x := { x with
          blk := (x.blk.set i (c.cartByte x.cart)).set (i + 1) (c.cartByte (x.cart + 1))
          cart := x.cart + 2
          length := x.length - 2 })
        (by dsimp only; rw [List.length_set, List.length_set, hblk]) (by omega)
        (by dsimp only; omega) (by omega)
      dsimp only at heq hkeep hnew
      have hset (k : Nat) : ((x.blk.set i (c.cartByte x.cart)).set (i + 1)
          (c.cartByte (x.cart + 1))).getD k 0 =
          if k = i + 1 then c.cartByte (x.cart + 1) else if k = i then c.cartByte x.cart
          else x.blk.getD k 0 := by
        simp only [List.getD_eq_getElem?_getD, List.getElem?_set, List.length_set, hblk]
        split_ifs <;> first | rfl | omega
      refine ⟨blk, ?_, hlen, fun k hk => ?_, fun k hk hk' => ?_⟩
      · rw [heq]
        congr 2 <;> omega
      · rw [hkeep k (by omega), hset, if_neg (by omega), if_neg (by omega)]
      · by_cases hnow : k < i + 2
        · rw [hkeep k hnow, hset]
          split_ifs with h1 h0
          · rw [h1, Nat.add_sub_cancel_left]
          · rw [h0, Nat.sub_self, Nat.add_zero]
          · omega
        · rw [hnew k (by omega) hk']
          congr 1
          omega
    · rw [if_neg hlt, hdone hi hlt]
      refine ⟨x.blk, rfl, hblk, fun _ _ => rfl, fun k hk hk' => ?_⟩
      have := hdone hi hlt
      omega

/-- The block loop after `i` bytes of a block have landed. -/
def Xfer.put (x : Xfer) (size i : Nat) : Xfer :=
  { x with
    dram := x.dram + i
    rdram := landed size x.dram (fun k => x.blk.getD k 0) 0 i x.rdram }

theorem putByte_eq (hi : i < x.blk.length) :
    putByte size i (x.put size i) = .ok (x.put size (i + 1)) := by
  unfold putByte Xfer.put
  dsimp only
  rw [Checked.read_eq hi 0, ← landed_landed (Nat.zero_le i) (Nat.le_succ i), landed_one]
  split_ifs <;> rfl

theorem putBytes_eq (hn : n ≤ x.blk.length) (hi : i ≤ n) (hfuel : n - i ≤ fuel) :
    putBytes size n fuel i (x.put size i) = .ok (x.put size n) := by
  induction fuel generalizing i with
  | zero =>
    obtain rfl : i = n := by omega
    unfold putBytes
    rw [if_neg (Nat.lt_irrefl i)]
  | succ fuel ih =>
    unfold putBytes
    split_ifs with hlt
    · rw [putByte_eq (by omega), Checked.ok_bind]
      exact ih hlt (by omega)
    · obtain rfl : i = n := by omega
      rfl

theorem putPairs_eq (hn : even n ≤ x.blk.length) (hpar : i % 2 = 0) (hi : i ≤ even n)
    (hfuel : n - i ≤ fuel) : putPairs size n fuel i (x.put size i) = .ok (x.put size (even n)) := by
  have hdone {i : Nat} (hpar : i % 2 = 0) (hi : i ≤ even n) (hlt : ¬ i < n) : i = even n := by
    unfold even at hi ⊢
    omega
  induction fuel generalizing i with
  | zero =>
    have hlt : ¬ i < n := by omega
    unfold putPairs
    rw [if_neg hlt, ← hdone hpar hi hlt]
  | succ fuel ih =>
    unfold putPairs
    split_ifs with hlt
    · have hroom : i + 2 ≤ even n := by
        unfold even
        omega
      rw [putByte_eq (by omega), Checked.ok_bind, putByte_eq (by omega), Checked.ok_bind]
      exact ih (by omega) hroom (by omega)
    · rw [← hdone hpar hi hlt]

/-- How many bytes of a block land. -/
def Xfer.written (x : Xfer) : Nat :=
  if x.firstBlock ∧ x.curLen < 127 - x.misalign then x.curLen - x.misalign
  else even (x.curLen - x.misalign)

/-- One block: it stays inside `blk`, and its bytes land in a row. -/
theorem Cart.block_eq (size : Nat) (hblk : x.blk.length = 128) (hmax : x.maxBlock ≤ 128)
    (hcart : x.cart % 2 = 0) :
    ∃ blk : List Dma.Byte, blk.length = 128 ∧ c.block size x = .ok {
      length := x.length - even x.curLen
      maxBlock := if x.distEndOfRow < 8 then 128 - x.misalign else 128
      firstBlock := false
      cart := x.cart + even x.curLen
      dram := (x.dram + x.written + 7) / 8 * 8
      rdram := landed size x.dram (fun k => c.cartByte (x.cart + k)) 0 x.written x.rdram
      blk := blk } := by
  have hcur : x.curLen ≤ 128 := by
    unfold Xfer.curLen
    omega
  obtain ⟨blk, hfill, hlen, -, hbytes⟩ :=
    c.fill_eq (x := x) (i := 0) hblk hcur rfl hcart (Nat.le_refl _)
  rw [Nat.sub_zero] at hfill
  -- what is read back from the block has just been filled
  have hwritten : x.written ≤ even x.curLen := by
    unfold Xfer.written even
    split_ifs <;> omega
  generalize hy : ({ x with
    blk := blk, cart := x.cart + even x.curLen, length := x.length - even x.curLen } : Xfer) = y
    at hfill
  have hput : putBlock size x.curLen x.misalign y = .ok (y.put size x.written) := by
    have hzero : y = y.put size 0 := by
      unfold Xfer.put
      rw [landed_self]
      rfl
    have hlen' : y.blk.length = 128 := by
      rw [← hy]
      exact hlen
    have hfirst : y.firstBlock = x.firstBlock := by
      rw [← hy]
    have heven : even (x.curLen - x.misalign) ≤ 128 := by
      unfold even
      omega
    unfold putBlock Xfer.written
    dsimp only
    rw [hfirst]
    split_ifs
    · nth_rewrite 1 [hzero]
      exact putBytes_eq (by omega) (Nat.zero_le _) (Nat.sub_le _ _)
    · nth_rewrite 1 [hzero]
      exact putPairs_eq (by omega) rfl (Nat.zero_le _) (Nat.sub_le _ _)
  refine ⟨blk, hlen, ?_⟩
  unfold Cart.block
  dsimp only
  rw [hfill, Checked.ok_bind, hput, Checked.ok_bind, ← hy]
  unfold Xfer.put
  dsimp only
  rw [landed_congr (w := fun k => c.cartByte (x.cart + k)) fun k hk hk' => by
    rw [hbytes k hk (by omega), Nat.sub_zero]]
  rfl

end Block

/-! ## Section 3: The block loop -/

section Loop

variable (c : Cart) (size : Nat) {fuel : Nat} {x : Xfer}

theorem Cart.loop_done (hdone : x.length = 0) : c.loop size fuel x = .ok x := by
  have hend : ¬ 0 < x.length := by omega
  cases fuel <;> exact if_neg hend

theorem Cart.loop_block (hmore : 0 < x.length) {y : Xfer} (hblock : c.block size x = .ok y) :
    c.loop size (fuel + 1) x = c.loop size fuel y := by
  unfold Cart.loop
  rw [if_pos hmore, hblock, Checked.ok_bind]
  cases fuel <;> rfl

/-- The bytes of the cartridge, counted from where the loop is. -/
def Cart.bytes (c : Cart) (x : Xfer) (k : Nat) : Dma.Byte := c.cartByte (x.cart + k)

/-- The loop `n` bytes further on. -/
def Xfer.after (x : Xfer) (maxBlock n : Nat) (f : Ram) (blk : List Dma.Byte) : Xfer where
  length := x.length - n
  maxBlock := maxBlock
  firstBlock := false
  cart := x.cart + n
  dram := x.dram + n
  rdram := f
  blk := blk

theorem Cart.bytes_after (maxBlock n : Nat) (f : Ram) (blk : List Dma.Byte) :
    c.bytes (x.after maxBlock n f blk) = fun k => c.bytes x (n + k) := by
  funext k
  unfold Cart.bytes Xfer.after
  dsimp only
  rw [Nat.add_assoc]

/-- A later block. -/
structure Xfer.Aligned (x : Xfer) : Prop where
  firstBlock : x.firstBlock = false
  maxBlock : x.maxBlock ≤ 128
  cart : x.cart % 2 = 0
  dram : x.dram % 8 = 0
  blk : x.blk.length = 128

theorem Xfer.Aligned.curLen (h : x.Aligned) :
    x.curLen = min x.length (min x.maxBlock (0x800 - x.dram % 0x800)) := by
  unfold Xfer.curLen Xfer.misalign Xfer.distEndOfRow
  rw [h.dram, Nat.sub_zero]

/-- A later block copies its bytes. -/
theorem Cart.block_aligned (h : x.Aligned) :
    ∃ blk : List Dma.Byte, blk.length = 128 ∧ c.block size x = .ok {
      length := x.length - even x.curLen
      maxBlock := 128
      firstBlock := false
      cart := x.cart + even x.curLen
      dram := (x.dram + even x.curLen + 7) / 8 * 8
      rdram := landed size x.dram (c.bytes x) 0 (even x.curLen) x.rdram
      blk := blk } := by
  obtain ⟨blk, hlen, hblock⟩ := c.block_eq size h.blk h.maxBlock h.cart
  have hrow : ¬ x.distEndOfRow < 8 := by
    have := h.dram
    unfold Xfer.distEndOfRow
    omega
  have hw : x.written = even x.curLen := by
    have hmis : x.misalign = 0 := h.dram
    unfold Xfer.written
    rw [h.firstBlock, hmis, if_neg (fun h => Bool.false_ne_true h.1), Nat.sub_zero]
  rw [hw, if_neg hrow] at hblock
  exact ⟨blk, hlen, hblock⟩

/-- The last block. -/
theorem Cart.loop_last (h : x.Aligned) (hone : x.curLen = x.length) (hfuel : x.length ≤ fuel) :
    ∃ y, c.loop size fuel x = .ok y ∧ y.cart = x.cart + even x.length ∧
      y.dram = (x.dram + x.length + 7) / 8 * 8 ∧
      y.rdram = landed size x.dram (c.bytes x) 0 (even x.length) x.rdram := by
  have hdram := h.dram
  by_cases hmore : 0 < x.length
  · obtain ⟨fuel, rfl⟩ := Nat.exists_eq_add_one_of_ne_zero (show fuel ≠ 0 by omega)
    obtain ⟨blk, -, hblock⟩ := c.block_aligned size h
    rw [hone] at hblock
    rw [c.loop_block size hmore hblock]
    refine ⟨_, c.loop_done size ?_, rfl, ?_, rfl⟩
    · dsimp only
      unfold even
      omega
    · dsimp only
      unfold even
      omega
  · have hzero : x.length = 0 := by omega
    refine ⟨x, c.loop_done size hzero, ?_, ?_, ?_⟩
    · rw [hzero]
      rfl
    · omega
    · rw [hzero]
      exact landed_self.symm

/-- A later block that is not the last ends at a multiple of 8, if it is cut
    at the row or at 128 bytes. -/
theorem Cart.block_full (h : x.Aligned) (hmax : x.maxBlock = 128) (hmore : x.curLen < x.length) :
    ∃ blk : List Dma.Byte, blk.length = 128 ∧ x.curLen % 8 = 0 ∧ c.block size x =
      .ok (x.after 128 x.curLen (landed size x.dram (c.bytes x) 0 x.curLen x.rdram) blk) := by
  obtain ⟨blk, hlen, hblock⟩ := c.block_aligned size h
  have hcur := h.curLen
  have hdram := h.dram
  have hfull : x.curLen % 8 = 0 := by omega
  have hev : even x.curLen = x.curLen := by
    unfold even
    omega
  rw [hev, show (x.dram + x.curLen + 7) / 8 * 8 = x.dram + x.curLen by omega] at hblock
  exact ⟨blk, hlen, hfull, hblock⟩

theorem even_add {n m : Nat} (hn : n % 2 = 0) (hle : n ≤ m) : n + even (m - n) = even m := by
  unfold even
  omega

/-- From a multiple of 8 on, the blocks copy the rest. -/
theorem Cart.loop_aligned (h : x.Aligned) (hmax : x.maxBlock = 128) (hfuel : x.length ≤ fuel) :
    ∃ y, c.loop size fuel x = .ok y ∧ y.cart = x.cart + even x.length ∧
      y.dram = (x.dram + x.length + 7) / 8 * 8 ∧
      y.rdram = landed size x.dram (c.bytes x) 0 (even x.length) x.rdram := by
  induction fuel generalizing x with
  | zero =>
    have hcur := h.curLen
    exact c.loop_last size h (by omega) hfuel
  | succ fuel ih =>
    have hcur := h.curLen
    have hdram := h.dram
    by_cases hlast : x.curLen = x.length
    · exact c.loop_last size h hlast hfuel
    · obtain ⟨blk, hlen, hfull, hblock⟩ := c.block_full size h hmax (by omega)
      rw [c.loop_block size (by omega) hblock]
      have hcart := h.cart
      have hnext : (x.after 128 x.curLen (landed size x.dram (c.bytes x) 0 x.curLen x.rdram)
          blk).Aligned :=
        ⟨rfl, Nat.le_refl _, by unfold Xfer.after; dsimp only; omega,
          by unfold Xfer.after; dsimp only; omega, hlen⟩
      obtain ⟨y, hy, hc, hd, hr⟩ := ih hnext rfl (by unfold Xfer.after; dsimp only; omega)
      have hsum := even_add (n := x.curLen) (m := x.length) (by omega) (by omega)
      refine ⟨y, hy, ?_, ?_, ?_⟩
      · rw [hc]
        unfold Xfer.after
        dsimp only
        rw [Nat.add_assoc, hsum]
      · rw [hd]
        unfold Xfer.after
        dsimp only
        omega
      · rw [hr, c.bytes_after]
        unfold Xfer.after
        dsimp only
        rw [landed_shift, Nat.add_zero, hsum, landed_landed (Nat.zero_le _) (by omega)]

end Loop

/-! ## Section 4: Transfers -/

/-- The block loop at its start. -/
structure Xfer.Starts (x : Xfer) : Prop where
  length : 0 < x.length
  maxBlock : x.maxBlock = 128
  firstBlock : x.firstBlock = true
  cart : x.cart % 2 = 0
  dram : x.dram % 2 = 0
  blk : x.blk.length = 128

/-- More than two blocks, of which the first starts less than 8 bytes before
    the end of a row: the second is short, and what follows is moved on. -/
def Xfer.Moves (x : Xfer) : Prop :=
  x.distEndOfRow < 8 ∧ x.distEndOfRow + (128 - x.misalign) < x.length

instance (x : Xfer) : Decidable x.Moves := inferInstanceAs (Decidable (_ ∧ _))

section Transfer

variable (c : Cart) (size : Nat) {fuel : Nat} {x : Xfer}

theorem Xfer.Starts.curLen (h : x.Starts) :
    x.curLen = min x.length (min (128 - x.dram % 8) (0x800 - x.dram % 0x800)) := by
  unfold Xfer.curLen
  rw [h.maxBlock]
  rfl

/-- A transfer of one block. -/
theorem Cart.loop_one (h : x.Starts) (hone : x.curLen = x.length) (hfuel : x.length ≤ fuel) :
    ∃ y, c.loop size fuel x = .ok y ∧ y.cart = x.cart + even x.length ∧
      y.dram = (x.dram + x.written + 7) / 8 * 8 ∧
      y.rdram = landed size x.dram (c.bytes x) 0 x.written x.rdram := by
  have hpos := h.length
  obtain ⟨fuel, rfl⟩ := Nat.exists_eq_add_one_of_ne_zero (show fuel ≠ 0 by omega)
  obtain ⟨blk, -, hblock⟩ := c.block_eq size h.blk h.maxBlock.le h.cart
  rw [hone] at hblock
  rw [c.loop_block size hpos hblock]
  refine ⟨_, c.loop_done size ?_, rfl, rfl, rfl⟩
  dsimp only
  unfold even
  omega

/-- After a full first block the loop is at a multiple of 8. -/
theorem Cart.block_first (h : x.Starts) (hmore : x.curLen < x.length) :
    ∃ blk : List Dma.Byte, blk.length = 128 ∧ c.block size x =
      .ok (x.after (if x.distEndOfRow < 8 then 128 - x.misalign else 128) x.curLen
        (landed size x.dram (c.bytes x) 0 x.written x.rdram) blk) ∧
      (x.after (if x.distEndOfRow < 8 then 128 - x.misalign else 128) x.curLen
        (landed size x.dram (c.bytes x) 0 x.written x.rdram) blk).Aligned := by
  obtain ⟨blk, hlen, hblock⟩ := c.block_eq size h.blk h.maxBlock.le h.cart
  have hcur := h.curLen
  have hdram := h.dram
  have hcart := h.cart
  have hev : even x.curLen = x.curLen := by
    unfold even
    omega
  have hnext : (x.dram + x.written + 7) / 8 * 8 = x.dram + x.curLen := by
    unfold Xfer.written Xfer.misalign even
    split_ifs <;> omega
  rw [hev, hnext] at hblock
  refine ⟨blk, hlen, hblock, rfl, ?_, ?_, ?_, hlen⟩
  · unfold Xfer.after
    dsimp only
    split_ifs <;> omega
  · unfold Xfer.after
    dsimp only
    omega
  · unfold Xfer.after
    dsimp only
    omega

/-- A transfer of several blocks, none of them moved. -/
theorem Cart.loop_rest (h : x.Starts) (hmore : x.curLen < x.length) (hstay : ¬ x.Moves)
    (hfuel : x.length ≤ fuel) :
    ∃ y, c.loop size fuel x = .ok y ∧ y.cart = x.cart + even x.length ∧
      y.dram = (x.dram + x.length + 7) / 8 * 8 ∧
      y.rdram = landed size x.dram (c.bytes x) x.curLen (even x.length)
        (landed size x.dram (c.bytes x) 0 x.written x.rdram) := by
  obtain ⟨fuel, rfl⟩ := Nat.exists_eq_add_one_of_ne_zero (show fuel ≠ 0 by omega)
  obtain ⟨blk, hlen, hblock, haligned⟩ := c.block_first size h hmore
  have hcur := h.curLen
  have hdram := h.dram
  rw [c.loop_block size h.length hblock]
  generalize landed size x.dram (c.bytes x) 0 x.written x.rdram = f at haligned ⊢
  have hsum := even_add (n := x.curLen) (m := x.length) (by omega) (by omega)
  -- the rest is one block, or blocks of the usual length
  have hrest : ∃ y, c.loop size fuel
      (x.after (if x.distEndOfRow < 8 then 128 - x.misalign else 128) x.curLen f blk) = .ok y ∧
      y.cart = x.cart + x.curLen + even (x.length - x.curLen) ∧
      y.dram = (x.dram + x.curLen + (x.length - x.curLen) + 7) / 8 * 8 ∧
      y.rdram = landed size (x.dram + x.curLen) (fun k => c.bytes x (x.curLen + k)) 0
        (even (x.length - x.curLen)) f := by
    rw [← c.bytes_after (if x.distEndOfRow < 8 then 128 - x.misalign else 128) x.curLen f blk]
    by_cases hnear : x.distEndOfRow < 8
    · refine c.loop_last size haligned ?_ (by unfold Xfer.after; dsimp only; omega)
      have hmis : x.misalign = x.dram % 8 := rfl
      have hdist : x.distEndOfRow = 0x800 - x.dram % 0x800 := rfl
      rw [haligned.curLen]
      unfold Xfer.Moves at hstay
      unfold Xfer.after
      dsimp only
      rw [if_pos hnear]
      omega
    · refine c.loop_aligned size haligned ?_ (by unfold Xfer.after; dsimp only; omega)
      unfold Xfer.after
      dsimp only
      exact if_neg hnear
  obtain ⟨y, hy, hc, hd, hr⟩ := hrest
  refine ⟨y, hy, ?_, ?_, ?_⟩
  · rw [hc, Nat.add_assoc, hsum]
  · rw [hd]
    omega
  · rw [hr, landed_shift, Nat.add_zero, hsum]

/-- A transfer of more than two blocks from just before the end of a row. -/
theorem Cart.loop_moved (h : x.Starts) (hmoves : x.Moves) (hfuel : x.length ≤ fuel) :
    ∃ y, c.loop size fuel x = .ok y ∧ y.cart = x.cart + even x.length ∧
      y.dram = (x.dram + x.misalign + x.length + 7) / 8 * 8 ∧
      y.rdram = landed size (x.dram + x.misalign) (c.bytes x) (x.curLen + (128 - x.misalign))
        (even x.length) (landed size x.dram (c.bytes x) x.curLen (x.curLen + (128 - x.misalign))
          (landed size x.dram (c.bytes x) 0 x.written x.rdram)) := by
  obtain ⟨hnear, hlong⟩ := hmoves
  have hcur := h.curLen
  have hdram := h.dram
  have hmis : x.misalign = x.dram % 8 := rfl
  have hdist : x.distEndOfRow = 0x800 - x.dram % 0x800 := rfl
  obtain ⟨fuel, rfl⟩ := Nat.exists_eq_add_one_of_ne_zero (show fuel ≠ 0 by omega)
  obtain ⟨blk, hlen, hblock, haligned⟩ := c.block_first size h (by omega)
  rw [c.loop_block size h.length hblock]
  rw [if_pos hnear] at haligned ⊢
  generalize landed size x.dram (c.bytes x) 0 x.written x.rdram = f at haligned ⊢
  -- the second block starts a row, and ends `misalign` bytes short of 128
  obtain ⟨blk', hlen', hblock'⟩ := c.block_aligned size haligned
  have hcur' : (x.after (128 - x.misalign) x.curLen f blk).curLen = 128 - x.misalign := by
    rw [haligned.curLen]
    unfold Xfer.after
    dsimp only
    omega
  have hev : even (128 - x.misalign) = 128 - x.misalign := by
    unfold even
    omega
  rw [hcur', hev, c.bytes_after] at hblock'
  unfold Xfer.after at hblock' ⊢
  dsimp only at hblock' ⊢
  rw [landed_shift, Nat.add_zero] at hblock'
  obtain ⟨fuel, rfl⟩ := Nat.exists_eq_add_one_of_ne_zero (show fuel ≠ 0 by omega)
  rw [c.loop_block size (by dsimp only; omega) hblock']
  generalize landed size x.dram (c.bytes x) x.curLen (x.curLen + (128 - x.misalign)) f = g
  have hcart := h.cart
  have hthird : Xfer.Aligned ⟨x.length - x.curLen - (128 - x.misalign), 128, false,
      x.cart + x.curLen + (128 - x.misalign), (x.dram + x.curLen + (128 - x.misalign) + 7) / 8 * 8,
      g, blk'⟩ :=
    ⟨rfl, Nat.le_refl _, by dsimp only; omega, by dsimp only; omega, hlen'⟩
  obtain ⟨y, hy, hc, hd, hr⟩ :=
    c.loop_aligned size hthird rfl (show _ ≤ fuel by dsimp only; omega)
  dsimp only at hc hd hr
  have hsum := even_add (n := x.curLen + (128 - x.misalign)) (m := x.length) (by omega) (by omega)
  have hsub : x.length - x.curLen - (128 - x.misalign) =
      x.length - (x.curLen + (128 - x.misalign)) := Nat.sub_sub _ _ _
  refine ⟨y, hy, ?_, ?_, ?_⟩
  · rw [hc, hsub, Nat.add_assoc x.cart, Nat.add_assoc, hsum]
  · rw [hd]
    omega
  · have hbytes : c.bytes ⟨x.length - x.curLen - (128 - x.misalign), 128, false,
        x.cart + x.curLen + (128 - x.misalign),
        (x.dram + x.curLen + (128 - x.misalign) + 7) / 8 * 8, g, blk'⟩ =
        fun k => c.bytes x (x.curLen + (128 - x.misalign) + k) := by
      funext k
      unfold Cart.bytes
      dsimp only
      rw [Nat.add_assoc x.cart, Nat.add_assoc x.cart]
    have hland : (x.dram + x.curLen + (128 - x.misalign) + 7) / 8 * 8 =
        x.dram + x.misalign + (x.curLen + (128 - x.misalign)) := by omega
    rw [hr, hbytes, hland, hsub, landed_shift, Nat.add_zero, hsum]

end Transfer

/-! ## Section 5: Against the byte loop -/

/-- The first `n` bytes from `cart` on, one by one. -/
def Cart.byteCopy (c : Cart) (size cart dram n : Nat) (f : Ram) : Ram :=
  (List.range n).foldl
    (fun f k => if dram + k < size then Function.update f (dram + k) (c.cartByte (cart + k)) else f) f

theorem Cart.byteCopy_eq (c : Cart) (size cart dram n : Nat) (f : Ram) :
    c.byteCopy size cart dram n f = landed size dram (fun k => c.cartByte (cart + k)) 0 n f := by
  unfold Cart.byteCopy
  induction n with
  | zero => exact landed_self.symm
  | succ n ih =>
    rw [List.range_succ, List.foldl_append, ih, List.foldl_cons, List.foldl_nil,
      ← landed_landed (Nat.zero_le n) (Nat.le_succ n), landed_one]

/-- Where the RDRAM pointer ends, before it is rounded up. -/
def Xfer.stop (x : Xfer) : Nat :=
  if x.curLen = x.length then x.dram + x.written
  else x.dram + x.length + (if x.Moves then x.misalign else 0)

/-- How many bytes a transfer from a multiple of 8 copies. -/
def Xfer.copied (x : Xfer) : Nat :=
  if x.length < 127 ∧ x.length ≤ x.distEndOfRow then x.length else even x.length

section Result

variable (c : Cart) (size : Nat) {x : Xfer}

/-- A byte that two rows in turn have changed is in one of them. -/
theorem changed_cases {dram i j a : Nat} {v : Nat → Dma.Byte} {f g : Ram}
    (h : landed size dram v i j f a ≠ g a) : (dram + i ≤ a ∧ a < dram + j) ∨ f a ≠ g a := by
  by_cases hf : landed size dram v i j f a = f a
  · exact .inr (hf ▸ h)
  · have := landed_of_ne hf
    exact .inl ⟨this.1, this.2.1⟩

/-- What the block loop does to RDRAM, whichever way it goes. -/
theorem Cart.loop_result (h : x.Starts) :
    ∃ y, c.loop size x.length x = .ok y ∧ y.cart = x.cart + even x.length ∧
      y.dram = (x.stop + 7) / 8 * 8 ∧
      (∀ a, y.rdram a ≠ x.rdram a →
        x.dram ≤ a ∧ a < x.dram + x.length + 1 + (if x.Moves then x.misalign else 0)) ∧
      (x.dram % 8 = 0 → y.rdram = landed size x.dram (c.bytes x) 0 x.copied x.rdram) := by
  have hcur := h.curLen
  have hdram := h.dram
  have hmis : x.misalign = x.dram % 8 := rfl
  have hdist : x.distEndOfRow = 0x800 - x.dram % 0x800 := rfl
  have hw : x.written ≤ x.length + 1 := by
    unfold Xfer.written even
    split_ifs <;> omega
  have hev : even x.length ≤ x.length + 1 := by
    unfold even
    omega
  unfold Xfer.stop
  by_cases hone : x.curLen = x.length
  · obtain ⟨y, hy, hc, hd, hr⟩ := c.loop_one size h hone (Nat.le_refl _)
    rw [if_pos hone]
    refine ⟨y, hy, hc, hd, fun a ha => ?_, fun haligned => ?_⟩
    · rw [hr] at ha
      obtain ⟨hge, hlt, -⟩ := landed_of_ne ha
      omega
    · rw [hr]
      congr 1
      unfold Xfer.written Xfer.copied
      rw [h.firstBlock, hone, hmis, haligned]
      simp only [true_and, Nat.sub_zero]
      split_ifs <;> first | rfl | omega
  rw [if_neg hone]
  by_cases hmoves : x.Moves
  · obtain ⟨y, hy, hc, hd, hr⟩ := c.loop_moved size h hmoves (Nat.le_refl _)
    have hfar := hmoves
    unfold Xfer.Moves at hfar
    rw [if_pos hmoves]
    refine ⟨y, hy, hc, ?_, fun a ha => ?_, fun haligned => ?_⟩
    · rw [hd]
      congr 2
      omega
    · rw [hr] at ha
      obtain hin | ha := changed_cases size ha
      · omega
      obtain hin | ha := changed_cases size ha
      · omega
      · obtain ⟨hge, hlt, -⟩ := landed_of_ne ha
        omega
    · omega
  · obtain ⟨y, hy, hc, hd, hr⟩ := c.loop_rest size h (by omega) hmoves (Nat.le_refl _)
    rw [if_neg hmoves, Nat.add_zero]
    refine ⟨y, hy, hc, hd, fun a ha => ?_, fun haligned => ?_⟩
    · rw [hr] at ha
      obtain hin | ha := changed_cases size ha
      · omega
      · obtain ⟨hge, hlt, -⟩ := landed_of_ne ha
        omega
    · have hfull : x.written = x.curLen := by
        unfold Xfer.written even
        split_ifs <;> omega
      have hcopied : x.copied = even x.length := by
        unfold Xfer.copied
        exact if_neg (by omega)
      have hle : x.curLen ≤ even x.length := by
        unfold even
        omega
      rw [hr, hfull, hcopied, landed_landed (Nat.zero_le _) hle]

end Result

theorem PiRegs.start_starts (r : PiRegs) (rdram : Ram) {blk : List Dma.Byte} (hblk : blk.length = 128)
    (heven : r.pi_dram_addr % 2 = 0) : (r.start rdram blk).Starts where
  length := Nat.succ_pos _
  maxBlock := rfl
  firstBlock := rfl
  cart := by
    unfold PiRegs.start
    dsimp only
    omega
  dram := by
    unfold PiRegs.start
    dsimp only
    omega
  blk := hblk

/-- **A PI DMA to RDRAM ends, stays inside its block, and copies.** -/
theorem Cart.piDma_copies (c : Cart) (size : Nat) (r : PiRegs) (rdram : Ram) {blk : List Dma.Byte}
    (hblk : blk.length = 128) (heven : r.pi_dram_addr % 2 = 0) :
    let x := r.start rdram blk
    ∃ r' ram', c.piDma size r rdram blk = .ok (r', ram') ∧
      (∀ a, ram' a ≠ rdram a →
        x.dram ≤ a ∧ a < x.dram + x.length + 1 + (if x.Moves then x.misalign else 0)) ∧
      (x.dram % 8 = 0 → ram' = c.byteCopy size x.cart x.dram x.copied rdram) ∧
      r'.pi_cart_addr = (x.cart + even x.length) % 2 ^ 32 ∧
      r'.pi_dram_addr = (x.stop + 7) / 8 * 8 % 2 ^ 24 := by
  intro x
  have hstarts : x.Starts := r.start_starts rdram hblk heven
  obtain ⟨y, hy, hc, hd, hbounds, hcopy⟩ := c.loop_result size hstarts
  have hcart := hstarts.cart
  unfold Cart.piDma
  rw [show c.loop size r.length (r.start rdram blk) = .ok y from hy, Checked.ok_bind]
  refine ⟨_, _, rfl, hbounds, fun haligned => ?_, ?_, ?_⟩
  · rw [hcopy haligned, c.byteCopy_eq]
    rfl
  · dsimp only
    rw [hc]
    unfold even
    omega
  · dsimp only
    rw [hd]
    omega

/-- A ROM of 126 ones. -/
def ones : Cart := ⟨List.replicate 126 1, false, []⟩

/-- 126 bytes to two below a row: the last two land at `0x880`, beyond
    `0x87d`. -/
theorem Cart.piDma_beyond :
    ¬ ∀ (c : Cart) (size : Nat) (r : PiRegs) (rdram : Ram) (blk : List Dma.Byte), blk.length = 128 →
      r.pi_dram_addr % 2 = 0 → ∃ r' ram', c.piDma size r rdram blk = .ok (r', ram') ∧
        ∀ a, ram' a ≠ rdram a →
          r.pi_dram_addr % 2 ^ 24 ≤ a ∧ a < r.pi_dram_addr % 2 ^ 24 + r.length + 1 := by
  intro h
  have hblk : (List.replicate 128 (0 : Dma.Byte)).length = 128 := List.length_replicate
  obtain ⟨r', ram', heq, hbounds⟩ :=
    h ones 0x1000 ⟨0x10000000, 0x7fe, 125⟩ (fun _ => 0) (List.replicate 128 0) hblk rfl
  have hstarts := PiRegs.start_starts ⟨0x10000000, 0x7fe, 125⟩ (fun _ => 0) hblk rfl
  obtain ⟨y, hy, -, -, hr⟩ := ones.loop_moved 0x1000 hstarts (by decide) (Nat.le_refl _)
  unfold Cart.piDma at heq
  rw [show ones.loop 0x1000 (PiRegs.length ⟨0x10000000, 0x7fe, 125⟩)
    (PiRegs.start ⟨0x10000000, 0x7fe, 125⟩ (fun _ => 0) (List.replicate 128 0)) = .ok y from hy,
    Checked.ok_bind] at heq
  have hram : y.rdram = ram' := congrArg Prod.snd (Except.ok.inj heq)
  have hbyte : ram' 0x880 = 1 := by
    rw [← hram, hr]
    decide
  have hout := hbounds 0x880 (by rw [hbyte]; decide)
  revert hout
  decide

/-- 127 bytes to 0. -/
theorem Cart.piDma_copies_rounded :
    let x := PiRegs.start ⟨0x10000000, 0, 126⟩ (fun _ => 0) (List.replicate 128 0)
    ∃ r' ram', ones.piDma 0x1000 ⟨0x10000000, 0, 126⟩ (fun _ => 0) (List.replicate 128 0) =
        .ok (r', ram') ∧
      (∀ a, ram' a ≠ 0 →
        x.dram ≤ a ∧ a < x.dram + x.length + 1 + (if x.Moves then x.misalign else 0)) ∧
      (x.dram % 8 = 0 → ram' = ones.byteCopy 0x1000 x.cart x.dram x.copied fun _ => 0) ∧
      r'.pi_cart_addr = (x.cart + even x.length) % 2 ^ 32 ∧
      r'.pi_dram_addr = (x.stop + 7) / 8 * 8 % 2 ^ 24 :=
  ones.piDma_copies 0x1000 ⟨0x10000000, 0, 126⟩ (fun _ => 0) List.length_replicate rfl

end Rcp.PiDma
