import Kestrel64.Lib.Moves
import Kestrel64.Rdp.Raster
import Kestrel64.Lib.Index

/-! # RDP: Loading TMEM

    `LOAD_BLOCK`, `LOAD_TILE` and `LOAD_TLUT` of `rdp/rdp.cpp`: the bytes that
    are moved from RDRAM to TMEM, in their order, and what the DPC counters are
    charged.

    Addresses are natural numbers: with fields of 12 bits and images of 24, no
    sum comes to `2 ^ 32` (`image_addr_lt`). The differences of the limits of a
    box, which wrap around, are those of the code.
-/

namespace Rdp

open Moves (Move)

/-! ## Section 1: State -/

structure Tile where
  fmt : Nat
  /-- 0 to 3 are 4, 8, 16 and 32 bits. -/
  size : Nat
  /-- The distance of two rows, in words of 64 bits. -/
  line : Nat
  /-- In words of 64 bits. -/
  tmem : Nat
  palette : Nat
  sl : Nat
  tl : Nat
  sh : Nat
  th : Nat
  line_lt : line < 2 ^ 9
  tmem_lt : tmem < 2 ^ 9

/-- The counters a load is charged to. -/
structure Counters where
  dpc_tmem : BitVec 32
  dpc_bufbusy : BitVec 32
  rdpGclk : BitVec 64
  ramBytesRdp : BitVec 64
  gclkTmem : BitVec 64
  loadBytes : BitVec 64

structure TexUnit where
  tmem : Moves.Mem
  tiles : Fin 8 → Tile
  /-- `SET_TEXTURE_IMAGE` -/
  ti_addr : Nat
  ti_width : Nat
  ti_size : Nat
  ti_addr_lt : ti_addr < 2 ^ 24
  ti_width_le : ti_width ≤ 2 ^ 10
  ti_size_lt : ti_size < 4
  /-- This walk is the one that pays. -/
  charge : Bool
  /-- `rdpStats.on` -/
  statsOn : Bool
  tmemSetup : BitVec 32
  counters : Counters

/-- A texel, and what a load adds to its address. -/
theorem image_addr_lt (u : TexUnit) {s t : Nat} (hs : s < 2 ^ 12) (ht : t < 2 ^ 12) :
    u.ti_addr + (t * u.ti_width + s) * 4 + 2 ^ 16 < 2 ^ 32 := by
  have haddr := u.ti_addr_lt
  have hrow : t * u.ti_width ≤ 2 ^ 12 * 2 ^ 10 := Nat.mul_le_mul ht.le u.ti_width_le
  omega

/-! ## Section 2: Copying -/

/-- `memcpy` up to the end of TMEM, and on from its start. -/
def copyChunks (src dst n : Nat) : List Move :=
  if h : n = 0 then []
  else
    let d := dst % 0x1000
    let c := min n (0x1000 - d)
    (List.range c).map (fun j => .byte (d + j) (src + j)) ++ copyChunks (src + c) (d + c) (n - c)
termination_by n
decreasing_by
  have := Nat.mod_lt dst (show 0 < 0x1000 by decide)
  omega

/-- What is outside of RDRAM is not there. -/
def copyRun (size src dst n : Nat) : List Move :=
  if size ≤ src then [] else copyChunks src dst (min n (size - src))

/-- `if(sa < m.size()) tmem[d & 0xfff] = m[sa]` -/
def putByte (size d sa : Nat) : List Move := if sa < size then [.byte (d % 0x1000) sa] else []

/-- A texel of 32 bits, half of it 2 KB further up. Two pixels of YUV come as
    one. -/
def put32 (size : Nat) (yuv : Bool) (d sa : Nat) : List Move :=
  let d := d % 0x800 / 2 * 2
  if size ≤ sa + 3 then []
  else if yuv then
    [.byte d sa, .byte (d + 1) (sa + 2), .byte (d + 0x800) (sa + 1), .byte (d + 0x801) (sa + 3)]
  else
    [.byte d sa, .byte (d + 1) (sa + 1), .byte (d + 0x800) (sa + 2), .byte (d + 0x801) (sa + 3)]

/-- The halves of a word are the other way round in odd rows. -/
def flip (row : Nat) : Nat := if row % 2 = 1 then 4 else 0

/-- Bytes of a texel; 4 bits are 0. -/
def bytesPerTexel (ti_size : Nat) : Nat :=
  if ti_size = 3 then 4 else if ti_size = 2 then 2 else if ti_size = 1 then 1 else 0

/-- Pairs of pixels are loaded, to the format of the tile. -/
def TexUnit.yuv (u : TexUnit) (tl : Tile) : Bool := tl.fmt == 1 && u.ti_size == 2

/-- `nb` bytes word by word, with the row counted in steps of `DXT`. -/
def blockCopy (size : Nat) (bpt : Nat) (yuv : Bool) (tl : Tile) (src nb dxt : Nat) : List Move :=
  let dst := tl.tmem * 8
  if bpt = 4 ∨ yuv then
    (List.range ((nb + 7) / 8)).flatMap fun i =>
      let done := i * 8
      let tt := i * dxt / 2 ^ 11
      let w := (dst + i * 4 + tt * tl.line * 8) ^^^ flip tt
      put32 size yuv w (src + done) ++
        if done + 4 < nb then put32 size yuv (w + 2) (src + done + 4) else []
  else if dxt = 0 ∧ tl.line = 0 then copyRun size src dst nb
  else
    (List.range ((nb + 7) / 8)).flatMap fun i =>
      let done := i * 8
      let tt := i * dxt / 2 ^ 11
      let w := dst + (i + tt * tl.line) * 8
      (List.range (min 8 (nb - done))).flatMap fun b =>
        putByte size ((w + b) ^^^ flip tt) (src + done + b)

/-! ## Section 3: Boxes -/

/-- The limits of a box, in texels. -/
structure Box where
  s0 : Nat
  t0 : Nat
  s1 : Nat
  t1 : Nat

def Box.ofCmd (cmd : BitVec 64) : Box where
  s0 := field12 cmd 44 / 4
  t0 := field12 cmd 32 / 4
  s1 := field12 cmd 12 / 4
  t1 := field12 cmd 0 / 4

def Box.rows (b : Box) : Nat := b.t1 + 1 - b.t0

def Box.cols (b : Box) : Nat := b.s1 + 1 - b.s0

/-- 4 bits, one after the other. -/
def TexUnit.boxNibbles (u : TexUnit) (size : Nat) (tl : Tile) (b : Box) : List Move :=
  (List.range b.rows).flatMap fun r => (List.range b.cols).flatMap fun c =>
    let src := u.ti_addr + ((b.t0 + r) * u.ti_width + (b.s0 + c)) / 2
    let dst := ((tl.tmem * 8 + r * (tl.line * 8) + c / 2) ^^^ flip r) % 0x1000
    if src < size then [.nibble dst (c % 2 == 1) src ((b.s0 + c) % 2 == 1)] else []

/-- The width is rounded up to four pixels. -/
def TexUnit.boxYuv (u : TexUnit) (size : Nat) (tl : Tile) (b : Box) : List Move :=
  (List.range b.rows).flatMap fun r => (List.range ((b.cols + 3) / 4 * 4 / 2)).flatMap fun k =>
    put32 size true ((tl.tmem * 8 + r * (tl.line * 8) + k * 2) ^^^ flip r)
      (u.ti_addr + ((b.t0 + r) * u.ti_width + b.s0) * 2 + k * 4)

def TexUnit.box32 (u : TexUnit) (size : Nat) (tl : Tile) (b : Box) : List Move :=
  (List.range b.rows).flatMap fun r => (List.range b.cols).flatMap fun k =>
    put32 size false ((tl.tmem * 8 + r * (tl.line * 8) + k * 2) ^^^ flip r)
      (u.ti_addr + ((b.t0 + r) * u.ti_width + b.s0) * 4 + k * 4)

/-- Even rows in one run, odd ones byte by byte. -/
def TexUnit.boxBytes (u : TexUnit) (size : Nat) (tl : Tile) (bpt : Nat) (b : Box) : List Move :=
  (List.range b.rows).flatMap fun r =>
    let src := u.ti_addr + ((b.t0 + r) * u.ti_width + b.s0) * bpt
    let dst := tl.tmem * 8 + r * (tl.line * 8)
    if r % 2 = 0 then copyRun size src dst (b.cols * bpt)
    else (List.range (b.cols * bpt)).flatMap fun i => putByte size ((dst + i) ^^^ 4) (src + i)

/-- What a load moves, and the rows and bytes it is charged for. -/
structure Loaded where
  moves : List Move
  account : Option (Nat × Nat)

def TexUnit.loadBlock (u : TexUnit) (size : Nat) (tl : Tile) (cmd : BitVec 64) : Loaded :=
  let sl := field12 cmd 44
  let sh := field12 cmd 12
  let bpt := bytesPerTexel u.ti_size
  let count := if sl ≤ sh then sh - sl + 1 else 1
  let texel := field12 cmd 32 * u.ti_width + sl
  let nb := if bpt = 0 then (count + 1) / 2 else count * bpt
  let src := u.ti_addr + if bpt = 0 then texel / 2 else texel * bpt
  { moves := blockCopy size bpt (u.yuv tl) tl src nb (field12 cmd 0), account := some (1, nb) }

/-- `t1 - t0 + 1` -/
def Box.rows32 (b : Box) : BitVec 32 := BitVec.ofNat 32 b.t1 - BitVec.ofNat 32 b.t0 + 1

/-- `(s1 - s0 + 2) / 2` -/
def Box.halves32 (b : Box) : BitVec 32 := (BitVec.ofNat 32 b.s1 - BitVec.ofNat 32 b.s0 + 2) / 2

def TexUnit.loadBox (u : TexUnit) (size : Nat) (tl : Tile) (b : Box) : Loaded :=
  let bpt := bytesPerTexel u.ti_size
  if bpt = 0 then
    { moves := u.boxNibbles size tl b, account := some (b.rows32.toNat, b.halves32.toNat) }
  else if b.s1 < b.s0 ∨ b.t1 < b.t0 then { moves := [], account := none }
  else
    { moves :=
        if u.yuv tl then u.boxYuv size tl b
        else if bpt = 4 then u.box32 size tl b
        else u.boxBytes size tl bpt b
      account := some (b.t1 - b.t0 + 1, (b.s1 - b.s0 + 1) * bpt) }

/-! ## Section 4: Palettes -/

/-- The texel of a palette that half word `po` of TMEM, counted from the tile,
    takes; `vs` and `ts` are the sizes of the image and of the tile. -/
def tlutTexel (vs ts effW po : Nat) : Option Nat :=
  let half := if vs = 2 then 2 else 0
  if vs = ts + 2 then some (po / 4 * 2 ^ (vs - 2))
  else if vs = ts + 1 then if po / 4 % 2 = 1 then none else some (po / 8 * 8 / 2 ^ (ts + half))
  else if vs = ts then if po / 4 % 4 ≠ 0 then none else some (po / 4 * 4 / 2 ^ (ts + half))
  else if vs + 1 = ts then if po / 4 % 8 ≠ 0 then none else some (po / 2 ^ ts / 8 * 8)
  else
    let sp := po / 4 * 4
    some (if sp + 2 < effW then sp + 2 else sp)

/-- Half word `L` of TMEM. -/
def tlutMoves (size vs ts effW vaddr off16 L : Nat) : List Move :=
  let po := (L + 0x800 - off16) % 0x800
  match tlutTexel vs ts effW po with
  | none => []
  | some sp =>
    let ra := vaddr + sp * 2 ^ (vs - 1)
    -- an odd source is further off in each bank
    let ra := ra + 2 * (ra % 2) * (po % 4)
    if effW ≤ sp ∨ size ≤ ra + 1 then [] else [.byte (L * 2) ra, .byte (L * 2 + 1) (ra + 1)]

def TexUnit.loadTlut (u : TexUnit) (size : Nat) (tl : Tile) (cmd : BitVec 64) : Loaded :=
  let slo := field12 cmd 44
  let tlo := field12 cmd 32
  let shi := field12 cmd 12
  let vs := u.ti_size
  let w := (BitVec.ofNat 12 (shi / 4) - BitVec.ofNat 12 (slo / 4) + 1).toNat
  if vs = 0 ∨ tl.size = 3 ∨ w = 0 then { moves := [], account := none }
  else
    let effW := if vs = 1 then (w + 7) / 8 * 8 else if vs = 2 then w else (w + 1) / 2 * 2
    let vaddr := u.ti_addr + (u.ti_width * (tlo / 4) + slo / 4) * 2 ^ (vs - 1)
    let off16 := tl.tmem * 8 % 0x1000 / 2
    { moves := (List.range 0x800).flatMap (tlutMoves size vs tl.size effW vaddr off16)
      account := some (1, w * 2) }

/-! ## Section 5: Commands -/

def TexUnit.accountTmem (u : TexUnit) (bytes gclk : Nat) : Counters :=
  let k := u.counters
  let c := BitVec.ofNat 32 gclk
  if u.charge then
    { dpc_tmem := k.dpc_tmem + c
      dpc_bufbusy := k.dpc_bufbusy + c
      rdpGclk := k.rdpGclk + c.setWidth 64
      ramBytesRdp := k.ramBytesRdp + BitVec.ofNat 64 bytes
      gclkTmem := if u.statsOn then k.gclkTmem + c.setWidth 64 else k.gclkTmem
      loadBytes := if u.statsOn then k.loadBytes + BitVec.ofNat 64 bytes else k.loadBytes }
  else k

def TexUnit.accountLoad (u : TexUnit) (rows bytesPerRow : Nat) : Counters :=
  u.accountTmem (rows * bytesPerRow) (rows * (u.tmemSetup.toNat + (bytesPerRow + 7) / 8))

inductive LoadOp
  | block
  | tile
  | tlut
  deriving DecidableEq, Repr

/-- The tile of a command. -/
def tileOf (cmd : BitVec 64) : Fin 8 := ⟨cmd.toNat / 2 ^ 24 % 8, Nat.mod_lt _ (by decide)⟩

def TexUnit.loaded (u : TexUnit) (size : Nat) (op : LoadOp) (cmd : BitVec 64) : Loaded :=
  let tl := u.tiles (tileOf cmd)
  match op with
  | .block => u.loadBlock size tl cmd
  | .tile => u.loadBox size tl (.ofCmd cmd)
  | .tlut => u.loadTlut size tl cmd

/-- The box of a command is the box of the tile from then on. -/
def Tile.latch (tl : Tile) (cmd : BitVec 64) : Tile :=
  { tl with sl := field12 cmd 44, tl := field12 cmd 32, sh := field12 cmd 12, th := field12 cmd 0 }

def TexUnit.load (u : TexUnit) (m : Bytes) (op : LoadOp) (cmd : BitVec 64) : TexUnit :=
  let l := u.loaded m.length op cmd
  { u with
    tmem := Moves.run (fun a => m.getD a 0) l.moves u.tmem
    tiles := if op = .tlut then u.tiles
      else Function.update u.tiles (tileOf cmd) ((u.tiles (tileOf cmd)).latch cmd)
    counters :=
      match l.account with
      | none => u.counters
      | some (rows, bytesPerRow) => u.accountLoad rows bytesPerRow }

end Rdp
