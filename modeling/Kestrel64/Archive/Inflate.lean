import Kestrel64.Lib.Bytes

/-! # Inflate

    The raw DEFLATE decoder of the archive reader: the bit reader, the Huffman
    tables in their compact form (how many codes of each length, the symbols by
    length and number), and the block loop.

    Nothing bounds the loops over blocks and over the symbols of a block but
    the input itself.  Here they carry a fuel, the number of bits of the input
    plus one; every round takes at least a bit, so it is never used up
    (`inflate_halts`).
-/

namespace Archive

-- ================================================================
-- Section 1: Bit reader
-- ================================================================

/-- The bit reader: `buf` holds the `cnt` bits that are read from `inp` but not used. -/
structure Bits where
  inp : Bytes
  pos : Nat := 0
  buf : Nat := 0
  cnt : Nat := 0
  err : Bool := false
  deriving DecidableEq, Repr

namespace Bits

/-- The loop of `get`: bytes go into `buf` above the bits it holds until there
    are `need` of them.  No caller asks for more than 13, so that `buf` stays
    far below 32 bits. -/
def fill (need : Nat) : Nat → Bits → Bits
  | 0, b => b
  | fuel + 1, b =>
    if b.cnt < need then
      if b.inp.length ≤ b.pos then { b with err := true }
      else fill need fuel
        { b with buf := b.buf ||| ((b.inp.getD b.pos 0).toNat <<< b.cnt)
                 pos := b.pos + 1
                 cnt := b.cnt + 8 }
    else b

/-- The next `need` bits, or 0 and `err` when the input ends before. -/
def get (b : Bits) (need : Nat) : Nat × Bits :=
  let b := b.fill need need
  if b.cnt < need then (0, b)
  else (b.buf &&& (2 ^ need - 1), { b with buf := b.buf >>> need, cnt := b.cnt - need })

/-- Drop the bits up to the next byte; whole bytes go back to the input. -/
def align (b : Bits) : Bits := { b with pos := b.pos - b.cnt / 8, buf := 0, cnt := 0 }

end Bits

-- ================================================================
-- Section 2: Huffman tables
-- ================================================================

structure Huff where
  count : List Nat := List.replicate 16 0
  symbol : List Nat := List.replicate 288 0
  deriving DecidableEq, Repr

/-- How many codes of each length. -/
def countLens (lens : List Nat) : List Nat :=
  lens.foldl (fun count l => count.set l (count.getD l 0 + 1)) (List.replicate 16 0)

/-- The check that no length has more codes than are left of the shorter ones. -/
def leftOver (count : List Nat) : List Nat → Int → Bool
  | [], _ => true
  | len :: ls, left =>
    let left := 2 * left - (count.getD len 0 : Int)
    if left < 0 then false else leftOver count ls left

/-- Where the symbols of each length start. -/
def offsets (count : List Nat) : List Nat :=
  (List.range' 1 14).foldl (fun offs len => offs.set (len + 1) (offs.getD len 0 + count.getD len 0))
    (List.replicate 16 0)

/-- The symbols from `i` on, each put at the next free place of its length. -/
def place : List Nat → Nat → List Nat → List Nat → List Nat
  | [], _, _, symbol => symbol
  | l :: ls, i, offs, symbol =>
    if l = 0 then place ls (i + 1) offs symbol
    else place ls (i + 1) (offs.set l (offs.getD l 0 + 1)) (symbol.set (offs.getD l 0) i)

/-- The table of a set of code lengths, and whether it is usable. -/
def build (lens : List Nat) : Huff × Bool :=
  let count := countLens lens
  if count.getD 0 0 = lens.length then ({ count }, false)
  else if leftOver count (List.range' 1 15) 1 = false then ({ count }, false)
  else ({ count, symbol := place lens 0 (offsets count) (List.replicate 288 0) }, true)

/-- The loop of `decode`.  `code` never falls below `first`, so that the
    differences are exact. -/
def decodeFrom (h : Huff) : Nat → Nat → Nat → Nat → Nat → Bits → Option Nat × Bits
  | 0, _, _, _, _, b => (none, b)
  | fuel + 1, len, code, first, index, b =>
    let (bit, b) := b.get 1
    let code := code ||| bit
    if b.err then (none, b)
    else
      let count := h.count.getD len 0
      if code < first + count then (some (h.symbol.getD (index + (code - first)) 0), b)
      else decodeFrom h fuel (len + 1) (code <<< 1) ((first + count) <<< 1) (index + count) b

/-- The next symbol, `none` for the source's -1. -/
def decode (b : Bits) (h : Huff) : Option Nat × Bits := decodeFrom h 15 1 0 0 0 b

-- ================================================================
-- Section 3: Tables of the format
-- ================================================================

def kLenBase : List Nat :=
  [3, 4, 5, 6, 7, 8, 9, 10, 11, 13, 15, 17, 19, 23, 27, 31, 35, 43, 51, 59, 67, 83, 99, 115, 131,
    163, 195, 227, 258]

def kLenExtra : List Nat :=
  [0, 0, 0, 0, 0, 0, 0, 0, 1, 1, 1, 1, 2, 2, 2, 2, 3, 3, 3, 3, 4, 4, 4, 4, 5, 5, 5, 5, 0]

def kDistBase : List Nat :=
  [1, 2, 3, 4, 5, 7, 9, 13, 17, 25, 33, 49, 65, 97, 129, 193, 257, 385, 513, 769, 1025, 1537, 2049,
    3073, 4097, 6145, 8193, 12289, 16385, 24577]

def kDistExtra : List Nat :=
  [0, 0, 0, 0, 1, 1, 2, 2, 3, 3, 4, 4, 5, 5, 6, 6, 7, 7, 8, 8, 9, 9, 10, 10, 11, 11, 12, 12, 13, 13]

/-- The order in which the code lengths of the length code are sent. -/
def ord : List Nat := [16, 17, 18, 0, 8, 7, 9, 6, 10, 5, 11, 4, 12, 3, 13, 2, 14, 1, 15]

/-- The literal and distance tables of a fixed block. -/
def fixedLit : Huff :=
  (build (List.replicate 144 8 ++ List.replicate 112 9 ++ List.replicate 24 7 ++
    List.replicate 8 8)).1

def fixedDist : Huff := (build (List.replicate 30 5)).1

-- ================================================================
-- Section 4: Blocks
-- ================================================================

def rd16 (inp : Bytes) (pos : Nat) : Nat :=
  (inp.getD pos 0).toNat ||| ((inp.getD (pos + 1) 0).toNat <<< 8)

/-- A block without compression. -/
def storedBlock (b : Bits) (out : Bytes) : Except String (Bits × Bytes) :=
  let b := b.align
  if b.inp.length < b.pos + 4 then .error "deflate: bloque crudo truncado"
  else
    let len := rd16 b.inp b.pos
    let nlen := rd16 b.inp (b.pos + 2)
    let b := { b with pos := b.pos + 4 }
    if len ^^^ 0xffff ≠ nlen then .error "deflate: longitud de bloque crudo incoherente"
    else if b.inp.length < b.pos + len then .error "deflate: bloque crudo se sale"
    else .ok ({ b with pos := b.pos + len }, out ++ (b.inp.drop b.pos).take len)

/-- The code lengths of the length code, in the order `ord`. -/
def readCodeLens : List Nat → Bits → List Nat → List Nat × Bits
  | [], b, clens => (clens, b)
  | o :: os, b, clens =>
    let (l, b) := b.get 3
    readCodeLens os b (clens.set o l)

/-- The code lengths of both alphabets, `total` in all; `lens` holds those read
    so far.  Every round adds at least one. -/
def readLens (codeH : Huff) (total : Nat) : Nat → Bits → List Nat → Except String (List Nat × Bits)
  | 0, b, lens => .ok (lens, b)
  | fuel + 1, b, lens =>
    if lens.length < total then
      match decode b codeH with
      | (none, _) => .error "deflate: simbolo de longitud invalido"
      | (some sym, b) =>
        if sym < 16 then readLens codeH total fuel b (lens ++ [sym])
        else if sym = 16 ∧ lens.length = 0 then
          .error "deflate: repeticion sin longitud previa"
        else
          let val := if sym = 16 then lens.getD (lens.length - 1) 0 else 0
          let (extra, b) :=
            if sym = 16 then b.get 2 else if sym = 17 then b.get 3 else b.get 7
          let rep := (if sym = 16 then 3 else if sym = 17 then 3 else 11) + extra
          if b.err || decide (total < lens.length + rep) then
            .error "deflate: repeticion se sale"
          else readLens codeH total fuel b (lens ++ List.replicate rep val)
    else .ok (lens, b)

/-- The tables a dynamic block announces.  A distance table that cannot be built
    is not an error: the block may be all literals. -/
def dynamicTables (b : Bits) : Except String (Huff × Huff × Bits) :=
  let (hlit, b) := b.get 5
  let (hdist, b) := b.get 5
  let (hclen, b) := b.get 4
  let nlen := hlit + 257
  let ndist := hdist + 1
  let ncode := hclen + 4
  if b.err || decide (286 < nlen) || decide (30 < ndist) then
    .error "deflate: cabecera dinamica invalida"
  else
    let (clens, b) := readCodeLens (ord.take ncode) b (List.replicate 19 0)
    match build clens with
    | (_, false) => .error "deflate: arbol de longitudes invalido"
    | (codeH, true) =>
      match readLens codeH (nlen + ndist) (nlen + ndist) b [] with
      | .error e => .error e
      | .ok (lens, b) =>
        match build (lens.take nlen) with
        | (_, false) => .error "deflate: arbol de literales invalido"
        | (litH, true) => .ok (litH, (build (lens.drop nlen)).1, b)

/-- `len` bytes again from `from_` on, which may overlap what is being written. -/
def copyFrom (from_ : Nat) : Nat → Nat → Bytes → Bytes
  | _, 0, out => out
  | k, len + 1, out => copyFrom from_ (k + 1) len (out ++ [out.getD (from_ + k) 0])

/-- The rest of a copy, after its length symbol `sym`. -/
@[irreducible] def copySymbol (dist : Huff) (sym : Nat) (b : Bits) (out : Bytes) : Except String (Bits × Bytes) :=
  if 29 ≤ sym then .error "deflate: codigo de longitud fuera de rango"
  else
    let (extra, b) := b.get (kLenExtra.getD sym 0)
    let len := kLenBase.getD sym 0 + extra
    match decode b dist with
    | (none, _) => .error "deflate: codigo de distancia invalido"
    | (some ds, b) =>
      if 30 ≤ ds then .error "deflate: codigo de distancia invalido"
      else
        let (extra, b) := b.get (kDistExtra.getD ds 0)
        let d := kDistBase.getD ds 0 + extra
        if b.err then .error "deflate: datos truncados"
        else if d = 0 ∨ out.length < d then .error "deflate: referencia por detras del inicio"
        else .ok (b, copyFrom (out.length - d) 0 len out)

/-- The symbols of a compressed block, up to its end. -/
def symbols (lit dist : Huff) : Nat → Bits → Bytes → Except String (Bits × Bytes)
  | 0, _, _ => .error "fuel"
  | fuel + 1, b, out =>
    match decode b lit with
    | (none, _) => .error "deflate: literal invalido"
    | (some sym, b) =>
      if sym < 256 then symbols lit dist fuel b (out ++ [BitVec.ofNat 8 sym])
      else if sym = 256 then .ok (b, out)
      else
        match copySymbol dist (sym - 257) b out with
        | .error e => .error e
        | .ok (b, out) => symbols lit dist fuel b out

/-- One block after its three header bits. -/
def block (type : Nat) (b : Bits) (out : Bytes) : Except String (Bits × Bytes) :=
  let fuel := 8 * b.inp.length + 1
  if type = 0 then storedBlock b out
  else if type = 1 then symbols fixedLit fixedDist fuel b out
  else if type = 2 then
    match dynamicTables b with
    | .error e => .error e
    | .ok (litH, distH, b) => symbols litH distH fuel b out
  else .error "deflate: tipo de bloque reservado"

/-- The block loop. -/
def blocks : Nat → Bits → Bytes → Except String Bytes
  | 0, _, _ => .error "fuel"
  | fuel + 1, b, out =>
    let (last, b) := b.get 1
    let (type, b) := b.get 2
    if b.err then .error "deflate: datos truncados"
    else
      match block type b out with
      | .error e => .error e
      | .ok (b, out) => if last ≠ 0 then .ok out else blocks fuel b out

/-- Decode a raw DEFLATE stream; the output starts empty. -/
def inflate (inp : Bytes) : Except String Bytes := blocks (8 * inp.length + 1) { inp } []

end Archive
