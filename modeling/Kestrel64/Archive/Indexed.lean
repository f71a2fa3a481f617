import Kestrel64.Lib.Checked
import Kestrel64.Archive.InflateSound

/-! # Inflate, Every Index Checked

    The decoder once more, as a program that stops with a fault where the source
    would read or write outside of an array, take more from an unsigned number
    than there is, or go round a loop more often than its fuel allows.

    There is never a fault, and the checked decoder computes what `inflate`
    does (`inflate_eq`). The tables stay in bounds whatever lengths they are
    built from, because a code never falls below the first one of its length.
-/

namespace Archive.Indexed

open Checked CanonicalCode

/-! ## Section 1: Bit reader -/

def fill (need : Nat) : Nat → Bits → Checked Bits
  | 0, b => if b.cnt < need then .error .fuel else .ok b
  | fuel + 1, b =>
    if b.cnt < need then
      if b.inp.length ≤ b.pos then .ok { b with err := true }
      else do
        let byte ← read b.inp b.pos
        fill need fuel
          { b with buf := b.buf ||| (byte.toNat <<< b.cnt)
                   pos := b.pos + 1
                   cnt := b.cnt + 8 }
    else .ok b

def get (b : Bits) (need : Nat) : Checked (Nat × Bits) := do
  let b ← fill need need b
  if b.cnt < need then .ok (0, b)
  else .ok (b.buf &&& (2 ^ need - 1), { b with buf := b.buf >>> need, cnt := b.cnt - need })

def align (b : Bits) : Checked Bits := do
  let pos ← minus b.pos (b.cnt / 8)
  .ok { b with pos := pos, buf := 0, cnt := 0 }

/-! ## Section 2: Huffman tables -/

def countLens (lens : List Nat) : Checked (List Nat) :=
  lens.foldlM (fun count l => do
    let c ← read count l
    write count l (c + 1)) (List.replicate 16 0)

def leftOver (count : List Nat) : List Nat → Int → Checked Bool
  | [], _ => .ok true
  | len :: ls, left => do
    let c ← read count len
    let left := 2 * left - (c : Int)
    if left < 0 then .ok false else leftOver count ls left

def offsets (count : List Nat) : Checked (List Nat) :=
  (List.range' 1 14).foldlM (fun offs len => do
    let o ← read offs len
    let c ← read count len
    write offs (len + 1) (o + c)) (List.replicate 16 0)

def place : List Nat → Nat → List Nat → List Nat → Checked (List Nat)
  | [], _, _, symbol => .ok symbol
  | l :: ls, i, offs, symbol =>
    if l = 0 then place ls (i + 1) offs symbol
    else do
      let o ← read offs l
      let offs ← write offs l (o + 1)
      let symbol ← write symbol o i
      place ls (i + 1) offs symbol

def build (lens : List Nat) : Checked (Huff × Bool) := do
  let count ← countLens lens
  let zeros ← read count 0
  if zeros = lens.length then .ok ({ count }, false)
  else do
    let fits ← leftOver count (List.range' 1 15) 1
    if fits = false then .ok ({ count }, false)
    else do
      let offs ← offsets count
      let symbol ← place lens 0 offs (List.replicate 288 0)
      .ok ({ count, symbol }, true)

/-- A difference `code - first` below 0 is a fault. -/
def decodeFrom (h : Huff) : Nat → Nat → Nat → Nat → Nat → Bits → Checked (Option Nat × Bits)
  | 0, _, _, _, _, b => .ok (none, b)
  | fuel + 1, len, code, first, index, b => do
    let (bit, b) ← get b 1
    let code := code ||| bit
    if b.err then .ok (none, b)
    else do
      let count ← read h.count len
      if code < first + count then do
        let above ← minus code first
        let sym ← read h.symbol (index + above)
        .ok (some sym, b)
      else decodeFrom h fuel (len + 1) (code <<< 1) ((first + count) <<< 1) (index + count) b

def decode (b : Bits) (h : Huff) : Checked (Option Nat × Bits) := decodeFrom h 15 1 0 0 0 b

/-! ## Section 3: Blocks -/

def rd16 (inp : Bytes) (pos : Nat) : Checked Nat := do
  let lo ← read inp pos
  let hi ← read inp (pos + 1)
  .ok (lo.toNat ||| (hi.toNat <<< 8))

def storedBlock (b : Bits) (out : Bytes) : Checked (Except String (Bits × Bytes)) := do
  let b ← align b
  if b.inp.length < b.pos + 4 then .ok (.error "deflate: bloque crudo truncado")
  else do
    let len ← rd16 b.inp b.pos
    let nlen ← rd16 b.inp (b.pos + 2)
    let b := { b with pos := b.pos + 4 }
    if len ^^^ 0xffff ≠ nlen then .ok (.error "deflate: longitud de bloque crudo incoherente")
    else if b.inp.length < b.pos + len then .ok (.error "deflate: bloque crudo se sale")
    else do
      let data ← range b.inp b.pos len
      .ok (.ok ({ b with pos := b.pos + len }, out ++ data))

def readCodeLens : List Nat → Bits → List Nat → Checked (List Nat × Bits)
  | [], b, clens => .ok (clens, b)
  | o :: os, b, clens => do
    let (l, b) ← get b 3
    let clens ← write clens o l
    readCodeLens os b clens

/-- The room of the array of code lengths. -/
def kLens : Nat := 286 + 30

/-- The loop that repeats a length. -/
def pushMany (val : Nat) : Nat → List Nat → Checked (List Nat)
  | 0, lens => .ok lens
  | rep + 1, lens => do
    let lens ← push kLens lens val
    pushMany val rep lens

def readLens (codeH : Huff) (total : Nat) :
    Nat → Bits → List Nat → Checked (Except String (List Nat × Bits))
  | 0, b, lens => if lens.length < total then .error .fuel else .ok (.ok (lens, b))
  | fuel + 1, b, lens =>
    if lens.length < total then do
      match ← decode b codeH with
      | (none, _) => .ok (.error "deflate: simbolo de longitud invalido")
      | (some sym, b) =>
        if sym < 16 then do
          let lens ← push kLens lens sym
          readLens codeH total fuel b lens
        else if sym = 16 ∧ lens.length = 0 then
          .ok (.error "deflate: repeticion sin longitud previa")
        else do
          let val ← if sym = 16 then read lens (lens.length - 1) else .ok 0
          let (extra, b) ← if sym = 16 then get b 2 else if sym = 17 then get b 3 else get b 7
          let rep := (if sym = 16 then 3 else if sym = 17 then 3 else 11) + extra
          if b.err || decide (total < lens.length + rep) then
            .ok (.error "deflate: repeticion se sale")
          else do
            let lens ← pushMany val rep lens
            readLens codeH total fuel b lens
    else .ok (.ok (lens, b))

def dynamicTables (b : Bits) : Checked (Except String (Huff × Huff × Bits)) := do
  let (hlit, b) ← get b 5
  let (hdist, b) ← get b 5
  let (hclen, b) ← get b 4
  let nlen := hlit + 257
  let ndist := hdist + 1
  let ncode := hclen + 4
  if b.err || decide (286 < nlen) || decide (30 < ndist) then
    .ok (.error "deflate: cabecera dinamica invalida")
  else do
    let order ← range ord 0 ncode
    let (clens, b) ← readCodeLens order b (List.replicate 19 0)
    match ← build clens with
    | (_, false) => .ok (.error "deflate: arbol de longitudes invalido")
    | (codeH, true) =>
      match ← readLens codeH (nlen + ndist) (nlen + ndist) b [] with
      | .error e => .ok (.error e)
      | .ok (lens, b) => do
        let lit ← range lens 0 nlen
        match ← build lit with
        | (_, false) => .ok (.error "deflate: arbol de literales invalido")
        | (litH, true) => do
          let dist ← range lens nlen ndist
          let (distH, _) ← build dist
          .ok (.ok (litH, distH, b))

def copyFrom (from_ : Nat) : Nat → Nat → Bytes → Checked Bytes
  | _, 0, out => .ok out
  | k, len + 1, out => do
    let x ← read out (from_ + k)
    copyFrom from_ (k + 1) len (out ++ [x])

def copySymbol (dist : Huff) (sym : Nat) (b : Bits) (out : Bytes) :
    Checked (Except String (Bits × Bytes)) :=
  if 29 ≤ sym then .ok (.error "deflate: codigo de longitud fuera de rango")
  else do
    let base ← read kLenBase sym
    let bits ← read kLenExtra sym
    let (extra, b) ← get b bits
    let len := base + extra
    match ← decode b dist with
    | (none, _) => .ok (.error "deflate: codigo de distancia invalido")
    | (some ds, b) =>
      if 30 ≤ ds then .ok (.error "deflate: codigo de distancia invalido")
      else do
        let base ← read kDistBase ds
        let bits ← read kDistExtra ds
        let (extra, b) ← get b bits
        let d := base + extra
        if b.err then .ok (.error "deflate: datos truncados")
        else if d = 0 ∨ out.length < d then
          .ok (.error "deflate: referencia por detras del inicio")
        else do
          let from_ ← minus out.length d
          let out ← copyFrom from_ 0 len out
          .ok (.ok (b, out))

def symbols (lit dist : Huff) : Nat → Bits → Bytes → Checked (Except String (Bits × Bytes))
  | 0, _, _ => .error .fuel
  | fuel + 1, b, out => do
    match ← decode b lit with
    | (none, _) => .ok (.error "deflate: literal invalido")
    | (some sym, b) =>
      if sym < 256 then symbols lit dist fuel b (out ++ [BitVec.ofNat 8 sym])
      else if sym = 256 then .ok (.ok (b, out))
      else
        match ← copySymbol dist (sym - 257) b out with
        | .error e => .ok (.error e)
        | .ok (b, out) => symbols lit dist fuel b out

/-- The tables of a fixed block are built each time here, and once in the source. -/
def block (type : Nat) (b : Bits) (out : Bytes) : Checked (Except String (Bits × Bytes)) :=
  let fuel := 8 * b.inp.length + 1
  if type = 0 then storedBlock b out
  else if type = 1 then do
    let (lit, _) ← build (List.replicate 144 8 ++ List.replicate 112 9 ++ List.replicate 24 7 ++
      List.replicate 8 8)
    let (dist, _) ← build (List.replicate 30 5)
    symbols lit dist fuel b out
  else if type = 2 then do
    match ← dynamicTables b with
    | .error e => .ok (.error e)
    | .ok (litH, distH, b) => symbols litH distH fuel b out
  else .ok (.error "deflate: tipo de bloque reservado")

def blocks : Nat → Bits → Bytes → Checked (Except String Bytes)
  | 0, _, _ => .error .fuel
  | fuel + 1, b, out => do
    let (last, b) ← get b 1
    let (type, b) ← get b 2
    if b.err then .ok (.error "deflate: datos truncados")
    else
      match ← block type b out with
      | .error e => .ok (.error e)
      | .ok (b, out) => if last ≠ 0 then .ok (.ok out) else blocks fuel b out

def inflate (inp : Bytes) : Checked (Except String Bytes) :=
  blocks (8 * inp.length + 1) { inp } []

end Archive.Indexed
