import Mathlib.Data.Fin.VecNotation
import Kestrel64.Lib.Simd
import Kestrel64.Lib.Transition

/-! # RDP: The Colour Combiner

    The combiner of `rdp/rdp.cpp`, three times: `combineColorSlow`, which
    resolves each selector for each channel of each pixel, and the two forms
    of `combineColor`, with SSE and without, which read rows of a table that
    a plan has chosen.

    An `int` of the source is a `BitVec 32` here, and its signed operations
    give `none` where they would overflow. A row of the table that the plan
    did not fill for this pixel is `none` as well, and so is everything read
    from it.
-/

namespace Rdp

open Simd

/-! ## Section 1: Integers -/

abbrev Int32 := BitVec 32

/-- A result of a signed operation: `none` out of range. -/
def inRange (x : Int) (v : Int32) : Option Int32 :=
  if -2 ^ 31 ≤ x ∧ x < 2 ^ 31 then some v else none

def iadd (a b : Int32) : Option Int32 := inRange (a.toInt + b.toInt) (a + b)
def isub (a b : Int32) : Option Int32 := inRange (a.toInt - b.toInt) (a - b)
def imul (a b : Int32) : Option Int32 := inRange (a.toInt * b.toInt) (a * b)

/-- A pixel's channels, red first. -/
abbrev Rgba := Fin 4 → Int32

/-- `(c >> (24 - i * 8)) & 0xff` -/
def ch (c : BitVec 32) (i : Fin 4) : Int32 := c >>> (24 - i.val * 8) &&& 0xff

/-! ## Section 2: State -/

/-- The selectors of one cycle. -/
structure CombSet where
  aR : Nat
  bR : Nat
  cR : Nat
  dR : Nat
  aA : Nat
  bA : Nat
  cA : Nat
  dA : Nat

/-- A row of the table of sources, or noise. -/
inductive Row where
  | cin | tex0 | tex1 | prim | shade | env
  | cina | tex0a | tex1a | prima | shadea | enva
  | one | zero | lod | plod | k4 | k5 | keyc | keys
  | noise
  deriving DecidableEq

/-- The number of a row; `CR_NOISE` is past the table. -/
def Row.code : Row → Nat
  | cin => 0 | tex0 => 1 | tex1 => 2 | prim => 3 | shade => 4 | env => 5
  | cina => 6 | tex0a => 7 | tex1a => 8 | prima => 9 | shadea => 10 | enva => 11
  | one => 12 | zero => 13 | lod => 14 | plod => 15 | k4 => 16 | k5 => 17 | keyc => 18
  | keys => 19
  | noise => 0xff

/-- `CombPlan`: for each cycle the rows of `aR, bR, cR, dR, aA, bA, cA, dA`. -/
structure CombPlan where
  sel : Fin 2 → Fin 8 → Row
  need : BitVec 32
  fast : Bool
  two : Bool
  keyHi : BitVec 32
  keyLo : BitVec 32
  keyCyc : BitVec 32

/-- The part of `SoftRdp` that the combiner reads and writes. -/
structure Comb where
  combine_hi : BitVec 32
  combine_lo : BitVec 32
  other_hi : BitVec 32
  comb : Fin 2 → CombSet
  combPlan : CombPlan
  combined : Rgba
  prim_color : BitVec 32
  env_color : BitVec 32
  prim_lod_frac : BitVec 8
  prim_min_level : BitVec 8
  lodFracV : Int32
  k4 : Int32
  k5 : Int32
  key_center : BitVec 32
  key_scale : BitVec 32

/-- The three inputs of a pixel. -/
structure Texels where
  tex0 : BitVec 32
  tex1 : BitVec 32
  shade : BitVec 32

def Comb.cycleType (s : Comb) : BitVec 32 := s.other_hi >>> 20 &&& 3

def Comb.lodFrac (s : Comb) : Int32 := s.lodFracV

/-! ## Section 3: The reference -/

/-- `special_expand` -/
def sexp (v : Int32) : Option Int32 := do
  let x ← isub v 0x80
  let x := x &&& 0x1ff
  let x := if x &&& 0x100 ≠ 0 then x ||| ~~~0x1ff else x
  iadd x 0x80

def clampN (v : Int32) : Option Int32 := do
  let x ← sexp v
  some (if x.toInt < 0 then 0 else if 255 < x.toInt then 255 else x)

/-- `(((a - b) * c + 0x80) >> 8) + d`, the operands expanded. -/
def eq (a b c d : Int32) : Option Int32 := do
  let a ← sexp a
  let b ← sexp b
  let d ← sexp d
  let t ← isub a b
  let t ← imul t c
  let t ← iadd t 0x80
  iadd (t.sshiftRight 8) d

/-- The values that `std::rand` returns, for a cycle and a channel. -/
abbrev Noise := Fin 2 → Fin 4 → Int32

section Sources

variable (s : Comb) (px : Texels) (noise : Fin 4 → Int32)

def srcA (idx : Nat) (i : Fin 4) (cin : Rgba) : Int32 :=
  match idx with
  | 0 => cin i | 1 => ch px.tex0 i | 2 => ch px.tex1 i
  | 3 => ch s.prim_color i | 4 => ch px.shade i | 5 => ch s.env_color i
  | 6 => 0x100 | 7 => noise i &&& 0xff | _ => 0

def srcB (idx : Nat) (i : Fin 4) (cin : Rgba) : Int32 :=
  match idx with
  | 0 => cin i | 1 => ch px.tex0 i | 2 => ch px.tex1 i
  | 3 => ch s.prim_color i | 4 => ch px.shade i | 5 => ch s.env_color i
  | 6 => ch (s.key_center <<< 8) i | 7 => s.k4 &&& 0x1ff
  | _ => 0

def srcC (idx : Nat) (i : Fin 4) (cin : Rgba) : Int32 :=
  match idx with
  | 0 => cin i | 1 => ch px.tex0 i | 2 => ch px.tex1 i
  | 3 => ch s.prim_color i | 4 => ch px.shade i | 5 => ch s.env_color i
  | 7 => cin 3 | 8 => ch px.tex0 3 | 9 => ch px.tex1 3
  | 10 => ch s.prim_color 3 | 11 => ch px.shade 3 | 12 => ch s.env_color 3
  | 13 => s.lodFrac | 14 => s.prim_lod_frac.setWidth 32
  | 6 => ch (s.key_scale <<< 8) i | 15 => s.k5
  | _ => 0

def srcD (idx : Nat) (i : Fin 4) (cin : Rgba) : Int32 :=
  match idx with
  | 0 => cin i | 1 => ch px.tex0 i | 2 => ch px.tex1 i
  | 3 => ch s.prim_color i | 4 => ch px.shade i | 5 => ch s.env_color i
  | 6 => 0x100 | _ => 0

def aABD (idx : Nat) (cin : Rgba) : Int32 :=
  match idx with
  | 0 => cin 3 | 1 => ch px.tex0 3 | 2 => ch px.tex1 3
  | 3 => ch s.prim_color 3 | 4 => ch px.shade 3 | 5 => ch s.env_color 3
  | 6 => 0x100 | _ => 0

def aC (idx : Nat) : Int32 :=
  match idx with
  | 0 => s.lodFrac
  | 1 => ch px.tex0 3 | 2 => ch px.tex1 3 | 3 => ch s.prim_color 3
  | 4 => ch px.shade 3 | 5 => ch s.env_color 3
  | 6 => s.prim_lod_frac.setWidth 32 | _ => 0

/-- The channels of a cycle, `rgb` for the first three. -/
def channels (rgb : Fin 4 → Option Int32) (alpha : Option Int32) : Option Rgba := do
  let r ← rgb 0
  let g ← rgb 1
  let b ← rgb 2
  let a ← alpha
  some ![r, g, b, a]

def oneCycle (cs : CombSet) (cin : Rgba) : Option Rgba :=
  channels
    (fun i => eq (srcA s px noise cs.aR i cin) (srcB s px cs.bR i cin) (srcC s px cs.cR i cin)
      (srcD s px cs.dR i cin))
    (eq (aABD s px cs.aA cin) (aABD s px cs.bA cin) (aC s px cs.cA) (aABD s px cs.dA cin))

end Sources

/-- `((u32)combined[0] << 24) | ...` -/
def pack (c : Rgba) : BitVec 32 := c 0 <<< 24 ||| c 1 <<< 16 ||| c 2 <<< 8 ||| c 3

/-- `combined[3] += (combined[3] + 1) >> 8` -/
def latch (c : Rgba) : Option Rgba := do
  let t ← iadd (c 3) 1
  let a ← iadd (c 3) (t.sshiftRight 8)
  some ![c 0, c 1, c 2, a]

/-- The end of the paths in C integers: the colour, and the new COMBINED. -/
def finish (fin : Rgba) : Option (BitVec 32 × Rgba) := do
  let c ← channels (fun i => clampN (fin i)) (clampN (fin 3))
  let l ← latch c
  some (pack c, l)

def combineColorSlow (noise : Noise) (px : Texels) (s : Comb) : Option (BitVec 32 × Rgba) := do
  if s.cycleType = 1 then
    let mid ← oneCycle s px (noise 0) (s.comb 0) s.combined
    -- the second cycle sees the texels crossed
    let fin ← oneCycle s { px with tex0 := px.tex1, tex1 := px.tex0 } (noise 1) (s.comb 1) mid
    finish fin
  else
    let fin ← oneCycle s px (noise 1) (s.comb 1) s.combined
    finish fin

/-! ## Section 4: The plan -/

def mapA : Nat → Row
  | 0 => .cin | 1 => .tex0 | 2 => .tex1 | 3 => .prim | 4 => .shade | 5 => .env
  | 6 => .one | 7 => .noise | _ => .zero

def mapB : Nat → Row
  | 0 => .cin | 1 => .tex0 | 2 => .tex1 | 3 => .prim | 4 => .shade | 5 => .env
  | 6 => .keyc | 7 => .k4 | _ => .zero

def mapC : Nat → Row
  | 0 => .cin | 1 => .tex0 | 2 => .tex1 | 3 => .prim | 4 => .shade | 5 => .env
  | 6 => .keys | 7 => .cina | 8 => .tex0a | 9 => .tex1a
  | 10 => .prima | 11 => .shadea | 12 => .enva
  | 13 => .lod | 14 => .plod | 15 => .k5 | _ => .zero

def mapD : Nat → Row
  | 0 => .cin | 1 => .tex0 | 2 => .tex1 | 3 => .prim | 4 => .shade | 5 => .env
  | 6 => .one | _ => .zero

def mapAABD : Nat → Row
  | 0 => .cina | 1 => .tex0a | 2 => .tex1a | 3 => .prima | 4 => .shadea | 5 => .enva
  | 6 => .one | _ => .zero

def mapAC : Nat → Row
  | 0 => .lod | 1 => .tex0a | 2 => .tex1a | 3 => .prima | 4 => .shadea | 5 => .enva
  | 6 => .plod | _ => .zero

/-- The texels crossed, as the second of two cycles sees them. -/
def Row.cross : Row → Row
  | tex0 => tex1
  | tex1 => tex0
  | tex0a => tex1a
  | tex1a => tex0a
  | r => r

def CombSet.rows (cs : CombSet) : Fin 8 → Row :=
  ![mapA cs.aR, mapB cs.bR, mapC cs.cR, mapD cs.dR,
    mapAABD cs.aA, mapAABD cs.bA, mapAC cs.cA, mapAABD cs.dA]

/-- The rows of cycle `c`. -/
def planRows (two : Bool) (c : Fin 2) (cs : CombSet) (k : Fin 8) : Row :=
  if two && c == 1 then (cs.rows k).cross else cs.rows k

/-- `1u << r` -/
def Row.bit (r : Row) : BitVec 32 := 1 <<< r.code

/-- `fast` and `need` after row `r` of a cycle that is executed. -/
def noteRow (p : Bool × BitVec 32) (r : Row) : Bool × BitVec 32 :=
  if r = .noise then (false, p.2) else (p.1, p.2 ||| r.bit)

/-- `fast` and `need` after cycle `c`. -/
def noteCycle (two : Bool) (rows : Fin 2 → Fin 8 → Row) (p : Bool × BitVec 32) (c : Fin 2) :
    Bool × BitVec 32 :=
  if !two && c == 0 then p else (List.ofFn (rows c)).foldl noteRow p

/-- `buildCombPlan`, from what it reads. -/
def planOf (hi lo cyc : BitVec 32) (comb : Fin 2 → CombSet) : CombPlan :=
  let two := cyc == 1
  let rows := fun c => planRows two c (comb c)
  let p := [0, 1].foldl (noteCycle two rows) (true, 0)
  { sel := rows
    need := p.2
    fast := p.1
    two := two
    keyHi := hi
    keyLo := lo
    keyCyc := cyc }

/-- The plan for the pixel: rebuilt when the key has changed. -/
def Comb.currentPlan (s : Comb) : CombPlan :=
  if s.combPlan.keyHi ≠ s.combine_hi ∨ s.combPlan.keyLo ≠ s.combine_lo ∨
      s.combPlan.keyCyc ≠ s.cycleType then
    planOf s.combine_hi s.combine_lo s.cycleType s.comb
  else s.combPlan

/-- `need & (1u << r)` -/
def needs (need : BitVec 32) (r : Row) : Bool := need &&& r.bit != 0

/-! ## Section 5: The plan without SSE -/

section Planned

variable (s : Comb) (px : Texels)

def put4 (c : BitVec 32) : Rgba := fun i => ch c i
def bc (v : Int32) : Rgba := fun _ => v

/-- What is put in a row. -/
def rowValue : Row → Option Rgba
  | .cin => some s.combined
  | .cina => some (bc (s.combined 3))
  | .tex0 => some (put4 px.tex0)
  | .tex1 => some (put4 px.tex1)
  | .prim => some (put4 s.prim_color)
  | .shade => some (put4 px.shade)
  | .env => some (put4 s.env_color)
  | .tex0a => some (bc (px.tex0 &&& 0xff))
  | .tex1a => some (bc (px.tex1 &&& 0xff))
  | .prima => some (bc (s.prim_color &&& 0xff))
  | .shadea => some (bc (px.shade &&& 0xff))
  | .enva => some (bc (s.env_color &&& 0xff))
  | .one => some (bc 0x100)
  | .zero => some (bc 0)
  | .lod => some (bc s.lodFrac)
  | .plod => some (bc (s.prim_lod_frac.setWidth 32))
  | .k4 => some (bc (s.k4 &&& 0x1ff))
  | .k5 => some (bc s.k5)
  | .keyc => some (put4 (s.key_center <<< 8))
  | .keys => some (put4 (s.key_scale <<< 8))
  | .noise => none

/-- The rows that the plan needs. -/
def fillRows (need : BitVec 32) (r : Row) : Option Rgba :=
  if needs need r then rowValue s px r else none

/-- COMBINED replaced by the first cycle's result. -/
def feedBack (need : BitVec 32) (mid : Rgba) (rows : Row → Option Rgba) (r : Row) : Option Rgba :=
  if r = .cin ∧ needs need .cin then some mid
  else if r = .cina ∧ needs need .cina then some (bc (mid 3))
  else rows r

def runCycle (sel : Fin 8 → Row) (rows : Row → Option Rgba) : Option Rgba :=
  let eqOf := fun (a b c d : Fin 8) (i : Fin 4) => do
    let ra ← rows (sel a)
    let rb ← rows (sel b)
    let rc ← rows (sel c)
    let rd ← rows (sel d)
    eq (ra i) (rb i) (rc i) (rd i)
  channels (eqOf 0 1 2 3) (eqOf 4 5 6 7 3)

def planScalar (p : CombPlan) : Option (BitVec 32 × Rgba) := do
  let rows := fillRows s px p.need
  if p.two then
    let mid ← runCycle (p.sel 0) rows
    let fin ← runCycle (p.sel 1) (feedBack p.need mid rows)
    finish fin
  else
    let fin ← runCycle (p.sel 1) rows
    finish fin

/-! ## Section 6: The plan with SSE -/

def put4v (c : BitVec 32) : M128 :=
  set_epi32 (c &&& 0xff) (c >>> 8 &&& 0xff) (c >>> 16 &&& 0xff) (c >>> 24 &&& 0xff)

/-- What is put in a row; `loadu` of COMBINED for the first. -/
def rowVector : Row → Option M128
  | .cin => some (ofDwords s.combined)
  | .cina => some (set1_epi32 (s.combined 3))
  | .tex0 => some (put4v px.tex0)
  | .tex1 => some (put4v px.tex1)
  | .prim => some (put4v s.prim_color)
  | .shade => some (put4v px.shade)
  | .env => some (put4v s.env_color)
  | .tex0a => some (set1_epi32 (px.tex0 &&& 0xff))
  | .tex1a => some (set1_epi32 (px.tex1 &&& 0xff))
  | .prima => some (set1_epi32 (s.prim_color &&& 0xff))
  | .shadea => some (set1_epi32 (px.shade &&& 0xff))
  | .enva => some (set1_epi32 (s.env_color &&& 0xff))
  | .one => some (set1_epi32 0x100)
  | .zero => some setzero
  | .lod => some (set1_epi32 s.lodFrac)
  | .plod => some (set1_epi32 (s.prim_lod_frac.setWidth 32))
  | .k4 => some (set1_epi32 (s.k4 &&& 0x1ff))
  | .k5 => some (set1_epi32 s.k5)
  | .keyc => some (put4v (s.key_center <<< 8))
  | .keys => some (put4v (s.key_scale <<< 8))
  | .noise => none

def fillVectors (need : BitVec 32) (r : Row) : Option M128 :=
  if needs need r then rowVector s px r else none

def feedBackv (need : BitVec 32) (mid : M128) (rows : Row → Option M128) (r : Row) :
    Option M128 :=
  if r = .cin ∧ needs need .cin then some mid
  else if r = .cina ∧ needs need .cina then some (shuffle_epi32 mid 0xff)
  else rows r

def sexpv (v : M128) : M128 :=
  let k80 := set1_epi32 0x80
  let k100 := set1_epi32 0x100
  let x := and_si128 (sub_epi32 v k80) (set1_epi32 0x1ff)
  let x := sub_epi32 (xor_si128 x k100) k100
  add_epi32 x k80

/-- The equation on four elements. -/
def eqv (a b c d : M128) : M128 :=
  let t := mullo_epi32 (sub_epi32 (sexpv a) (sexpv b)) c
  add_epi32 (srai_epi32 (add_epi32 t (set1_epi32 0x80)) 8) (sexpv d)

def runCyclev (sel : Fin 8 → Row) (rows : Row → Option M128) : Option M128 := do
  let pick := fun (i j : Fin 8) => do
    let rgb ← rows (sel i)
    let alpha ← rows (sel j)
    some (blend_epi16 rgb alpha 0xC0)
  let a ← pick 0 4
  let b ← pick 1 5
  let c ← pick 2 6
  let d ← pick 3 7
  some (eqv a b c d)

def finishv (fin : M128) : Option (BitVec 32 × Rgba) := do
  let cl := min_epi32 (max_epi32 (sexpv fin) setzero) (set1_epi32 255)
  let combined := dword cl
  let l ← latch combined
  some (pack combined, l)

def planSse (p : CombPlan) : Option (BitVec 32 × Rgba) := do
  let rows := fillVectors s px p.need
  if p.two then
    let mid ← runCyclev (p.sel 0) rows
    let fin ← runCyclev (p.sel 1) (feedBackv p.need mid rows)
    finishv fin
  else
    let fin ← runCyclev (p.sel 1) rows
    finishv fin

end Planned

/-- Which of the two the program was compiled with. -/
inductive Path where
  | sse
  | scalar
  deriving DecidableEq

/-- `combineColor`: the colour, and the state after the pixel. -/
def combineColor (path : Path) (noise : Noise) (px : Texels) (s : Comb) :
    Option (BitVec 32 × Comb) :=
  let p := s.currentPlan
  let s := { s with combPlan := p }
  let r :=
    if !p.fast then combineColorSlow noise px s
    else
      match path with
      | .sse => planSse s px p
      | .scalar => planScalar s px p
  r.map fun (c, combined) => (c, { s with combined := combined })

/-! ## Section 7: The commands -/

/-- The selectors in a `SET_COMBINE` word. -/
def decodeComb (hi lo : BitVec 32) : Fin 2 → CombSet :=
  ![{ aR := (hi >>> 20 &&& 0xf).toNat, bR := (lo >>> 28 &&& 0xf).toNat
      cR := (hi >>> 15 &&& 0x1f).toNat, dR := (lo >>> 15 &&& 0x7).toNat
      aA := (hi >>> 12 &&& 0x7).toNat, bA := (lo >>> 12 &&& 0x7).toNat
      cA := (hi >>> 9 &&& 0x7).toNat, dA := (lo >>> 9 &&& 0x7).toNat },
    { aR := (hi >>> 5 &&& 0xf).toNat, bR := (lo >>> 24 &&& 0xf).toNat
      cR := (hi >>> 0 &&& 0x1f).toNat, dR := (lo >>> 6 &&& 0x7).toNat
      aA := (lo >>> 21 &&& 0x7).toNat, bA := (lo >>> 3 &&& 0x7).toNat
      cA := (lo >>> 18 &&& 0x7).toNat, dA := (lo >>> 0 &&& 0x7).toNat }]

/-- `s9`, the 9-bit sign extension of `SET_CONVERT`. -/
def s9 (v : BitVec 32) : Int32 := (v &&& 0x1ff ^^^ 0x100) - 0x100

/-- The fraction that `lodSelect` returns; `maxd` is the greatest of the four
    absolute differences. -/
def lodSelect (s : Comb) (ovf : Bool) (maxd maxLevel : Nat) : Int32 :=
  let sharpen := s.other_hi >>> 17 &&& 1 != 0
  let detail := s.other_hi >>> 18 &&& 1 != 0
  if ovf then 0xff
  else if 0x4000 ≤ maxd then 0xff
  else if maxd < 32 then
    if !sharpen && !detail then (if maxLevel = 0 then 0xff else 0)
    else BitVec.ofNat 32 (max s.prim_min_level.toNat maxd <<< 3) + if sharpen then -0x100 else 0
  else
    let mipBase := (maxd >>> 5).log2
    let distant := decide (maxLevel ≤ mipBase)
    if !distant || sharpen || detail then BitVec.ofNat 32 ((maxd <<< 3) >>> mipBase &&& 0xff)
    else 0xff

/-- What can happen to the combiner. -/
inductive Event where
  | setCombine (cmd : BitVec 64)
  | setOtherModes (cmd : BitVec 64)
  | setConvert (cmd : BitVec 64)
  | setKeyGb (cmd : BitVec 64)
  | setKeyR (cmd : BitVec 64)
  | setPrimColor (cmd : BitVec 64)
  | setEnvColor (cmd : BitVec 64)
  | lod (ovf : Bool) (maxd maxLevel : Nat)
  | lodReset
  | plan
  | pixel (path : Path) (noise : Noise) (px : Texels)

/-- `none` where a pixel reads a row that is not there, or overflows. -/
def Comb.exec (s : Comb) : Event → Option Comb
  | .setCombine cmd =>
    let hi := (cmd >>> 32).setWidth 32 &&& 0x00ffffff
    let lo := cmd.setWidth 32
    some { s with combine_hi := hi, combine_lo := lo, comb := decodeComb hi lo }
  | .setOtherModes cmd => some { s with other_hi := (cmd >>> 32).setWidth 32 &&& 0x00ffffff }
  | .setConvert cmd =>
    some { s with k4 := s9 ((cmd >>> 9).setWidth 32), k5 := s9 (cmd.setWidth 32) }
  | .setKeyGb cmd =>
    some { s with
      key_center := (s.key_center &&& 0xff0000) |||
        (cmd >>> 24 &&& 0xff).setWidth 32 <<< 8 ||| (cmd >>> 8 &&& 0xff).setWidth 32
      key_scale := (s.key_scale &&& 0xff0000) |||
        (cmd >>> 16 &&& 0xff).setWidth 32 <<< 8 ||| (cmd &&& 0xff).setWidth 32 }
  | .setKeyR cmd =>
    some { s with
      key_center := (s.key_center &&& 0x00ffff) ||| (cmd >>> 8 &&& 0xff).setWidth 32 <<< 16
      key_scale := (s.key_scale &&& 0x00ffff) ||| (cmd &&& 0xff).setWidth 32 <<< 16 }
  | .setPrimColor cmd =>
    some { s with
      prim_color := cmd.setWidth 32
      prim_lod_frac := (cmd >>> 32).setWidth 8
      prim_min_level := (cmd >>> 40 &&& 31).setWidth 8 }
  | .setEnvColor cmd => some { s with env_color := cmd.setWidth 32 }
  | .lod ovf maxd maxLevel => some { s with lodFracV := lodSelect s ovf maxd maxLevel }
  | .lodReset => some { s with lodFracV := 0xff }
  | .plan => some { s with combPlan := s.currentPlan }
  | .pixel path noise px => (combineColor path noise px s).map Prod.snd

def CombPlan.initial : CombPlan where
  sel := fun _ _ => .cin
  need := 0
  fast := false
  two := false
  keyHi := ~~~0
  keyLo := ~~~0
  keyCyc := ~~~0

/-- The state that the constructor leaves. -/
def Comb.initial : Comb where
  combine_hi := 0
  combine_lo := 0
  other_hi := 0
  comb := fun _ => ⟨0, 0, 0, 0, 0, 0, 0, 0⟩
  combPlan := CombPlan.initial
  combined := fun _ => 0
  prim_color := 0
  env_color := 0
  prim_lod_frac := 0
  prim_min_level := 0
  lodFracV := 0xff
  k4 := 0
  k5 := 0
  key_center := 0
  key_scale := 0

/-- The combiner over time. -/
def combiner : LTS.System Comb Event where
  init := fun s => s = Comb.initial
  step := fun s e s' => s.exec e = some s'

end Rdp
