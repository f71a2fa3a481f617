import Kestrel64.Lib.Writes
import Kestrel64.Rdp.Depth
import Kestrel64.Rdp.Raster

/-! # RDP: The Pixel at the End of the Pipeline

    From the colour of the combiner to the memory: `blendPixel` of
    `rdp/rdp.cpp`, with the depth compare, the blender, the dither and the
    coverage. An address of RDRAM has its byte, and every word of 16 bits has
    two more that no processor sees (`hiddenBits`).

    The plan of the blender is made for each pixel here, not kept from one to
    the next. The divider's table is a parameter. The counters and the
    debugging switches of the environment are not here.
-/

namespace Rdp

open Writes

/-! ## Section 1: Memory -/

/-- A byte of RDRAM, or the hidden bits of a word. -/
inductive Cell
  | data (a : Nat)
  | hidden (i : Nat)
  deriving DecidableEq, Repr

abbrev Vram := Cell → BitVec 8

def Vram.byte (m : Vram) (a : BitVec 32) : Nat := (m (.data a.toNat)).toNat

/-- The word at `a`. -/
def Vram.word (m : Vram) (a : BitVec 32) : Nat := m.byte a * 2 ^ 8 + m.byte (a + 1)

/-- `hiddenBits(mem)[a >> 1]` -/
def Vram.hiddenAt (m : Vram) (a : BitVec 32) : Nat := (m (.hidden (a.toNat / 2))).toNat

/-- The bytes `vs`, from `a` on. -/
def dataWrites : BitVec 32 → List Nat → List (Cell × BitVec 8)
  | _, [] => []
  | a, v :: vs => (.data a.toNat, BitVec.ofNat 8 v) :: dataWrites (a + 1) vs

def hiddenWrite (a : BitVec 32) (v : Nat) : List (Cell × BitVec 8) :=
  [(.hidden (a.toNat / 2), BitVec.ofNat 8 v)]

/-- Nothing is written if the last byte is not in RDRAM. -/
def Raster.wr (r : Raster) (a : BitVec 32) (vs : List Nat) : List (Cell × BitVec 8) :=
  if r.inRdram a vs.length then dataWrites a vs else []

def Raster.wr8 (r : Raster) (a : BitVec 32) (v : Nat) : List (Cell × BitVec 8) := r.wr a [v]

def Raster.wr16 (r : Raster) (a : BitVec 32) (v : Nat) : List (Cell × BitVec 8) :=
  r.wr a [v / 2 ^ 8, v]

def Raster.wr32 (r : Raster) (a : BitVec 32) (v : Nat) : List (Cell × BitVec 8) :=
  r.wr a [v / 2 ^ 24, v / 2 ^ 16, v / 2 ^ 8, v]

def Raster.rd32 (r : Raster) (m : Vram) (a : BitVec 32) : Nat :=
  if r.inRdram a 4 then m.word a * 2 ^ 16 + m.word (a + 2) else 0

/-! ## Section 2: Colours -/

/-- Red, green and blue are 0, 1 and 2, and alpha is the low byte. -/
def chan (c i : Nat) : Nat := c / 2 ^ (24 - i * 8) % 2 ^ 8

def rgba (f : Nat → Nat) (a : Nat) : Nat :=
  f 0 % 2 ^ 8 * 2 ^ 24 + f 1 % 2 ^ 8 * 2 ^ 16 + f 2 % 2 ^ 8 * 2 ^ 8 + a % 2 ^ 8

/-- `(c & ~0xff) | a` -/
def withAlpha (c a : Nat) : Nat := c / 2 ^ 8 * 2 ^ 8 + a

def to5551 (c : Nat) : Nat :=
  chan c 0 / 2 ^ 3 * 2 ^ 11 + chan c 1 / 2 ^ 3 * 2 ^ 6 + chan c 2 / 2 ^ 3 * 2 + c / 2 ^ 7 % 2

/-- `storePixel` -/
def Raster.colorWrites (r : Raster) (x y : Int) (c : Nat) : List (Cell × BitVec 8) :=
  if r.ci_size = 3 then r.wr32 (r.pixelAddr r.ci_addr 4 x y) c
  else if r.ci_size = 1 then r.wr8 (r.pixelAddr r.ci_addr 1 x y) c
  else
    let a := r.pixelAddr r.ci_addr 2 x y
    r.wr16 a (to5551 c) ++ if r.inRdram a 2 then hiddenWrite a (c / 2 ^ 5 % 4) else []

def Raster.readFb (r : Raster) (m : Vram) (x y : Int) : Nat :=
  if r.ci_size = 3 then r.rd32 m (r.pixelAddr r.ci_addr 4 x y)
  else if r.ci_size = 1 then
    let a := r.pixelAddr r.ci_addr 1 x y
    let v := if r.inRdram a 1 then m.byte a else 0
    v * 2 ^ 24 + v * 2 ^ 16 + v * 2 ^ 8 + v
  else
    let a := r.pixelAddr r.ci_addr 2 x y
    if r.inRdram a 2 then
      let px := m.word a
      let al := (px % 2 * 4 + m.hiddenAt a % 4) * 2 ^ 5
      px / 2 ^ 11 % 32 * 2 ^ 27 + px / 2 ^ 6 % 32 * 2 ^ 19 + px / 2 % 32 * 2 ^ 11 + al
    else 0

/-! ## Section 3: Plan -/

structure BlendPlan where
  psel : Nat
  asel : Nat
  msel : Nat
  bsel : Nat
  two : Bool
  psel0 : Nat
  asel0 : Nat
  msel0 : Nat
  bsel0 : Nat
  dither : Nat
  usesMem : Bool
  imRd : Bool
  force : Bool
  aaEn : Bool
  passthru : Bool
  cvgDst : Nat
  colorOnCvg : Bool
  cvgXAlpha : Bool
  alphaCvgSel : Bool
  needMem : Bool

/-- `(w >> sh) & 3` -/
def bits2 (w : BitVec 32) (sh : Nat) : Nat := w.toNat / 2 ^ sh % 4

/-- `buildBlendPlan` -/
def Raster.blendPlan (r : Raster) : BlendPlan :=
  let lo := r.other_lo
  let two : Bool := r.cycleType == 1
  let sh := if two then 0 else 2
  let psel := bits2 lo (28 + sh)
  let msel := bits2 lo (20 + sh)
  let bsel := bits2 lo (16 + sh)
  let psel0 := bits2 lo 30
  let msel0 := bits2 lo 22
  let bsel0 := bits2 lo 18
  -- the last cycle's P is not asked
  let usesMem := msel == 1 || bsel == 1 || (two && (psel0 == 1 || msel0 == 1 || bsel0 == 1))
  let aaEn := lo.getLsbD 3
  let cvgDst := bits2 lo 8
  let colorOnCvg := lo.getLsbD 7
  { psel, asel := bits2 lo (24 + sh), msel, bsel, two
    psel0, asel0 := bits2 lo 26, msel0, bsel0
    dither := bits2 r.other_hi 6
    usesMem
    imRd := lo.getLsbD 6
    force := lo.getLsbD 14
    aaEn
    passthru := 2 ≤ r.cycleType
    cvgDst
    colorOnCvg
    cvgXAlpha := lo.getLsbD 12
    alphaCvgSel := lo.getLsbD 13
    needMem := usesMem || colorOnCvg || aaEn || cvgDst != 2 || lo.getLsbD 4 }

/-- What comes to `blendPixel`, with the registers of the primitive. -/
structure Fragment where
  x : Int
  y : Int
  /-- The colour of the combiner. -/
  src : Nat
  /-- Of the eight samples. -/
  cvg : Nat
  /-- A primitive may have no depth. -/
  z : Option Int
  pxShadeA : Nat
  /-- The slope of the depth, and its logarithm. -/
  pxDz : Nat
  pxDzC : Nat
  blend_color : Nat
  fog_color : Nat

/-! ## Section 4: Dither -/

/-- The magic square, and Bayer's. -/
def kDitherMatrix (mode : Nat) : List Nat :=
  if mode = 0 then [0, 6, 1, 7, 4, 2, 5, 3, 3, 5, 2, 4, 7, 1, 6, 0]
  else [0, 4, 1, 5, 4, 0, 5, 1, 3, 7, 2, 6, 7, 3, 6, 2]

def ditherSquare (mode : Nat) (x y : Int) : Nat :=
  (kDitherMatrix mode).getD ((y % 4 * 4 + x % 4).toNat) 0

/-- The noise of a channel, a hash of the place. -/
def ditherNoise (x y : Int) (i : Nat) : Nat :=
  let h := BitVec.ofInt 32 x * 0x9e3779b1#32 ^^^ BitVec.ofInt 32 y * 0x85ebca6b#32 ^^^
    BitVec.ofNat 32 i * 0xc2b2ae35#32
  let h := (h ^^^ h >>> 15) * 0x2545f491#32
  let h := h ^^^ h >>> 13
  h.toNat % 8

def BlendPlan.ditherRgb (p : BlendPlan) (x y : Int) (c : Nat) : Nat :=
  if p.dither = 3 then c
  else
    rgba (fun i =>
      let v := chan c i
      let d := if p.dither < 2 then ditherSquare p.dither x y else ditherNoise x y i
      if d < v % 8 then (if 247 < v then 255 else v / 8 * 8 + 8) else v) c

def Raster.alphaDither (r : Raster) (x y : Int) : Nat :=
  let am := bits2 r.other_hi 4
  let rm := bits2 r.other_hi 6
  if am = 3 then 0
  else if am = 2 then ditherNoise x y 3
  else
    let d := ditherSquare (rm % 2) x y
    if am = 1 then 7 - d else d

/-! ## Section 5: Blender -/

/-- IN, MEM, BLEND or FOG. -/
def Fragment.pick (f : Fragment) (src memc sel : Nat) : Nat :=
  match sel with
  | 0 => src
  | 1 => memc
  | 2 => f.blend_color
  | _ => f.fog_color

def Fragment.coefA (f : Fragment) (src sel : Nat) : Nat :=
  match sel with
  | 0 => src % 2 ^ 8
  | 1 => f.fog_color % 2 ^ 8
  | 2 => f.pxShadeA
  | _ => 0

def coefB (a memc sel : Nat) : Nat :=
  match sel with
  | 0 => 255 - a
  | 1 => memc % 2 ^ 8
  | 2 => 255
  | _ => 0

/-- Five bits of the two coefficients, shifted if the second is that of memory. -/
def coefs (a b sel shA shB : Nat) : Nat × Nat :=
  if sel = 1 then (a / 2 ^ 3 / 2 ^ shA &&& 0x3c, b / 2 ^ 3 / 2 ^ shB ||| 3)
  else (a / 2 ^ 3, b / 2 ^ 3)

/-- The first of two cycles. -/
def BlendPlan.cycle0 (p : BlendPlan) (f : Fragment) (src memc shA shB : Nat) : Nat :=
  let P := f.pick src memc p.psel0
  let M := f.pick src memc p.msel0
  let a := f.coefA src p.asel0
  let c := coefs a (coefB a memc p.bsel0) p.bsel0 shA shB
  rgba (fun i => (chan P i * c.1 + chan M i * (c.2 + 1)) / 2 ^ 5) src

/-- The last cycle of `blendColor`. -/
def BlendPlan.cycle1 (p : BlendPlan) (lut : Nat → BitVec 8) (f : Fragment) (src memc : Nat)
    (blendEn cvgWrap : Bool) (shA shB : Nat) : Nat :=
  let P := f.pick src memc p.psel
  let M := f.pick src memc p.msel
  if p.colorOnCvg && !cvgWrap then withAlpha M (src % 2 ^ 8)
  else if !blendEn || (p.asel == 0 && p.bsel == 0 && src % 2 ^ 8 == 255) then
    withAlpha P (src % 2 ^ 8)
  else
    let a := f.coefA src p.asel
    let c := coefs a (coefB a memc p.bsel) p.bsel shA shB
    let sum := c.1 / 4 + c.2 / 4 + 1
    rgba (fun i =>
      let blended := chan P i * c.1 + chan M i * (c.2 + 1)
      if p.force then blended / 2 ^ 5
      else (lut (sum * 2 ^ 11 + blended / 4 % 2 ^ 11)).toNat) src

def BlendPlan.blendColor (p : BlendPlan) (lut : Nat → BitVec 8) (f : Fragment) (src memc : Nat)
    (blendEn cvgWrap : Bool) (shA shB : Nat) : Nat :=
  let src := if p.two then p.cycle0 f src memc shA shB else src
  p.cycle1 lut f src memc blendEn cvgWrap shA shB

/-! ## Section 6: Depth -/

/-- `std::clamp(z, 0, 0x3ffff)` -/
def clampZ (z : Int) : Nat := min z.toNat 0x3ffff

/-- `depthTest`: what it writes, or `none` if it fails. -/
def Raster.depthTest (r : Raster) (m : Vram) (x y : Int) (z : Int) :
    Option (List (Cell × BitVec 8)) :=
  let d := clampZ z
  let zoff := r.pixelAddr r.zi_addr 2 x y
  if r.inRdram zoff 2 then
    if r.other_lo.getLsbD 4 ∧ zDecode (m.word zoff) ≤ d then none
    else some (if r.other_lo.getLsbD 5 then r.wr16 zoff (zEncode d) else [])
  else none

/-- What the depth compare has found. -/
structure DepthStage where
  pass : Bool
  blendEn : Bool
  shA : Nat
  shB : Nat
  /-- Two surfaces that cross cut it down. -/
  cvg : Nat

/-- The compare with Z_CMP of the depth `zz` with the word at `zoff`. -/
def Raster.depthStage (r : Raster) (p : BlendPlan) (m : Vram) (zoff : BitVec 32) (zz : Nat)
    (f : Fragment) (cvg : Nat) (overflow : Bool) : DepthStage :=
  let zw := m.word zoff
  let memZ := zDecode zw
  let memDzC := zw % 4 * 4 + m.hiddenAt zoff % 4
  let prec := zw / 2 ^ 13 % 8
  let memDz := 2 ^ memDzC
  let coplanar : Bool := prec < 3 && memDz == 0x8000
  -- with few bits stored, the slope of the memory is widened
  let memDz :=
    if prec < 3 then (if coplanar then 0xffff else max (memDz * 2) (16 / 2 ^ prec)) else memDz
  let either := f.pxDz ||| memDz
  let cdzI := if either = 0 then 0 else 2 ^ either.log2
  let cdz := cdzI * 8
  let farther : Bool := coplanar || decide (memZ ≤ zz + cdz)
  let maxZ : Bool := memZ == 0x3ffff
  let front : Bool := zz < memZ
  let nearer : Bool := coplanar || decide (zz ≤ memZ + cdz)
  let same : Bool := maxZ || if overflow then front else nearer
  let crossing : Bool := front && farther && overflow
  let cross :=
    let low := cdzI % 2 ^ 16
    let c := if low = 0 then 0 else low.log2
    min ((memZ / 2 ^ c - zz / 2 ^ c) % 16 * cvg / 8) 8
  { pass :=
      match bits2 r.other_lo 10 with
      | 0 => same
      | 1 => crossing || same
      | 2 => front || maxZ
      | _ => farther && nearer && !maxZ
    blendEn := p.force || (!overflow && p.aaEn && farther)
    shA := min (f.pxDzC - memDzC) 4
    shB := min (memDzC - f.pxDzC) 4
    cvg := if bits2 r.other_lo 10 = 1 ∧ crossing then cross else cvg }

/-! ## Section 7: Pixel -/

/-- CVG_TIMES_ALPHA and ALPHA_CVG_SELECT: the coverage, and the colour with its
    alpha. -/
def Raster.alphaStage (r : Raster) (p : BlendPlan) (f : Fragment) : Nat × Nat :=
  let a := f.src % 2 ^ 8
  let expanded := a + (a + 1) / 2 ^ 8
  let modulated := if p.cvgXAlpha then (expanded * f.cvg + 4) / 2 ^ 3 else f.cvg * 2 ^ 5
  let cvg := if p.cvgXAlpha then modulated / 2 ^ 5 else f.cvg
  let expanded := if p.alphaCvgSel then modulated else expanded + r.alphaDither f.x f.y
  (cvg, withAlpha f.src (min expanded 255))

/-- CVG_DEST -/
def BlendPlan.newCvg (p : BlendPlan) (blendEn : Bool) (cvg memCvg : Nat) : Nat :=
  match p.cvgDst with
  | 1 => (cvg + memCvg) % 8
  | 2 => 7
  | 3 => memCvg
  | _ => if blendEn then min 7 (memCvg + cvg) else (cvg + 7) % 8

/-- CVG_DEST, with the whole of a pixel in memory. -/
def BlendPlan.passCvg (p : BlendPlan) (cvg : Nat) : Nat :=
  match p.cvgDst with
  | 1 => (cvg + 7) % 8
  | 2 => 7
  | 3 => 7
  | _ => if p.force || (cvg + 7 < 8 && p.aaEn) then 7 else (cvg + 7) % 8

/-- A blender that reads memory, without IM_RD. -/
def Raster.passPixel (r : Raster) (p : BlendPlan) (m : Vram) (f : Fragment) (cvg src : Nat) :
    Vram :=
  let out := withAlpha (p.ditherRgb f.x f.y src) (p.passCvg cvg * 2 ^ 5)
  match f.z with
  | none => write (r.colorWrites f.x f.y out) m
  | some z =>
    match r.depthTest m f.x f.y z with
    | none => m
    | some ws => write (ws ++ r.colorWrites f.x f.y out) m

/-- The word of a depth, with the slope. -/
def Raster.depthWrites (r : Raster) (zoff : BitVec 32) (zz pxDzC : Nat) : List (Cell × BitVec 8) :=
  r.wr16 zoff (zEncode zz ||| pxDzC / 4 % 4) ++ hiddenWrite zoff (pxDzC % 4)

/-- The colour of the memory, and its coverage. -/
def Raster.memColor (r : Raster) (p : BlendPlan) (m : Vram) (f : Fragment) : Nat × Nat :=
  if p.imRd && p.needMem then
    let memc := r.readFb m f.x f.y
    (memc, memc % 2 ^ 8 / 2 ^ 5)
  else (0, 7)

/-- The depth compare, the blender and the stores. -/
def Raster.deepPixel (r : Raster) (lut : Nat → BitVec 8) (p : BlendPlan) (m : Vram) (f : Fragment)
    (cvg src : Nat) : Vram :=
  let (memc, memCvg) := r.memColor p m f
  let zoff := r.pixelAddr r.zi_addr 2 f.x f.y
  let zz := clampZ (f.z.getD 0)
  let overflow : Bool := 8 ≤ cvg + memCvg
  if f.z.isSome && !r.inRdram zoff 2 then m
  else
    let st : DepthStage :=
      if f.z.isSome && r.other_lo.getLsbD 4 then r.depthStage p m zoff zz f cvg overflow
      else
        { pass := true, blendEn := p.force || (!overflow && p.aaEn)
          shA := 0, shB := min (15 - f.pxDzC) 4, cvg }
    if !st.pass || (f.z.isSome && r.other_lo.getLsbD 4 && p.aaEn && st.cvg == 0) then m
    else
      let out := p.ditherRgb f.x f.y (p.blendColor lut f src memc st.blendEn overflow st.shA st.shB)
      let out := withAlpha out (p.newCvg st.blendEn st.cvg memCvg * 2 ^ 5)
      let zs := if f.z.isSome && r.other_lo.getLsbD 5 then r.depthWrites zoff zz f.pxDzC else []
      write (r.colorWrites f.x f.y out ++ zs) m

/-- `blendPixel` -/
def Raster.drawFragment (r : Raster) (lut : Nat → BitVec 8) (m : Vram) (f : Fragment) : Vram :=
  let p := r.blendPlan
  if !r.inScissor f.x f.y || f.x < 0 || f.y < 0 then m
  else if p.passthru then
    -- FILL and COPY
    match f.z with
    | none => write (r.colorWrites f.x f.y f.src) m
    | some z =>
      match r.depthTest m f.x f.y z with
      | none => m
      | some ws => write (ws ++ r.colorWrites f.x f.y f.src) m
  else
    let (cvg, src) := r.alphaStage p f
    -- a pixel without coverage is none
    if p.aaEn && cvg == 0 then m
    else if p.usesMem && !p.imRd then r.passPixel p m f cvg src
    else r.deepPixel lut p m f cvg src

end Rdp
