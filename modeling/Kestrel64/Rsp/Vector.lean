import Mathlib.Data.Fin.VecNotation
import Kestrel64.Lib.Limbs
import Kestrel64.Lib.Simd

/-! # RSP: the Vector Unit

    The computational instructions of COP2 in `rsp/rsp.cpp`, twice: the fast
    path `vuOpT`, which works on whole registers with SSE instructions, and
    the scalar path `execCop2Scalar`, a loop over the eight lanes in C
    integers.

    The scalar path computes in `int` and in 64-bit integers. Each signed
    operation is `checked`: the path gives `none` where the result is out of
    range, which in the source is undefined behaviour. Unsigned arithmetic
    and conversions are modular.
-/

namespace Rsp

open Simd Limbs

/-! ## Section 1: State -/

/-- A vector register, eight lanes of 16 bits. -/
abbrev R128 := M128

/-- The part of the RSP that these instructions read and write. -/
structure Vu where
  vpr : Fin 32 → R128
  acch : R128
  accm : R128
  accl : R128
  vcoh : R128
  vcol : R128
  vcch : R128
  vccl : R128
  vce : R128

/-- What belongs to one lane. -/
structure Lane where
  vpr : Fin 32 → BitVec 16
  acch : BitVec 16
  accm : BitVec 16
  accl : BitVec 16
  vcoh : BitVec 16
  vcol : BitVec 16
  vcch : BitVec 16
  vccl : BitVec 16
  vce : BitVec 16

def Vu.lane (st : Vu) (n : Fin 8) : Lane where
  vpr := fun r => st.vpr r n
  acch := st.acch n
  accm := st.accm n
  accl := st.accl n
  vcoh := st.vcoh n
  vcol := st.vcol n
  vcch := st.vcch n
  vccl := st.vccl n
  vce := st.vce n

def Vu.setLane (st : Vu) (n : Fin 8) (L : Lane) : Vu where
  vpr := fun r k => if k = n then L.vpr r else st.vpr r k
  acch := fun k => if k = n then L.acch else st.acch k
  accm := fun k => if k = n then L.accm else st.accm k
  accl := fun k => if k = n then L.accl else st.accl k
  vcoh := fun k => if k = n then L.vcoh else st.vcoh k
  vcol := fun k => if k = n then L.vcol else st.vcol k
  vcch := fun k => if k = n then L.vcch else st.vcch k
  vccl := fun k => if k = n then L.vccl else st.vccl k
  vce := fun k => if k = n then L.vce else st.vce k

/-- `D = x`, with `D` the register `vd`. -/
def Vu.setD (st : Vu) (vd : Fin 32) (x : R128) : Vu :=
  { st with vpr := fun r => if r = vd then x else st.vpr r }

/-- `D.u(n) = x`. -/
def Lane.setD (L : Lane) (vd : Fin 32) (x : BitVec 16) : Lane :=
  { L with vpr := fun r => if r = vd then x else L.vpr r }

/-- The instructions that `vuOpT` handles. -/
inductive Fn where
  | vmulf | vmulu | vmacf | vmacu
  | vmudl | vmudm | vmudn | vmudh
  | vmadl | vmadm | vmadn | vmadh
  | vadd | vsub | vabs | vaddc | vsubc
  | vlt | veq | vne | vge
  | vcl | vch | vcr | vmrg
  | vand | vnand | vor | vnor | vxor | vnxor
  deriving DecidableEq

/-- The low six bits of the opcode; `none` where `vuOpT` returns false. -/
def Fn.ofCode : Nat → Option Fn
  | 0x00 => some .vmulf | 0x01 => some .vmulu | 0x08 => some .vmacf | 0x09 => some .vmacu
  | 0x04 => some .vmudl | 0x05 => some .vmudm | 0x06 => some .vmudn | 0x07 => some .vmudh
  | 0x0c => some .vmadl | 0x0d => some .vmadm | 0x0e => some .vmadn | 0x0f => some .vmadh
  | 0x10 => some .vadd | 0x11 => some .vsub | 0x13 => some .vabs
  | 0x14 => some .vaddc | 0x15 => some .vsubc
  | 0x20 => some .vlt | 0x21 => some .veq | 0x22 => some .vne | 0x23 => some .vge
  | 0x24 => some .vcl | 0x25 => some .vch | 0x26 => some .vcr | 0x27 => some .vmrg
  | 0x28 => some .vand | 0x29 => some .vnand | 0x2a => some .vor | 0x2b => some .vnor
  | 0x2c => some .vxor | 0x2d => some .vnxor
  | _ => none

/-! ## Section 2: The broadcast modifier -/

/-- Lane `n` of `vt(e)` is lane `src e n` of `vt`. -/
def src : Fin 16 → Fin 8 → Fin 8 :=
  ![![0, 1, 2, 3, 4, 5, 6, 7], ![0, 1, 2, 3, 4, 5, 6, 7],
    ![0, 0, 2, 2, 4, 4, 6, 6], ![1, 1, 3, 3, 5, 5, 7, 7],
    ![0, 0, 0, 0, 4, 4, 4, 4], ![1, 1, 1, 1, 5, 5, 5, 5],
    ![2, 2, 2, 2, 6, 6, 6, 6], ![3, 3, 3, 3, 7, 7, 7, 7],
    ![0, 0, 0, 0, 0, 0, 0, 0], ![1, 1, 1, 1, 1, 1, 1, 1],
    ![2, 2, 2, 2, 2, 2, 2, 2], ![3, 3, 3, 3, 3, 3, 3, 3],
    ![4, 4, 4, 4, 4, 4, 4, 4], ![5, 5, 5, 5, 5, 5, 5, 5],
    ![6, 6, 6, 6, 6, 6, 6, 6], ![7, 7, 7, 7, 7, 7, 7, 7]]

/-- `makeBcastMasks`: both bytes of each lane. -/
def kBcast (e : Fin 16) : M128 := fun n =>
  BitVec.ofNat 8 (2 * src e n + 1) ++ BitVec.ofNat 8 (2 * src e n)

def bcast (e : Fin 16) (v : R128) : M128 := shuffle_epi8 v (kBcast e)

/-! ## Section 3: The fast path -/

def vones : M128 := cmpeq_epi16 setzero setzero
def vnot (x : M128) : M128 := xor_si128 x vones

/-- A flag register holds 0 or 1 in each lane; its mask. -/
def vmaskFromFlag (f : R128) : M128 := cmpgt_epi16 f setzero

def vflagFromMask (m : M128) : M128 := and_si128 m (set1_epi16 1)

/-- The 48-bit accumulator in three limbs. -/
structure V48 where
  h : M128
  m : M128
  l : M128

/-- The carry out of `s = a + b`, 0 or 1 in each lane. -/
def vcarry16 (a b s : M128) : M128 :=
  srli_epi16 (or_si128 (and_si128 a b) (andnot_si128 s (or_si128 a b))) 15

def vadd48 (a b : V48) : V48 :=
  let l := add_epi16 a.l b.l
  let c := vcarry16 a.l b.l l
  let t := add_epi16 a.m b.m
  let c1 := vcarry16 a.m b.m t
  let m := add_epi16 t c
  let c2 := vcarry16 t c m
  let h := add_epi16 (add_epi16 a.h b.h) (or_si128 c1 c2)
  ⟨h, m, l⟩

/-- Signed by signed. -/
def vprodSS (s t : M128) : V48 :=
  let lo := mullo_epi16 s t
  let hi := mulhi_epi16 s t
  ⟨srai_epi16 hi 15, hi, lo⟩

/-- Signed by unsigned. -/
def vprodSU (s t : M128) : V48 :=
  let lo := mullo_epi16 s t
  let hi := sub_epi16 (mulhi_epu16 s t) (and_si128 (cmpgt_epi16 setzero s) t)
  ⟨srai_epi16 hi 15, hi, lo⟩

/-- Unsigned by signed. -/
def vprodUS (s t : M128) : V48 :=
  let lo := mullo_epi16 s t
  let hi := sub_epi16 (mulhi_epu16 s t) (and_si128 (cmpgt_epi16 setzero t) s)
  ⟨srai_epi16 hi 15, hi, lo⟩

def vsatSigned (a : V48) : M128 :=
  packs_epi32 (unpacklo_epi16 a.m a.h) (unpackhi_epi16 a.m a.h)

def vsatUnsignedN (a : V48) : M128 :=
  let lo := unpacklo_epi16 a.m a.h
  let hi := unpackhi_epi16 a.m a.h
  let posMax := set1_epi32 0x7fff
  let negMin := set1_epi32 (BitVec.ofInt 32 (-0x8000))
  let ov := packs_epi32 (cmpgt_epi32 lo posMax) (cmpgt_epi32 hi posMax)
  let un := packs_epi32 (cmpgt_epi32 negMin lo) (cmpgt_epi32 negMin hi)
  let r := blendv_epi8 a.l (set1_epi16 (BitVec.ofInt 16 (-1))) ov
  blendv_epi8 r setzero un

def vsatMulU (a : V48) : M128 :=
  let neg := cmpgt_epi16 setzero a.h
  let xorn := cmpgt_epi16 setzero (xor_si128 a.h a.m)
  let r := blendv_epi8 a.m (set1_epi16 (BitVec.ofInt 16 (-1))) xorn
  blendv_epi8 r setzero neg

def vsatMacU (a : V48) : M128 :=
  let neg := cmpgt_epi16 setzero a.h
  let ov := or_si128 (vnot (cmpeq_epi16 a.h setzero)) (cmpgt_epi16 setzero a.m)
  let r := blendv_epi8 a.m (set1_epi16 (BitVec.ofInt 16 (-1))) ov
  blendv_epi8 r setzero neg

/-- Store the accumulator. -/
def Vu.setAcc (st : Vu) (a : V48) : Vu := { st with acch := a.h, accm := a.m, accl := a.l }

def Vu.acc (st : Vu) : V48 := ⟨st.acch, st.accm, st.accl⟩

/-- Store `r` in the low slice and in `D`. -/
def Vu.setLow (st : Vu) (vd : Fin 32) (r : M128) : Vu := Vu.setD { st with accl := r } vd r

/-- `VLT`, `VEQ`, `VNE`, `VGE` from their condition. -/
def vuCompare (s t cm : M128) (vd : Fin 32) (st : Vu) : Vu :=
  { Vu.setLow st vd (blendv_epi8 t s cm) with
    vccl := vflagFromMask cm, vcch := setzero, vcol := setzero, vcoh := setzero }

/-- `VADD` and `VSUB` from the 16-bit result and the 32-bit ones. -/
def vuAddSub (al lo hi : M128) (vd : Fin 32) (st : Vu) : Vu :=
  { Vu.setD { st with accl := al } vd (packs_epi32 lo hi) with vcol := setzero, vcoh := setzero }

/-- `vuOpT`, with `t` the modified `vt`. -/
def vuOp (fn : Fn) (t : M128) (vs vd : Fin 32) (st : Vu) : Vu :=
  let s := st.vpr vs
  match fn with
  | .vmulf =>
    let p := vprodSS s t
    let a := vadd48 (vadd48 p p) ⟨setzero, setzero, set1_epi16 0x8000⟩
    (st.setAcc a).setD vd (vsatSigned a)
  | .vmulu =>
    let p := vprodSS s t
    let a := vadd48 (vadd48 p p) ⟨setzero, setzero, set1_epi16 0x8000⟩
    (st.setAcc a).setD vd (vsatMulU a)
  | .vmacf =>
    let p := vprodSS s t
    let a := vadd48 st.acc (vadd48 p p)
    (st.setAcc a).setD vd (vsatSigned a)
  | .vmacu =>
    let p := vprodSS s t
    let a := vadd48 st.acc (vadd48 p p)
    (st.setAcc a).setD vd (vsatMacU a)
  | .vmudl =>
    let mh := mulhi_epu16 s t
    (st.setAcc ⟨setzero, setzero, mh⟩).setD vd mh
  | .vmudm =>
    let p := vprodSU s t
    (st.setAcc p).setD vd p.m
  | .vmudn =>
    let p := vprodUS s t
    (st.setAcc p).setD vd p.l
  | .vmudh =>
    let a : V48 := ⟨mulhi_epi16 s t, mullo_epi16 s t, setzero⟩
    (st.setAcc a).setD vd (vsatSigned a)
  | .vmadl =>
    let a := vadd48 st.acc ⟨setzero, setzero, mulhi_epu16 s t⟩
    (st.setAcc a).setD vd (vsatUnsignedN a)
  | .vmadm =>
    let a := vadd48 st.acc (vprodSU s t)
    (st.setAcc a).setD vd (vsatSigned a)
  | .vmadn =>
    let a := vadd48 st.acc (vprodUS s t)
    (st.setAcc a).setD vd (vsatUnsignedN a)
  | .vmadh =>
    let lo := mullo_epi16 s t
    let hi := mulhi_epi16 s t
    let nm := add_epi16 st.accm lo
    let nh := add_epi16 (add_epi16 st.acch hi) (vcarry16 st.accm lo nm)
    Vu.setD { st with accm := nm, acch := nh } vd (vsatSigned ⟨nh, nm, st.accl⟩)
  | .vadd =>
    let c := st.vcol
    vuAddSub (add_epi16 (add_epi16 s t) c)
      (add_epi32 (add_epi32 (cvtepi16_epi32 s) (cvtepi16_epi32 t)) (cvtepi16_epi32 c))
      (add_epi32 (add_epi32 (cvtepi16_epi32 (srli_si128 s 8)) (cvtepi16_epi32 (srli_si128 t 8)))
        (cvtepi16_epi32 (srli_si128 c 8))) vd st
  | .vsub =>
    let c := st.vcol
    vuAddSub (sub_epi16 (sub_epi16 s t) c)
      (sub_epi32 (sub_epi32 (cvtepi16_epi32 s) (cvtepi16_epi32 t)) (cvtepi16_epi32 c))
      (sub_epi32 (sub_epi32 (cvtepi16_epi32 (srli_si128 s 8)) (cvtepi16_epi32 (srli_si128 t 8)))
        (cvtepi16_epi32 (srli_si128 c 8))) vd st
  | .vabs =>
    let sNeg := cmpgt_epi16 setzero s
    let sZero := cmpeq_epi16 s setzero
    let al := blendv_epi8 t (sub_epi16 setzero t) sNeg
    let dv := blendv_epi8 t (subs_epi16 setzero t) sNeg
    Vu.setD { st with accl := andnot_si128 sZero al } vd (andnot_si128 sZero dv)
  | .vaddc =>
    let clo := srli_epi32 (add_epi32 (cvtepu16_epi32 s) (cvtepu16_epi32 t)) 16
    let chi := srli_epi32 (add_epi32 (cvtepu16_epi32 (srli_si128 s 8))
      (cvtepu16_epi32 (srli_si128 t 8))) 16
    { st.setLow vd (add_epi16 s t) with vcol := packs_epi32 clo chi, vcoh := setzero }
  | .vsubc =>
    let dlo := sub_epi32 (cvtepu16_epi32 s) (cvtepu16_epi32 t)
    let dhi := sub_epi32 (cvtepu16_epi32 (srli_si128 s 8)) (cvtepu16_epi32 (srli_si128 t 8))
    let one := set1_epi32 1
    let blo := and_si128 (srli_epi32 dlo 16) one
    let bhi := and_si128 (srli_epi32 dhi 16) one
    let nlo := and_si128 (vnot (cmpeq_epi32 dlo setzero)) one
    let nhi := and_si128 (vnot (cmpeq_epi32 dhi setzero)) one
    { st.setLow vd (sub_epi16 s t) with
      vcol := packs_epi32 blo bhi, vcoh := packs_epi32 nlo nhi }
  | .vlt =>
    vuCompare s t (or_si128 (cmpgt_epi16 t s) (and_si128 (cmpeq_epi16 s t)
      (and_si128 (vmaskFromFlag st.vcol) (vmaskFromFlag st.vcoh)))) vd st
  | .veq => vuCompare s t (andnot_si128 (vmaskFromFlag st.vcoh) (cmpeq_epi16 s t)) vd st
  | .vne => vuCompare s t (or_si128 (vnot (cmpeq_epi16 s t)) (vmaskFromFlag st.vcoh)) vd st
  | .vge =>
    vuCompare s t (or_si128 (cmpgt_epi16 s t) (and_si128 (cmpeq_epi16 s t)
      (vnot (and_si128 (vmaskFromFlag st.vcol) (vmaskFromFlag st.vcoh))))) vd st
  | .vcl =>
    let col := vmaskFromFlag st.vcol
    let coh := vmaskFromFlag st.vcoh
    let ce := vmaskFromFlag st.vce
    let cclOld := vmaskFromFlag st.vccl
    let cchOld := vmaskFromFlag st.vcch
    let negT := sub_epi16 setzero t
    let sum := add_epi16 s t
    let carry := vnot (cmpeq_epi16 (max_epu16 sum s) sum)
    let notCarry := vnot carry
    let sumZero := cmpeq_epi16 sum setzero
    let cclNew := blendv_epi8 (and_si128 sumZero notCarry) (or_si128 sumZero notCarry) ce
    let cchNew := cmpeq_epi16 (max_epu16 s t) s
    let acclA := blendv_epi8 s negT cclOld
    let acclB := blendv_epi8 s negT cclNew
    let acclC := blendv_epi8 s t cchOld
    let acclD := blendv_epi8 s t cchNew
    let al := blendv_epi8 (blendv_epi8 acclD acclC coh) (blendv_epi8 acclB acclA coh) col
    let notCoh := vnot coh
    { st.setLow vd al with
      vccl := vflagFromMask (blendv_epi8 cclOld cclNew (and_si128 col notCoh))
      vcch := vflagFromMask (blendv_epi8 cchOld cchNew (andnot_si128 col notCoh))
      vcol := setzero, vcoh := setzero, vce := setzero }
  | .vch =>
    let diff := cmpgt_epi16 setzero (xor_si128 s t)
    let tNeg := cmpgt_epi16 setzero t
    let resA := add_epi16 s t
    let resB := sub_epi16 s t
    let result := blendv_epi8 resB resA diff
    let negT := sub_epi16 setzero t
    let leA := vnot (cmpgt_epi16 result setzero)
    let geB := vnot (cmpgt_epi16 setzero result)
    let acclA := blendv_epi8 s negT leA
    let acclB := blendv_epi8 s t geB
    let al := blendv_epi8 acclB acclA diff
    let vohM := and_si128 (vnot (cmpeq_epi16 result setzero)) (vnot (cmpeq_epi16 s (vnot t)))
    { st.setLow vd al with
      vccl := vflagFromMask (blendv_epi8 tNeg leA diff)
      vcch := vflagFromMask (blendv_epi8 geB tNeg diff)
      vcol := vflagFromMask diff
      vcoh := vflagFromMask vohM
      vce := vflagFromMask (and_si128 diff (cmpeq_epi16 result vones)) }
  | .vcr =>
    let diff := cmpgt_epi16 setzero (xor_si128 s t)
    let tNeg := cmpgt_epi16 setzero t
    let cclA := packs_epi32
      (cmpgt_epi32 setzero (add_epi32 (cvtepi16_epi32 s) (cvtepi16_epi32 t)))
      (cmpgt_epi32 setzero (add_epi32 (cvtepi16_epi32 (srli_si128 s 8))
        (cvtepi16_epi32 (srli_si128 t 8))))
    let ccB := vnot (cmpgt_epi16 t s)
    let acclA := blendv_epi8 s (vnot t) cclA
    let acclB := blendv_epi8 s t ccB
    let al := blendv_epi8 acclB acclA diff
    { st.setLow vd al with
      vccl := vflagFromMask (blendv_epi8 tNeg cclA diff)
      vcch := vflagFromMask (blendv_epi8 ccB tNeg diff)
      vcol := setzero, vcoh := setzero, vce := setzero }
  | .vmrg =>
    { st.setLow vd (blendv_epi8 t s (vmaskFromFlag st.vccl)) with
      vcoh := setzero, vcol := setzero }
  | .vand => st.setLow vd (and_si128 s t)
  | .vnand => st.setLow vd (vnot (and_si128 s t))
  | .vor => st.setLow vd (or_si128 s t)
  | .vnor => st.setLow vd (vnot (or_si128 s t))
  | .vxor => st.setLow vd (xor_si128 s t)
  | .vnxor => st.setLow vd (vnot (xor_si128 s t))

/-! ## Section 4: The scalar path -/

/-- A signed operation in `int`. -/
def int (x : Int) : Option Int := checked 32 x

/-- A signed operation in 64 bits. -/
def s64 (x : Int) : Option Int := checked 64 x

def sclamp16 (x : Int) : BitVec 16 :=
  if x < -32768 then BitVec.ofInt 16 (-32768)
  else if 32767 < x then BitVec.ofInt 16 32767
  else BitVec.ofInt 16 x

/-- A flag lane as a number. -/
def get (f : BitVec 16) : Nat := (f &&& 1).toNat

/-- The flag lane that `set` stores. -/
def set (b : Bool) : BitVec 16 := if b then 1 else 0

namespace Lane

/-- Not sign-extended: 48 bits in a `u64`. -/
def accGet (L : Lane) : BitVec 64 :=
  L.acch.setWidth 64 <<< 32 ||| L.accm.setWidth 64 <<< 16 ||| L.accl.setWidth 64

def accSet (L : Lane) (v : BitVec 64) : Lane :=
  { L with
    acch := (v >>> 32).setWidth 16
    accm := (v >>> 16).setWidth 16
    accl := v.setWidth 16 }

def accSat (L : Lane) (slice : Bool) (neg pos : BitVec 16) : BitVec 16 :=
  if L.acch.toInt < 0 then
    if L.acch ≠ 0xffff then neg
    else if 0 ≤ L.accm.toInt then neg
    else if slice = false then L.accl else L.accm
  else
    if L.acch ≠ 0 then pos
    else if L.accm.toInt < 0 then pos
    else if slice = false then L.accl else L.accm

end Lane

/-- `S.s(n) ^ vte.s(n) < 0`, the exclusive or in `int`. -/
def signsDiffer (s t : BitVec 16) : Bool :=
  decide ((s.signExtend 32 ^^^ t.signExtend 32).toInt < 0)

/-- `accl.u(n) = vccl.set(n, c) ? S.uc(n) : vte.uc(n)`. -/
def Lane.compare (L : Lane) (s t : BitVec 16) (c : Bool) : Lane :=
  { L with vccl := set c, accl := if c then s else t }

/-- The body of the loop of `execCop2Scalar` for one lane; `t` is the lane of
    `vte`. -/
def scalarLane (fn : Fn) (vs vd : Fin 32) (t : BitVec 16) (L : Lane) : Option Lane :=
  let s := L.vpr vs
  match fn with
  | .vmulf => do
    let v ← s64 ((← s64 ((← s64 (s.toInt * t.toInt)) * 2)) + 0x8000)
    let L := L.accSet (BitVec.ofInt 64 v)
    return L.setD vd (L.accSat true 0x8000 0x7fff)
  | .vmulu => do
    let v ← s64 ((← s64 ((← s64 (s.toInt * t.toInt)) * 2)) + 0x8000)
    let L := L.accSet (BitVec.ofInt 64 v)
    return L.setD vd (if L.acch.toInt < 0 then 0
      else if signsDiffer L.acch L.accm then 0xffff else L.accm)
  | .vmacf => do
    let p ← s64 ((← s64 (s.toInt * t.toInt)) * 2)
    let L := L.accSet (L.accGet + BitVec.ofInt 64 p)
    return L.setD vd (L.accSat true 0x8000 0x7fff)
  | .vmacu => do
    let p ← s64 ((← s64 (s.toInt * t.toInt)) * 2)
    let L := L.accSet (L.accGet + BitVec.ofInt 64 p)
    return L.setD vd (if L.acch.toInt < 0 then 0
      else if L.acch.toInt ≠ 0 ∨ L.accm.toInt < 0 then 0xffff else L.accm)
  | .vmudl => do
    let p ← int ((s.toNat : Int) * t.toNat)
    return L.accSet (((BitVec.ofInt 32 p >>> 16).setWidth 16).setWidth 64)
  | .vmudm => do
    let p ← int (s.toInt * (t.toNat : Int))
    return L.accSet (BitVec.ofInt 64 p)
  | .vmudn => do
    let p ← int ((s.toNat : Int) * t.toInt)
    return L.accSet (BitVec.ofInt 64 p)
  | .vmudh => do
    let p ← int (s.toInt * t.toInt)
    let L := L.accSet (BitVec.ofInt 64 p <<< 16)
    return L.setD vd (L.accSat true 0x8000 0x7fff)
  | .vmadl => do
    let p ← int ((s.toNat : Int) * t.toNat)
    let L := L.accSet (L.accGet + (BitVec.ofInt 32 (p / 2 ^ 16)).setWidth 64)
    return L.setD vd (L.accSat false 0x0000 0xffff)
  | .vmadm => do
    let p ← int (s.toInt * (t.toNat : Int))
    let L := L.accSet (L.accGet + BitVec.ofInt 64 p)
    return L.setD vd (L.accSat true 0x8000 0x7fff)
  | .vmadn => do
    let p ← int ((s.toNat : Int) * t.toInt)
    let L := L.accSet (L.accGet + BitVec.ofInt 64 p)
    return L.setD vd (L.accSat false 0x0000 0xffff)
  | .vmadh => do
    let p ← int (s.toInt * t.toInt)
    let result ← int (((L.accGet >>> 16).setWidth 32).toInt + p)
    let L := { L with acch := BitVec.ofInt 16 (result / 2 ^ 16), accm := BitVec.ofInt 16 result }
    return L.setD vd (L.accSat true 0x8000 0x7fff)
  | .vadd => do
    let rr ← int ((← int (s.toInt + t.toInt)) + (get L.vcol : Int))
    return Lane.setD { L with accl := BitVec.ofInt 16 rr } vd (sclamp16 rr)
  | .vsub => do
    let rr ← int ((← int (s.toInt - t.toInt)) - (get L.vcol : Int))
    return Lane.setD { L with accl := BitVec.ofInt 16 rr } vd (sclamp16 rr)
  | .vabs =>
    if s.toInt < 0 then
      if t.toInt = -32768 then return Lane.setD { L with accl := 0x8000 } vd 0x7fff
      else do
        let x ← int (-t.toInt)
        return Lane.setD { L with accl := BitVec.ofInt 16 x } vd (BitVec.ofInt 16 x)
    else if 0 < s.toInt then return Lane.setD { L with accl := t } vd t
    else return Lane.setD { L with accl := 0 } vd 0
  | .vaddc => do
    let rr := BitVec.ofInt 32 (← int ((s.toNat : Int) + t.toNat))
    return { L with accl := rr.setWidth 16, vcol := set (rr >>> 16 != 0) }
  | .vsubc => do
    let rr := BitVec.ofInt 32 (← int ((s.toNat : Int) - t.toNat))
    return { L with
      accl := rr.setWidth 16
      vcol := set ((rr >>> 16) &&& 1 != 0)
      vcoh := set (rr != 0) }
  | .vlt =>
    return L.compare s t
      (s.toInt < t.toInt || (s.toInt == t.toInt && get L.vcol != 0 && get L.vcoh != 0))
  | .veq => return L.compare s t (get L.vcoh == 0 && s == t)
  | .vne => return L.compare s t (s != t || get L.vcoh != 0)
  | .vge =>
    return L.compare s t
      (t.toInt < s.toInt || (s.toInt == t.toInt && (get L.vcol == 0 || get L.vcoh == 0)))
  | .vcl =>
    if get L.vcol ≠ 0 then
      if get L.vcoh ≠ 0 then do
        let neg ← int (-(t.toNat : Int))
        return { L with accl := if get L.vccl ≠ 0 then BitVec.ofInt 16 neg else s }
      else do
        let full ← int ((s.toNat : Int) + t.toNat)
        let neg ← int (-(t.toNat : Int))
        let sum := BitVec.ofInt 16 full
        let carry := BitVec.ofInt 32 full != sum.setWidth 32
        let c := if get L.vce ≠ 0 then sum == 0 || !carry else sum == 0 && !carry
        return { L with vccl := set c, accl := if c then BitVec.ofInt 16 neg else s }
    else if get L.vcoh ≠ 0 then
      return { L with accl := if get L.vcch ≠ 0 then t else s }
    else do
      let c := decide (0 ≤ (← int ((s.toNat : Int) - t.toNat)))
      return { L with vcch := set c, accl := if c then t else s }
  | .vch =>
    if signsDiffer s t then do
      let result := BitVec.ofInt 16 (← int (s.toInt + t.toInt))
      let neg ← int (-t.toInt)
      return { L with
        accl := if result.toInt ≤ 0 then BitVec.ofInt 16 neg else s
        vccl := set (decide (result.toInt ≤ 0))
        vcch := set (decide (t.toInt < 0))
        vcol := set true
        vcoh := set (result.toInt != 0 && s != t ^^^ 0xffff)
        vce := set (result.toInt == -1) }
    else do
      let result := BitVec.ofInt 16 (← int (s.toInt - t.toInt))
      return { L with
        accl := if 0 ≤ result.toInt then t else s
        vccl := set (decide (t.toInt < 0))
        vcch := set (decide (0 ≤ result.toInt))
        vcol := set false
        vcoh := set (result.toInt != 0 && s != t ^^^ 0xffff)
        vce := set false }
  | .vcr =>
    if signsDiffer s t then do
      let c := decide ((← int ((← int (s.toInt + t.toInt)) + 1)) ≤ 0)
      return { L with
        vcch := set (decide (t.toInt < 0)), vccl := set c, accl := if c then ~~~ t else s }
    else do
      let c := decide (0 ≤ (← int (s.toInt - t.toInt)))
      return { L with
        vccl := set (decide (t.toInt < 0)), vcch := set c, accl := if c then t else s }
  | .vmrg => return { L with accl := if get L.vccl ≠ 0 then s else t }
  | .vand => return { L with accl := s &&& t }
  | .vnand => return { L with accl := ~~~ (s &&& t) }
  | .vor => return { L with accl := s ||| t }
  | .vnor => return { L with accl := ~~~ (s ||| t) }
  | .vxor => return { L with accl := s ^^^ t }
  | .vnxor => return { L with accl := ~~~ (s ^^^ t) }

/-- `D = accl`. -/
def Vu.lowToD (st : Vu) (vd : Fin 32) : Vu := st.setD vd st.accl

/-- What follows the loop. -/
def scalarEnd (fn : Fn) (vd : Fin 32) (st : Vu) : Vu :=
  match fn with
  | .vmulf | .vmulu | .vmacf | .vmacu | .vmudh | .vmadl | .vmadm | .vmadn | .vmadh | .vabs => st
  | .vmudl | .vmudn => st.lowToD vd
  | .vmudm => st.setD vd st.accm
  | .vadd | .vsub => { st with vcol := setzero, vcoh := setzero }
  | .vaddc => { st with vcoh := setzero }.lowToD vd
  | .vsubc | .vch => st.lowToD vd
  | .vlt | .veq | .vne | .vge =>
    { st with vcch := setzero, vcol := setzero, vcoh := setzero }.lowToD vd
  | .vcl | .vcr => { st with vcol := setzero, vcoh := setzero, vce := setzero }.lowToD vd
  | .vmrg => { st with vcoh := setzero, vcol := setzero }.lowToD vd
  | .vand | .vnand | .vor | .vnor | .vxor | .vnxor => st.lowToD vd

/-- `for(int n = 0; n < 8; n++)` over a body that stays in its lane. -/
def forLanes (body : Fin 8 → Lane → Option Lane) (st : Vu) : Option Vu :=
  (List.finRange 8).foldlM (fun st n => (body n (st.lane n)).map (st.setLane n)) st

/-- `execCop2Scalar` on the instructions of `Fn`. -/
def execCop2Scalar (fn : Fn) (tv : M128) (vs vd : Fin 32) (st : Vu) : Option Vu :=
  (forLanes (fun n => scalarLane fn vs vd (tv n)) st).map (scalarEnd fn vd)

end Rsp
