import Mathlib.Data.BitVec
import Mathlib.Data.Fin.VecNotation
import Mathlib.Tactic.FinCases
import Kestrel64.Lib.Index

/-! # 128-Bit SIMD

    A vector register of eight 16-bit lanes and the integer instructions on
    it, as the vendor manual defines them. An instruction on bytes or on
    32-bit elements goes through the `byte` or `dword` view of the register.

    Two ideas carry the proofs:

    * Comparisons give masks. `mask p` is the lane that is all ones when `p`
      holds; the logical instructions on masks are the connectives on `p`,
      and a blend by a mask is an `if`.
    * A pair of registers holds eight 32-bit elements. `wide lo hi n` is
      element `n`, and on it widening, 32-bit arithmetic and saturating packs
      act lane by lane.
-/

namespace Simd

/-- Eight lanes of 16 bits, lane 0 lowest. -/
abbrev M128 := Fin 8 → BitVec 16

/-! ### Views -/

/-- The 32-bit element `k`: two lanes, the odd one high. -/
def dword (x : M128) (k : Fin 4) : BitVec 32 :=
  x ⟨2 * k + 1, by omega⟩ ++ x ⟨2 * k, by omega⟩

def ofDwords (f : Fin 4 → BitVec 32) : M128 := fun n =>
  if n.val % 2 = 0 then (f ⟨n / 2, by omega⟩).extractLsb' 0 16
  else (f ⟨n / 2, by omega⟩).extractLsb' 16 16

/-- Byte `k`; past the end it is zero. -/
def byte (x : M128) (k : Nat) : BitVec 8 :=
  if h : k < 16 then
    if k % 2 = 0 then (x ⟨k / 2, by omega⟩).extractLsb' 0 8
    else (x ⟨k / 2, by omega⟩).extractLsb' 8 8
  else 0

def ofBytes (f : Nat → BitVec 8) : M128 := fun n => f (2 * n + 1) ++ f (2 * n)

/-! ### 16-bit lanes -/

def setzero : M128 := fun _ => 0
def set1_epi16 (v : BitVec 16) : M128 := fun _ => v
def add_epi16 (a b : M128) : M128 := fun n => a n + b n
def sub_epi16 (a b : M128) : M128 := fun n => a n - b n
def mullo_epi16 (a b : M128) : M128 := fun n => a n * b n

/-- The high half of the signed product. -/
def mulhi_epi16 (a b : M128) : M128 := fun n =>
  ((a n).signExtend 32 * (b n).signExtend 32).extractLsb' 16 16

/-- The high half of the unsigned product. -/
def mulhi_epu16 (a b : M128) : M128 := fun n =>
  ((a n).setWidth 32 * (b n).setWidth 32).extractLsb' 16 16

def srli_epi16 (a : M128) (k : Nat) : M128 := fun n => a n >>> k
def srai_epi16 (a : M128) (k : Nat) : M128 := fun n => (a n).sshiftRight k

/-- All ones where `p` holds. -/
def mask (p : Bool) : BitVec 16 := if p then BitVec.allOnes 16 else 0

def cmpgt_epi16 (a b : M128) : M128 := fun n => mask ((b n).slt (a n))
def cmpeq_epi16 (a b : M128) : M128 := fun n => mask (a n == b n)
def max_epu16 (a b : M128) : M128 := fun n => if (a n).ult (b n) then b n else a n

/-- Signed saturation of an integer to 16 bits. -/
def sat16 (x : Int) : BitVec 16 :=
  if x < -32768 then BitVec.ofInt 16 (-32768)
  else if 32767 < x then BitVec.ofInt 16 32767
  else BitVec.ofInt 16 x

def subs_epi16 (a b : M128) : M128 := fun n => sat16 ((a n).toInt - (b n).toInt)

/-! ### Whole register and bytes -/

def and_si128 (a b : M128) : M128 := fun n => a n &&& b n
def or_si128 (a b : M128) : M128 := fun n => a n ||| b n
def xor_si128 (a b : M128) : M128 := fun n => a n ^^^ b n

/-- Complement of the first operand, and the second. -/
def andnot_si128 (a b : M128) : M128 := fun n => ~~~ a n &&& b n

/-- Shift right by `k` bytes. -/
def srli_si128 (a : M128) (k : Nat) : M128 := ofBytes fun i => byte a (i + k)

/-- Each byte from `b` where the top bit of the mask byte is set. -/
def blendv_epi8 (a b m : M128) : M128 :=
  ofBytes fun i => if (byte m i).msb then byte b i else byte a i

/-- Each byte from the place its index byte names. -/
def shuffle_epi8 (a idx : M128) : M128 :=
  ofBytes fun i => if (byte idx i).msb then 0 else byte a ((byte idx i).toNat % 16)

/-! ### 32-bit elements -/

/-- The highest element first. -/
def set_epi32 (e3 e2 e1 e0 : BitVec 32) : M128 := ofDwords ![e0, e1, e2, e3]

def set1_epi32 (v : BitVec 32) : M128 := ofDwords fun _ => v
def add_epi32 (a b : M128) : M128 := ofDwords fun k => dword a k + dword b k
def sub_epi32 (a b : M128) : M128 := ofDwords fun k => dword a k - dword b k
def srli_epi32 (a : M128) (s : Nat) : M128 := ofDwords fun k => dword a k >>> s

/-- As `mask`, for a 32-bit element. -/
def mask32 (p : Bool) : BitVec 32 := if p then BitVec.allOnes 32 else 0

def mullo_epi32 (a b : M128) : M128 := ofDwords fun k => dword a k * dword b k
def srai_epi32 (a : M128) (s : Nat) : M128 := ofDwords fun k => (dword a k).sshiftRight s

/-- The greater and the lesser of two signed elements. -/
def max_epi32 (a b : M128) : M128 := ofDwords fun k =>
  if (dword a k).slt (dword b k) then dword b k else dword a k

def min_epi32 (a b : M128) : M128 := ofDwords fun k =>
  if (dword b k).slt (dword a k) then dword b k else dword a k

/-- Each lane from `b` where `imm` has its bit. -/
def blend_epi16 (a b : M128) (imm : Nat) : M128 := fun n => if imm.testBit n then b n else a n

/-- Element `k` from the place that bits `2 * k` of `imm` name. -/
def shuffle_epi32 (a : M128) (imm : Nat) : M128 := ofDwords fun k =>
  dword a ⟨imm >>> (2 * k.val) % 4, Nat.mod_lt _ (by decide)⟩

def cmpgt_epi32 (a b : M128) : M128 := ofDwords fun k => mask32 ((dword b k).slt (dword a k))
def cmpeq_epi32 (a b : M128) : M128 := ofDwords fun k => mask32 (dword a k == dword b k)

/-- The low four lanes, sign-extended. -/
def cvtepi16_epi32 (a : M128) : M128 :=
  ofDwords fun k => (a ⟨k, by omega⟩).signExtend 32

/-- The low four lanes, zero-extended. -/
def cvtepu16_epi32 (a : M128) : M128 :=
  ofDwords fun k => (a ⟨k, by omega⟩).setWidth 32

/-- The low four lanes of `a` and `b` in turn. -/
def unpacklo_epi16 (a b : M128) : M128 := fun n =>
  if n.val % 2 = 0 then a ⟨n / 2, by omega⟩ else b ⟨n / 2, by omega⟩

def unpackhi_epi16 (a b : M128) : M128 := fun n =>
  if n.val % 2 = 0 then a ⟨4 + n / 2, by omega⟩ else b ⟨4 + n / 2, by omega⟩

/-- The elements of `a`, then those of `b`, saturated to 16 bits. -/
def packs_epi32 (a b : M128) : M128 := fun n =>
  if h : n.val < 4 then sat16 (dword a ⟨n, h⟩).toInt
  else sat16 (dword b ⟨n - 4, by omega⟩).toInt

/-! ### Views of views -/

theorem halves (x : BitVec 32) : x.extractLsb' 16 16 ++ x.extractLsb' 0 16 = x := by
  apply BitVec.eq_of_getLsbD_eq
  intro i hi
  rw [BitVec.getLsbD_append]
  by_cases h : i < 16
  · simp [h]
  · simp [h, show i - 16 < 16 by omega, show 16 + (i - 16) = i by omega]

theorem byteHalves (x : BitVec 16) : x.extractLsb' 8 8 ++ x.extractLsb' 0 8 = x := by
  apply BitVec.eq_of_getLsbD_eq
  intro i hi
  rw [BitVec.getLsbD_append]
  by_cases h : i < 8
  · simp [h]
  · simp [h, show i - 8 < 8 by omega, show 8 + (i - 8) = i by omega]

@[simp] theorem dword_ofDwords (f : Fin 4 → BitVec 32) (k : Fin 4) : dword (ofDwords f) k = f k := by
  fin_cases k <;> exact halves _

@[simp] theorem dword_and (a b : M128) (k : Fin 4) :
    dword (and_si128 a b) k = dword a k &&& dword b k := by
  fin_cases k <;> exact BitVec.and_append.symm

@[simp] theorem dword_xor (a b : M128) (k : Fin 4) :
    dword (xor_si128 a b) k = dword a k ^^^ dword b k := by
  fin_cases k <;> exact BitVec.xor_append.symm

/-- The top element from `b`, the others from `a`. -/
theorem dword_blend_top (a b : M128) (k : Fin 4) :
    dword (blend_epi16 a b 0xC0) k = if k = 3 then dword b k else dword a k := by
  fin_cases k <;> rfl

theorem byte_even (x : M128) (n : Fin 8) : byte x (2 * n) = (x n).extractLsb' 0 8 := by
  fin_cases n <;> rfl

theorem byte_odd (x : M128) (n : Fin 8) : byte x (2 * n + 1) = (x n).extractLsb' 8 8 := by
  fin_cases n <;> rfl

theorem ofBytes_byte (x : M128) : ofBytes (byte x) = x := by
  funext n
  unfold ofBytes
  rw [byte_even, byte_odd, byteHalves]

/-! ### Masks -/

@[simp] theorem mask_and (p q : Bool) : mask p &&& mask q = mask (p && q) := by
  cases p <;> cases q <;> decide

@[simp] theorem mask_or (p q : Bool) : mask p ||| mask q = mask (p || q) := by
  cases p <;> cases q <;> decide

@[simp] theorem mask_not (p : Bool) : ~~~ mask p = mask (!p) := by
  cases p <;> decide

theorem byte_mask {m : M128} {n : Fin 8} {p : Bool} (h : m n = mask p) :
    (byte m (2 * n)).msb = p ∧ (byte m (2 * n + 1)).msb = p := by
  rw [byte_even, byte_odd, h]
  cases p <;> decide

/-- A blend by a mask chooses the lane. -/
theorem blendv_mask {a b m : M128} {n : Fin 8} {p : Bool} (h : m n = mask p) :
    blendv_epi8 a b m n = if p then b n else a n := by
  obtain ⟨hlo, hhi⟩ := byte_mask h
  unfold blendv_epi8 ofBytes
  dsimp only
  rw [hlo, hhi]
  cases p
  · exact congrFun (ofBytes_byte a) n
  · exact congrFun (ofBytes_byte b) n

/-! ### Pairs of registers -/

/-- Element `n` of the eight that `lo` and `hi` hold. -/
def wide (lo hi : M128) (n : Fin 8) : BitVec 32 :=
  if h : n.val < 4 then dword lo ⟨n, h⟩ else dword hi ⟨n - 4, by omega⟩

theorem packs_wide (lo hi : M128) (n : Fin 8) :
    packs_epi32 lo hi n = sat16 (wide lo hi n).toInt := by
  unfold packs_epi32 wide
  split <;> rfl

theorem srli_si128_eight (a : M128) (n : Fin 8) (h : n.val < 4) :
    srli_si128 a 8 n = a ⟨n + 4, by omega⟩ := by
  have hlo := byte_even a ⟨n + 4, by omega⟩
  have hhi := byte_odd a ⟨n + 4, by omega⟩
  unfold srli_si128 ofBytes
  dsimp only at hlo hhi ⊢
  rw [show 2 * n.val + 8 = 2 * (n.val + 4) by omega,
    show 2 * n.val + 1 + 8 = 2 * (n.val + 4) + 1 by omega, hlo, hhi, byteHalves]

/-- A widening conversion of both halves of `a`. -/
theorem wide_cvt (f : BitVec 16 → BitVec 32) (a : M128) (n : Fin 8) :
    wide (ofDwords fun k => f (a ⟨k, by omega⟩))
      (ofDwords fun k => f (srli_si128 a 8 ⟨k, by omega⟩)) n = f (a n) := by
  unfold wide
  split
  · rw [dword_ofDwords]
  · rename_i h
    rw [dword_ofDwords, srli_si128_eight a _ (by simp; omega)]
    congr 2
    ext
    simp only
    omega

theorem wide_cvtepi16 (a : M128) (n : Fin 8) :
    wide (cvtepi16_epi32 a) (cvtepi16_epi32 (srli_si128 a 8)) n = (a n).signExtend 32 :=
  wide_cvt (BitVec.signExtend 32) a n

theorem wide_cvtepu16 (a : M128) (n : Fin 8) :
    wide (cvtepu16_epi32 a) (cvtepu16_epi32 (srli_si128 a 8)) n = (a n).setWidth 32 :=
  wide_cvt (BitVec.setWidth 32) a n

/-- An instruction that acts on each 32-bit element by `f`. -/
theorem wide_map₂ (f : BitVec 32 → BitVec 32 → BitVec 32) (a a' b b' : M128) (n : Fin 8) :
    wide (ofDwords fun k => f (dword a k) (dword b k))
      (ofDwords fun k => f (dword a' k) (dword b' k)) n = f (wide a a' n) (wide b b' n) := by
  unfold wide
  split <;> rw [dword_ofDwords]

theorem wide_add (a a' b b' : M128) (n : Fin 8) :
    wide (add_epi32 a b) (add_epi32 a' b') n = wide a a' n + wide b b' n :=
  wide_map₂ (· + ·) a a' b b' n

theorem wide_sub (a a' b b' : M128) (n : Fin 8) :
    wide (sub_epi32 a b) (sub_epi32 a' b') n = wide a a' n - wide b b' n :=
  wide_map₂ (· - ·) a a' b b' n

theorem wide_cmpgt (a a' b b' : M128) (n : Fin 8) :
    wide (cmpgt_epi32 a b) (cmpgt_epi32 a' b') n = mask32 ((wide b b' n).slt (wide a a' n)) :=
  wide_map₂ (fun x y => mask32 (y.slt x)) a a' b b' n

theorem wide_cmpeq (a a' b b' : M128) (n : Fin 8) :
    wide (cmpeq_epi32 a b) (cmpeq_epi32 a' b') n = mask32 (wide a a' n == wide b b' n) :=
  wide_map₂ (fun x y => mask32 (x == y)) a a' b b' n

theorem wide_srli (a a' : M128) (s : Nat) (n : Fin 8) :
    wide (srli_epi32 a s) (srli_epi32 a' s) n = wide a a' n >>> s :=
  wide_map₂ (fun x _ => x >>> s) a a' a a' n

theorem wide_set1 (v : BitVec 32) (n : Fin 8) : wide (set1_epi32 v) (set1_epi32 v) n = v :=
  wide_map₂ (fun _ _ => v) setzero setzero setzero setzero n

theorem wide_setzero (n : Fin 8) : wide setzero setzero n = 0 := by
  unfold wide
  split <;> exact BitVec.zero_append_zero

theorem wide_and (a a' b b' : M128) (n : Fin 8) :
    wide (and_si128 a b) (and_si128 a' b') n = wide a a' n &&& wide b b' n := by
  unfold wide
  split <;> exact BitVec.and_append.symm

theorem wide_xor (a a' b b' : M128) (n : Fin 8) :
    wide (xor_si128 a b) (xor_si128 a' b') n = wide a a' n ^^^ wide b b' n := by
  unfold wide
  split <;> exact BitVec.xor_append.symm

theorem wide_unpack (a b : M128) (n : Fin 8) :
    wide (unpacklo_epi16 a b) (unpackhi_epi16 a b) n = b n ++ a n := by
  fin_cases n <;> rfl

@[simp] theorem sat16_mask32 (p : Bool) : sat16 (mask32 p).toInt = mask p := by
  cases p <;> decide

theorem sat16_of_range {x : Int} (h₁ : -32768 ≤ x) (h₂ : x ≤ 32767) :
    sat16 x = BitVec.ofInt 16 x := by
  unfold sat16
  rw [if_neg (by omega), if_neg (by omega)]

end Simd
