import Mathlib.Data.Nat.Bitwise
import Kestrel64.Rdp.TmemLoads

/-! # RDP: Fetching Texels

    `fetchK` of `rdp/rdp.cpp`, which reads one texel of a tile from TMEM, and
    what `LOAD_TILE` leaves for it: in odd rows the halves of every word are
    the other way round, and a texel of 32 bits is in both halves of TMEM.

    * `loadBox_nib`, `loadBox_one`, `loadBox_two` and `loadBox_four` — what a
      box leaves in TMEM, by the size of its texels.
    * `fetch_loaded` — a texel that is loaded and fetched is the one of the
      image.
-/

namespace Rdp

open Moves (Move nib)

/-! ## Section 1: Formats -/

/-- 5 bits as 8. -/
def exp5 (v : BitVec 32) : BitVec 32 := (v <<< 3) ||| (v >>> 2)

def packRgba (r g b a : BitVec 32) : BitVec 32 :=
  (r <<< 24) ||| (g <<< 16) ||| (b <<< 8) ||| a

def rgba5551 (e : BitVec 32) : BitVec 32 :=
  packRgba (exp5 ((e >>> 11) &&& 0x1f)) (exp5 ((e >>> 6) &&& 0x1f)) (exp5 ((e >>> 1) &&& 0x1f))
    (if e &&& 1 = 0 then 0 else 255)

def colorIa16 (e : BitVec 32) : BitVec 32 :=
  let i := (e >>> 8) &&& 0xff
  packRgba i i i (e &&& 0xff)

def colorIa4 (n : Byte) : BitVec 32 :=
  let i3 := n.setWidth 32 &&& 0xe
  let i := (i3 <<< 4) ||| (i3 <<< 1) ||| (i3 >>> 2)
  packRgba i i i (if n &&& 1 = 0 then 0 else 255)

def colorI4 (n : Byte) : BitVec 32 :=
  let i := n.setWidth 32 * 17
  packRgba i i i i

def colorIa8 (v : Byte) : BitVec 32 :=
  let i := (v.setWidth 32 >>> 4) * 17
  packRgba i i i ((v.setWidth 32 &&& 0xf) * 17)

def colorI8 (v : Byte) : BitVec 32 :=
  let i := v.setWidth 32
  packRgba i i i i

def halfWord (hi lo : Byte) : BitVec 32 := (hi.setWidth 32 <<< 8) ||| lo.setWidth 32

/-! ## Section 2: Fetching -/

/-- `TK_YUV`, which is converted elsewhere, is left out. -/
inductive TexKind
  | ci4
  | ia4
  | i4
  | ia16
  | rgba16
  | rgba32
  | ci8
  | ia8
  | i8
  | ci16
  deriving DecidableEq, Repr

structure TexFold where
  kind : TexKind
  rowBytes : Nat
  base : Nat
  palette : Nat

/-- With `EN_TLUT` the size alone decides, but for YUV and the formats from 5
    on. -/
def kindOf (tl : Tile) (tlutMode : BitVec 2) : Option TexKind :=
  let ci : Bool := tlutMode.getLsbD 1 && (tl.fmt == 0 || (2 ≤ tl.fmt && tl.fmt ≤ 4))
  match tl.size with
  | 0 => some (if ci || tl.fmt == 2 then .ci4 else if tl.fmt == 3 then .ia4 else .i4)
  | 1 => some (if ci || tl.fmt == 2 then .ci8 else if tl.fmt == 3 then .ia8 else .i8)
  | 2 =>
    if ci then some .ci16
    else if tl.fmt == 1 then none
    else some (if tl.fmt == 3 then .ia16 else .rgba16)
  | 3 => some (if ci then .ci16 else .rgba32)
  | _ => none

def foldOf (tl : Tile) (tlutMode : BitVec 2) : Option TexFold :=
  (kindOf tl tlutMode).map fun kind =>
    { kind := kind, rowBytes := tl.line * 8, base := tl.tmem * 8, palette := tl.palette }

/-- A word of 64 bits for each entry, one half word for each bank. -/
def tlutEntry (tmem : Moves.Mem) (tlutMode : BitVec 2) (idx bank : Nat) : BitVec 32 :=
  let o := 0x800 + idx % 0x100 * 8 + bank % 4 * 2
  let e := halfWord (tmem o) (tmem (o + 1))
  if tlutMode = 3 then colorIa16 e else rgba5551 e

/-- One texel, at coordinates that are folded already (their 32 bits). -/
def fetchK (tmem : Moves.Mem) (tlutMode : BitVec 2) (f : TexFold) (s t bank : Nat) : BitVec 32 :=
  let ox := flip t
  let addr (x : Nat) := (f.base + t * f.rowBytes + x) % 2 ^ 32
  match f.kind with
  | .ci4 =>
    let off := addr (s / 2) % 0x800 ^^^ ox
    tlutEntry tmem tlutMode (f.palette * 16 + (nib (s % 2 == 1) (tmem off)).toNat) bank
  | .ci8 => tlutEntry tmem tlutMode (tmem (addr s % 0x800 ^^^ ox)).toNat bank
  | .ci16 => tlutEntry tmem tlutMode (tmem (addr (s * 2) % 0x800 ^^^ ox)).toNat bank
  | .ia4 =>
    let off := addr (s / 2) ^^^ ox
    if 0x1000 ≤ off then 0 else colorIa4 (nib (s % 2 == 1) (tmem off))
  | .i4 =>
    let off := addr (s / 2) ^^^ ox
    if 0x1000 ≤ off then 0 else colorI4 (nib (s % 2 == 1) (tmem off))
  | .ia16 =>
    let off := addr (s * 2) ^^^ ox
    if 0x1000 ≤ off + 1 then 0 else colorIa16 (halfWord (tmem off) (tmem (off + 1)))
  | .rgba16 =>
    let off := addr (s * 2) ^^^ ox
    if 0x1000 ≤ off + 1 then 0 else rgba5551 (halfWord (tmem off) (tmem (off + 1)))
  | .rgba32 =>
    let off := (addr (s * 2) ^^^ ox) % 0x800 / 2 * 2
    let hi := off + 0x800
    packRgba ((tmem off).setWidth 32) ((tmem (off + 1)).setWidth 32) ((tmem hi).setWidth 32)
      ((tmem (hi + 1)).setWidth 32)
  | .ia8 =>
    let off := addr s ^^^ ox
    if 0x1000 ≤ off then 0 else colorIa8 (tmem off)
  | .i8 =>
    let off := addr s ^^^ ox
    if 0x1000 ≤ off then 0 else colorI8 (tmem off)

/-! ## Section 3: Places -/

theorem xor_flip (n r : Nat) :
    n ^^^ flip r = if r % 2 = 0 then n else if n / 4 % 2 = 0 then n + 4 else n - 4 := by
  unfold flip
  by_cases hr : r % 2 = 1
  -- a word has 8 bytes: its number stays, and within it there are few cases
  · have hdiv : (n ^^^ 4) / 2 ^ 3 = n / 2 ^ 3 := by
      rw [Nat.xor_div_two_pow]
      exact Nat.xor_zero _
    have hmod : (n ^^^ 4) % 2 ^ 3 = n % 2 ^ 3 ^^^ 4 := Nat.xor_mod_two_pow
    have hall : ∀ k < 8, k ^^^ 4 = if k / 4 = 0 then k + 4 else k - 4 := by decide
    rw [hall (n % 2 ^ 3) (Nat.mod_lt n (by decide))] at hmod
    rw [if_pos hr, if_neg (by omega)]
    split_ifs at hmod ⊢ <;> omega
  · rw [if_neg hr, if_pos (by omega)]
    exact Nat.xor_zero n

/-- Where byte `i` of row `r` is in TMEM. -/
def Tile.place (tl : Tile) (r i : Nat) : Nat := (tl.tmem * 8 + r * (tl.line * 8) + i) ^^^ flip r

section Places

variable {tl : Tile} {r r' i j : Nat}

/-- The word is that of the row as it is. -/
theorem place_div : tl.place r i / 8 = tl.tmem + r * tl.line + i / 8 := by
  have hrow : r * (tl.line * 8) = r * tl.line * 8 := (Nat.mul_assoc ..).symm
  unfold Tile.place
  rw [xor_flip, hrow]
  split_ifs <;> omega

theorem place_inj (hi : i < tl.line * 8) (hj : j < tl.line * 8)
    (h : tl.place r i = tl.place r' j) : r = r' ∧ i = j := by
  have hword : tl.place r i / 8 = tl.place r' j / 8 := by rw [h]
  rw [place_div, place_div] at hword
  -- a row is `tl.line` words, and the word of a byte is in its row
  have hrow : r = r' := by
    have hline : 0 < tl.line := by omega
    have hquot : (i / 8 + tl.line * r) / tl.line = (j / 8 + tl.line * r') / tl.line := by
      rw [Nat.mul_comm tl.line, Nat.mul_comm tl.line]
      congr 1
      omega
    rwa [Nat.add_mul_div_left _ _ hline, Nat.add_mul_div_left _ _ hline,
      Nat.div_eq_of_lt (by omega), Nat.div_eq_of_lt (by omega), Nat.zero_add,
      Nat.zero_add] at hquot
  subst hrow
  exact ⟨rfl, Nat.add_left_cancel (Nat.xor_left_inj.mp h)⟩

theorem place_succ (h : i % 2 = 0) : tl.place r (i + 1) = tl.place r i + 1 := by
  have hrow : r * (tl.line * 8) = r * tl.line * 8 := (Nat.mul_assoc ..).symm
  unfold Tile.place
  rw [xor_flip, xor_flip, hrow]
  split_ifs <;> omega

theorem place_even (h : i % 2 = 0) : tl.place r i % 2 = 0 := by
  have hrow : r * (tl.line * 8) = r * tl.line * 8 := (Nat.mul_assoc ..).symm
  unfold Tile.place
  rw [xor_flip, hrow]
  split_ifs <;> omega

/-- A row that ends in front of `limit`, with the rows before the last. -/
theorem row_le {rows span limit : Nat} (hr : r < rows) (hi : i < span)
    (hlast : tl.tmem * 8 + (rows - 1) * (tl.line * 8) + span ≤ limit) :
    tl.tmem * 8 + r * (tl.line * 8) + i < limit := by
  have hrow : r * (tl.line * 8) ≤ (rows - 1) * (tl.line * 8) := Nat.mul_le_mul_right _ (by omega)
  omega

theorem place_lt {limit : Nat} (h8 : limit % 8 = 0)
    (h : tl.tmem * 8 + r * (tl.line * 8) + i < limit) : tl.place r i < limit := by
  unfold Tile.place
  rw [xor_flip]
  split_ifs <;> omega

end Places

/-! ## Section 4: Loading -/

theorem copyRun_eq (size src dst n : Nat) :
    copyRun size src dst n =
      (List.range n).flatMap fun i => putByte size (dst + i) (src + i) := by
  -- what is cut off is what `putByte` leaves out
  have hin : ∀ k, k ≤ size - src →
      (List.range k).flatMap (fun i => putByte size (dst + i) (src + i)) =
        (List.range k).map fun i => Move.byte ((dst + i) % 0x1000) (src + i) := by
    intro k hk
    rw [List.map_eq_flatMap]
    refine List.flatMap_congr fun i hi => ?_
    have := List.mem_range.mp hi
    exact if_pos (by omega)
  unfold copyRun
  by_cases hsrc : size ≤ src
  · rw [if_pos hsrc, eq_comm, List.flatMap_eq_nil_iff]
    intro i _
    exact if_neg (by omega)
  · rw [if_neg hsrc, copyChunks_eq, ← hin _ (Nat.min_le_right _ _)]
    obtain hle | hle := Nat.le_total n (size - src)
    · rw [Nat.min_eq_left hle]
    · have hrest : (List.range (n - (size - src))).flatMap
          (fun i => putByte size (dst + (size - src + i)) (src + (size - src + i))) = [] := by
        rw [List.flatMap_eq_nil_iff]
        intro i _
        exact if_neg (by omega)
      have hrange : List.range n =
          List.range (size - src) ++ (List.range (n - (size - src))).map (size - src + ·) := by
        rw [← List.range_add, Nat.add_sub_cancel' hle]
      rw [Nat.min_eq_right hle, hrange, List.flatMap_append, List.flatMap_map, hrest,
        List.append_nil]

/-- The first byte of row `r` of a box. -/
def TexUnit.rowAddr (u : TexUnit) (b : Box) (bpt r : Nat) : Nat :=
  u.ti_addr + ((b.t0 + r) * u.ti_width + b.s0) * bpt

section Loading

variable {u : TexUnit} {size : Nat} {m mem : Moves.Mem} {tl : Tile} {b : Box} {r c : Nat}

theorem boxBytes_eq (bpt : Nat) :
    u.boxBytes size tl bpt b = (List.range b.rows).flatMap fun r =>
      (List.range (b.cols * bpt)).flatMap fun i =>
        putByte size (tl.place r i) (u.rowAddr b bpt r + i) := by
  unfold TexUnit.boxBytes
  refine List.flatMap_congr fun r _ => ?_
  dsimp only
  unfold Tile.place flip
  by_cases hr : r % 2 = 0
  · rw [if_pos hr, copyRun_eq, if_neg (by omega)]
    simp only [Nat.xor_zero]
    rfl
  · rw [if_neg hr, if_pos (by omega)]
    rfl

/-- A byte of a texel of 8 or 16 bits. -/
theorem boxBytes_at {bpt i : Nat} (hr : r < b.rows) (hi : i < b.cols * bpt)
    (hline : b.cols * bpt ≤ tl.line * 8)
    (hlast : tl.tmem * 8 + (b.rows - 1) * (tl.line * 8) + b.cols * bpt ≤ 0x1000)
    (hin : u.rowAddr b bpt r + i < size) :
    Moves.run m (u.boxBytes size tl bpt b) mem (tl.place r i) = m (u.rowAddr b bpt r + i) := by
  have hlt : ∀ r' i', r' < b.rows → i' < b.cols * bpt → tl.place r' i' < 0x1000 := by
    intro r' i' hr' hi'
    exact place_lt (by decide) (row_le hr' hi' hlast)
  rw [boxBytes_eq]
  refine Moves.run_byte ?_ fun mv hmv hdst => ?_
  · refine List.mem_flatMap.mpr ⟨r, List.mem_range.mpr hr, List.mem_flatMap.mpr
      ⟨i, List.mem_range.mpr hi, ?_⟩⟩
    unfold putByte
    rw [if_pos hin, Nat.mod_eq_of_lt (hlt r i hr hi)]
    exact List.mem_singleton_self _
  · -- no other byte of the box has this place
    obtain ⟨r', hr', i', hi', hmv⟩ := mem_loops hmv
    unfold putByte at hmv
    split_ifs at hmv
    · rw [List.mem_singleton, Nat.mod_eq_of_lt (hlt r' i' hr' hi')] at hmv
      subst hmv
      obtain ⟨rfl, rfl⟩ := place_inj (hi'.trans_le hline) (hi.trans_le hline) hdst
      rfl
    · exact absurd hmv List.not_mem_nil

/-- A texel of 4 bits. -/
theorem boxNibbles_at (hr : r < b.rows) (hc : c < b.cols)
    (hline : (b.cols + 1) / 2 ≤ tl.line * 8)
    (hlast : tl.tmem * 8 + (b.rows - 1) * (tl.line * 8) + (b.cols + 1) / 2 ≤ 0x1000)
    (hin : u.ti_addr + ((b.t0 + r) * u.ti_width + (b.s0 + c)) / 2 < size) :
    nib (c % 2 == 1) (Moves.run m (u.boxNibbles size tl b) mem (tl.place r (c / 2))) =
      nib ((b.s0 + c) % 2 == 1)
        (m (u.ti_addr + ((b.t0 + r) * u.ti_width + (b.s0 + c)) / 2)) := by
  have hlt : ∀ r' c', r' < b.rows → c' < b.cols → tl.place r' (c' / 2) < 0x1000 := by
    intro r' c' hr' hc'
    exact place_lt (by decide) (row_le hr' (by omega) hlast)
  -- the other half of the byte belongs to the texel next to this one
  refine Moves.nib_run (fun mv hmv v hput => ?_) (.inr ⟨.nibble (tl.place r (c / 2)) (c % 2 == 1)
    (u.ti_addr + ((b.t0 + r) * u.ti_width + (b.s0 + c)) / 2) ((b.s0 + c) % 2 == 1), ?_, ?_⟩)
  · obtain ⟨r', hr', c', hc', hmv⟩ := mem_loops hmv
    dsimp only at hmv
    split_ifs at hmv
    · rw [List.mem_singleton] at hmv
      subst hmv
      unfold Move.put? at hput
      dsimp only at hput
      split_ifs at hput with heq
      · have hplace : tl.place r (c / 2) = tl.place r' (c' / 2) % 0x1000 := heq.1
        rw [Nat.mod_eq_of_lt (hlt r' c' hr' hc')] at hplace
        obtain ⟨rfl, hhalf⟩ := place_inj (by omega) (by omega) hplace
        have hparity := heq.2
        rw [Bool.eq_iff_iff, beq_iff_eq, beq_iff_eq] at hparity
        have hcc : c = c' := by omega
        rw [hcc]
        exact (Option.some.inj hput).symm
    · exact absurd hmv List.not_mem_nil
  · refine List.mem_flatMap.mpr ⟨r, List.mem_range.mpr hr, List.mem_flatMap.mpr
      ⟨c, List.mem_range.mpr hc, ?_⟩⟩
    dsimp only
    rw [if_pos hin, List.mem_singleton]
    congr 1
    exact (Nat.mod_eq_of_lt (hlt r c hr hc)).symm
  · exact if_pos ⟨rfl, rfl⟩

theorem mem_put32 {mv : Move} {d sa : Nat} (heven : d % 2 = 0) (hd : d < 0x800) :
    mv ∈ put32 size false d sa ↔
      sa + 3 < size ∧ ∃ q < 4, mv = .byte (d + q / 2 * 0x800 + q % 2) (sa + q) := by
  have hd' : d % 0x800 / 2 * 2 = d := by omega
  unfold put32
  dsimp only
  rw [hd']
  by_cases hsa : size ≤ sa + 3
  · rw [if_pos hsa]
    exact iff_of_false List.not_mem_nil fun h => absurd h.1 (by omega)
  · rw [if_neg hsa, if_neg nofun]
    constructor
    · intro h
      refine ⟨by omega, ?_⟩
      simp only [List.mem_cons, List.not_mem_nil, or_false] at h
      rcases h with rfl | rfl | rfl | rfl
      · exact ⟨0, by decide, rfl⟩
      · exact ⟨1, by decide, rfl⟩
      · exact ⟨2, by decide, rfl⟩
      · exact ⟨3, by decide, rfl⟩
    · rintro ⟨-, q, hq, rfl⟩
      match q, hq with
      | 0, _ | 1, _ | 2, _ | 3, _ => simp

/-- Byte `q` of a texel of 32 bits: the first two are in the lower half. -/
theorem box32_at {q : Nat} (hr : r < b.rows) (hc : c < b.cols) (hq : q < 4)
    (hline : b.cols * 2 ≤ tl.line * 8)
    (hlast : tl.tmem * 8 + (b.rows - 1) * (tl.line * 8) + b.cols * 2 ≤ 0x800)
    (hin : u.rowAddr b 4 r + c * 4 + 3 < size) :
    Moves.run m (u.box32 size tl b) mem (tl.place r (c * 2) + q / 2 * 0x800 + q % 2) =
      m (u.rowAddr b 4 r + c * 4 + q) := by
  have hlt : ∀ r' c', r' < b.rows → c' < b.cols → tl.place r' (c' * 2) < 0x800 := by
    intro r' c' hr' hc'
    exact place_lt (by decide) (row_le hr' (by omega) hlast)
  have heven : ∀ r' c', tl.place r' (c' * 2) % 2 = 0 := fun r' c' => place_even (by omega)
  refine Moves.run_byte ?_ fun mv hmv hdst => ?_
  · exact List.mem_flatMap.mpr ⟨r, List.mem_range.mpr hr, List.mem_flatMap.mpr
      ⟨c, List.mem_range.mpr hc, (mem_put32 (heven r c) (hlt r c hr hc)).mpr ⟨hin, q, hq, rfl⟩⟩⟩
  · obtain ⟨r', hr', c', hc', hmv⟩ := mem_loops hmv
    obtain ⟨-, q', hq', rfl⟩ := (mem_put32 (heven r' c') (hlt r' c' hr' hc')).mp hmv
    have hdst' : tl.place r' (c' * 2) + q' / 2 * 0x800 + q' % 2 =
        tl.place r (c * 2) + q / 2 * 0x800 + q % 2 := hdst
    have hlow := hlt r' c' hr' hc'
    have hlow' := hlt r c hr hc
    have he := heven r' c'
    have he' := heven r c
    -- the half and the parity tell the bytes of a texel apart
    have hplace : tl.place r' (c' * 2) = tl.place r (c * 2) := by omega
    have hqq : q' = q := by omega
    obtain ⟨rfl, hcc⟩ := place_inj (by omega) (by omega) hplace
    rw [hqq, show c' = c by omega]
    rfl

end Loading

/-! ## Section 5: Images -/

/-- Where the texel of an image is, and its bytes; 4 bits are in one. -/
def TexUnit.texelAddr (u : TexUnit) (s t : Nat) : Nat :=
  u.ti_addr + (t * u.ti_width + s) * 2 ^ u.ti_size / 2

def TexUnit.texelBytes (u : TexUnit) : Nat := (2 ^ u.ti_size + 1) / 2

/-- Bits of a texel in a row of TMEM. One of 32 bits has the rest in the other
    half. -/
def TexUnit.rowBits (u : TexUnit) : Nat := if u.ti_size = 3 then 16 else 4 * 2 ^ u.ti_size

def TexUnit.span (u : TexUnit) (n : Nat) : Nat := (n * u.rowBits + 7) / 8

/-- A box inside of RDRAM, with rows that fit in `LINE` and the last of them in
    front of `limit`. -/
structure TexUnit.Fits (u : TexUnit) (size : Nat) (tl : Tile) (b : Box) (limit : Nat) : Prop where
  cols : b.s0 ≤ b.s1
  rows : b.t0 ≤ b.t1
  even : u.ti_size = 0 → u.ti_width % 2 = 0
  inside : ∀ s t, b.s0 ≤ s → s ≤ b.s1 → b.t0 ≤ t → t ≤ b.t1 →
    u.texelAddr s t + u.texelBytes ≤ size
  line : u.span b.cols ≤ tl.line * 8
  last : tl.tmem * 8 + (b.rows - 1) * (tl.line * 8) + u.span b.cols ≤ limit

/-- The colour of a texel of the image, with `entry` for the palette. -/
def TexUnit.imageTexel (u : TexUnit) (m : Moves.Mem) (entry : Nat → BitVec 32) (f : TexFold)
    (s t : Nat) : BitVec 32 :=
  let a := u.texelAddr s t
  let n := nib ((t * u.ti_width + s) % 2 == 1) (m a)
  match f.kind with
  | .ci4 => entry (f.palette * 16 + n.toNat)
  | .ci8 => entry (m a).toNat
  | .ci16 => entry (m a).toNat
  | .ia4 => colorIa4 n
  | .i4 => colorI4 n
  | .ia8 => colorIa8 (m a)
  | .i8 => colorI8 (m a)
  | .ia16 => colorIa16 (halfWord (m a) (m (a + 1)))
  | .rgba16 => rgba5551 (halfWord (m a) (m (a + 1)))
  | .rgba32 =>
    packRgba ((m a).setWidth 32) ((m (a + 1)).setWidth 32) ((m (a + 2)).setWidth 32)
      ((m (a + 3)).setWidth 32)

/-- Read from the lower half of TMEM only. -/
def TexKind.lowHalf : TexKind → Bool
  | .ci4 | .ci8 | .ci16 | .rgba32 => true
  | _ => false

/-- The sizes of a kind. -/
def TexKind.Sized (n : Nat) : TexKind → Prop
  | .ci4 | .ia4 | .i4 => n = 0
  | .ci8 | .ia8 | .i8 => n = 1
  | .ia16 | .rgba16 => n = 2
  | .ci16 => n = 2 ∨ n = 3
  | .rgba32 => n = 3

theorem foldOf_eq {ft : Tile} {mode : BitVec 2} {f : TexFold} (h : foldOf ft mode = some f) :
    f.kind.Sized ft.size ∧ f.rowBytes = ft.line * 8 ∧ f.base = ft.tmem * 8 := by
  obtain ⟨k, hk, rfl⟩ := Option.map_eq_some_iff.mp h
  refine ⟨?_, rfl, rfl⟩
  show k.Sized ft.size
  unfold kindOf at hk
  dsimp only at hk
  split at hk
  · next hsize =>
    rw [hsize]
    split_ifs at hk <;> cases hk <;> rfl
  · next hsize =>
    rw [hsize]
    split_ifs at hk <;> cases hk <;> rfl
  · next hsize =>
    rw [hsize]
    split_ifs at hk <;> cases hk
    · exact .inl rfl
    · rfl
    · rfl
  · next hsize =>
    rw [hsize]
    split_ifs at hk <;> cases hk
    · exact .inr rfl
    · rfl
  · cases hk

section Images

variable {u : TexUnit} {m mem : Moves.Mem} {size limit : Nat} {tl : Tile} {b : Box} {r c : Nat}

theorem TexUnit.Fits.in_order (h : u.Fits size tl b limit) : ¬ (b.s1 < b.s0 ∨ b.t1 < b.t0) := by
  have := h.cols
  have := h.rows
  omega

theorem TexUnit.Fits.inside_at (h : u.Fits size tl b limit) (hr : r < b.rows) (hc : c < b.cols) :
    u.texelAddr (b.s0 + c) (b.t0 + r) + u.texelBytes ≤ size := by
  unfold Box.rows at hr
  unfold Box.cols at hc
  exact h.inside _ _ (by omega) (by omega) (by omega) (by omega)

theorem loadBox_moves4 (h0 : u.ti_size = 0) :
    (u.loadBox size tl b).moves = u.boxNibbles size tl b := by
  unfold TexUnit.loadBox
  dsimp only
  rw [if_pos (by rw [h0]; rfl)]

/-- The sizes of 8 and 16 bits. -/
theorem bpt_eq {bpt : Nat} (hbits : 2 ^ u.ti_size = bpt * 2) (hbpt : bpt = 1 ∨ bpt = 2) :
    u.ti_size = bpt ∧ bytesPerTexel u.ti_size = bpt := by
  have hsize : u.ti_size = bpt := by
    have := u.ti_size_lt
    rcases hbpt with rfl | rfl <;> interval_cases u.ti_size <;> omega
  rw [hsize]
  rcases hbpt with rfl | rfl <;> exact ⟨rfl, rfl⟩

theorem loadBox_moves8 {bpt : Nat} (hyuv : u.yuv tl = false) (hbits : 2 ^ u.ti_size = bpt * 2)
    (hbpt : bpt = 1 ∨ bpt = 2) (horder : ¬ (b.s1 < b.s0 ∨ b.t1 < b.t0)) :
    (u.loadBox size tl b).moves = u.boxBytes size tl bpt b := by
  unfold TexUnit.loadBox
  dsimp only
  rw [(bpt_eq hbits hbpt).2, hyuv, if_neg (by omega), if_neg horder, if_neg (by decide),
    if_neg (by omega)]

theorem loadBox_moves32 (h3 : u.ti_size = 3) (horder : ¬ (b.s1 < b.s0 ∨ b.t1 < b.t0)) :
    (u.loadBox size tl b).moves = u.box32 size tl b := by
  have hyuv : u.yuv tl = false := by
    unfold TexUnit.yuv
    rw [h3]
    exact Bool.and_false _
  have hbytes : bytesPerTexel u.ti_size = 4 := by rw [h3]; rfl
  unfold TexUnit.loadBox
  dsimp only
  rw [hbytes, hyuv, if_neg (by decide), if_neg horder, if_neg (by decide), if_pos rfl]

/-- A texel of 4 bits that is loaded. -/
theorem loadBox_nib (h0 : u.ti_size = 0) (h : u.Fits size tl b 0x1000) (hr : r < b.rows)
    (hc : c < b.cols) :
    nib (c % 2 == 1) (Moves.run m (u.loadBox size tl b).moves mem (tl.place r (c / 2))) =
      nib (((b.t0 + r) * u.ti_width + (b.s0 + c)) % 2 == 1)
        (m (u.texelAddr (b.s0 + c) (b.t0 + r))) := by
  have haddr : u.texelAddr (b.s0 + c) (b.t0 + r) =
      u.ti_addr + ((b.t0 + r) * u.ti_width + (b.s0 + c)) / 2 := by
    unfold TexUnit.texelAddr
    rw [h0, Nat.pow_zero, Nat.mul_one]
  have hspan : u.span b.cols = (b.cols + 1) / 2 := by
    unfold TexUnit.span TexUnit.rowBits
    rw [h0, if_neg (by decide)]
    omega
  have hin := h.inside_at hr hc
  have hline := h.line
  have hlast := h.last
  have hbytes : u.texelBytes = 1 := by
    unfold TexUnit.texelBytes
    rw [h0]
    rfl
  -- the width of the image is even, so that a column tells the half
  have hparity : ((b.t0 + r) * u.ti_width + (b.s0 + c)) % 2 = (b.s0 + c) % 2 := by
    have heven := h.even h0
    rw [Nat.add_mod, Nat.mul_mod, heven, Nat.mul_zero, Nat.zero_mod, Nat.zero_add, Nat.mod_mod]
  rw [hspan] at hline hlast
  rw [haddr, hbytes] at hin
  rw [loadBox_moves4 h0, boxNibbles_at hr hc hline hlast hin, haddr, hparity]

/-- Byte `j` of a texel of 8 or 16 bits that is loaded. -/
theorem loadBox_byte {bpt j : Nat} (hyuv : u.yuv tl = false) (hbits : 2 ^ u.ti_size = bpt * 2)
    (hbpt : bpt = 1 ∨ bpt = 2) (h : u.Fits size tl b 0x1000) (hr : r < b.rows) (hc : c < b.cols)
    (hj : j < bpt) :
    Moves.run m (u.loadBox size tl b).moves mem (tl.place r (c * bpt + j)) =
      m (u.texelAddr (b.s0 + c) (b.t0 + r) + j) := by
  have hsize := (bpt_eq hbits hbpt).1
  have haddr : u.texelAddr (b.s0 + c) (b.t0 + r) + j = u.rowAddr b bpt r + (c * bpt + j) := by
    unfold TexUnit.texelAddr TexUnit.rowAddr
    rw [hbits, ← Nat.mul_assoc, Nat.mul_div_cancel _ (by decide), ← Nat.add_assoc, Nat.add_mul,
      Nat.add_mul, Nat.add_mul]
    omega
  have hspan : u.span b.cols = b.cols * bpt := by
    unfold TexUnit.span TexUnit.rowBits
    rw [hbits, if_neg (by omega)]
    rcases hbpt with rfl | rfl <;> omega
  have hin := h.inside_at hr hc
  have hline := h.line
  have hlast := h.last
  have htexel : u.texelBytes = bpt := by
    unfold TexUnit.texelBytes
    rw [hbits]
    omega
  have hi : c * bpt + j < b.cols * bpt := by rcases hbpt with rfl | rfl <;> omega
  rw [hspan] at hline hlast
  rw [htexel] at hin
  rw [loadBox_moves8 hyuv hbits hbpt h.in_order, boxBytes_at hr hi hline hlast (by omega), haddr]

/-- Byte `q` of a texel of 32 bits that is loaded. -/
theorem loadBox_quarter {q : Nat} (h3 : u.ti_size = 3) (h : u.Fits size tl b 0x800)
    (hr : r < b.rows) (hc : c < b.cols) (hq : q < 4) :
    Moves.run m (u.loadBox size tl b).moves mem
        (tl.place r (c * 2) + q / 2 * 0x800 + q % 2) =
      m (u.texelAddr (b.s0 + c) (b.t0 + r) + q) := by
  have haddr : u.texelAddr (b.s0 + c) (b.t0 + r) = u.rowAddr b 4 r + c * 4 := by
    unfold TexUnit.texelAddr TexUnit.rowAddr
    rw [h3]
    omega
  have hspan : u.span b.cols = b.cols * 2 := by
    unfold TexUnit.span TexUnit.rowBits
    rw [h3, if_pos rfl]
    omega
  have hin := h.inside_at hr hc
  have hline := h.line
  have hlast := h.last
  have htexel : u.texelBytes = 4 := by
    unfold TexUnit.texelBytes
    rw [h3]
    rfl
  rw [hspan] at hline hlast
  rw [htexel, haddr] at hin
  rw [loadBox_moves32 h3 h.in_order, haddr, box32_at hr hc hq hline hlast (by omega)]

theorem TexUnit.Fits.mono {limit' : Nat} (h : u.Fits size tl b limit) (hle : limit ≤ limit') :
    u.Fits size tl b limit' :=
  { h with last := h.last.trans hle }

/-- A texel of 8 bits. -/
theorem loadBox_one (h1 : u.ti_size = 1) (hyuv : u.yuv tl = false) (h : u.Fits size tl b 0x1000)
    (hr : r < b.rows) (hc : c < b.cols) :
    Moves.run m (u.loadBox size tl b).moves mem (tl.place r c) =
      m (u.texelAddr (b.s0 + c) (b.t0 + r)) := by
  have hbits : 2 ^ u.ti_size = 1 * 2 := by rw [h1]; rfl
  have hbyte : Moves.run m (u.loadBox size tl b).moves mem (tl.place r (c * 1 + 0)) =
      m (u.texelAddr (b.s0 + c) (b.t0 + r) + 0) :=
    loadBox_byte hyuv hbits (.inl rfl) h hr hc Nat.one_pos
  rwa [Nat.mul_one, Nat.add_zero, Nat.add_zero] at hbyte

/-- A texel of 16 bits. -/
theorem loadBox_two (h2 : u.ti_size = 2) (hyuv : u.yuv tl = false) (h : u.Fits size tl b 0x1000)
    (hr : r < b.rows) (hc : c < b.cols) :
    Moves.run m (u.loadBox size tl b).moves mem (tl.place r (c * 2)) =
        m (u.texelAddr (b.s0 + c) (b.t0 + r)) ∧
      Moves.run m (u.loadBox size tl b).moves mem (tl.place r (c * 2) + 1) =
        m (u.texelAddr (b.s0 + c) (b.t0 + r) + 1) := by
  have hbits : 2 ^ u.ti_size = 2 * 2 := by rw [h2]; rfl
  rw [← place_succ (Nat.mul_mod_left c 2)]
  exact ⟨loadBox_byte hyuv hbits (.inr rfl) h hr hc Nat.two_pos,
    loadBox_byte hyuv hbits (.inr rfl) h hr hc Nat.one_lt_two⟩

/-- A texel of 32 bits. -/
theorem loadBox_four (h3 : u.ti_size = 3) (h : u.Fits size tl b 0x800) (hr : r < b.rows)
    (hc : c < b.cols) :
    let a := u.texelAddr (b.s0 + c) (b.t0 + r)
    let p := tl.place r (c * 2)
    let after := Moves.run m (u.loadBox size tl b).moves mem
    after p = m a ∧ after (p + 1) = m (a + 1) ∧ after (p + 0x800) = m (a + 2) ∧
      after (p + 0x800 + 1) = m (a + 3) :=
  ⟨loadBox_quarter h3 h hr hc (show 0 < 4 by decide),
    loadBox_quarter h3 h hr hc (show 1 < 4 by decide),
    loadBox_quarter h3 h hr hc (show 2 < 4 by decide),
    loadBox_quarter h3 h hr hc (show 3 < 4 by decide)⟩

section Fetch

variable {ft : Tile} {mode : BitVec 2} {f : TexFold} {bank : Nat}

/-- The address of a byte is its place, in front of the limit. -/
theorem fetch_addr (hrow : f.rowBytes = tl.line * 8) (hbase : f.base = tl.tmem * 8)
    (h : u.Fits size tl b 0x1000) (hr : r < b.rows) {x : Nat} (hx : x < u.span b.cols) :
    (f.base + r * f.rowBytes + x) % 2 ^ 32 ^^^ flip r = tl.place r x ∧ tl.place r x < 0x1000 := by
  have hlt := row_le hr hx h.last
  rw [hrow, hbase, Nat.mod_eq_of_lt (by omega)]
  exact ⟨rfl, place_lt (by decide) hlt⟩

/-- And in the lower half too, where it is that of an index. -/
theorem fetch_low_addr (hrow : f.rowBytes = tl.line * 8) (hbase : f.base = tl.tmem * 8)
    (h : u.Fits size tl b 0x800) (hr : r < b.rows) {x : Nat} (hx : x < u.span b.cols) :
    (f.base + r * f.rowBytes + x) % 2 ^ 32 % 0x800 ^^^ flip r = tl.place r x := by
  have hlt := row_le hr hx h.last
  rw [hrow, hbase, Nat.mod_eq_of_lt (show _ < 2 ^ 32 by omega), Nat.mod_eq_of_lt hlt]
  rfl

/-- Of a texel of 16 bits both bytes are. -/
theorem fetch_addr_two (hrow : f.rowBytes = tl.line * 8) (hbase : f.base = tl.tmem * 8)
    (h : u.Fits size tl b 0x1000) (hr : r < b.rows) (hx : c * 2 < u.span b.cols) :
    (f.base + r * f.rowBytes + c * 2) % 2 ^ 32 ^^^ flip r = tl.place r (c * 2) ∧
      tl.place r (c * 2) + 1 < 0x1000 := by
  obtain ⟨haddr, hlt⟩ := fetch_addr hrow hbase h hr hx
  have heven : tl.place r (c * 2) % 2 = 0 := place_even (Nat.mul_mod_left c 2)
  exact ⟨haddr, by omega⟩

theorem lt_span_nib (h0 : u.ti_size = 0) (hc : c < b.cols) : c / 2 < u.span b.cols := by
  unfold TexUnit.span TexUnit.rowBits
  rw [h0, if_neg (by decide)]
  omega

theorem lt_span_byte (h1 : u.ti_size = 1) (hc : c < b.cols) : c < u.span b.cols := by
  unfold TexUnit.span TexUnit.rowBits
  rw [h1, if_neg (by decide)]
  omega

theorem lt_span_half (h23 : u.ti_size = 2 ∨ u.ti_size = 3) (hc : c < b.cols) :
    c * 2 < u.span b.cols := by
  unfold TexUnit.span TexUnit.rowBits
  rcases h23 with h2 | h3
  · rw [h2, if_neg (by decide)]
    omega
  · rw [h3, if_pos rfl]
    omega

/-- **Agreement.** A texel that `LOAD_TILE` put in TMEM and that is fetched
    from there is the texel of the image. -/
theorem fetch_loaded (hyuv : u.yuv tl = false) (hf : foldOf ft mode = some f)
    (htmem : ft.tmem = tl.tmem) (hline : ft.line = tl.line) (hsize : ft.size = u.ti_size)
    (h : u.Fits size tl b (if f.kind.lowHalf then 0x800 else 0x1000)) (hr : r < b.rows)
    (hc : c < b.cols) :
    fetchK (Moves.run m (u.loadBox size tl b).moves mem) mode f c r bank =
      u.imageTexel m
        (fun idx => tlutEntry (Moves.run m (u.loadBox size tl b).moves mem) mode idx bank) f
        (b.s0 + c) (b.t0 + r) := by
  obtain ⟨hsized, hrow, hbase⟩ := foldOf_eq hf
  rw [hsize] at hsized
  rw [hline] at hrow
  rw [htmem] at hbase
  have hfull : u.Fits size tl b 0x1000 := h.mono (by split_ifs <;> decide)
  unfold fetchK TexUnit.imageTexel
  dsimp only
  -- an index is read from the lower half, a colour in front of the end of TMEM
  cases hk : f.kind with
  | ci4 =>
    rw [hk] at h hsized
    dsimp only
    rw [fetch_low_addr hrow hbase h hr (lt_span_nib hsized hc), loadBox_nib hsized hfull hr hc]
  | ia4 =>
    rw [hk] at hsized
    obtain ⟨haddr, hlt⟩ := fetch_addr hrow hbase hfull hr (lt_span_nib hsized hc)
    dsimp only
    rw [haddr, if_neg (not_le.mpr hlt), loadBox_nib hsized hfull hr hc]
  | i4 =>
    rw [hk] at hsized
    obtain ⟨haddr, hlt⟩ := fetch_addr hrow hbase hfull hr (lt_span_nib hsized hc)
    dsimp only
    rw [haddr, if_neg (not_le.mpr hlt), loadBox_nib hsized hfull hr hc]
  | ci8 =>
    rw [hk] at h hsized
    dsimp only
    rw [fetch_low_addr hrow hbase h hr (lt_span_byte hsized hc),
      loadBox_one hsized hyuv hfull hr hc]
  | ia8 =>
    rw [hk] at hsized
    obtain ⟨haddr, hlt⟩ := fetch_addr hrow hbase hfull hr (lt_span_byte hsized hc)
    dsimp only
    rw [haddr, if_neg (not_le.mpr hlt), loadBox_one hsized hyuv hfull hr hc]
  | i8 =>
    rw [hk] at hsized
    obtain ⟨haddr, hlt⟩ := fetch_addr hrow hbase hfull hr (lt_span_byte hsized hc)
    dsimp only
    rw [haddr, if_neg (not_le.mpr hlt), loadBox_one hsized hyuv hfull hr hc]
  | ia16 =>
    rw [hk] at hsized
    obtain ⟨haddr, hlt⟩ := fetch_addr_two hrow hbase hfull hr (lt_span_half (.inl hsized) hc)
    obtain ⟨hfst, hsnd⟩ := @loadBox_two u m mem size tl b r c hsized hyuv hfull hr hc
    dsimp only
    rw [haddr, if_neg (not_le.mpr hlt), hfst, hsnd]
  | rgba16 =>
    rw [hk] at hsized
    obtain ⟨haddr, hlt⟩ := fetch_addr_two hrow hbase hfull hr (lt_span_half (.inl hsized) hc)
    obtain ⟨hfst, hsnd⟩ := @loadBox_two u m mem size tl b r c hsized hyuv hfull hr hc
    dsimp only
    rw [haddr, if_neg (not_le.mpr hlt), hfst, hsnd]
  | rgba32 =>
    rw [hk] at h hsized
    have hx := lt_span_half (.inr hsized) hc
    obtain ⟨haddr, -⟩ := fetch_addr hrow hbase hfull hr hx
    obtain ⟨hr0, hg, hb0, ha⟩ := @loadBox_four u m mem size tl b r c hsized h hr hc
    have hplace : tl.place r (c * 2) % 0x800 / 2 * 2 = tl.place r (c * 2) := by
      have hlow : tl.place r (c * 2) < 0x800 := place_lt (by decide) (row_le hr hx h.last)
      have heven : tl.place r (c * 2) % 2 = 0 := place_even (Nat.mul_mod_left c 2)
      omega
    dsimp only
    rw [haddr, hplace, hr0, hg, hb0, ha]
  | ci16 =>
    rw [hk] at h hsized
    have hx := lt_span_half hsized hc
    -- the first byte of the texel, of 16 bits or of 32
    have hfst : Moves.run m (u.loadBox size tl b).moves mem (tl.place r (c * 2)) =
        m (u.texelAddr (b.s0 + c) (b.t0 + r)) := by
      rcases hsized with h2 | h3
      · exact (loadBox_two h2 hyuv hfull hr hc).1
      · exact (loadBox_four h3 h hr hc).1
    dsimp only
    rw [fetch_low_addr hrow hbase h hr hx, hfst]

end Fetch

end Images

end Rdp
