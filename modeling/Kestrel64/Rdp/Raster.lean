import Kestrel64.Rdp.EdgeRange

/-! # RDP: The Stores of a Primitive

    The primitives of `rdp/rdp.cpp`, down to the stores to the colour image and
    to the z image: `SET_SCISSOR`, triangles, texture rectangles and fill
    rectangles. What becomes of a pixel between the walk and the blender (the
    texel, the combiner, the alpha compare, the depth compare) is a parameter.
    The hidden bits of RDRAM, the GPU and the debugging switches of the
    environment are not here.

    * `stores_inside_iff` — when every store is that of a pixel in the scissor.
-/

namespace Rdp

/-! ## Section 1: State -/

structure Raster where
  other_hi : BitVec 32
  other_lo : BitVec 32
  ci_addr : BitVec 32
  /-- 1, 2 and 3 are 8, 16 and 32 bits. -/
  ci_size : Nat
  ci_width : Nat
  zi_addr : BitVec 32
  sx0 : Nat
  sy0 : Nat
  sx1 : Nat
  sy1 : Nat
  /-- The right limit in FILL and COPY. -/
  sx1fc : Nat
  costOnly : Bool
  /-- Bytes of RDRAM. -/
  size : Nat

/-- `(cmd >> sh) & 0xfff` -/
def field12 (cmd : BitVec 64) (sh : Nat) : Nat := cmd.toNat / 2 ^ sh % 2 ^ 12

/-- `SET_SCISSOR` -/
def Raster.setScissor (r : Raster) (cmd : BitVec 64) : Raster :=
  { r with
    sx0 := field12 cmd 44 / 4
    sy0 := field12 cmd 32 / 4
    sx1 := (field12 cmd 12 + 3) / 4
    sy1 := (field12 cmd 0 + 3) / 4
    sx1fc := field12 cmd 12 / 4 + 1 }

/-- 0 and 1 are 1-cycle and 2-cycle mode, 2 is COPY and 3 is FILL. -/
def Raster.cycleType (r : Raster) : Nat := r.other_hi.toNat / 2 ^ 20 % 4

def Raster.scX1 (r : Raster) : Nat := if 2 ≤ r.cycleType then r.sx1fc else r.sx1

/-- Bytes of a pixel of the colour image. -/
def Raster.bpp (r : Raster) : Nat := if r.ci_size = 3 then 4 else if r.ci_size = 1 then 1 else 2

/-! ## Section 2: Stores -/

inductive Image
  | color
  | z
  deriving DecidableEq, Repr

/-- `len` bytes at `addr`, for the pixel `(x, y)`. -/
structure Store where
  image : Image
  x : Int
  y : Int
  addr : BitVec 32
  len : Nat
  deriving DecidableEq, Repr

/-- `base + (u32(y) * ci_width + u32(x)) * len` -/
def Raster.pixelAddr (r : Raster) (base : BitVec 32) (len : Nat) (x y : Int) : BitVec 32 :=
  base + (BitVec.ofInt 32 y * BitVec.ofNat 32 r.ci_width + BitVec.ofInt 32 x) * BitVec.ofNat 32 len

/-- The last of `len` bytes is in RDRAM. -/
def Raster.inRdram (r : Raster) (addr : BitVec 32) (len : Nat) : Bool :=
  (addr + BitVec.ofNat 32 (len - 1)).toNat < r.size

/-- `wr8`, `wr16` and `wr32`. -/
def Raster.put (r : Raster) (image : Image) (x y : Int) (addr : BitVec 32) (len : Nat) :
    List Store :=
  if r.inRdram addr len then [{ image, x, y, addr, len }] else []

def Raster.storePixel (r : Raster) (x y : Int) : List Store :=
  if r.ci_size = 3 then r.put .color x y (r.pixelAddr r.ci_addr 4 x y) 4
  else if r.ci_size = 1 then r.put .color x y (r.pixelAddr r.ci_addr 1 x y) 1
  else r.put .color x y (r.pixelAddr r.ci_addr 2 x y) 2

def Raster.inScissor (r : Raster) (x y : Int) : Bool :=
  r.sx0 ≤ x && x < r.sx1 && r.sy0 ≤ y && y < r.sy1

def Raster.putPixel (r : Raster) (x y : Int) : List Store :=
  if r.inScissor x y then r.storePixel x y else []

/-- What becomes of a pixel: it is dropped, or its colour is stored, and its
    depth with it. A primitive comes to each pixel once. -/
abbrev Pipeline := Int → Int → Option Bool

/-- `z` is not null. -/
def Raster.blendPixel (r : Raster) (px : Pipeline) (z : Bool) (x y : Int) : List Store :=
  let zoff := r.pixelAddr r.zi_addr 2 x y
  if !r.inScissor x y || (z && !r.inRdram zoff 2) then []
  else
    match px x y with
    | none => []
    | some deep =>
      -- Z_UPD
      let zs := if z && deep && r.other_lo.getLsbD 5 then r.put .z x y zoff 2 else []
      if 2 ≤ r.cycleType then zs ++ r.storePixel x y else r.storePixel x y ++ zs

/-- The primitive compares or updates depths. -/
def Raster.zActive (r : Raster) : Bool :=
  r.zi_addr != 0 && (r.other_lo.getLsbD 4 || r.other_lo.getLsbD 5)

/-! ## Section 3: Primitives -/

def Raster.scissor (r : Raster) : Scissor := { x0 := r.sx0, y0 := r.sy0, x1 := r.sx1, y1 := r.sy1 }

/-- `texel` says that the primitive has a texture, and no other in its place. -/
def Raster.mode (r : Raster) (texel : Bool) : Mode where
  aa := r.other_lo.getLsbD 3
  fill := r.cycleType == 3
  copy16 := r.cycleType == 2 && r.ci_size == 2 && texel

/-- A pixel of a triangle in FILL. -/
def Raster.fillTriPixel (r : Raster) (x y : Int) : List Store :=
  if r.ci_size = 3 then r.put .color x y (r.pixelAddr r.ci_addr 4 x y) 4
  else r.put .color x y (r.pixelAddr r.ci_addr 2 x y) 2

def Raster.drawTriangle (r : Raster) (px : Pipeline) (texel : Bool) (t : Tri) : List Store :=
  let m := r.mode texel
  if r.costOnly then []
  else
    (t.rows r.scissor).flatMap fun y => (t.pixels m r.scissor y).flatMap fun p =>
      if m.fill then r.fillTriPixel p.1 y
      else r.blendPixel px (r.zActive && !m.copy16) p.1 y

/-- A loop over `[X0, X1) x [Y0, Y1)`. -/
def eachPixel (X0 Y0 X1 Y1 : Nat) (f : Int → Int → List Store) : List Store :=
  (List.range (Y1 - Y0)).flatMap fun j => (List.range (X1 - X0)).flatMap fun i =>
    f (X0 + i : Nat) (Y0 + j : Nat)

/-- The triangle a texture rectangle is drawn as. -/
def rectTri (c₀ : BitVec 64) (incl : Bool) : Tri :=
  let yl2 := BitVec.ofNat 64 (field12 c₀ 32) ||| if incl then 3 else 0
  let xl2 := BitVec.ofNat 64 (field12 c₀ 44) <<< 14
  let xh2 := BitVec.ofNat 64 (field12 c₀ 12) <<< 14
  let tile := BitVec.ofNat 64 (c₀.toNat / 2 ^ 24 % 8)
  let w₀ := 0x0a <<< 56 ||| 1 <<< 55 ||| tile <<< 48 ||| yl2 <<< 32 ||| yl2 <<< 16 |||
    BitVec.ofNat 64 (field12 c₀ 0)
  Tri.ofWords w₀ (xl2 <<< 32) (xh2 <<< 32) (xl2 <<< 32)

def Raster.texRect (r : Raster) (px : Pipeline) (texel : Bool) (c₀ : BitVec 64) : List Store :=
  let incl : Bool := 2 ≤ r.cycleType
  if r.cycleType = 2 ∧ r.ci_size = 1 then
    -- indices, without the blender
    let xlEx := if incl then field12 c₀ 44 / 4 + 1 else (field12 c₀ 44 + 3) / 4
    let ylEx := if incl then field12 c₀ 32 / 4 + 1 else (field12 c₀ 32 + 3) / 4
    let X0 := max ((field12 c₀ 12 + 3) / 4) r.sx0
    let Y0 := max ((field12 c₀ 0 + 3) / 4) r.sy0
    if r.costOnly then []
    else eachPixel X0 Y0 (min xlEx r.scX1) (min ylEx r.sy1) fun x y =>
      if (px x y).isSome then r.putPixel x y else []
  else r.drawTriangle px texel (rectTri c₀ incl)

def Raster.fillRect (r : Raster) (px : Pipeline) (x0 y0 x1 y1 : Nat) : List Store :=
  if r.costOnly then []
  else
    eachPixel (max x0 r.sx0) (max y0 r.sy0) (min x1 r.scX1) (min y1 r.sy1) fun x y =>
      if r.cycleType < 2 then r.blendPixel px r.zActive x y else r.storePixel x y

/-- `FILL_RECTANGLE` -/
def Raster.fillRectangle (r : Raster) (px : Pipeline) (cmd : BitVec 64) : List Store :=
  let qxh := field12 cmd 12
  let qyh := field12 cmd 0
  let qxl := field12 cmd 44
  let qyl := field12 cmd 32
  if 2 ≤ r.cycleType then r.fillRect px (qxh / 4) (qyh / 4) (qxl / 4 + 1) (qyl / 4 + 1)
  else r.fillRect px ((qxh + 3) / 4) ((qyh + 3) / 4) ((qxl + 3) / 4) ((qyl + 3) / 4)

inductive Prim
  | triangle (w₀ w₁ w₂ w₃ : BitVec 64) (texel : Bool)
  | texRect (c₀ : BitVec 64) (texel : Bool)
  | fillRect (cmd : BitVec 64)

/-- The stores of a primitive, in their order. -/
def Raster.stores (r : Raster) (px : Pipeline) : Prim → List Store
  | .triangle w₀ w₁ w₂ w₃ texel => r.drawTriangle px texel (.ofWords w₀ w₁ w₂ w₃)
  | .texRect c₀ texel => r.texRect px texel c₀
  | .fillRect cmd => r.fillRectangle px cmd

/-! ## Section 4: Single pixels -/

/-- The store is that of a pixel in the scissor, at its place in the image. -/
structure Store.Inside (r : Raster) (st : Store) : Prop where
  x0 : (r.sx0 : Int) ≤ st.x
  x1 : st.x < (r.scX1 : Int)
  y0 : (r.sy0 : Int) ≤ st.y
  y1 : st.y < (r.sy1 : Int)
  color : st.image = .color → st.addr = r.pixelAddr r.ci_addr r.bpp st.x st.y ∧ st.len = r.bpp
  z : st.image = .z → st.addr = r.pixelAddr r.zi_addr 2 st.x st.y ∧ st.len = 2

/-- What `SET_SCISSOR` sees to. -/
structure Raster.Scissored (r : Raster) : Prop where
  x0 : r.sx0 < 2 ^ 10
  x1 : r.sx1 ≤ 2 ^ 10
  scX1 : r.sx1 ≤ r.scX1

theorem setScissor_scissored (r : Raster) (cmd : BitVec 64) : (r.setScissor cmd).Scissored := by
  have hfield (sh : Nat) : field12 cmd sh < 2 ^ 12 := Nat.mod_lt _ (by decide)
  have h44 := hfield 44
  have h12 := hfield 12
  refine ⟨?_, ?_, ?_⟩
  · show field12 cmd 44 / 4 < 2 ^ 10
    omega
  · show (field12 cmd 12 + 3) / 4 ≤ 2 ^ 10
    omega
  · show (field12 cmd 12 + 3) / 4 ≤ (r.setScissor cmd).scX1
    unfold Raster.scX1
    split_ifs
    · show _ ≤ field12 cmd 12 / 4 + 1
      omega
    · exact le_rfl

section Pixels

variable {r : Raster} {px : Pipeline} {x y : Int} {st : Store}

theorem mem_put {image : Image} {addr : BitVec 32} {len : Nat} :
    st ∈ r.put image x y addr len ↔ r.inRdram addr len = true ∧ st = ⟨image, x, y, addr, len⟩ := by
  unfold Raster.put
  split_ifs with h
  · rw [List.mem_singleton, and_iff_right h]
  · exact ⟨fun hst => absurd hst List.not_mem_nil, fun hst => absurd hst.1 h⟩

theorem storePixel_eq :
    r.storePixel x y = r.put .color x y (r.pixelAddr r.ci_addr r.bpp x y) r.bpp := by
  unfold Raster.storePixel Raster.bpp
  split_ifs <;> rfl

/-- The pixel is in the scissor of this cycle type. -/
def Raster.Holds (r : Raster) (x y : Int) : Prop :=
  (r.sx0 : Int) ≤ x ∧ x < (r.scX1 : Int) ∧ (r.sy0 : Int) ≤ y ∧ y < (r.sy1 : Int)

theorem storePixel_inside (h : r.Holds x y) (hst : st ∈ r.storePixel x y) : st.Inside r := by
  rw [storePixel_eq, mem_put] at hst
  obtain ⟨-, rfl⟩ := hst
  exact ⟨h.1, h.2.1, h.2.2.1, h.2.2.2, fun _ => ⟨rfl, rfl⟩, nofun⟩

theorem holds_of_inScissor (hr : r.Scissored) (h : r.inScissor x y = true) : r.Holds x y := by
  have hx1 := hr.scX1
  simp only [Raster.inScissor, Bool.and_eq_true, decide_eq_true_iff] at h
  unfold Raster.Holds
  omega

theorem putPixel_inside (hr : r.Scissored) (hst : st ∈ r.putPixel x y) : st.Inside r := by
  unfold Raster.putPixel at hst
  split_ifs at hst with h
  · exact storePixel_inside (holds_of_inScissor hr h) hst
  · exact absurd hst List.not_mem_nil

/-- The blender looks at the scissor itself. -/
theorem blendPixel_inside (hr : r.Scissored) {z : Bool} (hst : st ∈ r.blendPixel px z x y) :
    st.Inside r := by
  unfold Raster.blendPixel at hst
  dsimp only at hst
  by_cases hout : (!r.inScissor x y || z && !r.inRdram (r.pixelAddr r.zi_addr 2 x y) 2) = true
  · rw [if_pos hout] at hst
    exact absurd hst List.not_mem_nil
  · rw [if_neg hout] at hst
    have hheld : r.Holds x y := by
      refine holds_of_inScissor hr ?_
      by_contra hsc
      rw [Bool.not_eq_true] at hsc
      exact hout (by rw [hsc]; rfl)
    have hz {b : Bool} (h : st ∈ if b then r.put .z x y (r.pixelAddr r.zi_addr 2 x y) 2 else []) :
        st.Inside r := by
      cases b with
      | false => exact absurd h List.not_mem_nil
      | true =>
        obtain ⟨-, rfl⟩ := mem_put.mp h
        exact ⟨hheld.1, hheld.2.1, hheld.2.2.1, hheld.2.2.2, nofun, fun _ => ⟨rfl, rfl⟩⟩
    cases hpx : px x y with
    | none =>
      rw [hpx] at hst
      exact absurd hst List.not_mem_nil
    | some deep =>
      rw [hpx] at hst
      dsimp only at hst
      by_cases hcycle : 2 ≤ r.cycleType
      · rw [if_pos hcycle] at hst
        exact (List.mem_append.mp hst).elim hz (storePixel_inside hheld)
      · rw [if_neg hcycle] at hst
        exact (List.mem_append.mp hst).elim (storePixel_inside hheld) hz

theorem mem_eachPixel {X0 Y0 X1 Y1 : Nat} {f : Int → Int → List Store}
    (h : st ∈ eachPixel X0 Y0 X1 Y1 f) :
    ∃ x y : Nat, X0 ≤ x ∧ x < X1 ∧ Y0 ≤ y ∧ y < Y1 ∧ st ∈ f x y := by
  obtain ⟨j, hj, hst⟩ := List.mem_flatMap.mp h
  obtain ⟨i, hi, hst⟩ := List.mem_flatMap.mp hst
  have := List.mem_range.mp hj
  have := List.mem_range.mp hi
  exact ⟨X0 + i, Y0 + j, by omega, by omega, by omega, by omega, hst⟩

/-- Rectangles are cut to the scissor before they are drawn. -/
theorem fillRect_inside (hr : r.Scissored) {x0 y0 x1 y1 : Nat}
    (hst : st ∈ r.fillRect px x0 y0 x1 y1) : st.Inside r := by
  unfold Raster.fillRect at hst
  split_ifs at hst
  · exact absurd hst List.not_mem_nil
  · obtain ⟨x, y, -, -, -, -, hst⟩ := mem_eachPixel hst
    exact blendPixel_inside hr hst
  · obtain ⟨x, y, hx0, hx1, hy0, hy1, hst⟩ := mem_eachPixel hst
    exact storePixel_inside ⟨by omega, by omega, by omega, by omega⟩ hst

end Pixels

/-! ## Section 5: Spans -/

section Spans

variable {t : Tri} {sc : Scissor} {m : Mode}

theorem mem_xRange_iff {q : Nat → Int × Int} {x : Int} :
    x ∈ xRange q ↔ max (spanX0 q) 0 ≤ x ∧ x ≤ spanX1 q := by
  unfold xRange
  rw [List.mem_map]
  constructor
  · rintro ⟨i, hi, rfl⟩
    have := List.mem_range.mp hi
    omega
  · rintro ⟨hlo, hhi⟩
    exact ⟨(x - max (spanX0 q) 0).toNat, List.mem_range.mpr (by omega), by omega⟩

/-- In FILL the whole span is drawn. -/
theorem mem_pixels_fill (hfill : m.fill = true) {y : Int} {p : Int × Nat} :
    p ∈ t.pixels m sc y ↔ t.hasRow sc y = true ∧ p.1 ∈ xRange (t.subs sc y) ∧
      p.2 = popcount (coverage (t.subs sc y) p.1) := by
  have htakes (c : BitVec 32) : m.takes c = true := by
    rw [Mode.takes, hfill, Bool.or_true, Bool.true_or]
  unfold Tri.pixels
  split_ifs with hrow
  · rw [List.mem_map, and_iff_right hrow]
    constructor
    · rintro ⟨x, hx, rfl⟩
      exact ⟨(List.mem_filter.mp hx).1, rfl⟩
    · rintro ⟨hx, hp⟩
      exact ⟨p.1, List.mem_filter.mpr ⟨hx, htakes _⟩, by rw [← hp]⟩
  · exact ⟨fun h => absurd h List.not_mem_nil, fun h => absurd h.1 hrow⟩

theorem mem_rows_of_hasRow {y : Int} (h : t.hasRow sc y = true) : y ∈ t.rows sc := by
  unfold Tri.hasRow at h
  simp only [Bool.and_eq_true, decide_eq_true_iff] at h
  exact mem_rows.mpr ⟨h.1.2, h.1.1.1, h.1.1.2⟩

/-- The rows are in the scissor. -/
theorem row_bounds {y : Int} (h : y ∈ t.rows sc) : (sc.y0 : Int) ≤ y ∧ y < sc.y1 := by
  obtain ⟨-, hlo, hhi⟩ := mem_rows.mp h
  unfold Tri.yFirst Tri.subLo at hlo
  unfold Tri.yLast Tri.subHi at hhi
  omega

theorem clip_le (sc : Scissor) (q : Int) : sc.clip q ≤ sc.x1 * 8 ∧
    (sc.x0 * 8 : Int) ⊓ (sc.x1 * 8) ≤ sc.clip q := by
  unfold Scissor.clip
  omega

/-- The ends of a sub-scanline. -/
theorem sub_bounds (h0 : sc.x0 < 2 ^ 10) (h1 : sc.x1 ≤ 2 ^ 10) (ys : Int) :
    (sc.x0 * 8 : Int) ⊓ (sc.x1 * 8) ≤ (t.sub sc ys).1 ∧ (t.sub sc ys).2 ≤ sc.x1 * 8 := by
  unfold Tri.sub
  split_ifs
  · dsimp only
    omega
  · exact ⟨(clip_le sc _).2, (clip_le sc _).1⟩

/-- The right edge is cut at the right limit of the scissor. -/
def Tri.AtLimit (t : Tri) (sc : Scissor) (ys : Int) : Prop :=
  t.bad sc ys = false ∧ sc.clip (quant (t.right ys)) = sc.x1 * 8

theorem exists_valid {y : Int} (h : t.hasRow sc y = true) :
    ∃ k < 4, t.bad sc (y * 4 + (k : Nat)) = false := by
  unfold Tri.hasRow at h
  simp only [Bool.and_eq_true, List.any_eq_true, List.mem_range, Bool.not_eq_true'] at h
  exact h.2

/-- A span leaves the scissor by one pixel at most, where a right edge is at
    the limit. -/
theorem fill_span (h0 : sc.x0 < 2 ^ 10) (h1 : sc.x1 ≤ 2 ^ 10) {y x : Int}
    (hrow : t.hasRow sc y = true) (hx : x ∈ xRange (t.subs sc y)) :
    (sc.x0 ≤ x ∧ x < sc.x1) ∨ (x = sc.x1 ∧ ∃ ys, ys / 4 = y ∧ t.AtLimit sc ys) := by
  obtain ⟨hlo, hhi⟩ := mem_xRange_iff.mp hx
  have hsub (k : Nat) := @sub_bounds t sc h0 h1 (y * 4 + k)
  obtain ⟨h00, h01⟩ := hsub 0
  obtain ⟨h10, h11⟩ := hsub 1
  obtain ⟨h20, h21⟩ := hsub 2
  obtain ⟨h30, h31⟩ := hsub 3
  unfold spanX0 Tri.subs at hlo
  unfold spanX1 Tri.subs at hhi
  by_cases hlt : x < sc.x1 ∧ sc.x0 ≤ x
  · exact .inl ⟨hlt.2, hlt.1⟩
  · refine .inr ⟨by omega, ?_⟩
    have hvalid (k : Nat) (hk : k < 4) (hbad : t.bad sc (y * 4 + (k : Nat)) = false)
        (hat : (sc.x1 * 8 : Int) ≤ sc.clip (quant (t.right (y * 4 + (k : Nat))))) :
        ∃ ys, ys / 4 = y ∧ t.AtLimit sc ys :=
      ⟨y * 4 + (k : Nat), by omega, hbad, le_antisymm (clip_le sc _).1 hat⟩
    by_cases hzero : sc.x1 = 0
    · -- every edge is cut at zero
      obtain ⟨k, hk, hbad⟩ := exists_valid hrow
      refine hvalid k hk hbad ?_
      have := (clip_le sc (quant (t.right (y * 4 + (k : Nat))))).2
      omega
    · -- one of the four is as far right as the span
      have hmax : ∃ k < 4, (sc.x1 * 8 : Int) ≤ (t.sub sc (y * 4 + (k : Nat))).2 := by
        by_contra hnone
        simp only [not_exists, not_and, not_le] at hnone
        have g0 := hnone 0 (by decide)
        have g1 := hnone 1 (by decide)
        have g2 := hnone 2 (by decide)
        have g3 := hnone 3 (by decide)
        omega
      obtain ⟨k, hk, hfar⟩ := hmax
      unfold Tri.sub at hfar
      split_ifs at hfar with hbad
      · dsimp only at hfar
        omega
      · exact hvalid k hk (by rwa [Bool.not_eq_true] at hbad) hfar

/-- Where it is, the pixel at the limit is drawn. -/
theorem fill_reaches {ys : Int} (h : t.AtLimit sc ys) :
    t.hasRow sc (ys / 4) = true ∧ (sc.x1 : Int) ∈ xRange (t.subs sc (ys / 4)) := by
  obtain ⟨hbad, hright⟩ := h
  have hact : t.subLo sc ≤ ys ∧ ys < t.subHi sc := by
    have hb := hbad
    unfold Tri.bad at hb
    rw [Bool.or_eq_false_iff, Bool.not_eq_false'] at hb
    simpa [Tri.active] using hb.2
  have hys : ys / 4 * 4 + ((ys % 4).toNat : Nat) = ys := by omega
  have hk : (ys % 4).toNat < 4 := by omega
  have hsub : t.subs sc (ys / 4) (ys % 4).toNat =
      (sc.clip (quant (t.left ys)), sc.clip (quant (t.right ys))) := by
    unfold Tri.subs Tri.sub
    rw [hys, if_neg (by rw [hbad]; decide)]
  constructor
  · unfold Tri.hasRow
    simp only [Bool.and_eq_true, decide_eq_true_iff, List.any_eq_true]
    have hlo := hact.1
    unfold Tri.subLo at hlo
    refine ⟨⟨⟨by omega, by omega⟩, by omega⟩, (ys % 4).toNat, List.mem_range.mpr hk, ?_⟩
    rw [hys, hbad]
    rfl
  · rw [mem_xRange_iff]
    generalize hq : t.subs sc (ys / 4) = q at hsub ⊢
    generalize (ys % 4).toNat = k at hk hsub
    -- the span is the union of its sub-scanlines
    have hleft : (q k).1 ≤ sc.x1 * 8 := by
      rw [hsub]
      exact (clip_le sc _).1
    have hfar : (q k).2 = sc.x1 * 8 := by
      rw [hsub]
      exact hright
    have hmin : spanX0 q ≤ (q k).1 / 8 ∧ (q k).2 / 8 ≤ spanX1 q := by
      unfold spanX0 spanX1
      obtain rfl | rfl | rfl | rfl : k = 0 ∨ k = 1 ∨ k = 2 ∨ k = 3 := by omega
      all_goals omega
    omega

end Spans

/-! ## Section 6: Primitives in the scissor -/

/-- When a triangle in FILL stays in the scissor. There is no case for a colour
    image of 8 bits, and the pixel after the last one of a span is drawn. -/
def Raster.FillInside (r : Raster) (t : Tri) : Prop :=
  if r.ci_size = 1 then
    ∀ y x, t.hasRow r.scissor y = true → x ∈ xRange (t.subs r.scissor y) →
      r.inRdram (r.pixelAddr r.ci_addr 2 x y) 2 = false
  else
    ∀ ys, t.AtLimit r.scissor ys → r.sx1 < r.sx0 ∨ r.scX1 ≤ r.sx1 →
      r.inRdram (r.pixelAddr r.ci_addr r.bpp r.sx1 (ys / 4)) r.bpp = false

section Primitives

variable {r : Raster} {px : Pipeline} {texel : Bool} {t : Tri} {st : Store}

theorem mem_drawTriangle_fill (hfill : r.cycleType = 3) (hcost : r.costOnly = false) :
    st ∈ r.drawTriangle px texel t ↔ ∃ y x, t.hasRow r.scissor y = true ∧
      x ∈ xRange (t.subs r.scissor y) ∧ st ∈ r.fillTriPixel x y := by
  have hmode : (r.mode texel).fill = true := beq_iff_eq.mpr hfill
  unfold Raster.drawTriangle
  dsimp only
  rw [if_neg (by rw [hcost]; decide)]
  simp only [List.mem_flatMap, mem_pixels_fill hmode, if_pos hmode]
  constructor
  · rintro ⟨y, -, p, ⟨hrow, hx, -⟩, hst⟩
    exact ⟨y, p.1, hrow, hx, hst⟩
  · rintro ⟨y, x, hrow, hx, hst⟩
    exact ⟨y, mem_rows_of_hasRow hrow, ⟨x, popcount (coverage (t.subs r.scissor y) x)⟩,
      ⟨hrow, hx, rfl⟩, hst⟩

/-- **FILL.** A triangle stays in the scissor exactly under `FillInside`. -/
theorem drawTriangle_fill (hr : r.Scissored) (hfill : r.cycleType = 3)
    (hcost : r.costOnly = false) :
    (∀ st ∈ r.drawTriangle px texel t, st.Inside r) ↔ r.FillInside t := by
  simp only [mem_drawTriangle_fill hfill hcost]
  unfold Raster.FillInside
  by_cases hsize : r.ci_size = 1
  · -- two bytes are stored for a pixel of one
    have hpixel (x y : Int) : r.fillTriPixel x y =
        r.put .color x y (r.pixelAddr r.ci_addr 2 x y) 2 := by
      unfold Raster.fillTriPixel
      rw [if_neg (by omega)]
    have hbpp : r.bpp = 1 := by
      unfold Raster.bpp
      rw [if_neg (by omega), if_pos hsize]
    rw [if_pos hsize]
    constructor
    · intro h y x hrow hx
      by_contra hin
      rw [Bool.not_eq_false] at hin
      have hst := h _ ⟨y, x, hrow, hx, by rw [hpixel, mem_put]; exact ⟨hin, rfl⟩⟩
      have hlen : 2 = r.bpp := (hst.color rfl).2
      omega
    · rintro h st ⟨y, x, hrow, hx, hst⟩
      rw [hpixel, mem_put, h y x hrow hx] at hst
      exact absurd hst.1 Bool.false_ne_true
  · have hpixel (x y : Int) : r.fillTriPixel x y =
        r.put .color x y (r.pixelAddr r.ci_addr r.bpp x y) r.bpp := by
      rw [← storePixel_eq]
      unfold Raster.fillTriPixel Raster.storePixel
      rw [if_neg hsize]
    rw [if_neg hsize]
    constructor
    · intro h ys hlimit hout
      -- the pixel at the limit would be one of the scissor
      by_contra hin
      rw [Bool.not_eq_false] at hin
      obtain ⟨hrow, hx⟩ := fill_reaches hlimit
      have hst := h _ ⟨ys / 4, r.sx1, hrow, hx, by rw [hpixel, mem_put]; exact ⟨hin, rfl⟩⟩
      have hx0 : (r.sx0 : Int) ≤ r.sx1 := hst.x0
      have hx1 : (r.sx1 : Int) < r.scX1 := hst.x1
      omega
    · rintro h st ⟨y, x, hrow, hx, hst⟩
      obtain ⟨hy0, hy1⟩ := row_bounds (mem_rows_of_hasRow hrow)
      have hscX1 := hr.scX1
      have hheld (hx0 : (r.sx0 : Int) ≤ x) (hx1 : x < r.scX1) : st.Inside r := by
        refine storePixel_inside ⟨hx0, hx1, hy0, hy1⟩ ?_
        rw [storePixel_eq, ← hpixel]
        exact hst
      rcases fill_span hr.x0 hr.x1 hrow hx with ⟨hlo, hhi⟩ | ⟨rfl, ys, rfl, hlimit⟩
      · exact hheld hlo (lt_of_lt_of_le hhi (by exact_mod_cast hscX1))
      · by_cases hout : r.sx1 < r.sx0 ∨ r.scX1 ≤ r.sx1
        · rw [hpixel, mem_put] at hst
          have hno := h ys hlimit hout
          change r.inRdram (r.pixelAddr r.ci_addr r.bpp r.sx1 (ys / 4)) r.bpp = true ∧ _ at hst
          rw [hno] at hst
          exact absurd hst.1 Bool.false_ne_true
        · have hx0 : (r.sx0 : Int) ≤ r.sx1 := by omega
          have hx1 : (r.sx1 : Int) < r.scX1 := by omega
          exact hheld hx0 hx1

/-- In the other cycle types every pixel goes through the blender. -/
theorem drawTriangle_inside (hr : r.Scissored) (hfill : r.cycleType ≠ 3)
    (hst : st ∈ r.drawTriangle px texel t) : st.Inside r := by
  have hmode : (r.mode texel).fill = false := beq_eq_false_iff_ne.mpr hfill
  unfold Raster.drawTriangle at hst
  dsimp only at hst
  split_ifs at hst with hcost hyes
  · exact absurd hst List.not_mem_nil
  · rw [hmode] at hyes
    exact absurd hyes Bool.false_ne_true
  · obtain ⟨y, -, hst⟩ := List.mem_flatMap.mp hst
    obtain ⟨p, -, hst⟩ := List.mem_flatMap.mp hst
    exact blendPixel_inside hr hst

theorem drawTriangle_costOnly (hcost : r.costOnly = true) : r.drawTriangle px texel t = [] := by
  unfold Raster.drawTriangle
  rw [if_pos hcost]

theorem drawTriangle_inside_iff (hr : r.Scissored) :
    (∀ st ∈ r.drawTriangle px texel t, st.Inside r) ↔
      (r.cycleType = 3 → r.costOnly = false → r.FillInside t) := by
  by_cases hfill : r.cycleType = 3
  · cases hcost : r.costOnly with
    | true =>
      rw [drawTriangle_costOnly hcost]
      exact iff_of_true nofun fun _ h => absurd h nofun
    | false => rw [drawTriangle_fill hr hfill hcost, imp_iff_right hfill, imp_iff_right rfl]
  · exact iff_of_true (fun st hst => drawTriangle_inside hr hfill hst) fun h => absurd h hfill

/-- The triangle a primitive is drawn as in FILL. -/
def Prim.fillTri : Prim → Option Tri
  | .triangle w₀ w₁ w₂ w₃ _ => some (.ofWords w₀ w₁ w₂ w₃)
  | .texRect c₀ _ => some (rectTri c₀ true)
  | .fillRect _ => none

end Primitives

/-- **Scissor.** For every state, every `SET_SCISSOR` and every primitive: each
    store is that of a pixel in the scissor exactly if, in FILL, the triangle it
    is drawn as stays in it. -/
theorem stores_inside_iff (r : Raster) (cmd : BitVec 64) (px : Pipeline) (p : Prim) :
    (∀ st ∈ (r.setScissor cmd).stores px p, st.Inside (r.setScissor cmd)) ↔
      ((r.setScissor cmd).cycleType = 3 → r.costOnly = false →
        ∀ t, p.fillTri = some t → (r.setScissor cmd).FillInside t) := by
  have hr := setScissor_scissored r cmd
  have hcost : (r.setScissor cmd).costOnly = r.costOnly := rfl
  rw [← hcost]
  generalize r.setScissor cmd = s at hr ⊢
  cases p with
  | triangle w₀ w₁ w₂ w₃ texel =>
    refine (drawTriangle_inside_iff hr).trans ⟨?_, ?_⟩
    · rintro h hfill hcost t ⟨⟩
      exact h hfill hcost
    · exact fun h hfill hcost => h hfill hcost _ rfl
  | texRect c₀ texel =>
    show (∀ st ∈ s.texRect px texel c₀, st.Inside s) ↔ _
    unfold Raster.texRect
    dsimp only
    by_cases hindex : s.cycleType = 2 ∧ s.ci_size = 1
    · -- COPY to 8 bits has a loop of its own
      rw [if_pos hindex]
      refine iff_of_true (fun st hst => ?_) fun hfill => by omega
      by_cases hcostOnly : s.costOnly = true
      · rw [if_pos hcostOnly] at hst
        exact absurd hst List.not_mem_nil
      · rw [if_neg hcostOnly] at hst
        obtain ⟨x, y, -, -, -, -, hst⟩ := mem_eachPixel hst
        by_cases hpx : (px x y).isSome = true
        · rw [if_pos hpx] at hst
          exact putPixel_inside hr hst
        · rw [if_neg hpx] at hst
          exact absurd hst List.not_mem_nil
    · -- a rectangle is drawn as a triangle
      rw [if_neg hindex]
      refine (drawTriangle_inside_iff hr).trans ⟨?_, ?_⟩
      · rintro h hfill hcost t ⟨⟩
        have hincl : decide (2 ≤ s.cycleType) = true := by rw [hfill]; rfl
        rw [hincl] at h
        exact h hfill hcost
      · intro h hfill hcost
        have hincl : decide (2 ≤ s.cycleType) = true := by rw [hfill]; rfl
        rw [hincl]
        exact h hfill hcost _ rfl
  | fillRect c =>
    refine iff_of_true (fun st hst => ?_) fun _ _ t ht => absurd ht nofun
    change st ∈ s.fillRectangle px c at hst
    unfold Raster.fillRectangle at hst
    dsimp only at hst
    split_ifs at hst
    · exact fillRect_inside hr hst
    · exact fillRect_inside hr hst

/-- A byte of a pixel in the scissor. -/
def Raster.PixelByte (r : Raster) (a : BitVec 32) : Prop :=
  ∃ x y, r.Holds x y ∧ ∃ j < r.bpp, a = r.pixelAddr r.ci_addr r.bpp x y + BitVec.ofNat 32 j

theorem Store.Inside.pixelByte {r : Raster} {st : Store} (h : st.Inside r) (hc : st.image = .color)
    {i : Nat} (hi : i < st.len) : r.PixelByte (st.addr + BitVec.ofNat 32 i) := by
  obtain ⟨haddr, hlen⟩ := h.color hc
  exact ⟨st.x, st.y, ⟨h.x0, h.x1, h.y0, h.y1⟩, i, hlen ▸ hi, by rw [haddr]⟩

/-- An image of 16 bits in FILL. -/
def fillState : Raster where
  other_hi := 0x300000
  other_lo := 0
  ci_addr := 0x100000
  ci_size := 2
  ci_width := 320
  zi_addr := 0
  sx0 := 0
  sy0 := 0
  sx1 := 320
  sy1 := 240
  sx1fc := 320
  costOnly := false
  size := 0x400000

/-- A row of twenty pixels, in a scissor that ends in the middle of its ninth:
    the tenth is drawn. -/
theorem fill_leaves_scissor :
    ¬ ∀ (r : Raster) (cmd : BitVec 64) (px : Pipeline) (p : Prim),
      ∀ st ∈ (r.setScissor cmd).stores px p, st.image = .color → ∀ i < st.len,
        (r.setScissor cmd).PixelByte (st.addr + BitVec.ofNat 32 i) := by
  intro h
  let r := fillState.setScissor 0x21004
  let t := Tri.ofWords 0x80000400040000 0x14000000000000 0 0x14000000000000
  obtain ⟨hrow, hx⟩ := @fill_reaches t r.scissor 0 ⟨by decide, by decide⟩
  have hin : ⟨.color, 9, 0, 0x100012, 2⟩ ∈ r.drawTriangle (fun _ _ => none) false t :=
    (mem_drawTriangle_fill (by decide) rfl).mpr ⟨0, 9, hrow, hx, by decide⟩
  obtain ⟨x, y, ⟨hx0, hx1, hy0, hy1⟩, j, hj, haddr⟩ := h fillState 0x21004 (fun _ _ => none)
    (.triangle 0x80000400040000 0x14000000000000 0 0x14000000000000 false) _ hin rfl 0 (by decide)
  -- the last byte of the ninth pixel is before it
  have hnone : ∀ x < 9, ∀ j < 2, (0x100012 : BitVec 32) ≠
      r.pixelAddr r.ci_addr 2 (x : Nat) 0 + BitVec.ofNat 32 j := by decide
  obtain ⟨n, rfl⟩ := Int.eq_ofNat_of_zero_le hx0
  have hy : y = 0 := by
    have : y < 1 := hy1
    have : 0 ≤ y := hy0
    omega
  have hn : (n : Int) < 9 := hx1
  rw [hy] at haddr
  exact hnone n (by omega) j hj haddr

end Rdp
