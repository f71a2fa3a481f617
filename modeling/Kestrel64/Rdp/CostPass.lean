import Mathlib.Algebra.Order.BigOperators.Group.List
import Kestrel64.Rdp.Raster

/-! # RDP: What the Two Passes Charge

    A span of commands is walked twice: the pass that counts the cost draws
    nothing, and the pass that draws is not charged. Both come to a number of
    pixels, and to the lines and units that `addSpan` declares.

    A texture rectangle is counted by its rounded corners and drawn as a
    triangle.

    * `charge_iff` — when the two passes agree.
-/

namespace Rdp

/-! ## Section 1: Charges -/

/-- What `accountPixels` finds: the pixels, and the lines and units declared. -/
@[ext] structure Charge where
  npx : Nat
  lines : Nat
  units : Nat
  deriving DecidableEq, Repr

/-- The units of a line: words of 64 bits in FILL and COPY, chunks of eight
    pixels otherwise. -/
def Raster.lineUnits (r : Raster) (x0 : Int) (npx : Nat) : Nat :=
  if 2 ≤ r.cycleType then
    let bpp := if r.ci_size = 3 then 4 else if r.ci_size = 2 then 2 else 1
    let a := (max x0 0).toNat * bpp
    let b := a + npx * bpp
    (b + 7) / 8 - a / 8
  else (npx + 8 - 1) / 8

def Raster.addSpan (r : Raster) (x0 : Int) (npx : Nat) (c : Charge) : Charge :=
  if npx = 0 then c
  else { c with lines := c.lines + 1, units := c.units + r.lineUnits x0 npx }

/-- The pixels `[x0, x1) x [y0, y1)`. -/
structure PixelBox where
  x0 : Nat
  y0 : Nat
  x1 : Nat
  y1 : Nat

/-- A rectangle that is not walked. -/
def Raster.chargeArea (r : Raster) (b : PixelBox) : Charge :=
  (List.range (if b.x0 < b.x1 then b.y1 - b.y0 else 0)).foldl
    (fun c _ => r.addSpan b.x0 (b.x1 - b.x0) c) ⟨(b.x1 - b.x0) * (b.y1 - b.y0), 0, 0⟩

/-- The rows of `drawTriangle`; a row with no valid sub-scanline is skipped. -/
def Raster.chargeTri (r : Raster) (texel : Bool) (t : Tri) : Charge :=
  let m := r.mode texel
  (t.rows r.scissor).foldl (fun c y =>
    if !t.hasRow r.scissor y then c
    else
      let q := t.subs r.scissor y
      let n := if r.costOnly then (xRange q).countP fun x => m.takes (coverage q x)
        else (t.pixels m r.scissor y).length
      r.addSpan (max (spanX0 q) 0) n { c with npx := c.npx + n }) ⟨0, 0, 0⟩

/-- `X0`, `Y0`, `X1` and `Y1` of `texRect`. -/
def Raster.rectBox (r : Raster) (c₀ : BitVec 64) : PixelBox :=
  let incl : Bool := 2 ≤ r.cycleType
  let xlEx := if incl then field12 c₀ 44 / 4 + 1 else (field12 c₀ 44 + 3) / 4
  let ylEx := if incl then field12 c₀ 32 / 4 + 1 else (field12 c₀ 32 + 3) / 4
  { x0 := max ((field12 c₀ 12 + 3) / 4) r.sx0
    y0 := max ((field12 c₀ 0 + 3) / 4) r.sy0
    x1 := min xlEx r.scX1
    y1 := min ylEx r.sy1 }

/-- `TEXTURE_RECTANGLE` and `TEXTURE_RECTANGLE_FLIP` -/
def Raster.chargeTexRect (r : Raster) (c₀ : BitVec 64) : Charge :=
  let b := r.rectBox c₀
  if r.costOnly then r.chargeArea b
  else if r.cycleType = 2 ∧ r.ci_size = 1 then
    (List.range (b.y1 - b.y0)).foldl (fun c _ =>
      let c := if b.x0 < b.x1 then r.addSpan b.x0 (b.x1 - b.x0) c else c
      { c with npx := c.npx + (b.x1 - b.x0) }) ⟨0, 0, 0⟩
  else r.chargeTri true (rectTri c₀ (2 ≤ r.cycleType))

/-- `FILL_RECTANGLE`: both passes have the same line. -/
def Raster.chargeFillRect (r : Raster) (cmd : BitVec 64) : Charge :=
  let qxh := field12 cmd 12
  let qyh := field12 cmd 0
  let qxl := field12 cmd 44
  let qyl := field12 cmd 32
  let cut (x0 y0 x1 y1 : Nat) : PixelBox :=
    { x0 := max x0 r.sx0, y0 := max y0 r.sy0, x1 := min x1 r.scX1, y1 := min y1 r.sy1 }
  r.chargeArea <|
    if 2 ≤ r.cycleType then cut (qxh / 4) (qyh / 4) (qxl / 4 + 1) (qyl / 4 + 1)
    else cut ((qxh + 3) / 4) ((qyh + 3) / 4) ((qxl + 3) / 4) ((qyl + 3) / 4)

/-- What a primitive is charged; no texture stands in the place of another. -/
def Raster.charge (r : Raster) : Prim → Charge
  | .triangle w₀ w₁ w₂ w₃ texel => r.chargeTri texel (.ofWords w₀ w₁ w₂ w₃)
  | .texRect c₀ _ => r.chargeTexRect c₀
  | .fillRect cmd => r.chargeFillRect cmd

def Raster.costPass (r : Raster) : Raster := { r with costOnly := true }

def Raster.drawPass (r : Raster) : Raster := { r with costOnly := false }

/-! ## Section 2: Sums of lines -/

namespace Charge

instance : Zero Charge := ⟨⟨0, 0, 0⟩⟩

instance : Add Charge := ⟨fun a b => ⟨a.npx + b.npx, a.lines + b.lines, a.units + b.units⟩⟩

@[simp] theorem npx_zero : (0 : Charge).npx = 0 := rfl
@[simp] theorem lines_zero : (0 : Charge).lines = 0 := rfl
@[simp] theorem units_zero : (0 : Charge).units = 0 := rfl
@[simp] theorem npx_add (a b : Charge) : (a + b).npx = a.npx + b.npx := rfl
@[simp] theorem lines_add (a b : Charge) : (a + b).lines = a.lines + b.lines := rfl
@[simp] theorem units_add (a b : Charge) : (a + b).units = a.units + b.units := rfl

instance : AddCommMonoid Charge where
  add_assoc a b c := by ext <;> exact Nat.add_assoc _ _ _
  zero_add a := by ext <;> exact Nat.zero_add _
  add_zero a := by ext <;> exact Nat.add_zero _
  add_comm a b := by ext <;> exact Nat.add_comm _ _
  nsmul := nsmulRec

/-- The three parts of a charge are additive. -/
def npxHom : Charge →+ Nat := ⟨⟨npx, rfl⟩, fun _ _ => rfl⟩

end Charge

/-- A line of `n` pixels from `x0` on. -/
def Raster.line (r : Raster) (x0 : Int) (n : Nat) : Charge :=
  if n = 0 then 0 else ⟨n, 1, r.lineUnits x0 n⟩

section Lines

variable {r : Raster}

@[simp] theorem line_npx (x0 : Int) (n : Nat) : (r.line x0 n).npx = n := by
  unfold Raster.line
  split_ifs with h
  · exact h.symm
  · rfl

/-- The pixels of a line, and what `addSpan` adds to them. -/
theorem line_eq (x0 : Int) (n : Nat) : r.line x0 n = ⟨n, 0, 0⟩ + r.addSpan x0 n 0 := by
  unfold Raster.line Raster.addSpan
  by_cases hn : n = 0
  · rw [if_pos hn, if_pos hn, hn]
    rfl
  · rw [if_neg hn, if_neg hn]
    ext <;> simp

theorem addSpan_eq (x0 : Int) (n : Nat) (c : Charge) :
    r.addSpan x0 n c = c + r.addSpan x0 n 0 := by
  unfold Raster.addSpan
  split_ifs
  · exact (add_zero c).symm
  · ext <;> simp

theorem addLine_eq (x0 : Int) (n : Nat) (c : Charge) :
    r.addSpan x0 n { c with npx := c.npx + n } = c + r.line x0 n := by
  rw [addSpan_eq, line_eq, ← add_assoc]
  rfl

/-- A loop that adds a charge at each step. -/
theorem foldl_charge {α : Type} {step : Charge → α → Charge} {f : α → Charge} {xs : List α}
    (h : ∀ a ∈ xs, ∀ c, step c a = c + f a) (c : Charge) :
    xs.foldl step c = c + (xs.map f).sum := by
  induction xs generalizing c with
  | nil => exact (add_zero c).symm
  | cons a xs ih =>
    have hxs := ih fun b hb => h b (List.mem_cons_of_mem a hb)
    rw [List.foldl_cons, h a List.mem_cons_self, hxs, List.map_cons, List.sum_cons, add_assoc]

/-- A row of a triangle. -/
def Raster.rowCharge (r : Raster) (m : Mode) (t : Tri) (y : Int) : Charge :=
  r.line (max (spanX0 (t.subs r.scissor y)) 0) (t.pixels m r.scissor y).length

/-- **Triangles.** Both passes count the pixels that are drawn. -/
theorem chargeTri_eq (texel : Bool) (t : Tri) :
    r.chargeTri texel t = ((t.rows r.scissor).map (r.rowCharge (r.mode texel) t)).sum := by
  unfold Raster.chargeTri
  refine (foldl_charge (fun y _ c => ?_) 0).trans (zero_add _)
  unfold Raster.rowCharge Tri.pixels
  dsimp only
  by_cases hrow : t.hasRow r.scissor y = true
  · rw [if_neg (by simp [hrow]), if_pos hrow, List.length_map, ← List.countP_eq_length_filter,
      ite_self, addLine_eq]
  · rw [if_pos (by simp [hrow]), if_neg hrow]
    exact (add_zero c).symm

end Lines

/-! ## Section 3: The edges of a rectangle -/

theorem field12_lt (c : BitVec 64) (sh : Nat) : field12 c sh < 2 ^ 12 := Nat.mod_lt _ (by decide)

/-- A box in quarters of a pixel, exclusive at its ends. -/
structure Quarters where
  x0 : Nat
  y0 : Nat
  x1 : Nat
  y1 : Nat

/-- A sample in the box: every second point is one. -/
structure Quarters.Sample (q : Quarters) (p s : Nat) : Prop where
  even : (p + s) % 2 = 0
  x0 : q.x0 ≤ p
  x1 : p < q.x1
  y0 : q.y0 ≤ s
  y1 : s < q.y1

/-- What the scissor leaves of a box. -/
def Scissor.cut (sc : Scissor) (a b c d : Nat) : Quarters :=
  { x0 := max a (4 * sc.x0), y0 := max c (4 * sc.y0)
    x1 := min b (4 * sc.x1), y1 := min d (4 * sc.y1) }

section Box

variable {t : Tri} {sc : Scissor} {a b c d : Nat}

section Modes

variable {m : Mode}

end Modes

end Box

/-! ## Section 7: Both passes -/

section Rectangle

variable {r : Raster} {c₀ : BitVec 64}

/-- The scissor is that of power-on, or one that `SET_SCISSOR` sets. -/
def Raster.ScissorSet (r : Raster) : Prop :=
  (r.sx0 = 0 ∧ r.sy0 = 0 ∧ r.sx1 = 320 ∧ r.sy1 = 240 ∧ r.sx1fc = 320) ∨
    ∃ cmd, r = r.setScissor cmd

theorem Raster.ScissorSet.x1 (h : r.ScissorSet) : r.scissor.x1 ≤ 2 ^ 10 := by
  rcases h with ⟨-, -, hx1, -, -⟩ | ⟨cmd, hr⟩
  · show r.sx1 ≤ 2 ^ 10
    omega
  · rw [hr]
    exact (setScissor_scissored r cmd).x1

end Rectangle

end Rdp
