import Kestrel64.Lib.Nearest
import Kestrel64.Rdp.PixelWrite
import Kestrel64.Rdp.WriteZone

/-! # RDP: The Order of Drawing

    With a depth compare, an opaque surface may be drawn before or after the
    one it hides. This is so for the fragments that cover the whole of their
    pixel, in a mode of opaque surfaces (`ZSurface`), as long as no two of them
    have one depth in one pixel. Depths are compared as they are stored, with
    14 bits, and the farthest is that of a pixel where nothing is yet.

    In such a mode the blender does not look at the memory, and what is
    written, colour, coverage and slope, depends on the fragment alone
    (`drawFragment_eq`). The rest is `Nearest.Painting`.

    * `draw_order` — the order does not matter.
    * `nearest_shown` — every pixel shows its nearest fragment.
-/

namespace Rdp

open Writes

/-! ## Section 1: Modes -/

/-- A mode of opaque surfaces with depth. -/
structure Raster.ZSurface (r : Raster) : Prop where
  cycle : r.cycleType < 2
  zCmp : r.other_lo.getLsbD 4 = true
  zUpd : r.other_lo.getLsbD 5 = true
  zMode : bits2 r.other_lo 10 = 0
  /-- CLAMP or ZAP -/
  cvgDst : r.blendPlan.cvgDst = 0 ∨ r.blendPlan.cvgDst = 2
  cvgXAlpha : r.blendPlan.cvgXAlpha = false
  /-- Memory is mixed in at edges only. -/
  psel : r.blendPlan.psel ≠ 1
  first : r.blendPlan.two = true →
    r.blendPlan.psel0 ≠ 1 ∧ r.blendPlan.msel0 ≠ 1 ∧ r.blendPlan.bsel0 ≠ 1
  last : r.blendPlan.force = true → r.blendPlan.msel ≠ 1 ∧ r.blendPlan.bsel ≠ 1

/-- The blender is passed by: it would read the memory, and may not. -/
def Raster.passes (r : Raster) : Bool := r.blendPlan.usesMem && !r.blendPlan.imRd

/-- The images from their first pixel to the last one of the scissor. -/
def Raster.pixels (r : Raster) : Nat := (r.sy1 - 1) * r.ci_width + r.sx1

/-- The two images are apart. -/
def Raster.Apart (r : Raster) : Prop :=
  r.ci_addr.toNat + r.bpp * r.pixels ≤ r.zi_addr.toNat ∨
    r.zi_addr.toNat + 2 * r.pixels ≤ r.ci_addr.toNat

instance (r : Raster) : Decidable r.Apart := instDecidableOr

/-- The whole of a pixel, with a depth. -/
structure Fragment.Full (f : Fragment) : Prop where
  cvg : f.cvg = 8
  z : f.z.isSome = true

/-- Pixels are counted along the rows. -/
def Raster.place (r : Raster) (f : Fragment) : Nat := (f.y * r.ci_width + f.x).toNat

/-- The fragment is in the scissor, and its depth in RDRAM. -/
def Raster.visible (r : Raster) (f : Fragment) : Bool :=
  r.inScissor f.x f.y && 0 ≤ f.x && 0 ≤ f.y && r.inRdram (r.pixelAddr r.zi_addr 2 f.x f.y) 2

def Fragment.depth (f : Fragment) : Nat := clampZ (f.z.getD 0)

/-- The depth as it is stored. -/
def Fragment.code (f : Fragment) : Nat := zCode (zEncode f.depth)

/-- The stored depth of a pixel. -/
def Raster.codeAt (r : Raster) (p : Nat) (m : Vram) : Nat :=
  zCode ((m (.data (r.zi_addr.toNat + p * 2))).toNat * 2 ^ 8 +
    (m (.data (r.zi_addr.toNat + p * 2 + 1))).toNat)

/-- What a fragment writes if it passes. -/
def Raster.fragmentWrites (r : Raster) (lut : Nat → BitVec 8) (f : Fragment) :
    List (Cell × BitVec 8) :=
  let p := r.blendPlan
  let src := (r.alphaStage p f).2
  let zoff := r.pixelAddr r.zi_addr 2 f.x f.y
  if r.passes then
    r.wr16 zoff (zEncode f.depth) ++
      r.colorWrites f.x f.y (withAlpha (p.ditherRgb f.x f.y src) (7 * 2 ^ 5))
  else
    r.colorWrites f.x f.y (withAlpha
      (p.ditherRgb f.x f.y (p.blendColor lut f src 0 p.force true 0 0)) (7 * 2 ^ 5)) ++
      r.depthWrites zoff f.depth f.pxDzC

/-! ## Section 2: One fragment -/

section Draw

variable {r : Raster} {lut : Nat → BitVec 8} {f : Fragment} {m : Vram} {p : BlendPlan}

theorem visible_iff : r.visible f = true ↔ r.inScissor f.x f.y = true ∧ 0 ≤ f.x ∧ 0 ≤ f.y ∧
    r.inRdram (r.pixelAddr r.zi_addr 2 f.x f.y) 2 = true := by
  unfold Raster.visible
  simp only [Bool.and_eq_true, decide_eq_true_eq, and_assoc]

theorem pick_eq {src memc sel : Nat} (h : sel ≠ 1) : f.pick src memc sel = f.pick src 0 sel := by
  unfold Fragment.pick
  split
  · rfl
  · exact absurd rfl h
  · rfl
  · rfl

theorem coefs_eq {a memc sel shA shB : Nat} (h : sel ≠ 1) :
    coefs a (coefB a memc sel) sel shA shB = coefs a (coefB a 0 sel) sel 0 0 := by
  have hcoef : coefB a memc sel = coefB a 0 sel := by
    unfold coefB
    split
    · rfl
    · exact absurd rfl h
    · rfl
    · rfl
  unfold coefs
  rw [if_neg h, if_neg h, hcoef]

theorem cycle0_eq {src memc shA shB : Nat} (hP : p.psel0 ≠ 1) (hM : p.msel0 ≠ 1)
    (hB : p.bsel0 ≠ 1) : p.cycle0 f src memc shA shB = p.cycle0 f src 0 0 0 := by
  unfold BlendPlan.cycle0
  dsimp only
  rw [pick_eq hP, pick_eq hM, coefs_eq hB]

/-- On the whole of a pixel the last cycle looks at memory if it is forced to. -/
theorem cycle1_eq {src memc shA shB : Nat} {blendEn : Bool} (hP : p.psel ≠ 1)
    (hlast : blendEn = true → p.msel ≠ 1 ∧ p.bsel ≠ 1) :
    p.cycle1 lut f src memc blendEn true shA shB = p.cycle1 lut f src 0 blendEn true 0 0 := by
  unfold BlendPlan.cycle1
  dsimp only
  rw [pick_eq hP]
  cases blendEn with
  | false =>
    simp only [Bool.not_true, Bool.and_false, Bool.not_false, Bool.true_or, Bool.false_eq_true,
      if_true, if_false]
  | true =>
    obtain ⟨hM, hB⟩ := hlast rfl
    rw [pick_eq hM, coefs_eq hB]

/-- The blender does not look at the memory. -/
theorem blendColor_eq (hm : r.ZSurface) {src memc shA shB : Nat} :
    r.blendPlan.blendColor lut f src memc r.blendPlan.force true shA shB =
      r.blendPlan.blendColor lut f src 0 r.blendPlan.force true 0 0 := by
  unfold BlendPlan.blendColor
  dsimp only
  by_cases htwo : r.blendPlan.two = true
  · obtain ⟨hP, hM, hB⟩ := hm.first htwo
    rw [if_pos htwo, if_pos htwo, cycle0_eq hP hM hB, cycle1_eq hm.psel hm.last]
  · rw [if_neg htwo, if_neg htwo, cycle1_eq hm.psel hm.last]

theorem depth_le (f : Fragment) : f.depth ≤ 0x3ffff := Nat.min_le_right _ _

theorem depth_lt_iff (f : Fragment) (w : Nat) : f.depth < zDecode w ↔ f.code < zCode w :=
  lt_zDecode_iff (depth_le f) w

theorem alphaStage_cvg (hm : r.ZSurface) (hf : f.Full) : (r.alphaStage r.blendPlan f).1 = 8 := by
  unfold Raster.alphaStage
  dsimp only
  rw [hm.cvgXAlpha, if_neg Bool.false_ne_true, hf.cvg]

theorem newCvg_eq (hm : r.ZSurface) {blendEn : Bool} {memCvg : Nat} :
    r.blendPlan.newCvg blendEn 8 memCvg = 7 := by
  unfold BlendPlan.newCvg
  rcases hm.cvgDst with h | h
  · rw [h]
    show (if blendEn then min 7 (memCvg + 8) else 7) = 7
    have hmin : min 7 (memCvg + 8) = 7 := Nat.min_eq_left (by omega)
    rw [hmin, ite_self]
  · rw [h]
    rfl

/-- The fragment is drawn: it is in front, or nothing is there yet. -/
def Raster.Draws (r : Raster) (f : Fragment) (m : Vram) : Prop :=
  (r.passes = false ∧ zCode (m.word (r.pixelAddr r.zi_addr 2 f.x f.y)) = 0x3fff) ∨
    f.code < zCode (m.word (r.pixelAddr r.zi_addr 2 f.x f.y))

instance (r : Raster) (f : Fragment) (m : Vram) : Decidable (r.Draws f m) := instDecidableOr

theorem passCvg_eq : p.passCvg 8 = 7 := by
  unfold BlendPlan.passCvg
  split
  · rfl
  · rfl
  · rfl
  · split_ifs <;> rfl

theorem depthTest_eq (hm : r.ZSurface) (hpasses : r.passes = true)
    (hz : r.inRdram (r.pixelAddr r.zi_addr 2 f.x f.y) 2 = true) {z : Int} (hfz : f.z = some z) :
    r.depthTest m f.x f.y z =
      if r.Draws f m then
        some (r.wr16 (r.pixelAddr r.zi_addr 2 f.x f.y) (zEncode f.depth))
      else none := by
  have hdepth : clampZ z = f.depth := by
    unfold Fragment.depth
    rw [hfz]
    rfl
  have hdraws : r.Draws f m ↔ ¬ zDecode (m.word (r.pixelAddr r.zi_addr 2 f.x f.y)) ≤ f.depth := by
    rw [not_le, depth_lt_iff]
    unfold Raster.Draws
    rw [hpasses]
    exact or_iff_right fun h => Bool.noConfusion h.1
  unfold Raster.depthTest
  dsimp only
  rw [if_pos hz, hm.zCmp, hm.zUpd, hdepth, if_pos rfl]
  by_cases hd : r.Draws f m
  · rw [if_pos hd, if_neg fun h => hdraws.mp hd h.2]
  · rw [if_neg hd, if_pos ⟨rfl, not_not.mp fun h => hd (hdraws.mpr h)⟩]

theorem passPixel_eq (hm : r.ZSurface) (hf : f.Full) (hpasses : r.passes = true)
    (hz : r.inRdram (r.pixelAddr r.zi_addr 2 f.x f.y) 2 = true) :
    r.passPixel r.blendPlan m f 8 (r.alphaStage r.blendPlan f).2 =
      if r.Draws f m then write (r.fragmentWrites lut f) m else m := by
  obtain ⟨z, hfz⟩ := Option.isSome_iff_exists.mp hf.z
  have hwrites : r.fragmentWrites lut f =
      r.wr16 (r.pixelAddr r.zi_addr 2 f.x f.y) (zEncode f.depth) ++
        r.colorWrites f.x f.y (withAlpha (r.blendPlan.ditherRgb f.x f.y
          (r.alphaStage r.blendPlan f).2) (7 * 2 ^ 5)) := if_pos hpasses
  unfold Raster.passPixel
  rw [hfz]
  dsimp only
  rw [passCvg_eq, depthTest_eq hm hpasses hz hfz]
  by_cases hd : r.Draws f m
  · rw [if_pos hd, if_pos hd, hwrites]
  · rw [if_neg hd, if_neg hd]

theorem depthStage_eq (hm : r.ZSurface) (zoff : BitVec 32) (zz : Nat) :
    (r.depthStage p m zoff zz f 8 true).pass =
        (zDecode (m.word zoff) == 0x3ffff || decide (zz < zDecode (m.word zoff))) ∧
      (r.depthStage p m zoff zz f 8 true).blendEn = p.force ∧
      (r.depthStage p m zoff zz f 8 true).cvg = 8 := by
  unfold Raster.depthStage
  dsimp only
  rw [hm.zMode]
  refine ⟨rfl, ?_, if_neg fun h => absurd h.1 (by decide)⟩
  rw [Bool.not_true, Bool.false_and, Bool.false_and, Bool.or_false]

theorem deepPixel_eq (hm : r.ZSurface) (hf : f.Full) (hpasses : r.passes = false)
    (hz : r.inRdram (r.pixelAddr r.zi_addr 2 f.x f.y) 2 = true) :
    r.deepPixel lut r.blendPlan m f 8 (r.alphaStage r.blendPlan f).2 =
      if r.Draws f m then write (r.fragmentWrites lut f) m else m := by
  generalize hzoff : r.pixelAddr r.zi_addr 2 f.x f.y = zoff at hz
  have hwrites : r.fragmentWrites lut f =
      r.colorWrites f.x f.y (withAlpha (r.blendPlan.ditherRgb f.x f.y (r.blendPlan.blendColor lut f
        (r.alphaStage r.blendPlan f).2 0 r.blendPlan.force true 0 0)) (7 * 2 ^ 5)) ++
        r.depthWrites zoff f.depth f.pxDzC := by
    rw [← hzoff]
    exact if_neg (by rw [hpasses]; decide)
  obtain ⟨hpass, hen, hcvg⟩ := depthStage_eq (p := r.blendPlan) (f := f) (m := m) hm zoff f.depth
  have hdraws : r.Draws f m ↔
      (r.depthStage r.blendPlan m zoff f.depth f 8 true).pass = true := by
    rw [hpass, Bool.or_eq_true, beq_iff_eq, decide_eq_true_eq, zDecode_eq_max_iff, depth_lt_iff]
    unfold Raster.Draws
    rw [hpasses, hzoff, eq_self, true_and]
  unfold Raster.deepPixel
  dsimp only
  have hover : decide (8 ≤ 8 + (r.memColor r.blendPlan m f).2) = true :=
    decide_eq_true (Nat.le_add_right _ _)
  rw [hzoff, hover, if_neg (by rw [hf.z, hz]; decide)]
  simp only [hf.z, hm.zCmp, hm.zUpd, Bool.and_self, if_true]
  change (if (!(r.depthStage r.blendPlan m zoff f.depth f 8 true).pass || _) = true then m
    else _) = _
  by_cases hd : r.Draws f m
  · rw [if_pos hd, if_neg]
    · change write (r.colorWrites f.x f.y (withAlpha (r.blendPlan.ditherRgb f.x f.y
        (r.blendPlan.blendColor lut f _ _ (r.depthStage r.blendPlan m zoff f.depth f 8 true).blendEn
          true _ _)) (r.blendPlan.newCvg
            (r.depthStage r.blendPlan m zoff f.depth f 8 true).blendEn
            (r.depthStage r.blendPlan m zoff f.depth f 8 true).cvg _ * 2 ^ 5)) ++ _) m = _
      rw [hen, hcvg, newCvg_eq hm, blendColor_eq hm, hwrites]
      rfl
    · change ¬ (!(r.depthStage r.blendPlan m zoff f.depth f 8 true).pass ||
        r.blendPlan.aaEn && (r.depthStage r.blendPlan m zoff f.depth f 8 true).cvg == 0) = true
      rw [hdraws.mp hd, hcvg, show ((8 : Nat) == 0) = false from rfl, Bool.and_false]
      decide
  · have hno := mt hdraws.mpr hd
    rw [Bool.not_eq_true] at hno
    rw [if_neg hd, if_pos]
    rw [hno]
    rfl

/-- Without a place for its depth a fragment is dropped. -/
theorem passPixel_outside (hf : f.Full)
    (hz : r.inRdram (r.pixelAddr r.zi_addr 2 f.x f.y) 2 = false) {cvg src : Nat} :
    r.passPixel p m f cvg src = m := by
  obtain ⟨z, hfz⟩ := Option.isSome_iff_exists.mp hf.z
  have htest : r.depthTest m f.x f.y z = none := by
    unfold Raster.depthTest
    dsimp only
    rw [hz, if_neg Bool.false_ne_true]
  unfold Raster.passPixel
  rw [hfz]
  dsimp only
  rw [htest]

theorem deepPixel_outside (hf : f.Full)
    (hz : r.inRdram (r.pixelAddr r.zi_addr 2 f.x f.y) 2 = false) {cvg src : Nat} :
    r.deepPixel lut p m f cvg src = m := by
  unfold Raster.deepPixel
  dsimp only
  rw [if_pos (by rw [hf.z, hz]; rfl)]

/-- **One fragment.** What is drawn depends on the memory in nothing but whether
    it is drawn. -/
theorem drawFragment_eq (hm : r.ZSurface) (hf : f.Full) (m : Vram) :
    r.drawFragment lut m f =
      if r.visible f = true ∧ r.Draws f m then write (r.fragmentWrites lut f) m else m := by
  have hpass : r.blendPlan.passthru = false := by
    show decide (2 ≤ r.cycleType) = false
    exact decide_eq_false (Nat.not_le.mpr hm.cycle)
  have hstage : r.alphaStage r.blendPlan f = (8, (r.alphaStage r.blendPlan f).2) :=
    Prod.ext (alphaStage_cvg hm hf) rfl
  unfold Raster.drawFragment
  dsimp only
  rw [hpass, if_neg Bool.false_ne_true, hstage]
  dsimp only
  have hcvg : (r.blendPlan.aaEn && (8 : Nat) == 0) = false := Bool.and_false _
  rw [hcvg, if_neg Bool.false_ne_true]
  by_cases hsc : (!r.inScissor f.x f.y || decide (f.x < 0) || decide (f.y < 0)) = true
  · rw [if_pos hsc, if_neg]
    rintro ⟨hv, -⟩
    obtain ⟨hin, hx, hy, -⟩ := visible_iff.mp hv
    rw [hin, decide_eq_false (not_lt.mpr hx), decide_eq_false (not_lt.mpr hy)] at hsc
    exact absurd hsc (by decide)
  · rw [if_neg hsc]
    rw [Bool.not_eq_true, Bool.or_eq_false_iff, Bool.or_eq_false_iff, Bool.not_eq_false',
      decide_eq_false_iff_not, decide_eq_false_iff_not, not_lt, not_lt] at hsc
    change (if r.passes = true then _ else _) = _
    cases hz : r.inRdram (r.pixelAddr r.zi_addr 2 f.x f.y) 2 with
    | false =>
      rw [passPixel_outside hf hz, deepPixel_outside hf hz, ite_self, if_neg]
      rintro ⟨hv, -⟩
      rw [(visible_iff.mp hv).2.2.2] at hz
      exact Bool.noConfusion hz
    | true =>
      have hv : r.visible f = true := visible_iff.mpr ⟨hsc.1.1, hsc.1.2, hsc.2, hz⟩
      rw [if_congr (and_iff_right hv) rfl rfl]
      by_cases hp : r.passes = true
      · rw [if_pos hp]
        exact passPixel_eq hm hf hp hz
      · rw [if_neg hp]
        rw [Bool.not_eq_true] at hp
        exact deepPixel_eq hm hf hp hz

end Draw

/-! ## Section 3: The cells of a pixel -/

/-- The cells of pixel `p` in the colour image. -/
def Raster.ColorCell (r : Raster) (p : Nat) : Cell → Prop
  | .data n => r.ci_addr.toNat + p * r.bpp + r.bpp ≤ r.size ∧ r.ci_addr.toNat + p * r.bpp ≤ n ∧
      n < r.ci_addr.toNat + p * r.bpp + r.bpp
  | .hidden i => r.bpp = 2 ∧ r.ci_addr.toNat + p * 2 + 2 ≤ r.size ∧
      i = (r.ci_addr.toNat + p * 2) / 2

/-- The cells of pixel `p` in the z image. -/
def Raster.DepthCell (r : Raster) (p : Nat) : Cell → Prop
  | .data n => r.zi_addr.toNat + p * 2 ≤ n ∧ n < r.zi_addr.toNat + p * 2 + 2
  | .hidden i => r.passes = false ∧ i = (r.zi_addr.toNat + p * 2) / 2

section Cells

variable {r : Raster} {lut : Nat → BitVec 8} {f g : Fragment} {m : Vram} {p q : Nat} {c : Cell}

theorem bpp_cases (r : Raster) : r.bpp = 1 ∨ r.bpp = 2 ∨ r.bpp = 4 := by
  unfold Raster.bpp
  split_ifs
  · exact .inr (.inr rfl)
  · exact .inl rfl
  · exact .inr (.inl rfl)

/-- The cells of two pixels are apart. -/
theorem cells_apart (ha : r.Apart) (hp : p < r.pixels) (hq : q < r.pixels) (hpq : p ≠ q)
    (hc : r.ColorCell p c ∨ r.DepthCell p c) : ¬ (r.ColorCell q c ∨ r.DepthCell q c) := by
  unfold Raster.Apart at ha
  unfold Raster.ColorCell Raster.DepthCell at hc ⊢
  rcases bpp_cases r with hb | hb | hb
  all_goals
    rw [hb] at ha hc
    rw [hb]
    cases c with
    | data n =>
      dsimp only at hc ⊢
      omega
    | hidden i =>
      dsimp only at hc ⊢
      omega

/-- Nor does a colour meet a depth. -/
theorem images_apart (ha : r.Apart) (hp : p < r.pixels) (hq : q < r.pixels)
    (hc : r.ColorCell p c) : ¬ r.DepthCell q c := by
  unfold Raster.Apart at ha
  unfold Raster.ColorCell at hc
  unfold Raster.DepthCell
  rcases bpp_cases r with hb | hb | hb
  all_goals
    rw [hb] at ha hc
    cases c with
    | data n =>
      dsimp only at hc ⊢
      omega
    | hidden i =>
      dsimp only at hc ⊢
      omega

theorem mem_dataWrites {a : BitVec 32} {vs : List Nat} (h : a.toNat + vs.length < 2 ^ 32) :
    c ∈ cells (dataWrites a vs) ↔ ∃ n, a.toNat ≤ n ∧ n < a.toNat + vs.length ∧ c = .data n := by
  induction vs generalizing a with
  | nil =>
    constructor
    · intro hc
      exact absurd hc List.not_mem_nil
    · rintro ⟨n, hlo, hhi, -⟩
      rw [List.length_nil] at hhi
      omega
  | cons v vs ih =>
    rw [List.length_cons] at h
    have hnext : (a + 1).toNat = a.toNat + 1 := by
      rw [BitVec.toNat_add]
      exact Nat.mod_eq_of_lt (show a.toNat + 1 < 2 ^ 32 by omega)
    have htail := ih (a := a + 1) (by rw [hnext]; omega)
    show c ∈ Cell.data a.toNat :: cells (dataWrites (a + 1) vs) ↔ _
    rw [List.mem_cons, htail, hnext, List.length_cons]
    constructor
    · rintro (rfl | ⟨n, hlo, hhi, rfl⟩)
      · exact ⟨a.toNat, le_rfl, by omega, rfl⟩
      · exact ⟨n, by omega, by omega, rfl⟩
    · rintro ⟨n, hlo, hhi, rfl⟩
      rcases Nat.eq_or_lt_of_le hlo with heq | hlt
      · exact .inl (by rw [heq])
      · exact .inr ⟨n, hlt, by omega, rfl⟩

theorem exists_pixel (hv : r.visible f = true) : ∃ x y : Nat, f.x = x ∧ f.y = y ∧ x < r.sx1 ∧
    y < r.sy1 ∧ r.place f = y * r.ci_width + x := by
  obtain ⟨hsc, hx, hy, -⟩ := visible_iff.mp hv
  obtain ⟨x, hfx⟩ := Int.eq_ofNat_of_zero_le hx
  obtain ⟨y, hfy⟩ := Int.eq_ofNat_of_zero_le hy
  unfold Raster.inScissor at hsc
  simp only [Bool.and_eq_true, decide_eq_true_eq] at hsc
  refine ⟨x, y, hfx, hfy, by omega, by omega, ?_⟩
  unfold Raster.place
  rw [hfx, hfy]
  exact_mod_cast Int.toNat_natCast (y * r.ci_width + x)

theorem place_lt_pixels (hv : r.visible f = true) : r.place f < r.pixels := by
  obtain ⟨x, y, -, -, hx, hy, hplace⟩ := exists_pixel hv
  have hrow : y * r.ci_width ≤ (r.sy1 - 1) * r.ci_width := Nat.mul_le_mul_right _ (by omega)
  unfold Raster.pixels
  omega

theorem place_small (hr : r.Sized) (hv : r.visible f = true) : r.place f < 2 ^ 21 := by
  obtain ⟨x, y, -, -, hx, hy, hplace⟩ := exists_pixel hv
  have hx1 := hr.x1
  have hy1 := hr.y1
  have hrow : y * r.ci_width ≤ 2 ^ 10 * 2 ^ 10 := Nat.mul_le_mul (by omega) hr.width
  omega

theorem addr_toNat (hr : r.Sized) (hv : r.visible f = true) {base : BitVec 32}
    (hbase : base.toNat < 2 ^ 24) {len : Nat} (hlen : len ≤ 4) :
    (r.pixelAddr base len f.x f.y).toNat = base.toNat + r.place f * len := by
  obtain ⟨x, y, hx, hy, hx1, hy1, hplace⟩ := exists_pixel hv
  rw [hx, hy, hplace]
  exact pixelAddr_toNat hr hbase hlen hx1.le hy1

theorem inRdram_iff (hr : r.Sized) (hv : r.visible f = true) {base : BitVec 32}
    (hbase : base.toNat < 2 ^ 24) {len : Nat} (hpos : 0 < len) (hlen : len ≤ 4) :
    r.inRdram (r.pixelAddr base len f.x f.y) len = true ↔
      base.toNat + r.place f * len + len ≤ r.size := by
  have hplace : r.place f * len ≤ 2 ^ 21 * 4 := Nat.mul_le_mul (place_small hr hv).le hlen
  unfold Raster.inRdram
  rw [decide_eq_true_eq, BitVec.toNat_add, BitVec.toNat_ofNat, addr_toNat hr hv hbase hlen]
  omega

/-- What is stored at the address of a pixel. -/
theorem mem_wr (hr : r.Sized) (hv : r.visible f = true) {base : BitVec 32}
    (hbase : base.toNat < 2 ^ 24) {len : Nat} {vs : List Nat} (hvs : vs.length = len)
    (hpos : 0 < len) (hlen : len ≤ 4) :
    c ∈ cells (r.wr (r.pixelAddr base len f.x f.y) vs) ↔
      base.toNat + r.place f * len + len ≤ r.size ∧
      ∃ n, base.toNat + r.place f * len ≤ n ∧ n < base.toNat + r.place f * len + len ∧
        c = .data n := by
  subst hvs
  have hin := inRdram_iff hr hv hbase hpos hlen
  have haddr := addr_toNat hr hv hbase hlen
  have hplace : r.place f * vs.length ≤ 2 ^ 21 * 4 := Nat.mul_le_mul (place_small hr hv).le hlen
  unfold Raster.wr
  by_cases hi : r.inRdram (r.pixelAddr base vs.length f.x f.y) vs.length = true
  · rw [if_pos hi, mem_dataWrites (by omega), haddr, and_iff_right (hin.mp hi)]
  · rw [if_neg hi]
    exact iff_of_false List.not_mem_nil fun h => hi (hin.mpr h.1)

/-- The bytes of a colour. -/
theorem mem_colorBytes (hr : r.Sized) (hv : r.visible f = true) {len : Nat} {vs : List Nat}
    (hvs : vs.length = len) (hpos : 0 < len) (hlen : len ≤ 4) (hbpp : r.bpp = len) :
    c ∈ cells (r.wr (r.pixelAddr r.ci_addr len f.x f.y) vs) ↔
      r.ColorCell (r.place f) c ∧ ∃ n, c = .data n := by
  rw [mem_wr hr hv hr.ci hvs hpos hlen, ← hbpp]
  constructor
  · rintro ⟨hin, n, hlo, hhi, rfl⟩
    exact ⟨⟨hin, hlo, hhi⟩, n, rfl⟩
  · rintro ⟨hc, n, rfl⟩
    obtain ⟨hin, hlo, hhi⟩ := hc
    exact ⟨hin, n, hlo, hhi, rfl⟩

theorem mem_hiddenWrite {a : BitVec 32} {v : Nat} :
    c ∈ cells (hiddenWrite a v) ↔ c = .hidden (a.toNat / 2) := List.mem_singleton

theorem mem_colorWrites (hr : r.Sized) (hv : r.visible f = true) {v : Nat} :
    c ∈ cells (r.colorWrites f.x f.y v) ↔ r.ColorCell (r.place f) c := by
  -- only a pixel of 16 bits has hidden bits
  have hplain (hbpp : r.bpp ≠ 2) :
      (r.ColorCell (r.place f) c ∧ ∃ n, c = .data n) ↔ r.ColorCell (r.place f) c := by
    refine and_iff_left_of_imp fun h => ?_
    cases c with
    | data n => exact ⟨n, rfl⟩
    | hidden i => exact absurd h.1 hbpp
  unfold Raster.colorWrites
  by_cases h3 : r.ci_size = 3
  · have hbpp : r.bpp = 4 := if_pos h3
    rw [if_pos h3, ← hplain (by omega)]
    exact mem_colorBytes hr hv rfl (by decide) le_rfl hbpp
  by_cases h1 : r.ci_size = 1
  · have hbpp : r.bpp = 1 := by
      unfold Raster.bpp
      rw [if_neg h3, if_pos h1]
    rw [if_neg h3, if_pos h1, ← hplain (by omega)]
    exact mem_colorBytes hr hv rfl Nat.one_pos (by decide) hbpp
  · have hbpp : r.bpp = 2 := by
      unfold Raster.bpp
      rw [if_neg h3, if_neg h1]
    have hbytes : c ∈ cells (r.wr16 (r.pixelAddr r.ci_addr 2 f.x f.y) (to5551 v)) ↔
        r.ColorCell (r.place f) c ∧ ∃ n, c = .data n :=
      mem_colorBytes hr hv rfl Nat.two_pos (by decide) hbpp
    have hin := inRdram_iff hr hv hr.ci (by decide : 0 < 2) (by decide)
    have haddr := addr_toNat hr hv hr.ci (by decide : 2 ≤ 4)
    rw [if_neg h3, if_neg h1]
    dsimp only
    rw [cells_append, List.mem_append, hbytes]
    by_cases hi : r.inRdram (r.pixelAddr r.ci_addr 2 f.x f.y) 2 = true
    · rw [if_pos hi, mem_hiddenWrite, haddr]
      rw [hin] at hi
      cases c with
      | data n => simp
      | hidden i =>
        simp [Raster.ColorCell, hbpp, hi]
    · rw [if_neg hi]
      rw [hin] at hi
      cases c with
      | data n => simp [cells]
      | hidden i => simp [Raster.ColorCell, hi, cells]

theorem mem_depthWord (hr : r.Sized) (hv : r.visible f = true) {v : Nat} :
    c ∈ cells (r.wr16 (r.pixelAddr r.zi_addr 2 f.x f.y) v) ↔
      ∃ n, r.zi_addr.toNat + r.place f * 2 ≤ n ∧ n < r.zi_addr.toNat + r.place f * 2 + 2 ∧
        c = .data n := by
  have hin := (visible_iff.mp hv).2.2.2
  have haddr := addr_toNat hr hv hr.zi (by decide : 2 ≤ 4)
  have hplace := place_small hr hv
  have hzi := hr.zi
  unfold Raster.wr16 Raster.wr
  rw [show [v / 2 ^ 8, v].length = 2 from rfl, if_pos hin, mem_dataWrites, haddr]
  · rfl
  · rw [haddr]
    show r.zi_addr.toNat + r.place f * 2 + 2 < 2 ^ 32
    omega

theorem mem_fragmentWrites (hr : r.Sized) (hv : r.visible f = true) :
    c ∈ cells (r.fragmentWrites lut f) ↔
      r.ColorCell (r.place f) c ∨ r.DepthCell (r.place f) c := by
  have haddr := addr_toNat hr hv hr.zi (by decide : 2 ≤ 4)
  have hdepth : r.DepthCell (r.place f) c ↔
      (∃ n, r.zi_addr.toNat + r.place f * 2 ≤ n ∧ n < r.zi_addr.toNat + r.place f * 2 + 2 ∧
        c = .data n) ∨
      (r.passes = false ∧ c = .hidden ((r.zi_addr.toNat + r.place f * 2) / 2)) := by
    unfold Raster.DepthCell
    cases c with
    | data n => simp
    | hidden i => simp
  unfold Raster.fragmentWrites
  dsimp only
  rw [hdepth]
  by_cases hp : r.passes = true
  · rw [if_pos hp, cells_append, List.mem_append, mem_depthWord hr hv, mem_colorWrites hr hv, hp,
      or_comm]
    simp
  · rw [Bool.not_eq_true] at hp
    rw [hp, if_neg Bool.false_ne_true, cells_append, List.mem_append, mem_colorWrites hr hv,
      Raster.depthWrites, cells_append, List.mem_append, mem_depthWord hr hv, mem_hiddenWrite,
      haddr, eq_self, true_and]

/-! ### Its stored depth -/

theorem codeAt_other {ws : List (Cell × BitVec 8)}
    (h₀ : Cell.data (r.zi_addr.toNat + p * 2) ∉ cells ws)
    (h₁ : Cell.data (r.zi_addr.toNat + p * 2 + 1) ∉ cells ws) :
    r.codeAt p (write ws m) = r.codeAt p m := by
  unfold Raster.codeAt
  rw [write_of_notMem h₀, write_of_notMem h₁]

theorem codeAt_word {a : BitVec 32} (haddr : a.toNat = r.zi_addr.toNat + p * 2)
    (hlt : a.toNat + 1 < 2 ^ 32) (v : Nat) :
    r.codeAt p (write (dataWrites a [v / 2 ^ 8, v]) m) = zCode v := by
  have hnext : (a + 1).toNat = a.toNat + 1 := by
    rw [BitVec.toNat_add]
    exact Nat.mod_eq_of_lt hlt
  have hne : Cell.data a.toNat ≠ Cell.data (a.toNat + 1) := by
    intro h
    injection h with h
    omega
  unfold Raster.codeAt dataWrites dataWrites dataWrites
  rw [write_cons, write_cons, write_nil, hnext, ← haddr, Function.update_self,
    Function.update_of_ne hne, Function.update_self, BitVec.toNat_ofNat, BitVec.toNat_ofNat]
  unfold zCode
  omega

/-- The slope is in the low bits of the word. -/
theorem zCode_or (d k : Nat) : zCode (zEncode d ||| k % 4) = zCode (zEncode d) := by
  have hk : k % 4 / 2 ^ 2 = 0 := Nat.div_eq_of_lt (Nat.mod_lt _ (by decide))
  have hor : (zEncode d ||| k % 4) / 2 ^ 2 = zEncode d / 2 ^ 2 := by
    rw [Nat.or_div_two_pow, hk, Nat.or_zero]
  unfold zCode
  exact congrArg (· % 0x4000) hor

theorem codeAt_draw (hr : r.Sized) (ha : r.Apart) (hv : r.visible f = true) :
    r.codeAt (r.place f) (write (r.fragmentWrites lut f) m) = f.code := by
  have hin := (visible_iff.mp hv).2.2.2
  have haddr := addr_toNat hr hv hr.zi (by decide : 2 ≤ 4)
  have hplace := place_small hr hv
  have hzi := hr.zi
  have hlt : (r.pixelAddr r.zi_addr 2 f.x f.y).toNat + 1 < 2 ^ 32 := by omega
  have hword (v : Nat) (m : Vram) :
      r.codeAt (r.place f) (write (r.wr16 (r.pixelAddr r.zi_addr 2 f.x f.y) v) m) = zCode v := by
    rw [← codeAt_word haddr hlt v]
    unfold Raster.wr16 Raster.wr
    rw [show [v / 2 ^ 8, v].length = 2 from rfl, if_pos hin]
  -- the colour is not written over the depth
  have hcolor (n : Nat) (hlo : r.zi_addr.toNat + r.place f * 2 ≤ n)
      (hhi : n < r.zi_addr.toNat + r.place f * 2 + 2) (v : Nat) :
      Cell.data n ∉ cells (r.colorWrites f.x f.y v) := by
    intro hc
    rw [mem_colorWrites hr hv] at hc
    exact images_apart ha (place_lt_pixels hv) (place_lt_pixels hv) hc ⟨hlo, hhi⟩
  unfold Raster.fragmentWrites
  dsimp only
  by_cases hp : r.passes = true
  · rw [if_pos hp, write_append, codeAt_other, hword]
    · rfl
    · exact hcolor _ le_rfl (by omega) _
    · exact hcolor _ (by omega) (by omega) _
  · rw [if_neg hp, write_append, Raster.depthWrites, write_append, codeAt_other, hword, zCode_or]
    · rfl
    · rw [mem_hiddenWrite]
      intro h
      cases h
    · rw [mem_hiddenWrite]
      intro h
      cases h

end Cells

/-! ## Section 4: Many fragments -/

/-- A fragment that is drawn if the depth compare lets it. -/
abbrev Raster.Mark (r : Raster) := {f : Fragment // f.Full ∧ r.visible f = true}

section Order

open Nearest

variable {r : Raster}

/-- The images are a painting, with the stored depths for keys. -/
def painting (lut : Nat → BitVec 8) (hr : r.Sized) (ha : r.Apart) :
    Painting Vram r.Mark (Fin r.pixels) Nat where
  place f := ⟨r.place f.val, place_lt_pixels f.property.2⟩
  key f := f.val.code
  top := 0x3fff
  fills := !r.passes
  code p m := r.codeAt p.val m
  draw f m := write (r.fragmentWrites lut f.val) m
  key_le f := Nat.le_of_lt_succ (zCode_lt _)
  code_draw f m := codeAt_draw hr ha f.property.2
  code_other := by
    intro f p m hp
    have hne : r.place f.val ≠ p.val := fun h => hp (Fin.ext h.symm)
    have hnot (n : Nat) (hn : r.DepthCell p.val (.data n)) :
        Cell.data n ∉ cells (r.fragmentWrites lut f.val) := by
      intro hc
      rw [mem_fragmentWrites hr f.property.2] at hc
      exact cells_apart ha (place_lt_pixels f.property.2) p.isLt hne hc (.inr hn)
    exact codeAt_other (hnot _ ⟨le_rfl, by omega⟩) (hnot _ ⟨by omega, by omega⟩)
  draw_draw := by
    intro f g m hplace
    have hplace : r.place f.val = r.place g.val := congrArg Fin.val hplace
    refine write_write (fun c hc => ?_) m
    rw [mem_fragmentWrites hr g.property.2, ← hplace] at hc
    rwa [mem_fragmentWrites hr f.property.2]
  draw_comm := by
    intro f g m hplace
    have hne : r.place f.val ≠ r.place g.val := fun h => hplace (Fin.ext h)
    refine write_comm (fun c hf hg => ?_) m
    rw [mem_fragmentWrites hr f.property.2] at hf
    rw [mem_fragmentWrites hr g.property.2] at hg
    exact cells_apart ha (place_lt_pixels f.property.2) (place_lt_pixels g.property.2) hne hf hg

theorem codeAt_word_eq (hr : r.Sized) (f : r.Mark) (m : Vram) :
    r.codeAt (r.place f.val) m = zCode (m.word (r.pixelAddr r.zi_addr 2 f.val.x f.val.y)) := by
  have haddr := addr_toNat hr f.property.2 hr.zi (by decide : 2 ≤ 4)
  have hplace := place_small hr f.property.2
  have hzi := hr.zi
  have hnext : (r.pixelAddr r.zi_addr 2 f.val.x f.val.y + 1).toNat =
      r.zi_addr.toNat + r.place f.val * 2 + 1 := by
    rw [BitVec.toNat_add, haddr]
    exact Nat.mod_eq_of_lt (show _ + 1 < 2 ^ 32 by omega)
  unfold Raster.codeAt Vram.word Vram.byte
  rw [haddr, hnext]

variable (lut : Nat → BitVec 8) (hr : r.Sized) (ha : r.Apart)

theorem passes_iff (f : r.Mark) (m : Vram) :
    (painting lut hr ha).Passes f m ↔ r.Draws f.val m := by
  unfold Painting.Passes Raster.Draws
  rw [← codeAt_word_eq hr f m, ← Bool.not_eq_true']
  rfl

open Classical in
/-- The fragments that can be seen. -/
noncomputable def marks (r : Raster) (fs : List Fragment) : List r.Mark :=
  fs.filterMap fun f => if h : f.Full ∧ r.visible f = true then some ⟨f, h⟩ else none

theorem mem_marks {fs : List Fragment} {f : r.Mark} : f ∈ marks r fs ↔ f.val ∈ fs := by
  unfold marks
  rw [List.mem_filterMap]
  constructor
  · rintro ⟨g, hg, hsome⟩
    split_ifs at hsome
    rw [← Option.some.inj hsome]
    exact hg
  · intro hf
    exact ⟨f.val, hf, dif_pos f.property⟩

theorem step_eq (hm : r.ZSurface) (f : r.Mark) (m : Vram) :
    (painting lut hr ha).step m f = r.drawFragment lut m f.val := by
  rw [drawFragment_eq hm f.property.1, if_congr (and_iff_right f.property.2) rfl rfl]
  exact if_congr (passes_iff lut hr ha f m) rfl rfl

/-- What is drawn is the painting. -/
theorem foldl_eq (hm : r.ZSurface) {fs : List Fragment} (hfull : ∀ f ∈ fs, f.Full) (m : Vram) :
    fs.foldl (r.drawFragment lut) m = (marks r fs).foldl (painting lut hr ha).step m := by
  induction fs generalizing m with
  | nil => rfl
  | cons f fs ih =>
    rw [List.forall_mem_cons] at hfull
    rw [List.foldl_cons, ih hfull.2]
    by_cases hv : r.visible f = true
    · have hmarks : marks r (f :: fs) = ⟨f, hfull.1, hv⟩ :: marks r fs :=
        List.filterMap_cons_some (dif_pos ⟨hfull.1, hv⟩)
      rw [hmarks, List.foldl_cons, step_eq lut hr ha hm]
    · have hmarks : marks r (f :: fs) = marks r fs :=
        List.filterMap_cons_none (dif_neg fun h => hv h.2)
      rw [hmarks, drawFragment_eq hm hfull.1, if_neg fun h => hv h.1]

end Order

/-- Opaque, with antialiasing and depth, and images that are apart. -/
def surfaceState : Raster :=
  { fillState with other_hi := 0, other_lo := 0x552078, zi_addr := 0x200000 }

/-- The whole of the fifth pixel of the third row. -/
def surfaceAt (src : Nat) (z : Int) : Fragment where
  x := 4
  y := 2
  src := src
  cvg := 8
  z := some z
  pxShadeA := 0xff
  pxDz := 1
  pxDzC := 0
  blend_color := 0
  fog_color := 0

theorem surfaceState_sized : surfaceState.Sized := by constructor <;> decide

theorem surfaceState_mode : surfaceState.ZSurface := by constructor <;> decide

theorem surfaceState_apart : surfaceState.Apart := by decide

/-- Red at 0x100 and blue at 0x8000. -/
theorem surfaces_full : ∀ f ∈ [surfaceAt 0xff0000ff 0x100, surfaceAt 0xffff 0x8000], f.Full := by
  intro f hf
  rcases List.mem_pair.mp hf with rfl | rfl
  · exact ⟨rfl, rfl⟩
  · exact ⟨rfl, rfl⟩

/-- **The order of drawing does not matter**, for fragments that have two depths
    where they share a pixel. -/
theorem draw_order (lut : Nat → BitVec 8) {r : Raster} (hr : r.Sized) (hm : r.ZSurface)
    (ha : r.Apart) {fs fs' : List Fragment} (hperm : fs.Perm fs') (hfull : ∀ f ∈ fs, f.Full)
    (hdepths : ∀ f ∈ fs, ∀ g ∈ fs, r.visible f = true → r.visible g = true → f ≠ g →
      r.place f = r.place g → f.code ≠ g.code) (m : Vram) :
    fs.foldl (r.drawFragment lut) m = fs'.foldl (r.drawFragment lut) m := by
  have hfull' : ∀ f ∈ fs', f.Full := fun f hf => hfull f (hperm.mem_iff.mpr hf)
  rw [foldl_eq lut hr ha hm hfull, foldl_eq lut hr ha hm hfull']
  refine Nearest.Painting.foldl_perm (hperm.filterMap _) ?_ m
  intro f hf g hg hne hplace
  have hval : f.val ≠ g.val := fun h => hne (Subtype.ext h)
  exact hdepths _ (mem_marks.mp hf) _ (mem_marks.mp hg) f.property.2 g.property.2 hval
    (congrArg Fin.val hplace)

theorem draw_order_pair :
    [surfaceAt 0xff0000ff 0x100, surfaceAt 0xffff 0x8000].foldl
        (surfaceState.drawFragment fun _ => 0) (fun _ => 0xff) =
      [surfaceAt 0xffff 0x8000, surfaceAt 0xff0000ff 0x100].foldl
        (surfaceState.drawFragment fun _ => 0) (fun _ => 0xff) := by
  refine draw_order _ surfaceState_sized surfaceState_mode surfaceState_apart
    (List.Perm.swap _ _ _) surfaces_full ?_ _
  intro f hf g hg _ _ hne _
  rcases List.mem_pair.mp hf with rfl | rfl <;> rcases List.mem_pair.mp hg with rfl | rfl
  · exact absurd rfl hne
  · decide
  · decide
  · exact absurd rfl hne

/-- **Every pixel shows its nearest fragment**, and has the least of the depths,
    whatever ties there are behind it. -/
theorem nearest_shown (lut : Nat → BitVec 8) {r : Raster} (hr : r.Sized) (hm : r.ZSurface)
    (ha : r.Apart) {fs : List Fragment} (hfull : ∀ f ∈ fs, f.Full) (m : Vram) {f : Fragment}
    (hf : f ∈ fs) (hv : r.visible f = true)
    (hnear : ∀ g ∈ fs, r.visible g = true → g ≠ f → r.place g = r.place f → f.code < g.code)
    (hfront : f.code < r.codeAt (r.place f) m) :
    write (r.fragmentWrites lut f) (fs.foldl (r.drawFragment lut) m) =
        fs.foldl (r.drawFragment lut) m ∧
      r.codeAt (r.place f) (fs.foldl (r.drawFragment lut) m) = f.code := by
  have hmark : f.Full ∧ r.visible f = true := ⟨hfull f hf, hv⟩
  have hshown : write (r.fragmentWrites lut f) (fs.foldl (r.drawFragment lut) m) =
      fs.foldl (r.drawFragment lut) m := by
    rw [foldl_eq lut hr ha hm hfull]
    refine Nearest.Painting.draw_foldl (P := painting lut hr ha) (f := ⟨f, hmark⟩)
      (mem_marks.mpr hf) ?_ hfront
    intro g hg hne hplace
    exact hnear g.val (mem_marks.mp hg) g.property.2 (fun h => hne (Subtype.ext h))
      (congrArg Fin.val hplace)
  refine ⟨hshown, ?_⟩
  rw [← hshown]
  exact codeAt_draw hr ha hv

/-- Over an empty picture the red one is shown. -/
theorem nearest_shown_pair :
    surfaceState.codeAt (surfaceState.place (surfaceAt 0xff0000ff 0x100))
      ([surfaceAt 0xffff 0x8000, surfaceAt 0xff0000ff 0x100].foldl
        (surfaceState.drawFragment fun _ => 0) fun _ => 0xff) = 4 := by
  have hfull : ∀ f ∈ [surfaceAt 0xffff 0x8000, surfaceAt 0xff0000ff 0x100], f.Full :=
    fun f hf => surfaces_full f (List.mem_pair.mpr (List.mem_pair.mp hf).symm)
  have hred : surfaceAt 0xff0000ff 0x100 ∈
      [surfaceAt 0xffff 0x8000, surfaceAt 0xff0000ff 0x100] := List.mem_pair.mpr (.inr rfl)
  refine (nearest_shown (fun _ => 0) surfaceState_sized surfaceState_mode surfaceState_apart hfull
    (fun _ => 0xff) hred (by decide) ?_ (by decide)).2
  intro g hg _ hne _
  rcases List.mem_pair.mp hg with rfl | rfl
  · decide
  · exact absurd rfl hne

end Rdp
