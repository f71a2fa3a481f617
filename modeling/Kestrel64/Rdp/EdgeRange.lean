import Mathlib.Algebra.Order.Ring.Int
import Mathlib.Data.List.GetD
import Kestrel64.Rdp.EdgeWalk

/-! # RDP: The Range of the Edge Walk

    `drawTriangle` evaluates its edges in signed 32 bits, where an overflow is
    undefined, although what is next to them is done modulo 2^32. Here each
    product and each sum is checked.

    * `Tri.walk32_eq_some_iff` — the walk has no overflow exactly if the edges
      fit on the last sub-scanline that is visited.
-/

namespace Rdp

/-! ## Section 1: Signed arithmetic of 32 bits -/

/-- The values of an `s32`. -/
def In32 (x : Int) : Prop := -2 ^ 31 ≤ x ∧ x < 2 ^ 31

instance (x : Int) : Decidable (In32 x) := inferInstanceAs (Decidable (_ ∧ _))

/-- The result of a signed operation; `none` is an overflow. -/
def s32 (x : Int) : Option Int := if In32 x then some x else none

theorem s32_eq_some_iff {x v : Int} : s32 x = some v ↔ In32 x ∧ x = v := by
  unfold s32
  split_ifs with h
  · rw [Option.some.injEq, and_iff_right h]
  · exact ⟨nofun, fun hv => absurd hv.1 h⟩

/-- A loop of checked steps. -/
theorem mapM_eq_some_iff {α β : Type} {f : α → Option β} {P : α → Prop} {g : α → β} {xs : List α}
    (h : ∀ a ∈ xs, ∀ b, f a = some b ↔ P a ∧ b = g a) (ys : List β) :
    xs.mapM f = some ys ↔ (∀ a ∈ xs, P a) ∧ ys = xs.map g := by
  induction xs generalizing ys with
  | nil => simp [eq_comm]
  | cons a xs ih =>
    have hxs := ih fun b hb => h b (List.mem_cons_of_mem a hb)
    rw [List.mapM_cons, List.forall_mem_cons, List.map_cons]
    constructor
    · intro hys
      obtain ⟨b, hb, hrest⟩ := Option.bind_eq_some_iff.mp hys
      obtain ⟨bs, hbs, htail⟩ := Option.bind_eq_some_iff.mp hrest
      obtain ⟨ha, rfl⟩ := (h a List.mem_cons_self b).mp hb
      obtain ⟨hall, rfl⟩ := (hxs bs).mp hbs
      exact ⟨⟨ha, hall⟩, (Option.some.inj htail).symm⟩
    · rintro ⟨⟨ha, hall⟩, rfl⟩
      rw [(h a List.mem_cons_self _).mpr ⟨ha, rfl⟩, (hxs _).mpr ⟨hall, rfl⟩]
      rfl

/-! ## Section 2: The walk -/

/-- `x + (ys - base) * slope` -/
def edge32 (x ys base slope : Int) : Option Int := do
  let d ← s32 (ys - base)
  let p ← s32 (d * slope)
  s32 (x + p)

def Tri.eh32 (t : Tri) (ys : Int) : Option Int := edge32 t.xh ys t.yhBase t.dxh

def Tri.el32 (t : Tri) (ys : Int) : Option Int :=
  if ys < t.ym then edge32 t.xm ys t.yhBase t.dxm else edge32 t.xl ys t.ym t.dxl

/-- `L` and `R` of a sub-scanline, before they are clipped. -/
def Tri.edges32 (t : Tri) (ys : Int) : Option (Int × Int) := do
  let eh ← t.eh32 ys
  let el ← t.el32 ys
  return if t.leftMajor then (quant eh, quant el) else (quant el, quant eh)

/-- The four sub-scanlines of row `y`. -/
def Tri.rowEdges32 (t : Tri) (y : Int) : Option (List (Int × Int)) :=
  (List.range 4).mapM fun k => do
    let ys ← s32 (y * 4 + (k : Nat))
    t.edges32 ys

/-- What else decides about the rows: TEXEL1 of 1-cycle mode is that of the
    next pixel, only the cost is wanted, and the sign of the raw `DxHDy`. -/
structure Walk where
  pipeTex1 : Bool
  costOnly : Bool
  dxhNeg : Bool

/-- The pixel the attributes of a row are anchored at. -/
def Tri.baseX (t : Tri) (w : Walk) (y : Int) : Int :=
  let dyRow := BitVec.ofInt 32 (y - t.yh / 4)
  let dxh := BitVec.ofInt 32 t.dxh
  let xhRow := BitVec.ofInt 32 t.xh + dyRow * dxh <<< 2
  let xhRow := if t.leftMajor == w.dxhNeg then xhRow + 3 * dxh else xhRow
  xhRow.toInt / 2 ^ 15

def Tri.badEdges (t : Tri) (sc : Scissor) (ys : Int) (e : Int × Int) : Bool :=
  decide (e.1 / 2 > e.2 / 2) || !t.active sc ys

/-- `qL` and `qR` of a sub-scanline with the edges `e`. -/
def Tri.clipEdges (t : Tri) (sc : Scissor) (ys : Int) (e : Int × Int) : Int × Int :=
  if t.badEdges sc ys e then (0xffff, 0) else (sc.clip e.1, sc.clip e.2)

/-- No sub-scanline of row `y` is valid. -/
def Tri.skips (t : Tri) (sc : Scissor) (y : Int) (es : List (Int × Int)) : Bool :=
  (List.range 4).all fun k => t.badEdges sc (y * 4 + (k : Nat)) (es.getD k (0, 0))

def Tri.spans (t : Tri) (sc : Scissor) (y : Int) (es : List (Int × Int)) (k : Nat) : Int × Int :=
  t.clipEdges sc (y * 4 + k) (es.getD k (0, 0))

/-- The row is long enough for its last pixel to look at the next row. -/
def Tri.longSpan (t : Tri) (sc : Scissor) (w : Walk) (y : Int) (es : List (Int × Int)) : Bool :=
  let q := t.spans sc y es
  !w.costOnly && w.pipeTex1 &&
    decide (8 ≤ if t.leftMajor then spanX1 q - t.baseX w y else t.baseX w y - spanX0 q)

/-- The next row, `y`, is valid and not outside of the scissor. -/
def Tri.validNext (t : Tri) (sc : Scissor) (y : Int) (es : List (Int × Int)) : Bool :=
  let e (k : Nat) := es.getD k (0, 0)
  let allOver := (List.range 4).all fun k => decide (sc.x1 * 8 ≤ min (e k).1 (e k).2)
  let allUnder := (List.range 4).all fun k => decide (max (e k).1 (e k).2 < sc.x0 * 8)
  !t.skips sc y es && !allOver && !allUnder

/-- A row that is drawn: its spans, and whether its last pixel goes on in the
    next row. -/
structure EdgeRow where
  q : List (Int × Int)
  pipeNextRow : Bool

/-- A row of the loop; `some none` is skipped. -/
def Tri.row32 (t : Tri) (sc : Scissor) (w : Walk) (y : Int) : Option (Option EdgeRow) := do
  let es ← t.rowEdges32 y
  let q := (List.range 4).map (t.spans sc y es)
  if t.skips sc y es then return none
  else if t.longSpan sc w y es then
    let next ← t.rowEdges32 (y + 1)
    return some { q, pipeNextRow := t.validNext sc (y + 1) next }
  else return some { q, pipeNextRow := false }

def Tri.yFirst (t : Tri) (sc : Scissor) : Int := max (t.subLo sc) 0 / 4

def Tri.yLast (t : Tri) (sc : Scissor) : Int := (t.subHi sc - 1) / 4

/-- The rows the loop visits. -/
def Tri.rows (t : Tri) (sc : Scissor) : List Int :=
  if t.subLo sc < t.subHi sc then
    (List.range (t.yLast sc + 1 - t.yFirst sc).toNat).map fun (i : Nat) => t.yFirst sc + (i : Int)
  else []

def Tri.walk32 (t : Tri) (sc : Scissor) (w : Walk) : Option (List (Option EdgeRow)) :=
  (t.rows sc).mapM (t.row32 sc w)

/-! ## Section 3: When nothing overflows -/

/-- The edge is in range on the sub-scanline `ys`. -/
structure EdgeFits (x ys base slope : Int) : Prop where
  distance : In32 (ys - base)
  product : In32 ((ys - base) * slope)
  sum : In32 (x + (ys - base) * slope)

instance (x ys base slope : Int) : Decidable (EdgeFits x ys base slope) :=
  decidable_of_iff (In32 (ys - base) ∧ In32 ((ys - base) * slope) ∧ In32 (x + (ys - base) * slope))
    ⟨fun h => ⟨h.1, h.2.1, h.2.2⟩, fun h => ⟨h.distance, h.product, h.sum⟩⟩

theorem edge32_eq_some_iff {x ys base slope v : Int} :
    edge32 x ys base slope = some v ↔
      EdgeFits x ys base slope ∧ v = x + (ys - base) * slope := by
  unfold edge32
  simp only [Option.bind_eq_bind, Option.bind_eq_some_iff, s32_eq_some_iff]
  constructor
  · rintro ⟨_, ⟨hd, rfl⟩, _, ⟨hp, rfl⟩, hs, rfl⟩
    exact ⟨⟨hd, hp, hs⟩, rfl⟩
  · rintro ⟨h, rfl⟩
    exact ⟨_, ⟨h.distance, rfl⟩, _, ⟨h.product, rfl⟩, h.sum, rfl⟩

/-- The three edges are in range on the sub-scanline `ys`. -/
def Tri.Fits (t : Tri) (ys : Int) : Prop :=
  EdgeFits t.xh ys t.yhBase t.dxh ∧
    if ys < t.ym then EdgeFits t.xm ys t.yhBase t.dxm else EdgeFits t.xl ys t.ym t.dxl

/-- In range the edges are those of the exact walk. -/
theorem edges32_eq_some_iff {t : Tri} {ys : Int} {e : Int × Int} :
    t.edges32 ys = some e ↔ t.Fits ys ∧ e = (quant (t.left ys), quant (t.right ys)) := by
  have hel (v : Int) : t.el32 ys = some v ↔
      (if ys < t.ym then EdgeFits t.xm ys t.yhBase t.dxm else EdgeFits t.xl ys t.ym t.dxl) ∧
        v = t.el ys := by
    unfold Tri.el32 Tri.el
    split_ifs <;> exact edge32_eq_some_iff
  have hval : (if t.leftMajor then (quant (t.eh ys), quant (t.el ys))
      else (quant (t.el ys), quant (t.eh ys))) = (quant (t.left ys), quant (t.right ys)) := by
    unfold Tri.left Tri.right
    cases t.leftMajor <;> rfl
  unfold Tri.edges32 Tri.eh32 Tri.Fits
  simp only [Option.bind_eq_bind, Option.bind_eq_some_iff, edge32_eq_some_iff, hel]
  constructor
  · rintro ⟨_, ⟨hh, rfl⟩, _, ⟨hl, rfl⟩, he⟩
    exact ⟨⟨hh, hl⟩, (Option.some.inj he).symm.trans hval⟩
  · rintro ⟨⟨hh, hl⟩, rfl⟩
    exact ⟨_, ⟨hh, rfl⟩, _, ⟨hl, rfl⟩, congrArg some hval⟩

/-- The edges are in range on the four sub-scanlines of row `y`. -/
def Tri.RowFits (t : Tri) (y : Int) : Prop :=
  ∀ k ∈ List.range 4, In32 (y * 4 + (k : Nat)) ∧ t.Fits (y * 4 + (k : Nat))

def Tri.rowEdges (t : Tri) (y : Int) : List (Int × Int) :=
  (List.range 4).map fun k =>
    (quant (t.left (y * 4 + (k : Nat))), quant (t.right (y * 4 + (k : Nat))))

theorem rowEdges32_eq_some_iff {t : Tri} {y : Int} {es : List (Int × Int)} :
    t.rowEdges32 y = some es ↔ t.RowFits y ∧ es = t.rowEdges y := by
  refine mapM_eq_some_iff (fun k _ e => ?_) es
  simp only [Option.bind_eq_bind, Option.bind_eq_some_iff, s32_eq_some_iff, edges32_eq_some_iff]
  constructor
  · rintro ⟨_, ⟨hy, rfl⟩, hfits, rfl⟩
    exact ⟨⟨hy, hfits⟩, rfl⟩
  · rintro ⟨⟨hy, hfits⟩, rfl⟩
    exact ⟨_, ⟨hy, rfl⟩, hfits, rfl⟩

/-- The last pixel of row `y` looks at the next row. -/
def Tri.pipes (t : Tri) (sc : Scissor) (w : Walk) (y : Int) : Bool :=
  !t.skips sc y (t.rowEdges y) && t.longSpan sc w y (t.rowEdges y)

/-- A row, from exact edges. -/
def Tri.row (t : Tri) (sc : Scissor) (w : Walk) (y : Int) : Option EdgeRow :=
  if t.skips sc y (t.rowEdges y) then none
  else some {
    q := (List.range 4).map (t.spans sc y (t.rowEdges y))
    pipeNextRow := t.pipes sc w y && t.validNext sc (y + 1) (t.rowEdges (y + 1)) }

/-- **Row.** A row without overflow is the exact row. -/
theorem row32_eq_some_iff {t : Tri} {sc : Scissor} {w : Walk} {y : Int} {r : Option EdgeRow} :
    t.row32 sc w y = some r ↔
      (t.RowFits y ∧ (t.pipes sc w y = true → t.RowFits (y + 1))) ∧ r = t.row sc w y := by
  unfold Tri.row32 Tri.row Tri.pipes
  simp only [Option.bind_eq_bind, Option.bind_eq_some_iff, rowEdges32_eq_some_iff]
  by_cases hskip : t.skips sc y (t.rowEdges y) = true
  · -- the loop goes on with the next row at once
    constructor
    · rintro ⟨_, ⟨hrow, rfl⟩, hr⟩
      rw [if_pos hskip] at hr
      rw [if_pos hskip]
      exact ⟨⟨hrow, fun h => by simp [hskip] at h⟩, (Option.some.inj hr).symm⟩
    · rintro ⟨⟨hrow, -⟩, rfl⟩
      refine ⟨_, ⟨hrow, rfl⟩, ?_⟩
      rw [if_pos hskip, if_pos hskip]
      rfl
  · by_cases hlong : t.longSpan sc w y (t.rowEdges y) = true
    · -- the edges of the next row are evaluated too
      constructor
      · rintro ⟨_, ⟨hrow, rfl⟩, hr⟩
        rw [if_neg hskip, if_pos hlong] at hr
        obtain ⟨_, hnext, hr⟩ := Option.bind_eq_some_iff.mp hr
        obtain ⟨hfits, rfl⟩ := rowEdges32_eq_some_iff.mp hnext
        rw [if_neg hskip]
        exact ⟨⟨hrow, fun _ => hfits⟩, by simpa [hskip, hlong] using (Option.some.inj hr).symm⟩
      · rintro ⟨⟨hrow, hnext⟩, rfl⟩
        refine ⟨_, ⟨hrow, rfl⟩, ?_⟩
        have hfits := hnext (by simp [hskip, hlong])
        rw [if_neg hskip, if_pos hlong, if_neg hskip, rowEdges32_eq_some_iff.mpr ⟨hfits, rfl⟩]
        simp [hskip, hlong]
    · constructor
      · rintro ⟨_, ⟨hrow, rfl⟩, hr⟩
        rw [if_neg hskip, if_neg hlong] at hr
        rw [if_neg hskip]
        refine ⟨⟨hrow, fun h => by simp [hlong] at h⟩, ?_⟩
        simpa [hlong] using (Option.some.inj hr).symm
      · rintro ⟨⟨hrow, -⟩, rfl⟩
        refine ⟨_, ⟨hrow, rfl⟩, ?_⟩
        rw [if_neg hskip, if_neg hlong, if_neg hskip]
        simp [hlong]

/-- The spans are those whose samples are drawn. -/
theorem row_spans {t : Tri} {sc : Scissor} {w : Walk} {y : Int} {r : EdgeRow}
    (h : t.row sc w y = some r) : r.q = (List.range 4).map (t.subs sc y) := by
  unfold Tri.row at h
  split_ifs at h
  cases h
  refine List.map_congr_left fun k hk => ?_
  have hget : (t.rowEdges y).getD k (0, 0) =
      (quant (t.left (y * 4 + (k : Nat))), quant (t.right (y * 4 + (k : Nat)))) := by
    unfold Tri.rowEdges
    rw [List.getD_eq_getElem _ _ (by simpa using hk), List.getElem_map, List.getElem_range]
  unfold Tri.spans Tri.subs
  rw [hget]
  rfl

/-! ## Section 4: The last sub-scanline -/

/-- An edge that is in range far from its anchor is in range nearer to it. -/
theorem EdgeFits.nearer {x ys ys' base slope : Int} (h : EdgeFits x ys' base slope)
    (hx : In32 x) (hbase : base ≤ ys) (hys : ys ≤ ys') : EdgeFits x ys base slope := by
  obtain ⟨hd, hp, hs⟩ := h
  have hlo : 0 ≤ ys - base := by omega
  have hle : ys - base ≤ ys' - base := by omega
  suffices hall : In32 (ys - base) ∧ In32 ((ys - base) * slope) ∧ In32 (x + (ys - base) * slope)
    from ⟨hall.1, hall.2.1, hall.2.2⟩
  generalize ys - base = d at hd hp hs hlo hle ⊢
  generalize ys' - base = d' at hd hp hs hle
  -- the product lies between zero and the one further away
  have hbetween : min 0 (d' * slope) ≤ d * slope ∧ d * slope ≤ max 0 (d' * slope) := by
    rcases le_total 0 slope with hslope | hslope
    · have hmul := mul_le_mul_of_nonneg_right hle hslope
      have hpos := mul_nonneg hlo hslope
      omega
    · have hmul := mul_le_mul_of_nonpos_right hle hslope
      have hneg := mul_nonpos_of_nonneg_of_nonpos hlo hslope
      omega
  generalize d * slope = p at hbetween ⊢
  generalize d' * slope = p' at hp hs hbetween
  unfold In32 at *
  omega

/-- What the words of a command bound: the coefficients of the edges, and the
    ends of the triangle. -/
structure Tri.Small (t : Tri) : Prop where
  xl : In32 t.xl
  xh : In32 t.xh
  xm : In32 t.xm
  yl : t.yl < 2 ^ 13

theorem ofWords_small (w₀ w₁ w₂ w₃ : BitVec 64) : (Tri.ofWords w₀ w₁ w₂ w₃).Small := by
  have hx (v : BitVec 64) : In32 (sext 28 v / 2) := by
    have hlo := BitVec.le_toInt (v.setWidth 28)
    have hhi := @BitVec.toInt_lt 28 (v.setWidth 28)
    unfold In32 sext
    omega
  exact ⟨hx _, hx _, hx _, @BitVec.toInt_lt 14 ((w₀ >>> 32).setWidth 14)⟩

section Range

variable {t : Tri} {sc : Scissor} {w : Walk}

theorem mem_rows {y : Int} :
    y ∈ t.rows sc ↔ t.subLo sc < t.subHi sc ∧ t.yFirst sc ≤ y ∧ y ≤ t.yLast sc := by
  unfold Tri.rows
  split_ifs with h
  · rw [List.mem_map, and_iff_right h]
    constructor
    · rintro ⟨i, hi, rfl⟩
      have := List.mem_range.mp hi
      omega
    · rintro ⟨hlo, hhi⟩
      exact ⟨(y - t.yFirst sc).toNat, List.mem_range.mpr (by omega), by omega⟩
  · exact ⟨nofun, fun hy => absurd hy.1 h⟩

/-- The loop visits at most as many rows as the scissor is high. -/
theorem length_rows : (t.rows sc).length ≤ sc.y1 - sc.y0 := by
  unfold Tri.rows
  split_ifs with h
  · rw [List.length_map, List.length_range]
    unfold Tri.yFirst Tri.yLast Tri.subLo Tri.subHi at *
    omega
  · exact Nat.zero_le _

/-- The first and the last sub-scanline the edges are evaluated on. -/
def Tri.firstSub (t : Tri) (sc : Scissor) : Int := t.yFirst sc * 4

def Tri.lastSub (t : Tri) (sc : Scissor) (w : Walk) : Int :=
  t.yLast sc * 4 + if t.pipes sc w (t.yLast sc) then 7 else 3

/-- The edges are in range on the last sub-scanline they are evaluated on. -/
structure Tri.FitsAtEnd (t : Tri) (sc : Scissor) (w : Walk) : Prop where
  xh : EdgeFits t.xh (t.lastSub sc w) t.yhBase t.dxh
  xm : t.firstSub sc < t.ym → EdgeFits t.xm (min (t.lastSub sc w) (t.ym - 1)) t.yhBase t.dxm
  xl : t.ym ≤ t.lastSub sc w → EdgeFits t.xl (t.lastSub sc w) t.ym t.dxl

/-- The sub-scanlines without a gap: those of the rows, and of the row after
    them if it is looked at. -/
theorem fits_iff (hrows : t.subLo sc < t.subHi sc) :
    (∀ y ∈ t.rows sc, t.RowFits y ∧ (t.pipes sc w y = true → t.RowFits (y + 1))) ↔
      ∀ ys, t.firstSub sc ≤ ys → ys ≤ t.lastSub sc w → In32 ys ∧ t.Fits ys := by
  have hsplit (ys : Int) : ys / 4 * 4 + ((ys % 4).toNat : Nat) = ys := by omega
  have hmem (ys : Int) : (ys % 4).toNat ∈ List.range 4 := List.mem_range.mpr (by omega)
  constructor
  · intro h ys hlo hhi
    unfold Tri.firstSub at hlo
    unfold Tri.lastSub at hhi
    by_cases hlast : ys / 4 ≤ t.yLast sc
    · -- `ys` is a sub-scanline of a row
      have hrow := (h (ys / 4) (mem_rows.mpr ⟨hrows, by omega, hlast⟩)).1 _ (hmem ys)
      rwa [hsplit] at hrow
    · by_cases hpipes : t.pipes sc w (t.yLast sc) = true
      · -- or of the one after them
        rw [if_pos hpipes] at hhi
        have hin : t.yLast sc ∈ t.rows sc := by
          refine mem_rows.mpr ⟨hrows, ?_, le_rfl⟩
          unfold Tri.yFirst Tri.yLast Tri.subLo at *
          omega
        have hrow := (h _ hin).2 hpipes _ (hmem ys)
        rwa [show t.yLast sc + 1 = ys / 4 by omega, hsplit] at hrow
      · rw [if_neg hpipes] at hhi
        omega
  · intro h y hy
    obtain ⟨-, hlo, hhi⟩ := mem_rows.mp hy
    unfold Tri.firstSub Tri.lastSub at h
    refine ⟨fun k hk => h _ (by omega) ?_, fun hpipes k hk => h _ (by omega) ?_⟩
    · have := List.mem_range.mp hk
      split_ifs <;> omega
    · have := List.mem_range.mp hk
      by_cases hlast : y = t.yLast sc
      · rw [← hlast, if_pos hpipes]
        omega
      · split_ifs <;> omega

/-- Along a range of sub-scanlines the last one decides. -/
theorem fits_all_iff (ht : t.Small) {first last : Int} (hle : first ≤ last)
    (hbase : t.yhBase ≤ first) :
    (∀ ys, first ≤ ys → ys ≤ last → t.Fits ys) ↔
      EdgeFits t.xh last t.yhBase t.dxh ∧
      (first < t.ym → EdgeFits t.xm (min last (t.ym - 1)) t.yhBase t.dxm) ∧
      (t.ym ≤ last → EdgeFits t.xl last t.ym t.dxl) := by
  constructor
  · intro h
    refine ⟨(h last hle le_rfl).1, fun hm => ?_, fun hl => ?_⟩
    · -- the last one before `ym`
      have hfits := (h (min last (t.ym - 1)) (by omega) (by omega)).2
      rwa [if_pos (by omega)] at hfits
    · have hfits := (h last hle le_rfl).2
      rwa [if_neg (by omega)] at hfits
  · rintro ⟨hh, hm, hl⟩ ys hlo hhi
    refine ⟨hh.nearer ht.xh (by omega) hhi, ?_⟩
    split_ifs with hym
    · exact (hm (by omega)).nearer ht.xm (by omega) (by omega)
    · exact (hl (by omega)).nearer ht.xl (by omega) hhi

theorem walk32_eq_some_iff (ht : t.Small) {rs : List (Option EdgeRow)} :
    t.walk32 sc w = some rs ↔
      (t.subLo sc < t.subHi sc → t.FitsAtEnd sc w) ∧ rs = (t.rows sc).map (t.row sc w) := by
  refine (mapM_eq_some_iff (fun _ _ _ => row32_eq_some_iff) rs).trans (and_congr_left fun _ => ?_)
  by_cases hrows : t.subLo sc < t.subHi sc
  · have hle : t.firstSub sc ≤ t.lastSub sc w := by
      unfold Tri.firstSub Tri.lastSub Tri.yFirst Tri.yLast Tri.subLo at *
      split_ifs <;> omega
    have hbase : t.yhBase ≤ t.firstSub sc := by
      unfold Tri.yhBase Tri.firstSub Tri.yFirst Tri.subLo
      omega
    have hrange : 0 ≤ t.firstSub sc ∧ t.lastSub sc w < 2 ^ 14 := by
      have hyl := ht.yl
      unfold Tri.firstSub Tri.lastSub Tri.yFirst Tri.yLast Tri.subHi
      refine ⟨by omega, ?_⟩
      split_ifs <;> omega
    rw [fits_iff hrows, imp_iff_right hrows]
    constructor
    · intro h
      obtain ⟨hxh, hxm, hxl⟩ := (fits_all_iff ht hle hbase).mp fun ys hlo hhi => (h ys hlo hhi).2
      exact ⟨hxh, hxm, hxl⟩
    · intro h ys hlo hhi
      have hall := (fits_all_iff ht hle hbase).mpr ⟨h.xh, h.xm, h.xl⟩
      exact ⟨⟨by omega, by omega⟩, hall ys hlo hhi⟩
  · exact iff_of_true (fun y hy => absurd (mem_rows.mp hy).1 hrows) fun h => absurd h hrows

end Range

/-- **The edge walk.** For every command and every scissor: nothing overflows,
    in no more rows than the scissor has, exactly if the edges are in range on
    the last sub-scanline they are evaluated on. -/
theorem edge_walk_in_range (w₀ w₁ w₂ w₃ : BitVec 64) (sc : Scissor) (pipeTex1 costOnly : Bool) :
    (∃ rs, (Tri.ofWords w₀ w₁ w₂ w₃).walk32 sc ⟨pipeTex1, costOnly, w₂.getLsbD 31⟩ = some rs ∧
        rs.length ≤ sc.y1 - sc.y0) ↔
      ((Tri.ofWords w₀ w₁ w₂ w₃).subLo sc < (Tri.ofWords w₀ w₁ w₂ w₃).subHi sc →
        (Tri.ofWords w₀ w₁ w₂ w₃).FitsAtEnd sc ⟨pipeTex1, costOnly, w₂.getLsbD 31⟩) := by
  have hwalk (rs : List (Option EdgeRow)) := @walk32_eq_some_iff (Tri.ofWords w₀ w₁ w₂ w₃) sc
    ⟨pipeTex1, costOnly, w₂.getLsbD 31⟩ (ofWords_small w₀ w₁ w₂ w₃) rs
  constructor
  · rintro ⟨rs, hrs, -⟩
    exact ((hwalk rs).mp hrs).1
  · intro h
    refine ⟨_, (hwalk _).mpr ⟨h, rfl⟩, ?_⟩
    rw [List.length_map]
    exact length_rows

/-- Nine rows of an edge that is as flat as can be. -/
theorem flat_edge_overflows :
    ¬ ∀ (w₀ w₁ w₂ w₃ : BitVec 64) (sc : Scissor) (w : Walk), ∃ rs,
      (Tri.ofWords w₀ w₁ w₂ w₃).walk32 sc w = some rs ∧ rs.length ≤ sc.y1 - sc.y0 := by
  intro h
  obtain ⟨rs, hrs, -⟩ := h 0x2400000000 0 0x1ffffffc 0 ⟨0, 0, 320, 240⟩ ⟨false, false, false⟩
  have hfits := ((walk32_eq_some_iff (ofWords_small ..)).mp hrs).1 (by decide)
  exact absurd hfits.xh.product (by decide)

end Rdp
