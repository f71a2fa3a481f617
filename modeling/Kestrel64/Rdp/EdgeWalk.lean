import Mathlib.Data.List.Basic
import Mathlib.Data.Int.Order.Basic
import Mathlib.Order.MinMax
import Mathlib.Tactic.IntervalCases
import Mathlib.Tactic.SplitIfs

/-! # RDP: The Edge Walk

    `drawTriangle` of `rdp/rdp.cpp` up to the decision which pixels of a row
    are drawn: the three edges of the command, evaluated on the four
    sub-scanlines of a row, quantised to eighths of a pixel with a sticky bit,
    clipped to the scissor and sampled.

    Two triangles that share an edge share its samples out between them:
    `watertight` compares them with the triangle that has the outer edges of
    the two.

    Lengths and edge values are integers. The code computes an edge in 32 bits
    and `quant` keeps the lowest 27 of them. What a pixel is painted with is
    not here.
-/

namespace Rdp

/-! ## Section 1: The command -/

/-- The edge coefficients of a triangle command. -/
structure Tri where
  leftMajor : Bool
  yl : Int
  ym : Int
  yh : Int
  xl : Int
  dxl : Int
  xh : Int
  dxh : Int
  xm : Int
  dxm : Int

/-- `sext((u32)v, n)` -/
def sext {k : Nat} (n : Nat) (v : BitVec k) : Int := (v.setWidth n).toInt

/-- The first four words of the command: x is s15.16 and becomes 16.15, a slope
    is for one sub-scanline. -/
def Tri.ofWords (w₀ w₁ w₂ w₃ : BitVec 64) : Tri where
  leftMajor := w₀.getLsbD 55
  yl := sext 14 (w₀ >>> 32)
  ym := sext 14 (w₀ >>> 16)
  yh := sext 14 w₀
  xl := sext 28 (w₁ >>> 32) / 2
  dxl := sext 28 (w₁.setWidth 32 >>> 2) / 2
  xh := sext 28 (w₂ >>> 32) / 2
  dxh := sext 28 (w₂.setWidth 32 >>> 2) / 2
  xm := sext 28 (w₃ >>> 32) / 2
  dxm := sext 28 (w₃.setWidth 32 >>> 2) / 2

/-- The scissor in pixels: both limits of `x` and of `y`, the upper ones
    exclusive. -/
structure Scissor where
  x0 : Nat
  y0 : Nat
  x1 : Nat
  y1 : Nat

/-! ## Section 2: Edges -/

/-- `XH` and `XM` are anchored at the whole scanline. -/
def Tri.yhBase (t : Tri) : Int := t.yh / 4 * 4

def Tri.eh (t : Tri) (ys : Int) : Int := t.xh + (ys - t.yhBase) * t.dxh

def Tri.el (t : Tri) (ys : Int) : Int :=
  if ys < t.ym then t.xm + (ys - t.yhBase) * t.dxm else t.xl + (ys - t.ym) * t.dxl

def Tri.left (t : Tri) (ys : Int) : Int := if t.leftMajor then t.eh ys else t.el ys

def Tri.right (t : Tri) (ys : Int) : Int := if t.leftMajor then t.el ys else t.eh ys

/-- Eighths of a pixel: the low bit is sticky. -/
def quant (x : Int) : Int :=
  let x := (BitVec.ofInt 27 x).toInt
  let q := x / 2 ^ 12
  if x % 2 ^ 12 ≠ 0 then q / 2 * 2 + 1 else q

def Tri.subLo (t : Tri) (sc : Scissor) : Int := max t.yh (sc.y0 * 4)

def Tri.subHi (t : Tri) (sc : Scissor) : Int := min t.yl (sc.y1 * 4)

/-- The sub-scanline is between the ends of the triangle and in the scissor. -/
def Tri.active (t : Tri) (sc : Scissor) (ys : Int) : Bool := t.subLo sc ≤ ys && ys < t.subHi sc

/-- Clip to the scissor. -/
def Scissor.clip (sc : Scissor) (q : Int) : Int := min (max q (sc.x0 * 8)) (sc.x1 * 8)

def Tri.bad (t : Tri) (sc : Scissor) (ys : Int) : Bool :=
  decide (quant (t.left ys) / 2 > quant (t.right ys) / 2) || !t.active sc ys

/-- `qL` and `qR` of a sub-scanline. -/
def Tri.sub (t : Tri) (sc : Scissor) (ys : Int) : Int × Int :=
  if t.bad sc ys then (0xffff, 0)
  else (sc.clip (quant (t.left ys)), sc.clip (quant (t.right ys)))

/-! ## Section 3: Coverage -/

/-- A sample is inside the sub-scanline's span. -/
def inSpan (q : Int × Int) (a : Int) : Bool := q.1 ≤ a && a < q.2

/-- The left sample of row `k`: odd rows are staggered. -/
def sampleX (k : Nat) (x : Int) : Int := x * 8 + if k % 2 = 1 then 2 else 0

/-- The eight samples of pixel `x`: bit `k` is the left one of row `k`, bit
    `k + 4` the right one. -/
def coverage (q : Nat → Int × Int) (x : Int) : BitVec 32 :=
  (List.range 4).foldl (fun c k =>
    let a := sampleX k x
    let b := a + 4
    let c := if inSpan (q k) a then c ||| (1 : BitVec 32) <<< k else c
    if inSpan (q k) b then c ||| (16 : BitVec 32) <<< k else c) 0

def popcount (c : BitVec 32) : Nat := (List.range 32).countP fun i => c.getLsbD i

/-! ## Section 4: Rows -/

/-- The cycle type and the bit of `SET_OTHER_MODES` that decide about a
    pixel. -/
structure Mode where
  /-- Antialiasing. -/
  aa : Bool
  fill : Bool
  /-- COPY of a 16-bit texture. -/
  copy16 : Bool

/-- The four sub-scanlines of row `y`. -/
def Tri.subs (t : Tri) (sc : Scissor) (y : Int) (k : Nat) : Int × Int := t.sub sc (y * 4 + k)

/-- Does the loop over the rows come to `y`, and is one of its sub-scanlines
    valid? -/
def Tri.hasRow (t : Tri) (sc : Scissor) (y : Int) : Bool :=
  max (t.subLo sc) 0 / 4 ≤ y && y ≤ (t.subHi sc - 1) / 4 && t.subLo sc < t.subHi sc &&
    (List.range 4).any fun k => !t.bad sc (y * 4 + k)

def spanX0 (q : Nat → Int × Int) : Int :=
  min (min (q 0).1 (q 1).1) (min (q 2).1 (q 3).1) / 8

def spanX1 (q : Nat → Int × Int) : Int :=
  max (max (q 0).2 (q 1).2) (max (q 2).2 (q 3).2) / 8

/-- `xs ≤ x < xe` -/
def xRange (q : Nat → Int × Int) : List Int :=
  let xs := max (spanX0 q) 0
  let xe := spanX1 q + 1
  (List.range (xe - xs).toNat).map fun (i : Nat) => xs + (i : Int)

/-- The decision on one pixel. -/
def Mode.takes (m : Mode) (cov : BitVec 32) : Bool :=
  m.copy16 || m.fill || if m.aa then cov != 0 else cov.getLsbD 0

/-- The pixels of row `y` that are drawn, with their hits. -/
def Tri.pixels (t : Tri) (m : Mode) (sc : Scissor) (y : Int) : List (Int × Nat) :=
  if t.hasRow sc y then
    let q := t.subs sc y
    ((xRange q).filter fun x => m.takes (coverage q x)).map fun x => (x, popcount (coverage q x))
  else []

/-- Is the pixel drawn? -/
def Tri.draws (t : Tri) (m : Mode) (sc : Scissor) (y x : Int) : Bool :=
  ((t.pixels m sc y).lookup x).isSome

/-- The hits of a pixel; one that is not drawn has none. -/
def Tri.hits (t : Tri) (m : Mode) (sc : Scissor) (y x : Int) : Nat :=
  ((t.pixels m sc y).lookup x).getD 0

/-! ## Section 5: Sampling -/

theorem getLsbD_sixteen (k i : Nat) (hk : k < 4) :
    ((16 : BitVec 32) <<< k).getLsbD i = decide (i = k + 4) := by
  have h16 : (16 : BitVec 32) = BitVec.twoPow 32 4 := by decide
  rw [h16, BitVec.getLsbD_shiftLeft, BitVec.getLsbD_twoPow]
  grind

theorem getLsbD_one_shift (k i : Nat) (hk : k < 4) :
    ((1 : BitVec 32) <<< k).getLsbD i = decide (i = k) := by
  have h1 : (1 : BitVec 32) = BitVec.twoPow 32 0 := by decide
  rw [h1, BitVec.getLsbD_shiftLeft, BitVec.getLsbD_twoPow]
  grind

/-- The sample that a bit of the coverage is. -/
def sampleBit (q : Nat → Int × Int) (x : Int) (i : Nat) : Bool :=
  if i < 4 then inSpan (q i) (sampleX i x)
  else if i < 8 then inSpan (q (i - 4)) (sampleX (i - 4) x + 4)
  else false

theorem getLsbD_coverage (q : Nat → Int × Int) (x : Int) (i : Nat) :
    (coverage q x).getLsbD i = sampleBit q x i := by
  have hstep : ∀ (c : BitVec 32) (p r : Bool) (k : Nat), k < 4 →
      (if r then (if p then c ||| (1 : BitVec 32) <<< k else c) ||| (16 : BitVec 32) <<< k
        else if p then c ||| (1 : BitVec 32) <<< k else c).getLsbD i =
        (c.getLsbD i || (p && decide (i = k)) || (r && decide (i = k + 4))) := by
    intro c p r k hk
    have h16 := getLsbD_sixteen k i hk
    have h1 := getLsbD_one_shift k i hk
    cases p <;> cases r <;> simp only [Bool.false_eq_true, if_false, if_true, BitVec.getLsbD_or, h1,
      h16, Bool.false_and, Bool.true_and, Bool.or_false]
  unfold coverage
  simp only [List.range, List.range.loop, List.foldl, hstep _ _ _ _ (by decide : 0 < 4),
    hstep _ _ _ _ (by decide : 1 < 4), hstep _ _ _ _ (by decide : 2 < 4),
    hstep _ _ _ _ (by decide : 3 < 4)]
  unfold sampleBit
  by_cases h8 : i < 8
  · interval_cases i <;> simp
  · have h4 : ¬ i < 4 := by omega
    simp [h4, h8]
    omega

theorem popcount_eq_zero_iff (c : BitVec 32) : popcount c = 0 ↔ c = 0 := by
  unfold popcount
  rw [List.countP_eq_zero]
  constructor
  · intro h
    refine BitVec.eq_of_getLsbD_eq fun i hi => ?_
    have hbit := h i (List.mem_range.mpr hi)
    rw [Bool.not_eq_true] at hbit
    rw [hbit]
    exact BitVec.getLsbD_zero.symm
  · rintro rfl i -
    simp

/-- A covered sample belongs to the pixel. -/
theorem sampleBit_spec {q : Nat → Int × Int} {x : Int} {i : Nat} (h : sampleBit q x i = true) :
    ∃ k < 4, ∃ a, inSpan (q k) a = true ∧ a / 8 = x := by
  unfold sampleBit at h
  split_ifs at h with h4 h8
  · refine ⟨i, h4, sampleX i x, h, ?_⟩
    unfold sampleX
    split_ifs <;> omega
  · refine ⟨i - 4, by omega, sampleX (i - 4) x + 4, h, ?_⟩
    unfold sampleX
    split_ifs <;> omega

/-- The span of a row is as wide as its samples need. -/
theorem mem_xRange {q : Nat → Int × Int} {x a : Int} {k : Nat} (hk : k < 4)
    (ha : inSpan (q k) a = true) (hx : a / 8 = x) (h0 : 0 ≤ x) : x ∈ xRange q := by
  obtain ⟨hlo, hhi⟩ : (q k).1 ≤ a ∧ a < (q k).2 := by simpa [inSpan] using ha
  have hmin : min (min (q 0).1 (q 1).1) (min (q 2).1 (q 3).1) ≤ (q k).1 := by
    interval_cases k <;> omega
  have hmax : (q k).2 ≤ max (max (q 0).2 (q 1).2) (max (q 2).2 (q 3).2) := by
    interval_cases k <;> omega
  have hxlo : max (spanX0 q) 0 ≤ x := by
    unfold spanX0
    omega
  have hxhi : x < spanX1 q + 1 := by
    unfold spanX1
    omega
  refine List.mem_map.mpr ⟨(x - max (spanX0 q) 0).toNat, List.mem_range.mpr ?_, ?_⟩
  · omega
  · omega

section Rows

variable {t : Tri} {sc : Scissor} {m : Mode}

/-- A covered sample lies on a valid sub-scanline. -/
theorem sub_spec {ys a : Int} (h : inSpan (t.sub sc ys) a = true) :
    t.bad sc ys = false ∧ 0 ≤ ys ∧ 0 ≤ a ∧ t.subLo sc ≤ ys ∧ ys < t.subHi sc := by
  unfold Tri.sub at h
  split_ifs at h with hbad
  · simp [inSpan] at h
    omega
  · rw [Bool.not_eq_true] at hbad
    have hact : t.active sc ys = true := by
      have := hbad
      unfold Tri.bad at this
      rw [Bool.or_eq_false_iff] at this
      simpa using this.2
    obtain ⟨hlo, hhi⟩ : t.subLo sc ≤ ys ∧ ys < t.subHi sc := by simpa [Tri.active] using hact
    obtain ⟨ha, -⟩ : sc.clip (quant (t.left ys)) ≤ a ∧ a < sc.clip (quant (t.right ys)) := by
      simpa [inSpan] using h
    have hclip : 0 ≤ sc.clip (quant (t.left ys)) := by
      unfold Scissor.clip
      omega
    refine ⟨hbad, ?_, by omega, hlo, hhi⟩
    unfold Tri.subLo at hlo
    omega

theorem hasRow_of_sample {y a : Int} {k : Nat} (hk : k < 4)
    (h : inSpan (t.subs sc y k) a = true) : t.hasRow sc y = true := by
  obtain ⟨hbad, hys, -, hlo, hhi⟩ := sub_spec h
  unfold Tri.hasRow
  simp only [Bool.and_eq_true, decide_eq_true_iff, List.any_eq_true]
  refine ⟨⟨⟨by omega, by omega⟩, by omega⟩, k, List.mem_range.mpr hk, ?_⟩
  rw [hbad]
  rfl

/-- Looking a pixel up in the list of those that are drawn. -/
theorem lookup_map_filter {α : Type} (p : Int → Bool) (f : Int → α) (l : List Int) (x : Int) :
    ((l.filter p).map fun x => (x, f x)).lookup x = if x ∈ l ∧ p x then some (f x) else none := by
  induction l with
  | nil => simp
  | cons y l ih =>
    rw [List.filter_cons]
    by_cases hy : p y = true
    · rw [if_pos hy, List.map_cons, List.lookup_cons, ih]
      by_cases hxy : x = y
      · subst hxy
        simp [hy]
      · rw [beq_eq_false_iff_ne.mpr hxy]
        simp [hxy]
    · rw [if_neg hy, ih]
      refine if_congr ?_ rfl rfl
      rw [List.mem_cons]
      refine and_congr_left fun hx => ?_
      exact (or_iff_right fun (h : x = y) => hy (h ▸ hx)).symm

/-- Outside FILL and COPY a pixel is drawn by its coverage, in whatever row. -/
theorem lookup_pixels (hfill : m.fill = false) (hcopy : m.copy16 = false) (y x : Int) :
    (t.pixels m sc y).lookup x =
      if m.takes (coverage (t.subs sc y) x) then some (popcount (coverage (t.subs sc y) x))
      else none := by
  by_cases hrow : t.hasRow sc y ∧ x ∈ xRange (t.subs sc y)
  · rw [Tri.pixels, if_pos hrow.1, lookup_map_filter]
    exact if_congr (and_iff_right hrow.2) rfl rfl
  · -- no sample is covered, so that the coverage takes nothing
    have hzero : ∀ i, (coverage (t.subs sc y) x).getLsbD i = false := by
      intro i
      rw [getLsbD_coverage, ← Bool.not_eq_true]
      intro h
      obtain ⟨k, hk, a, ha, hx⟩ := sampleBit_spec h
      refine hrow ⟨hasRow_of_sample hk ha, mem_xRange hk ha hx ?_⟩
      have := (sub_spec ha).2.2.1
      omega
    have hcov : coverage (t.subs sc y) x = 0 :=
      BitVec.eq_of_getLsbD_eq fun i _ => (hzero i).trans BitVec.getLsbD_zero.symm
    have htakes : m.takes (coverage (t.subs sc y) x) = false := by
      unfold Mode.takes
      rw [hfill, hcopy, hcov]
      cases m.aa <;> rfl
    rw [htakes, if_neg Bool.false_ne_true, Tri.pixels]
    split_ifs with hr
    · rw [lookup_map_filter, if_neg]
      rintro ⟨hx, -⟩
      exact hrow ⟨hr, hx⟩
    · rfl

end Rows

/-! ## Section 6: Shared edges -/

/-- The values `quant` does not cut. -/
def In27 (x : Int) : Prop := -2 ^ 26 ≤ x ∧ x < 2 ^ 26

theorem quant_eq {x : Int} (h : In27 x) :
    quant x = if x % 2 ^ 12 ≠ 0 then x / 2 ^ 12 / 2 * 2 + 1 else x / 2 ^ 12 := by
  obtain ⟨hlo, hhi⟩ := h
  have hx : (BitVec.ofInt 27 x).toInt = x := by
    rw [BitVec.toInt_ofInt]
    exact Int.bmod_eq_of_le (by omega) (by omega)
  unfold quant
  rw [hx]

/-- Quantising keeps the order of edges: the sticky bit only moves a value to
    the odd eighth above it. -/
theorem quant_mono {x y : Int} (hx : In27 x) (hy : In27 y) (h : x ≤ y) : quant x ≤ quant y := by
  rw [quant_eq hx, quant_eq hy]
  split_ifs <;> omega

theorem clip_mono (sc : Scissor) {p q : Int} (h : p ≤ q) : sc.clip p ≤ sc.clip q := by
  unfold Scissor.clip
  omega

/-- On the sub-scanline `ys` the right edge of `A` is the left edge of `B`, and
    `J` has the outer edges of the two. -/
structure Seam (A B J : Tri) (sc : Scissor) (ys : Int) : Prop where
  activeA : A.active sc ys = true
  activeB : B.active sc ys = true
  activeJ : J.active sc ys = true
  shared : A.right ys = B.left ys
  leftA : A.left ys ≤ A.right ys
  rightB : B.left ys ≤ B.right ys
  inA : In27 (A.left ys)
  inB : In27 (B.right ys)
  leftJ : J.left ys = A.left ys
  rightJ : J.right ys = B.right ys

/-- None of the three is there. -/
structure Idle (A B J : Tri) (sc : Scissor) (ys : Int) : Prop where
  activeA : A.active sc ys = false
  activeB : B.active sc ys = false
  activeJ : J.active sc ys = false

theorem sub_of_le {t : Tri} {sc : Scissor} {ys : Int} (hact : t.active sc ys = true)
    (hl : In27 (t.left ys)) (hr : In27 (t.right ys)) (h : t.left ys ≤ t.right ys) :
    t.sub sc ys = (sc.clip (quant (t.left ys)), sc.clip (quant (t.right ys))) := by
  have hq := quant_mono hl hr h
  have hbad : t.bad sc ys = false := by
    unfold Tri.bad
    rw [hact, Bool.not_true, Bool.or_false, decide_eq_false_iff_not]
    omega
  rw [Tri.sub, hbad, if_neg Bool.false_ne_true]

theorem sub_of_idle {t : Tri} {sc : Scissor} {ys : Int} (h : t.active sc ys = false) :
    t.sub sc ys = (0xffff, 0) := by
  rw [Tri.sub, Tri.bad, h, Bool.not_false, Bool.or_true, if_pos rfl]

/-- Two spans share out the samples of a third. -/
def Splits (a b j : Int × Int) : Prop :=
  ∀ x, ¬ (inSpan a x = true ∧ inSpan b x = true) ∧ (inSpan a x || inSpan b x) = inSpan j x

/-- **Step lemma.** One sub-scanline of a seam. -/
theorem Seam.splits {A B J : Tri} {sc : Scissor} {ys : Int} (h : Seam A B J sc ys) :
    Splits (A.sub sc ys) (B.sub sc ys) (J.sub sc ys) := by
  obtain ⟨hA, hB, hJ, hshared, hleft, hright, hinA, hinB, hleftJ, hrightJ⟩ := h
  have hmid : In27 (B.left ys) := by
    unfold In27 at *
    omega
  have hinJ : J.left ys ≤ J.right ys := by omega
  have hqL := clip_mono sc (quant_mono hinA hmid (hshared ▸ hleft))
  have hqR := clip_mono sc (quant_mono hmid hinB hright)
  rw [sub_of_le hA hinA (hshared ▸ hmid) hleft, sub_of_le hB hmid hinB hright,
    sub_of_le hJ (hleftJ ▸ hinA) (hrightJ ▸ hinB) hinJ, hshared, hleftJ, hrightJ]
  intro x
  constructor
  · rintro ⟨ha, hb⟩
    simp only [inSpan, Bool.and_eq_true, decide_eq_true_iff] at ha hb
    omega
  · rw [Bool.eq_iff_iff]
    simp only [inSpan, Bool.or_eq_true, Bool.and_eq_true, decide_eq_true_iff]
    omega

theorem Idle.splits {A B J : Tri} {sc : Scissor} {ys : Int} (h : Idle A B J sc ys) :
    Splits (A.sub sc ys) (B.sub sc ys) (J.sub sc ys) := by
  rw [sub_of_idle h.activeA, sub_of_idle h.activeB, sub_of_idle h.activeJ]
  intro x
  have hnone : inSpan (0xffff, 0) x = false := by
    simp only [inSpan, Bool.and_eq_false_iff, decide_eq_false_iff_not]
    omega
  rw [hnone]
  exact ⟨fun h => Bool.false_ne_true h.1, rfl⟩

/-- A bit of the coverage, where its sub-scanline is shared out. -/
theorem sampleBit_splits {a b j : Nat → Int × Int} {i : Nat}
    (h : i < 8 → Splits (a (i % 4)) (b (i % 4)) (j (i % 4))) (x : Int) :
    ¬ (sampleBit a x i = true ∧ sampleBit b x i = true) ∧
      (sampleBit a x i || sampleBit b x i) = sampleBit j x i := by
  unfold sampleBit
  split_ifs with h4 h8
  · have hi : i % 4 = i := Nat.mod_eq_of_lt h4
    rw [hi] at h
    exact h (by omega) _
  · have hi : i % 4 = i - 4 := by omega
    rw [hi] at h
    exact h h8 _
  · exact ⟨And.left, rfl⟩

theorem countP_add {α : Type} {p q r : α → Bool} (l : List α)
    (h : ∀ a ∈ l, ¬ (p a = true ∧ q a = true) ∧ (p a || q a) = r a) :
    l.countP p + l.countP q = l.countP r := by
  induction l with
  | nil => rfl
  | cons a l ih =>
    obtain ⟨hdisj, hor⟩ := h a List.mem_cons_self
    have hl := ih fun b hb => h b (List.mem_cons_of_mem a hb)
    rw [List.countP_cons, List.countP_cons, List.countP_cons, ← hor]
    cases hp : p a <;> cases hq : q a <;> simp_all <;> omega

/-- The hits of a row are shared out if each of its sub-scanlines is. -/
theorem popcount_splits {a b j : Nat → Int × Int} (h : ∀ k < 4, Splits (a k) (b k) (j k))
    (x : Int) :
    popcount (coverage a x) + popcount (coverage b x) = popcount (coverage j x) := by
  refine countP_add _ fun i _ => ?_
  simp only [getLsbD_coverage]
  exact sampleBit_splits (fun _ => h _ (Nat.mod_lt _ (by decide))) x

section Normal

variable {t : Tri} {sc : Scissor} {m : Mode}

theorem draws_eq (hfill : m.fill = false) (hcopy : m.copy16 = false) (y x : Int) :
    t.draws m sc y x = m.takes (coverage (t.subs sc y) x) := by
  rw [Tri.draws, lookup_pixels hfill hcopy]
  cases m.takes (coverage (t.subs sc y) x) <;> rfl

/-- With antialiasing a pixel that is not drawn has no sample. -/
theorem hits_eq (hfill : m.fill = false) (hcopy : m.copy16 = false) (haa : m.aa = true)
    (y x : Int) : t.hits m sc y x = popcount (coverage (t.subs sc y) x) := by
  have htakes : m.takes (coverage (t.subs sc y) x) = (coverage (t.subs sc y) x != 0) := by
    rw [Mode.takes, hfill, hcopy, haa]
    rfl
  rw [Tri.hits, lookup_pixels hfill hcopy, htakes]
  split_ifs with h
  · rfl
  · rw [Bool.not_eq_true, bne_eq_false_iff_eq] at h
    exact ((popcount_eq_zero_iff _).mpr h).symm

/-- Without it the pixel lives or dies with its first sample. -/
theorem draws_noAA (hfill : m.fill = false) (hcopy : m.copy16 = false) (haa : m.aa = false)
    (y x : Int) : t.draws m sc y x = inSpan (t.sub sc (y * 4)) (x * 8) := by
  have htakes : m.takes (coverage (t.subs sc y) x) = (coverage (t.subs sc y) x).getLsbD 0 := by
    rw [Mode.takes, hfill, hcopy, haa]
    rfl
  rw [draws_eq hfill hcopy, htakes, getLsbD_coverage]
  unfold sampleBit sampleX Tri.subs
  simp

end Normal

/-- What the seam between `A` and `B` promises in a drawing mode. -/
structure Watertight (A B J : Tri) (sc : Scissor) (m : Mode) : Prop where
  /-- The samples of a sub-scanline are shared out. -/
  samples : ∀ ys, Seam A B J sc ys → Splits (A.sub sc ys) (B.sub sc ys) (J.sub sc ys)
  /-- Without antialiasing every pixel the joined triangle draws is drawn by
      exactly one of the two, and no other is drawn. -/
  pixels : m.aa = false → ∀ y, Seam A B J sc (y * 4) → ∀ x,
    ¬ (A.draws m sc y x = true ∧ B.draws m sc y x = true) ∧
      (A.draws m sc y x || B.draws m sc y x) = J.draws m sc y x
  /-- With it the hits add up. -/
  hits : m.aa = true → ∀ y : Int,
    (∀ k < 4, Seam A B J sc (y * 4 + (k : Nat)) ∨ Idle A B J sc (y * 4 + (k : Nat))) →
    ∀ x, A.hits m sc y x + B.hits m sc y x = J.hits m sc y x

/-- **Shared edges are watertight** in 1-cycle and 2-cycle mode. FILL, and
    COPY of 16-bit textures, do not look at the coverage. -/
theorem watertight (A B J : Tri) (sc : Scissor) (m : Mode) (hfill : m.fill = false)
    (hcopy : m.copy16 = false) : Watertight A B J sc m where
  samples := fun _ h => h.splits
  pixels := by
    intro haa y h x
    rw [draws_noAA hfill hcopy haa, draws_noAA hfill hcopy haa, draws_noAA hfill hcopy haa]
    exact h.splits (x * 8)
  hits := by
    intro haa y h x
    rw [hits_eq hfill hcopy haa, hits_eq hfill hcopy haa, hits_eq hfill hcopy haa]
    refine popcount_splits (fun k hk => ?_) x
    rcases h k hk with hseam | hidle
    · exact hseam.splits
    · exact hidle.splits

/-- A rectangle of two rows, with its edges in pixels. -/
def box (x₀ x₁ : Int) : Tri where
  leftMajor := true
  yl := 8
  ym := 8
  yh := 0
  xl := x₁ * 2 ^ 15
  dxl := 0
  xh := x₀ * 2 ^ 15
  dxh := 0
  xm := x₁ * 2 ^ 15
  dxm := 0

def smallScissor : Scissor := { x0 := 0, y0 := 0, x1 := 8, y1 := 8 }

theorem box_seam : Seam (box 0 1) (box 1 2) (box 0 2) smallScissor 0 :=
  ⟨by decide, by decide, by decide, by decide, by decide, by decide, ⟨by decide, by decide⟩,
    ⟨by decide, by decide⟩, by decide, by decide⟩

theorem watertight_boxes :
    Watertight (box 0 1) (box 1 2) (box 0 2) smallScissor
      { aa := false, fill := false, copy16 := false } :=
  watertight (box 0 1) (box 1 2) (box 0 2) smallScissor _ rfl rfl

/-- In FILL both triangles draw the pixel behind the shared edge. -/
theorem fill_draws_twice :
    ¬ ∀ (A B J : Tri) (sc : Scissor) (m : Mode), Watertight A B J sc m := by
  intro h
  have hpixel := ((h (box 0 1) (box 1 2) (box 0 2) smallScissor
    { aa := false, fill := true, copy16 := false }).pixels rfl 0 box_seam 1).1
  exact hpixel ⟨by decide, by decide⟩

end Rdp
