import Kestrel64.Lib.Slots
import Kestrel64.Rdp.CostPass

/-! # RDP: The Zone a List Writes

    The pass that counts the cost announces where the pass that draws will
    write: from the start of the colour image, and of the z image, as far as
    the scissor reaches, four bytes for a pixel (`acctFinish`). The intervals
    go into four slots (`wrAdd`).

    The cost pass decides on its own whether a primitive writes. It takes a
    triangle to write every pixel it counts. It tests a rectangle by alpha and
    depth, before anything in front of it in the list has been drawn, and by a
    plainer rule than the blender's.

    * `account_covers` — the zone has the bytes of every store of a primitive
      that the cost pass counts as one that writes (`Counted`), and keeps the
      bytes it has.
-/

namespace Rdp

open Slots

/-! ## Section 1: Zone -/

/-- `kWrSlots` -/
def kWrSlots : Nat := 4

/-- `wrLo` and `wrHi` -/
structure Zone where
  slots : List (Slot Nat)
  length : slots.length = kWrSlots

/-- `wrClear` -/
def Zone.clear : Zone := ⟨List.replicate kWrSlots ⟨2 ^ 32 - 1, 0⟩, List.length_replicate⟩

/-- How much `s` grows when `t` is joined with it. -/
def grow (t s : Slot Nat) : Nat := max s.hi t.hi - min s.lo t.lo - (s.hi - s.lo)

/-- The loop of `wrAdd` over the slots from `i` on: `best` and `bestGrow`. -/
def tightest (t : Slot Nat) : Nat → Nat × Nat → List (Slot Nat) → Nat × Nat
  | _, best, [] => best
  | i, best, s :: ss => tightest t (i + 1) (if grow t s < best.2 then (i, grow t s) else best) ss

theorem tightest_lt (t : Slot Nat) {n i : Nat} {best : Nat × Nat} {ss : List (Slot Nat)}
    (hbest : best.1 < n) (hlen : i + ss.length = n) : (tightest t i best ss).1 < n := by
  induction ss generalizing i best with
  | nil => exact hbest
  | cons s ss ih =>
    rw [List.length_cons] at hlen
    refine ih ?_ (by omega)
    split_ifs
    · show i < n
      omega
    · exact hbest

/-- The slot that grows least. -/
def best (t : Slot Nat) (ss : List (Slot Nat)) : Nat := (tightest t 0 (0, 2 ^ 64 - 1) ss).1

def Zone.wrAdd (z : Zone) (t : Slot Nat) : Zone where
  slots := insert (best t) t z.slots
  length := (insert_length _ _ _).trans z.length

def Zone.Has (z : Zone) (a : Nat) : Prop := Covers z.slots a

/-- Whatever is added, nothing is dropped. -/
theorem wrAdd_has {z : Zone} {t : Slot Nat} {a : Nat} (h : t.Mem a ∨ z.Has a) :
    (z.wrAdd t).Has a := by
  have hbest : best t z.slots < z.slots.length := by
    refine tightest_lt t ?_ (Nat.zero_add _)
    rw [z.length]
    decide
  exact covers_insert hbest h

/-! ## Section 2: State -/

/-- The commands that set what a primitive needs to find its place. -/
def Raster.exec (r : Raster) (ws : List (BitVec 64)) : Raster :=
  let cmd := ws.headD 0
  match cmd.toNat / 2 ^ 56 % 64 with
  | 0x2d => r.setScissor cmd
  | 0x2f => { r with
      other_hi := (cmd >>> 32).setWidth 32 &&& 0x00ffffff
      other_lo := cmd.setWidth 32 }
  | 0x3e => { r with zi_addr := cmd.setWidth 32 &&& 0x00ffffff }
  | 0x3f => { r with
      ci_size := cmd.toNat / 2 ^ 51 % 4
      ci_width := cmd.toNat / 2 ^ 32 % 2 ^ 10 + 1
      ci_addr := cmd.setWidth 32 &&& 0x00ffffff }
  | _ => r

/-- The primitive a command is. -/
def primOf (texel : Bool) (ws : List (BitVec 64)) : Option Prim :=
  let op := (ws.headD 0).toNat / 2 ^ 56 % 64
  if 0x08 ≤ op ∧ op ≤ 0x0f then
    some (.triangle (ws.getD 0 0) (ws.getD 1 0) (ws.getD 2 0) (ws.getD 3 0) texel)
  else if op = 0x24 ∨ op = 0x25 then some (.texRect (ws.getD 0 0) texel)
  else if op = 0x36 then some (.fillRect (ws.getD 0 0))
  else none

/-- The sizes that the registers have room for. -/
structure Raster.Sized (r : Raster) : Prop where
  x0 : r.sx0 < 2 ^ 10
  x1 : r.sx1 ≤ 2 ^ 10
  y1 : r.sy1 ≤ 2 ^ 10
  fc_ge : r.sx1 ≤ r.sx1fc
  fc_le : r.sx1fc ≤ r.sx1 + 1
  width : r.ci_width ≤ 2 ^ 10
  ci : r.ci_addr.toNat < 2 ^ 24
  zi : r.zi_addr.toNat < 2 ^ 24

/-- Power-on, with `size` bytes of RDRAM. -/
def powerOn (size : Nat) : Raster where
  other_hi := 0
  other_lo := 0
  ci_addr := 0
  ci_size := 2
  ci_width := 320
  zi_addr := 0
  sx0 := 0
  sy0 := 0
  sx1 := 320
  sy1 := 240
  sx1fc := 320
  costOnly := false
  size := size

theorem powerOn_sized (size : Nat) : (powerOn size).Sized := by
  unfold powerOn
  constructor <;> dsimp only <;> decide

theorem addr24 (v : BitVec 32) : (v &&& 0x00ffffff).toNat < 2 ^ 24 := by
  rw [BitVec.toNat_and]
  exact lt_of_le_of_lt Nat.and_le_right (by decide)

theorem exec_sized {r : Raster} (h : r.Sized) (ws : List (BitVec 64)) : (r.exec ws).Sized := by
  unfold Raster.exec
  dsimp only
  split
  · have hx0 := field12_lt (ws.headD 0) 44
    have hx1 := field12_lt (ws.headD 0) 12
    have hy1 := field12_lt (ws.headD 0) 0
    unfold Raster.setScissor
    constructor <;> dsimp only
    all_goals first
      | omega
      | exact h.width
      | exact h.ci
      | exact h.zi
  · exact ⟨h.x0, h.x1, h.y1, h.fc_ge, h.fc_le, h.width, h.ci, h.zi⟩
  · exact ⟨h.x0, h.x1, h.y1, h.fc_ge, h.fc_le, h.width, h.ci, addr24 _⟩
  · refine ⟨h.x0, h.x1, h.y1, h.fc_ge, h.fc_le, ?_, addr24 _, h.zi⟩
    have := Nat.mod_lt ((ws.headD 0).toNat / 2 ^ 32) (show 0 < 2 ^ 10 by decide)
    dsimp only
    omega
  · exact h

theorem Raster.Sized.scissored {r : Raster} (h : r.Sized) : r.Scissored := by
  refine ⟨h.x0, h.x1, ?_⟩
  unfold Raster.scX1
  split_ifs
  · exact h.fc_ge
  · exact le_rfl

theorem Raster.Sized.scX1_le {r : Raster} (h : r.Sized) : r.scX1 ≤ r.sx1 + 1 := by
  unfold Raster.scX1
  split_ifs
  · exact h.fc_le
  · exact Nat.le_succ _

theorem Raster.Sized.drawPass {r : Raster} (h : r.Sized) : r.drawPass.Sized :=
  ⟨h.x0, h.x1, h.y1, h.fc_ge, h.fc_le, h.width, h.ci, h.zi⟩

/-! ## Section 3: Where a primitive stores -/

/-- The pixel is inside of the scissor, or one beyond on the right. -/
structure Store.Near (r : Raster) (st : Store) : Prop where
  x0 : 0 ≤ st.x
  x1 : st.x ≤ r.sx1
  y0 : 0 ≤ st.y
  y1 : st.y < r.sy1
  len : 0 < st.len ∧ st.len ≤ 4
  color : st.image = .color → st.addr = r.pixelAddr r.ci_addr st.len st.x st.y
  z : st.image = .z → st.addr = r.pixelAddr r.zi_addr st.len st.x st.y

section Near

variable {r : Raster} {px : Pipeline} {texel : Bool} {st : Store}

theorem Store.Inside.near (h : st.Inside r) (hr : r.Sized) : st.Near r := by
  have hsc := hr.scX1_le
  have hx0 := h.x0
  have hx1 := h.x1
  have hy0 := h.y0
  refine ⟨by omega, by omega, by omega, h.y1, ?_, ?_, ?_⟩
  · cases hi : st.image with
    | color =>
      rw [(h.color hi).2]
      unfold Raster.bpp
      split_ifs <;> decide
    | z =>
      rw [(h.z hi).2]
      decide
  · intro hi
    obtain ⟨haddr, hlen⟩ := h.color hi
    rw [haddr, hlen]
  · intro hi
    obtain ⟨haddr, hlen⟩ := h.z hi
    rw [haddr, hlen]

theorem drawTriangle_near (hr : r.Sized) (hcost : r.costOnly = false) {t : Tri}
    (hst : st ∈ r.drawTriangle px texel t) : st.Near r := by
  by_cases hfill : r.cycleType = 3
  · obtain ⟨y, x, hrow, hx, hst⟩ := (mem_drawTriangle_fill hfill hcost).mp hst
    obtain ⟨hy0, hy1⟩ := row_bounds (mem_rows_of_hasRow hrow)
    change (r.sy0 : Int) ≤ y at hy0
    change y < (r.sy1 : Int) at hy1
    have hyb : 0 ≤ y := by omega
    have hxb : (0 : Int) ≤ x ∧ x ≤ r.sx1 := by
      rcases fill_span hr.x0 hr.x1 hrow hx with ⟨hlo, hhi⟩ | ⟨hat, -⟩
      · change (r.sx0 : Int) ≤ x at hlo
        change x < (r.sx1 : Int) at hhi
        omega
      · change x = (r.sx1 : Int) at hat
        omega
    have hput {len : Nat} (hlen : 0 < len ∧ len ≤ 4)
        (h : st ∈ r.put .color x y (r.pixelAddr r.ci_addr len x y) len) : st.Near r := by
      obtain ⟨-, rfl⟩ := mem_put.mp h
      exact ⟨hxb.1, hxb.2, hyb, hy1, hlen, fun _ => rfl, nofun⟩
    unfold Raster.fillTriPixel at hst
    split_ifs at hst
    · exact hput (by decide) hst
    · exact hput (by decide) hst
  · exact (drawTriangle_inside hr.scissored hfill hst).near hr

theorem stores_near (hr : r.Sized) (hcost : r.costOnly = false) {p : Prim}
    (hst : st ∈ r.stores px p) : st.Near r := by
  cases p with
  | triangle w₀ w₁ w₂ w₃ texel => exact drawTriangle_near hr hcost hst
  | texRect c₀ texel =>
    change st ∈ r.texRect px texel c₀ at hst
    unfold Raster.texRect at hst
    dsimp only at hst
    split at hst
    · rw [hcost, if_neg Bool.false_ne_true] at hst
      obtain ⟨x, y, -, -, -, -, hst⟩ := mem_eachPixel hst
      split_ifs at hst
      · exact (putPixel_inside hr.scissored hst).near hr
      · exact absurd hst List.not_mem_nil
    · exact drawTriangle_near hr hcost hst
  | fillRect cmd =>
    change st ∈ r.fillRectangle px cmd at hst
    unfold Raster.fillRectangle at hst
    dsimp only at hst
    split_ifs at hst
    · exact (fillRect_inside hr.scissored hst).near hr
    · exact (fillRect_inside hr.scissored hst).near hr

end Near

/-! ## Section 4: Intervals -/

/-- `w * h * 4` of `acctFinish` -/
def Raster.zoneBytes (r : Raster) : BitVec 32 :=
  BitVec.ofNat 32 (max r.ci_width r.sx1 + 1) * BitVec.ofNat 32 (r.sy1 + 1) * 4

/-- The interval of an image. -/
def Raster.imageSlot (r : Raster) (base : BitVec 32) : Slot Nat :=
  ⟨base.toNat, (base + r.zoneBytes).toNat⟩

theorem zoneBytes_toNat {r : Raster} (h : r.Sized) :
    r.zoneBytes.toNat = (max r.ci_width r.sx1 + 1) * (r.sy1 + 1) * 4 ∧
      r.zoneBytes.toNat < 2 ^ 23 := by
  have hw := h.width
  have hx := h.x1
  have hy := h.y1
  have hprod : (max r.ci_width r.sx1 + 1) * (r.sy1 + 1) ≤ (2 ^ 10 + 1) * (2 ^ 10 + 1) :=
    Nat.mul_le_mul (by omega) (by omega)
  have heq : r.zoneBytes.toNat = (max r.ci_width r.sx1 + 1) * (r.sy1 + 1) * 4 := by
    unfold Raster.zoneBytes
    rw [BitVec.toNat_mul, BitVec.toNat_mul, BitVec.toNat_ofNat, BitVec.toNat_ofNat,
      Nat.mod_eq_of_lt (by omega : max r.ci_width r.sx1 + 1 < 2 ^ 32),
      Nat.mod_eq_of_lt (by omega : r.sy1 + 1 < 2 ^ 32),
      Nat.mod_eq_of_lt (by omega : (max r.ci_width r.sx1 + 1) * (r.sy1 + 1) < 2 ^ 32),
      show (4 : BitVec 32).toNat = 4 from rfl]
    exact Nat.mod_eq_of_lt (by omega)
  refine ⟨heq, ?_⟩
  rw [heq]
  omega

/-- The address of a pixel, without wrapping around. -/
theorem pixelAddr_toNat {r : Raster} (h : r.Sized) {base : BitVec 32}
    (hbase : base.toNat < 2 ^ 24) {len : Nat} (hlen : len ≤ 4) {x y : Nat} (hx : x ≤ r.sx1)
    (hy : y < r.sy1) :
    (r.pixelAddr base len x y).toNat = base.toNat + (y * r.ci_width + x) * len := by
  have hw := h.width
  have hx1 := h.x1
  have hy1 := h.y1
  have hrow : y * r.ci_width ≤ 2 ^ 10 * 2 ^ 10 := Nat.mul_le_mul (by omega) hw
  have hoff : (y * r.ci_width + x) * len ≤ (2 ^ 10 * 2 ^ 10 + 2 ^ 10) * 4 :=
    Nat.mul_le_mul (by omega) hlen
  unfold Raster.pixelAddr
  rw [BitVec.ofInt_natCast, BitVec.ofInt_natCast, BitVec.toNat_add, BitVec.toNat_mul,
    BitVec.toNat_add, BitVec.toNat_mul]
  simp only [BitVec.toNat_ofNat]
  rw [Nat.mod_eq_of_lt (by omega : y < 2 ^ 32), Nat.mod_eq_of_lt (by omega : x < 2 ^ 32),
    Nat.mod_eq_of_lt (by omega : r.ci_width < 2 ^ 32),
    Nat.mod_eq_of_lt (by omega : len < 2 ^ 32),
    Nat.mod_eq_of_lt (by omega : y * r.ci_width < 2 ^ 32),
    Nat.mod_eq_of_lt (by omega : y * r.ci_width + x < 2 ^ 32),
    Nat.mod_eq_of_lt (by omega : (y * r.ci_width + x) * len < 2 ^ 32)]
  exact Nat.mod_eq_of_lt (by omega)

/-- A store is in the interval of its image. -/
theorem Store.Near.mem {r : Raster} {st : Store} (h : st.Near r) (hr : r.Sized)
    {base : BitVec 32} (hbase : base.toNat < 2 ^ 24)
    (haddr : st.addr = r.pixelAddr base st.len st.x st.y) {a : Nat} (hlo : st.addr.toNat ≤ a)
    (hhi : a < st.addr.toNat + st.len) : (r.imageSlot base).Mem a := by
  obtain ⟨x, hx⟩ := Int.eq_ofNat_of_zero_le h.x0
  obtain ⟨y, hy⟩ := Int.eq_ofNat_of_zero_le h.y0
  have hx1 : x ≤ r.sx1 := by
    have := h.x1
    omega
  have hy1 : y < r.sy1 := by
    have := h.y1
    omega
  obtain ⟨hbytes, hlt⟩ := zoneBytes_toNat hr
  have hpix := pixelAddr_toNat hr hbase h.len.2 hx1 hy1
  rw [haddr, hx, hy] at hlo hhi
  rw [hpix] at hlo hhi
  -- the pixels up to this one, in rows as long as the longer of the two
  have hrow : y * r.ci_width + x + 1 ≤ (max r.ci_width r.sx1 + 1) * (r.sy1 + 1) := by
    have hrows : y * r.ci_width ≤ (max r.ci_width r.sx1 + 1) * y := by
      rw [Nat.mul_comm]
      exact Nat.mul_le_mul_right _ (by omega)
    have hlast : (max r.ci_width r.sx1 + 1) * y + (max r.ci_width r.sx1 + 1) ≤
        (max r.ci_width r.sx1 + 1) * (r.sy1 + 1) :=
      Nat.mul_le_mul_left _ (by omega : y + 1 ≤ r.sy1 + 1)
    omega
  have hlen : (y * r.ci_width + x + 1) * st.len ≤
      (max r.ci_width r.sx1 + 1) * (r.sy1 + 1) * 4 := Nat.mul_le_mul hrow h.len.2
  rw [Nat.add_mul, Nat.one_mul] at hlen
  unfold Raster.imageSlot Slot.Mem
  dsimp only
  rw [BitVec.toNat_add, Nat.mod_eq_of_lt (by omega), hbytes]
  omega

/-! ## Section 5: Accounts -/

/-- What is made of a command besides its place: its texture, what the
    blender makes of a pixel, and what the cost pass sees of a rectangle. -/
structure Look where
  texel : Bool
  px : Pipeline
  /-- The alpha compare drops the colour of the rectangle. -/
  alphaDrops : Bool
  depthPasses : Int → Int → Bool

def PixelBox.area (b : PixelBox) : Nat := (b.x1 - b.x0) * (b.y1 - b.y0)

/-- The pixels that pass a test. -/
def PixelBox.count (b : PixelBox) (f : Int → Int → Bool) : Nat :=
  ((List.range (b.y1 - b.y0)).map fun j =>
    (List.range (b.x1 - b.x0)).countP fun i => f (b.x0 + i : Nat) (b.y0 + j : Nat)).sum

/-- `FILL_RECTANGLE`, cut to the scissor. -/
def Raster.fillBox (r : Raster) (cmd : BitVec 64) : PixelBox :=
  let cut (x0 y0 x1 y1 : Nat) : PixelBox :=
    { x0 := max x0 r.sx0, y0 := max y0 r.sy0, x1 := min x1 r.scX1, y1 := min y1 r.sy1 }
  if 2 ≤ r.cycleType then
    cut (field12 cmd 12 / 4) (field12 cmd 0 / 4) (field12 cmd 44 / 4 + 1) (field12 cmd 32 / 4 + 1)
  else
    cut ((field12 cmd 12 + 3) / 4) ((field12 cmd 0 + 3) / 4) ((field12 cmd 44 + 3) / 4)
      ((field12 cmd 32 + 3) / 4)

/-- `nWrite`: the pixels the cost pass takes to be written. -/
def Raster.writes (r : Raster) (v : Look) : Prim → Nat
  | .triangle w₀ w₁ w₂ w₃ texel => (r.costPass.chargeTri texel (.ofWords w₀ w₁ w₂ w₃)).npx
  | .texRect c₀ _ =>
    let b := r.rectBox c₀
    if r.cycleType < 2 && r.zActive && r.other_lo.getLsbD 4 then b.count v.depthPasses else b.area
  | .fillRect cmd =>
    let b := r.fillBox cmd
    let pipeMode : Bool := r.cycleType < 2
    if pipeMode && r.other_lo.getLsbD 0 && v.alphaDrops then 0
    else if pipeMode && r.other_lo.getLsbD 2 && r.other_lo.getLsbD 4 && r.zi_addr != 0 then
      b.count v.depthPasses
    else b.area

/-- `nZWrite` -/
def Raster.zWrites (r : Raster) (v : Look) (p : Prim) : Nat :=
  match p with
  | .triangle _ _ _ _ _ => if r.other_lo.getLsbD 5 && r.zi_addr != 0 then r.writes v p else 0
  | .texRect _ _ =>
    if r.cycleType < 2 && r.zActive && r.other_lo.getLsbD 5 then r.writes v p else 0
  | .fillRect _ =>
    if r.cycleType < 2 && r.other_lo.getLsbD 5 && r.zi_addr != 0 then r.writes v p else 0

/-- `acctFinish` -/
def Raster.account (r : Raster) (v : Look) (z : Zone) (p : Prim) : Zone :=
  if (r.costPass.charge p).npx = 0 then z
  else
    let z := if r.writes v p ≠ 0 then z.wrAdd (r.imageSlot r.ci_addr) else z
    if r.zWrites v p ≠ 0 ∧ r.zi_addr ≠ 0 then z.wrAdd (r.imageSlot r.zi_addr) else z

/-- The cost pass takes the primitive for one that writes, and its depths for
    written if they may be. -/
def Raster.Counted (r : Raster) (v : Look) (p : Prim) : Prop :=
  match p with
  | .triangle _ _ _ _ _ => True
  | .texRect _ texel =>
    0 < r.writes v p ∧
      -- a COPY that is neither of texels to 16 bits nor of indices to 8
      (r.cycleType = 2 → r.ci_size = 1 ∨ (r.ci_size = 2 ∧ texel = true) ∨ r.zi_addr = 0 ∨
        r.other_lo.getLsbD 5 = false)
  | .fillRect _ => 0 < r.writes v p

section Account

variable {r : Raster} {v : Look} {st : Store}

theorem account_keeps {z : Zone} {a : Nat} (h : z.Has a) (p : Prim) : (r.account v z p).Has a := by
  unfold Raster.account
  dsimp only
  split_ifs
  · exact h
  · exact wrAdd_has (.inr (wrAdd_has (.inr h)))
  · exact wrAdd_has (.inr h)
  · exact wrAdd_has (.inr h)
  · exact h

theorem account_color {z : Zone} {p : Prim} (hnpx : (r.costPass.charge p).npx ≠ 0)
    (hw : r.writes v p ≠ 0) {a : Nat} (h : (r.imageSlot r.ci_addr).Mem a) :
    (r.account v z p).Has a := by
  unfold Raster.account
  dsimp only
  rw [if_neg hnpx, if_pos hw]
  split_ifs
  · exact wrAdd_has (.inr (wrAdd_has (.inl h)))
  · exact wrAdd_has (.inl h)

theorem account_z {z : Zone} {p : Prim} (hnpx : (r.costPass.charge p).npx ≠ 0)
    (hw : r.zWrites v p ≠ 0) (hz : r.zi_addr ≠ 0) {a : Nat} (h : (r.imageSlot r.zi_addr).Mem a) :
    (r.account v z p).Has a := by
  unfold Raster.account
  dsimp only
  rw [if_neg hnpx, if_pos ⟨hw, hz⟩]
  exact wrAdd_has (.inl h)

theorem chargeArea_npx (b : PixelBox) : (r.chargeArea b).npx = b.area := by
  unfold Raster.chargeArea PixelBox.area
  refine List.foldlRecOn (motive := fun c : Charge => c.npx = _) _ _ rfl fun c hc _ _ => ?_
  unfold Raster.addSpan
  split_ifs <;> exact hc

theorem count_le (b : PixelBox) (f : Int → Int → Bool) : b.count f ≤ b.area := by
  unfold PixelBox.count PixelBox.area
  rw [Nat.mul_comm]
  refine (List.sum_le_card_nsmul _ (b.x1 - b.x0) fun n hn => ?_).trans_eq ?_
  · obtain ⟨j, -, rfl⟩ := List.mem_map.mp hn
    exact List.countP_le_length.trans_eq List.length_range
  · rw [List.length_map, List.length_range, nsmul_eq_mul, Nat.cast_id]

/-- Where something is written, something is counted. -/
theorem writes_le (p : Prim) : r.writes v p ≤ (r.costPass.charge p).npx := by
  cases p with
  | triangle w₀ w₁ w₂ w₃ texel => exact le_rfl
  | texRect c₀ texel =>
    have hnpx : (r.costPass.charge (.texRect c₀ texel)).npx = (r.rectBox c₀).area :=
      chargeArea_npx _
    rw [hnpx]
    unfold Raster.writes
    dsimp only
    split_ifs
    · exact count_le _ _
    · exact le_rfl
  | fillRect cmd =>
    have hnpx : (r.costPass.charge (.fillRect cmd)).npx = (r.fillBox cmd).area :=
      chargeArea_npx _
    rw [hnpx]
    unfold Raster.writes
    dsimp only
    split_ifs
    · exact Nat.zero_le _
    · exact count_le _ _
    · exact le_rfl

/-- A depth is stored by the blender, and in update mode. -/
theorem blendPixel_z {px : Pipeline} {z : Bool} {x y : Int} (hst : st ∈ r.blendPixel px z x y)
    (hi : st.image = .z) : z = true ∧ r.other_lo.getLsbD 5 = true := by
  have hcolor : st ∉ r.storePixel x y := by
    intro h
    rw [storePixel_eq, mem_put] at h
    rw [h.2] at hi
    cases hi
  unfold Raster.blendPixel at hst
  dsimp only at hst
  by_cases hout : (!r.inScissor x y || z && !r.inRdram (r.pixelAddr r.zi_addr 2 x y) 2) = true
  · rw [if_pos hout] at hst
    exact absurd hst List.not_mem_nil
  · rw [if_neg hout] at hst
    cases hpx : px x y with
    | none =>
      rw [hpx] at hst
      exact absurd hst List.not_mem_nil
    | some deep =>
      rw [hpx] at hst
      dsimp only at hst
      by_cases hz : (z && deep && r.other_lo.getLsbD 5) = true
      · simp only [Bool.and_eq_true] at hz
        exact ⟨hz.1.1, hz.2⟩
      · rw [if_neg hz, List.nil_append, List.append_nil, ite_self] at hst
        exact absurd hst hcolor

theorem drawTriangle_z {px : Pipeline} {texel : Bool} {t : Tri}
    (hst : st ∈ r.drawTriangle px texel t) (hi : st.image = .z) :
    r.zi_addr ≠ 0 ∧ r.other_lo.getLsbD 5 = true ∧ r.cycleType ≠ 3 ∧
      (r.mode texel).copy16 = false := by
  unfold Raster.drawTriangle at hst
  dsimp only at hst
  split_ifs at hst with hcost hfill
  · exact absurd hst List.not_mem_nil
  · obtain ⟨y, -, hst⟩ := List.mem_flatMap.mp hst
    obtain ⟨q, -, hst⟩ := List.mem_flatMap.mp hst
    unfold Raster.fillTriPixel at hst
    split_ifs at hst
    all_goals
      rw [mem_put] at hst
      rw [hst.2] at hi
      cases hi
  · obtain ⟨y, -, hst⟩ := List.mem_flatMap.mp hst
    obtain ⟨q, -, hst⟩ := List.mem_flatMap.mp hst
    obtain ⟨hz, h5⟩ := blendPixel_z hst hi
    simp only [Raster.zActive, Bool.and_eq_true, bne_iff_ne, Bool.not_eq_true'] at hz
    exact ⟨hz.1.1, h5, fun h => hfill (beq_iff_eq.mpr h), hz.2⟩

/-- A triangle that stores anything has been counted. -/
theorem triangle_npx {px : Pipeline} {texel : Bool} {t : Tri}
    (hst : st ∈ r.drawPass.drawTriangle px texel t) : (r.costPass.chargeTri texel t).npx ≠ 0 := by
  rw [chargeTri_eq]
  show Charge.npxHom _ ≠ 0
  rw [map_list_sum, List.map_map, Ne, List.sum_eq_zero_iff]
  intro hzero
  unfold Raster.drawTriangle at hst
  dsimp only at hst
  rw [if_neg (show ¬ r.drawPass.costOnly = true from Bool.false_ne_true)] at hst
  obtain ⟨y, hy, hst⟩ := List.mem_flatMap.mp hst
  obtain ⟨q, hq, -⟩ := List.mem_flatMap.mp hst
  have hlen := hzero _ (List.mem_map_of_mem hy)
  change (r.costPass.line _ (t.pixels (r.drawPass.mode texel) r.drawPass.scissor y).length).npx = 0
    at hlen
  rw [line_npx] at hlen
  rw [List.eq_nil_of_length_eq_zero hlen] at hq
  exact absurd hq List.not_mem_nil

/-- What a primitive writes to is what it is counted to write to. -/
theorem counted_writes {p : Prim} (h : r.Counted v p) (hst : st ∈ r.drawPass.stores v.px p) :
    r.writes v p ≠ 0 ∧ (st.image = .z → r.zi_addr ≠ 0 ∧ r.zWrites v p ≠ 0) := by
  cases p with
  | triangle w₀ w₁ w₂ w₃ texel =>
    have hn : r.writes v (.triangle w₀ w₁ w₂ w₃ texel) ≠ 0 := triangle_npx hst
    refine ⟨hn, fun hi => ?_⟩
    change st ∈ r.drawPass.drawTriangle v.px texel _ at hst
    obtain ⟨hz, h5, -, -⟩ := drawTriangle_z hst hi
    change r.zi_addr ≠ 0 at hz
    change r.other_lo.getLsbD 5 = true at h5
    refine ⟨hz, ?_⟩
    unfold Raster.zWrites
    dsimp only
    rwa [h5, Bool.true_and, if_pos (bne_iff_ne.mpr hz)]
  | texRect c₀ texel =>
    obtain ⟨hn, hcopy⟩ := h
    refine ⟨hn.ne', fun hi => ?_⟩
    change st ∈ r.drawPass.texRect v.px texel c₀ at hst
    unfold Raster.texRect at hst
    dsimp only at hst
    split at hst
    · -- indices have no depth
      rw [if_neg (show ¬ r.drawPass.costOnly = true from Bool.false_ne_true)] at hst
      obtain ⟨x, y, -, -, -, -, hst⟩ := mem_eachPixel hst
      split_ifs at hst
      · unfold Raster.putPixel at hst
        split_ifs at hst
        · rw [storePixel_eq, mem_put] at hst
          rw [hst.2] at hi
          cases hi
        · exact absurd hst List.not_mem_nil
      · exact absurd hst List.not_mem_nil
    · rename_i hindex
      obtain ⟨hz, h5, hfill, hcopy16⟩ := drawTriangle_z hst hi
      change r.zi_addr ≠ 0 at hz
      change r.other_lo.getLsbD 5 = true at h5
      change r.cycleType ≠ 3 at hfill
      change ¬ (r.cycleType = 2 ∧ r.ci_size = 1) at hindex
      change (r.cycleType == 2 && r.ci_size == 2 && texel) = false at hcopy16
      have hcycle : r.cycleType < 2 := by
        have hlt : r.cycleType < 4 := Nat.mod_lt _ (by decide)
        by_contra hge
        have h2 : r.cycleType = 2 := by omega
        rcases hcopy h2 with h1 | ⟨h2', ht⟩ | h0 | h0
        · exact hindex ⟨h2, h1⟩
        · rw [h2, h2', ht] at hcopy16
          cases hcopy16
        · exact hz h0
        · rw [h0] at h5
          cases h5
      have hactive : r.zActive = true := by
        unfold Raster.zActive
        rw [h5, Bool.or_true, Bool.and_true]
        exact bne_iff_ne.mpr hz
      refine ⟨hz, ?_⟩
      unfold Raster.zWrites
      dsimp only
      rw [decide_eq_true hcycle, hactive, h5]
      exact hn.ne'
  | fillRect cmd =>
    refine ⟨Nat.ne_of_gt h, fun hi => ?_⟩
    have hfill {x0 y0 x1 y1 : Nat} (hst : st ∈ r.drawPass.fillRect v.px x0 y0 x1 y1) :
        r.cycleType < 2 ∧ r.zi_addr ≠ 0 ∧ r.other_lo.getLsbD 5 = true := by
      unfold Raster.fillRect at hst
      rw [if_neg (show ¬ r.drawPass.costOnly = true from Bool.false_ne_true)] at hst
      obtain ⟨x, y, -, -, -, -, hst⟩ := mem_eachPixel hst
      split_ifs at hst with hcycle
      · obtain ⟨hz, h5⟩ := blendPixel_z hst hi
        change r.zActive = true at hz
        simp only [Raster.zActive, Bool.and_eq_true, bne_iff_ne] at hz
        exact ⟨hcycle, hz.1, h5⟩
      · rw [storePixel_eq, mem_put] at hst
        rw [hst.2] at hi
        cases hi
    obtain ⟨hcycle, hz, h5⟩ : r.cycleType < 2 ∧ r.zi_addr ≠ 0 ∧ r.other_lo.getLsbD 5 = true := by
      change st ∈ r.drawPass.fillRectangle v.px cmd at hst
      unfold Raster.fillRectangle at hst
      dsimp only at hst
      split_ifs at hst
      · exact hfill hst
      · exact hfill hst
    refine ⟨hz, ?_⟩
    unfold Raster.zWrites
    dsimp only
    rw [decide_eq_true hcycle, h5, Bool.true_and, Bool.true_and, if_pos (bne_iff_ne.mpr hz)]
    exact Nat.ne_of_gt h

/-- The zone has every byte that a counted primitive stores. -/
theorem account_covers (hr : r.Sized) {z : Zone} {p : Prim} (hc : r.Counted v p)
    (hst : st ∈ r.drawPass.stores v.px p) {a : Nat} (hlo : st.addr.toNat ≤ a)
    (hhi : a < st.addr.toNat + st.len) : (r.account v z p).Has a := by
  obtain ⟨hw, hz⟩ := counted_writes hc hst
  have hnear := stores_near hr.drawPass rfl hst
  have hnpx : (r.costPass.charge p).npx ≠ 0 := by
    have := @writes_le r v p
    omega
  cases hi : st.image with
  | color => exact account_color hnpx hw (hnear.mem hr.drawPass hr.ci (hnear.color hi) hlo hhi)
  | z =>
    obtain ⟨hzi, hzw⟩ := hz hi
    exact account_z hnpx hzw hzi (hnear.mem hr.drawPass hr.zi (hnear.z hi) hlo hhi)

end Account

end Rdp
