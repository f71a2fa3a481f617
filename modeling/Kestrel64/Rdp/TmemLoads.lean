import Kestrel64.Rdp.Tmem

/-! # RDP: What a Load Touches and Costs

    Every load stays in TMEM and in RDRAM. A `LOAD_TILE` is charged its rows
    and bytes, but for a box of 4-bit texels with a limit before the other: the
    differences wrap around there.

    * `load_charged_iff` — when a load is bounded and charged for what it moves.
-/

namespace Rdp

open Moves (Move)

/-! ## Section 1: Bounds -/

/-- The chunks of `copyRun`, byte by byte. -/
theorem copyChunks_eq (src dst n : Nat) :
    copyChunks src dst n =
      (List.range n).map fun j => .byte ((dst + j) % 0x1000) (src + j) := by
  induction src, dst, n using copyChunks.induct with
  | case1 src dst => rw [copyChunks, dif_pos rfl]; rfl
  | case2 src dst n hn d c ih =>
    have hd : dst % 0x1000 < 0x1000 := Nat.mod_lt _ (by decide)
    have hc : c ≤ n := Nat.min_le_left _ _
    have hroom : d + c ≤ 0x1000 := by
      have : c ≤ 0x1000 - d := Nat.min_le_right _ _
      omega
    rw [copyChunks, dif_neg hn]
    dsimp only
    rw [ih]
    have hrange : List.range n = List.range c ++ (List.range (n - c)).map (c + ·) := by
      rw [← List.range_add, Nat.add_sub_cancel' hc]
    rw [hrange, List.map_append, List.map_map]
    congr 1
    · refine List.map_congr_left fun j hj => ?_
      have := List.mem_range.mp hj
      congr 1
      omega
    · refine List.map_congr_left fun j _ => ?_
      show Move.byte ((d + c + j) % 0x1000) (src + c + j) =
        Move.byte ((dst + (c + j)) % 0x1000) (src + (c + j))
      have hmod : (d + c + j) % 0x1000 = (dst + (c + j)) % 0x1000 := by omega
      rw [hmod, Nat.add_assoc]

/-- A move inside TMEM and inside the chips. -/
def InChips (size : Nat) (mv : Move) : Prop := mv.dst < 0x1000 ∧ mv.src < size

section Bounds

variable {size : Nat} {mv : Move}

theorem copyRun_inChips {src dst n : Nat} (h : mv ∈ copyRun size src dst n) : InChips size mv := by
  unfold copyRun at h
  split_ifs at h
  · exact absurd h List.not_mem_nil
  · rw [copyChunks_eq, List.mem_map] at h
    obtain ⟨j, hj, rfl⟩ := h
    have := List.mem_range.mp hj
    exact ⟨Nat.mod_lt _ (by decide), show src + j < size by omega⟩

theorem putByte_inChips {d sa : Nat} (h : mv ∈ putByte size d sa) : InChips size mv := by
  unfold putByte at h
  split_ifs at h with hsa
  · rw [List.mem_singleton.mp h]
    exact ⟨Nat.mod_lt _ (by decide), hsa⟩
  · exact absurd h List.not_mem_nil

theorem put32_inChips {yuv : Bool} {d sa : Nat} (h : mv ∈ put32 size yuv d sa) :
    InChips size mv := by
  unfold put32 at h
  dsimp only at h
  have hd : d % 0x800 / 2 * 2 + 0x801 < 0x1000 := by
    have := Nat.mod_lt d (show 0 < 0x800 by decide)
    omega
  generalize d % 0x800 / 2 * 2 = d' at hd h
  split_ifs at h
  · exact absurd h List.not_mem_nil
  all_goals
    simp only [List.mem_cons, List.not_mem_nil, or_false] at h
    unfold InChips
    rcases h with rfl | rfl | rfl | rfl <;> unfold Move.dst Move.src <;> dsimp only <;> omega

theorem blockCopy_inChips {bpt src nb dxt : Nat} {yuv : Bool} {tl : Tile}
    (h : mv ∈ blockCopy size bpt yuv tl src nb dxt) : InChips size mv := by
  unfold blockCopy at h
  dsimp only at h
  split_ifs at h
  · obtain ⟨i, -, h⟩ := List.mem_flatMap.mp h
    rcases List.mem_append.mp h with h | h
    · exact put32_inChips h
    · split_ifs at h
      · exact put32_inChips h
      · exact absurd h List.not_mem_nil
  · exact copyRun_inChips h
  · obtain ⟨i, -, h⟩ := List.mem_flatMap.mp h
    obtain ⟨b, -, h⟩ := List.mem_flatMap.mp h
    exact putByte_inChips h

/-- The two loops over a box. -/
theorem mem_loops {f : Nat → Nat → List Move} {n k : Nat}
    (h : mv ∈ (List.range n).flatMap fun r => (List.range k).flatMap (f r)) :
    ∃ r < n, ∃ c < k, mv ∈ f r c := by
  obtain ⟨r, hr, h⟩ := List.mem_flatMap.mp h
  obtain ⟨c, hc, h⟩ := List.mem_flatMap.mp h
  exact ⟨r, List.mem_range.mp hr, c, List.mem_range.mp hc, h⟩

theorem boxNibbles_inChips {u : TexUnit} {tl : Tile} {b : Box}
    (h : mv ∈ u.boxNibbles size tl b) : InChips size mv := by
  obtain ⟨r, -, c, -, h⟩ := mem_loops h
  dsimp only at h
  split_ifs at h with hsrc
  · rw [List.mem_singleton.mp h]
    exact ⟨Nat.mod_lt _ (by decide), hsrc⟩
  · exact absurd h List.not_mem_nil

theorem boxBytes_inChips {u : TexUnit} {tl : Tile} {bpt : Nat} {b : Box}
    (h : mv ∈ u.boxBytes size tl bpt b) : InChips size mv := by
  obtain ⟨r, -, h⟩ := List.mem_flatMap.mp h
  dsimp only at h
  split_ifs at h
  · exact copyRun_inChips h
  · obtain ⟨i, -, h⟩ := List.mem_flatMap.mp h
    exact putByte_inChips h

theorem loadBox_inChips {u : TexUnit} {tl : Tile} {b : Box}
    (h : mv ∈ (u.loadBox size tl b).moves) : InChips size mv := by
  unfold TexUnit.loadBox at h
  dsimp only at h
  split_ifs at h
  · exact boxNibbles_inChips h
  · exact absurd h List.not_mem_nil
  · obtain ⟨r, -, k, -, h⟩ := mem_loops h
    exact put32_inChips h
  · obtain ⟨r, -, k, -, h⟩ := mem_loops h
    exact put32_inChips h
  · exact boxBytes_inChips h

theorem tlutMoves_inChips {vs ts effW vaddr off16 L : Nat} (hL : L < 0x800)
    (h : mv ∈ tlutMoves size vs ts effW vaddr off16 L) : InChips size mv := by
  unfold tlutMoves at h
  dsimp only at h
  split at h
  · exact absurd h List.not_mem_nil
  · split_ifs at h
    · exact absurd h List.not_mem_nil
    · simp only [List.mem_cons, List.not_mem_nil, or_false] at h
      rcases h with rfl | rfl <;> unfold InChips Move.dst Move.src <;> dsimp only <;> omega

theorem loadTlut_inChips {u : TexUnit} {tl : Tile} {cmd : BitVec 64}
    (h : mv ∈ (u.loadTlut size tl cmd).moves) : InChips size mv := by
  unfold TexUnit.loadTlut at h
  dsimp only at h
  by_cases hnone : u.ti_size = 0 ∨ tl.size = 3 ∨
      (BitVec.ofNat 12 (field12 cmd 12 / 4) - BitVec.ofNat 12 (field12 cmd 44 / 4) + 1).toNat = 0
  · rw [if_pos hnone] at h
    exact absurd h List.not_mem_nil
  · rw [if_neg hnone] at h
    dsimp only at h
    rw [List.mem_flatMap] at h
    obtain ⟨L, hL, h⟩ := h
    exact tlutMoves_inChips (List.mem_range.mp hL) h

/-- **Bounds.** Every load stays in TMEM and in the chips. -/
theorem loaded_inChips {u : TexUnit} {op : LoadOp} {cmd : BitVec 64}
    (h : mv ∈ (u.loaded size op cmd).moves) : InChips size mv := by
  cases op with
  | block => exact blockCopy_inChips h
  | tile => exact loadBox_inChips h
  | tlut => exact loadTlut_inChips h

end Bounds

/-! ## Section 2: Charges -/

/-- The counters have gone up by `gclk`. -/
structure Charged (k k' : Counters) (gclk : Nat) : Prop where
  dpc_tmem : k'.dpc_tmem = k.dpc_tmem + BitVec.ofNat 32 gclk
  dpc_bufbusy : k'.dpc_bufbusy = k.dpc_bufbusy + BitVec.ofNat 32 gclk
  rdpGclk : k'.rdpGclk = k.rdpGclk + BitVec.ofNat 64 gclk

/-- What a box costs: its rows, each with a start and a word for eight bytes. A
    box with a limit before the other is empty. -/
def TexUnit.boxGclk (u : TexUnit) (b : Box) : Nat :=
  let rowBytes := (b.cols * (4 * 2 ^ u.ti_size) + 7) / 8
  if b.rows = 0 ∨ b.cols = 0 then 0 else b.rows * (u.tmemSetup.toNat + (rowBytes + 7) / 8)

/-- What an empty box of 4-bit texels is charged, before it is cut to 32 bits. -/
def TexUnit.wrappedGclk (u : TexUnit) (b : Box) : Nat :=
  b.rows32.toNat * (u.tmemSetup.toNat + (b.halves32.toNat + 7) / 8)

/-- The cost fits in 32 bits, and that of an empty box of 4-bit texels comes
    back to zero. -/
def TexUnit.CostFits (u : TexUnit) (b : Box) : Prop :=
  if b.rows = 0 ∨ b.cols = 0 then u.ti_size = 0 → 2 ^ 32 ∣ u.wrappedGclk b
  else u.boxGclk b < 2 ^ 32

section Charges

variable {u : TexUnit} {b : Box}

theorem accountLoad_charged (h : u.charge = true) {rows bytes gclk : Nat} (hg : gclk < 2 ^ 64) :
    Charged u.counters (u.accountLoad rows bytes) gclk ↔
      rows * (u.tmemSetup.toNat + (bytes + 7) / 8) % 2 ^ 32 = gclk := by
  unfold TexUnit.accountLoad TexUnit.accountTmem
  dsimp only
  rw [if_pos h]
  generalize rows * (u.tmemSetup.toNat + (bytes + 7) / 8) = c
  have hwide : (BitVec.ofNat 32 c).setWidth 64 = BitVec.ofNat 64 gclk ↔ c % 2 ^ 32 = gclk := by
    rw [← BitVec.toNat_inj, BitVec.toNat_setWidth, BitVec.toNat_ofNat, BitVec.toNat_ofNat,
      Nat.mod_eq_of_lt hg, Nat.mod_eq_of_lt (show c % 2 ^ 32 < 2 ^ 64 by omega)]
  constructor
  · intro hch
    exact hwide.mp (BitVec.add_right_inj _ |>.mp hch.rdpGclk)
  · intro hc
    have hnarrow : BitVec.ofNat 32 c = BitVec.ofNat 32 gclk := by
      rw [← hc]
      exact BitVec.eq_of_toNat_eq (by simp)
    exact ⟨by rw [hnarrow], by rw [hnarrow], by rw [hwide.mpr hc]⟩

theorem accountLoad_free (h : u.charge = false) (rows bytes : Nat) :
    u.accountLoad rows bytes = u.counters := by
  unfold TexUnit.accountLoad TexUnit.accountTmem
  dsimp only
  rw [if_neg (by rw [h]; decide)]

theorem Charged.refl (k : Counters) : Charged k k 0 :=
  ⟨(BitVec.add_zero _).symm, (BitVec.add_zero _).symm, (BitVec.add_zero _).symm⟩

/-- The limits of a box have ten bits. -/
structure Box.Small (b : Box) : Prop where
  s0 : b.s0 < 2 ^ 10
  t0 : b.t0 < 2 ^ 10
  s1 : b.s1 < 2 ^ 10
  t1 : b.t1 < 2 ^ 10

theorem ofCmd_small (cmd : BitVec 64) : (Box.ofCmd cmd).Small := by
  have hfield (sh : Nat) : field12 cmd sh / 4 < 2 ^ 10 := by
    have : field12 cmd sh < 2 ^ 12 := Nat.mod_lt _ (by decide)
    omega
  exact ⟨hfield 44, hfield 32, hfield 12, hfield 0⟩

/-- Where the limits are in order, nothing wraps around. -/
theorem rows32_toNat (hb : b.Small) (h : b.t0 ≤ b.t1) : b.rows32.toNat = b.rows := by
  have h0 := hb.t0
  have h1 := hb.t1
  unfold Box.rows32 Box.rows
  rw [BitVec.toNat_add, BitVec.toNat_sub, BitVec.toNat_ofNat, BitVec.toNat_ofNat]
  show (_ + 1) % 2 ^ 32 = _
  omega

theorem halves32_toNat (hb : b.Small) (h : b.s0 ≤ b.s1) :
    b.halves32.toNat = (b.cols + 1) / 2 := by
  have h0 := hb.s0
  have h1 := hb.s1
  unfold Box.halves32 Box.cols
  rw [BitVec.toNat_udiv, BitVec.toNat_add, BitVec.toNat_sub, BitVec.toNat_ofNat,
    BitVec.toNat_ofNat]
  show (_ + 2) % 2 ^ 32 / 2 = _
  omega

theorem boxGclk_le (hb : b.Small) :
    u.boxGclk b ≤ 2 ^ 11 * (u.tmemSetup.toNat + 2 ^ 16) := by
  have hsize : 2 ^ u.ti_size ≤ 2 ^ 3 :=
    Nat.pow_le_pow_right (by decide) (Nat.le_of_lt_succ u.ti_size_lt)
  have h1 := hb.s1
  have h2 := hb.t1
  have hbits : b.cols * (4 * 2 ^ u.ti_size) ≤ 2 ^ 11 * (4 * 2 ^ 3) := by
    refine Nat.mul_le_mul ?_ (by omega)
    unfold Box.cols
    omega
  unfold TexUnit.boxGclk
  dsimp only
  split_ifs
  · exact Nat.zero_le _
  · refine Nat.mul_le_mul ?_ (by omega)
    unfold Box.rows
    omega

theorem boxGclk_lt (hb : b.Small) : u.boxGclk b < 2 ^ 64 := by
  have hle := boxGclk_le (u := u) hb
  have hsetup := u.tmemSetup.isLt
  omega

theorem bytesPerTexel_eq {n : Nat} (h0 : n ≠ 0) (h : n < 4) :
    4 * 2 ^ n = bytesPerTexel n * 8 ∧ bytesPerTexel n ≠ 0 := by
  match n, h0, h with
  | 1, _, _ | 2, _, _ | 3, _, _ => decide

/-- The account of a box whose limits are in order. -/
theorem loadBox_account (hb : b.Small) (size : Nat) (tl : Tile) (h : ¬ (b.rows = 0 ∨ b.cols = 0)) :
    (u.loadBox size tl b).account = some (b.rows, (b.cols * (4 * 2 ^ u.ti_size) + 7) / 8) := by
  have hs : b.s0 ≤ b.s1 ∧ b.t0 ≤ b.t1 := by
    unfold Box.rows Box.cols at h
    omega
  unfold TexUnit.loadBox
  dsimp only
  by_cases h4 : u.ti_size = 0
  · have hbpt : bytesPerTexel u.ti_size = 0 := by rw [h4]; rfl
    have hhalf : (b.cols + 1) / 2 = (b.cols * 4 + 7) / 8 := by omega
    rw [if_pos hbpt, rows32_toNat hb hs.2, halves32_toNat hb hs.1, h4, hhalf]
    rfl
  · obtain ⟨hbits, hbpt⟩ := bytesPerTexel_eq h4 u.ti_size_lt
    have hrow : (b.cols * (4 * 2 ^ u.ti_size) + 7) / 8 =
        (b.s1 - b.s0 + 1) * bytesPerTexel u.ti_size := by
      have hcols : b.s1 - b.s0 + 1 = b.cols := by
        unfold Box.cols
        omega
      rw [hbits, hcols, ← Nat.mul_assoc]
      omega
    have hrows : b.t1 - b.t0 + 1 = b.rows := by
      unfold Box.rows
      omega
    rw [if_neg hbpt, if_neg (by omega), hrow, hrows]

/-- An empty box moves nothing, and only one of 4-bit texels is charged. -/
theorem loadBox_empty (size : Nat) (tl : Tile) (h : b.rows = 0 ∨ b.cols = 0) :
    (u.loadBox size tl b).moves = [] ∧ (u.loadBox size tl b).account =
      if u.ti_size = 0 then some (b.rows32.toNat, b.halves32.toNat) else none := by
  unfold TexUnit.loadBox
  dsimp only
  by_cases h4 : u.ti_size = 0
  · have hbpt : bytesPerTexel u.ti_size = 0 := by rw [h4]; rfl
    have hmoves : u.boxNibbles size tl b = [] := by
      rw [List.eq_nil_iff_forall_not_mem]
      intro mv hmv
      obtain ⟨r, hr, c, hc, -⟩ := mem_loops hmv
      omega
    rw [if_pos hbpt, if_pos h4]
    exact ⟨hmoves, rfl⟩
  · obtain ⟨-, hbpt⟩ := bytesPerTexel_eq h4 u.ti_size_lt
    have hout : b.s1 < b.s0 ∨ b.t1 < b.t0 := by
      unfold Box.rows Box.cols at h
      omega
    rw [if_neg hbpt, if_pos hout, if_neg h4]
    exact ⟨rfl, rfl⟩

/-- What the counters are after a `LOAD_TILE`. -/
theorem load_counters (m : Bytes) (cmd : BitVec 64) :
    (u.load m .tile cmd).counters =
      match (u.loadBox m.length (u.tiles (tileOf cmd)) (.ofCmd cmd)).account with
      | none => u.counters
      | some (rows, bytesPerRow) => u.accountLoad rows bytesPerRow := rfl

/-- **Charges.** A `LOAD_TILE` is charged for what it moves exactly if the cost
    fits. -/
theorem load_tile_charged (hcharge : u.charge = true) (m : Bytes) (cmd : BitVec 64) :
    Charged u.counters (u.load m .tile cmd).counters (u.boxGclk (.ofCmd cmd)) ↔
      u.CostFits (.ofCmd cmd) := by
  have hb := ofCmd_small cmd
  have hlt := boxGclk_lt (u := u) hb
  rw [load_counters]
  generalize Box.ofCmd cmd = b at hb hlt ⊢
  unfold TexUnit.CostFits
  by_cases hempty : b.rows = 0 ∨ b.cols = 0
  · have hzero : u.boxGclk b = 0 := if_pos hempty
    rw [(loadBox_empty m.length _ hempty).2, if_pos hempty, hzero]
    by_cases h4 : u.ti_size = 0
    · rw [if_pos h4]
      dsimp only
      rw [accountLoad_charged hcharge (by decide), imp_iff_right h4]
      exact Nat.dvd_iff_mod_eq_zero.symm
    · rw [if_neg h4]
      exact iff_of_true (.refl _) fun h => absurd h h4
  · rw [loadBox_account hb m.length _ hempty, if_neg hempty]
    dsimp only
    rw [accountLoad_charged hcharge hlt]
    have hcost : u.boxGclk b =
        b.rows * (u.tmemSetup.toNat + ((b.cols * (4 * 2 ^ u.ti_size) + 7) / 8 + 7) / 8) :=
      if_neg hempty
    rw [← hcost]
    exact ⟨fun h => h ▸ Nat.mod_lt _ (by decide), Nat.mod_eq_of_lt⟩

end Charges

/-- **Loads.** For every state and every command: a load stays in TMEM and in
    the chips, an empty box moves nothing, and a `LOAD_TILE` is charged for what
    it moves exactly under `CostFits`. -/
theorem load_charged_iff (u : TexUnit) (m : Bytes) (op : LoadOp) (cmd : BitVec 64) :
    ((∀ mv ∈ (u.loaded m.length op cmd).moves, InChips m.length mv) ∧
      (op = .tile → (Box.ofCmd cmd).rows = 0 ∨ (Box.ofCmd cmd).cols = 0 →
        (u.loaded m.length op cmd).moves = []) ∧
      (op = .tile → Charged u.counters (u.load m op cmd).counters
        (if u.charge then u.boxGclk (.ofCmd cmd) else 0))) ↔
      (op = .tile → u.charge = true → u.CostFits (.ofCmd cmd)) := by
  have hbounds : ∀ mv ∈ (u.loaded m.length op cmd).moves, InChips m.length mv :=
    fun _ hmv => loaded_inChips hmv
  rw [and_iff_right hbounds]
  by_cases hop : op = .tile
  · subst hop
    have hempty (h : (Box.ofCmd cmd).rows = 0 ∨ (Box.ofCmd cmd).cols = 0) :
        (u.loaded m.length .tile cmd).moves = [] := (loadBox_empty m.length _ h).1
    simp only [true_imp_iff]
    rw [and_iff_right hempty]
    cases hcharge : u.charge with
    | true =>
      rw [if_pos rfl, load_tile_charged hcharge, imp_iff_right rfl]
    | false =>
      refine iff_of_true ?_ nofun
      have hsame : (u.load m .tile cmd).counters = u.counters := by
        rw [load_counters]
        split
        · rfl
        · exact accountLoad_free hcharge _ _
      rw [hsame, if_neg (by decide)]
      exact .refl _
  · exact iff_of_true ⟨fun h => absurd h hop, fun h => absurd h hop⟩ fun h => absurd h hop

/-- With the start that is the default no cost of a box comes near the limit. -/
theorem boxGclk_fits (u : TexUnit) (h : u.tmemSetup.toNat < 2 ^ 16) (cmd : BitVec 64) :
    u.boxGclk (.ofCmd cmd) < 2 ^ 32 := by
  have hle := boxGclk_le (u := u) (ofCmd_small cmd)
  omega

def plainTile : Tile where
  fmt := 0
  size := 0
  line := 1
  tmem := 0
  palette := 0
  sl := 0
  tl := 0
  sh := 0
  th := 0
  line_lt := by decide
  tmem_lt := by decide

/-- An image of 4-bit texels, and the default start. -/
def plainUnit : TexUnit where
  tmem := fun _ => 0
  tiles := fun _ => plainTile
  ti_addr := 0
  ti_width := 16
  ti_size := 0
  ti_addr_lt := by decide
  ti_width_le := by decide
  ti_size_lt := by decide
  charge := true
  statsOn := false
  tmemSetup := 14
  counters := ⟨0, 0, 0, 0, 0, 0⟩

/-- TL is two rows below TH. -/
theorem empty_box_charged :
    ¬ ∀ (u : TexUnit) (m : Bytes) (op : LoadOp) (cmd : BitVec 64),
      (∀ mv ∈ (u.loaded m.length op cmd).moves, InChips m.length mv) ∧
      (op = .tile → (Box.ofCmd cmd).rows = 0 ∨ (Box.ofCmd cmd).cols = 0 →
        (u.loaded m.length op cmd).moves = []) ∧
      (op = .tile → Charged u.counters (u.load m op cmd).counters
        (if u.charge then u.boxGclk (.ofCmd cmd) else 0)) := by
  intro h
  have hcharged := (h plainUnit [] .tile 0x800000000).2.2 rfl
  exact absurd hcharged.dpc_tmem (by decide)

end Rdp
