import Kestrel64.Rdp.TexelFetch

/-! # RDP: Loading in One Run

    `LOAD_BLOCK` does not know of rows: it counts them in steps of `DXT`. With
    a `DXT` that counts them right it leaves what `LOAD_TILE` does.

    * `loadBlock_run` — the two loads of one texture.
    * `load_and_fetch` — what is loaded by box is fetched, and both ways to
      load a texture are the same.
-/

namespace Rdp

open Moves (Move)

/-! ## Section 1: Textures -/

/-- Words of 64 bits in RDRAM for a row of `line` words of TMEM. -/
def TexUnit.sourceWords (u : TexUnit) (line : Nat) : Nat := if u.ti_size = 3 then 2 * line else line

/-- A texture of whole words, the command `cmdB` that loads it in one run to
    the tile `tb`, and its box `b` in the tile `tt`. -/
structure TexUnit.OneTexture (u : TexUnit) (tb tt : Tile) (cmdB : BitVec 64) (b : Box) : Prop where
  tmem : tb.tmem = tt.tmem
  line : tb.line = 0
  yuvB : u.yuv tb = false
  yuvT : u.yuv tt = false
  cols : b.s0 ≤ b.s1
  rows : b.t0 ≤ b.t1
  words : b.cols * u.rowBits = tt.line * 64
  /-- One row follows the other in the image. -/
  runs : b.rows = 1 ∨ u.ti_width = b.cols
  /-- The first texel is not in the middle of a byte. -/
  even : u.ti_size = 0 → b.s0 % 2 = 0 ∧ u.ti_width % 2 = 0
  sl : field12 cmdB 44 = b.s0
  tl : field12 cmdB 32 = b.t0
  sh : field12 cmdB 12 + 1 = b.s0 + b.cols * b.rows
  dxt : ∀ i < b.rows * u.sourceWords tt.line,
    i * field12 cmdB 0 / 2 ^ 11 = i / u.sourceWords tt.line

/-! ## Section 2: Words -/

section Words

variable {u : TexUnit} {size src dxt : Nat} {m mem : Moves.Mem} {tb tt : Tile} {b : Box}
  {cmdB : BitVec 64}

/-- Whole words of up to 16 bits a texel, the straight copy with them. -/
theorem blockCopy_words {bpt n : Nat} (hbpt : bpt ≠ 4) (hline : tb.line = 0) :
    blockCopy size bpt false tb src (n * 8) dxt = (List.range n).flatMap fun i =>
      (List.range 8).flatMap fun j =>
        putByte size ((tb.tmem * 8 + (i * 8 + j)) ^^^ flip (i * dxt / 2 ^ 11))
          (src + (i * 8 + j)) := by
  unfold blockCopy
  dsimp only
  rw [if_neg (by simp [hbpt]), hline]
  -- without DXT the row stays 0, and the copy is straight
  by_cases hdxt : dxt = 0
  · rw [if_pos ⟨hdxt, rfl⟩, copyRun_eq, Moves.flatMap_range_mul, hdxt]
    refine List.flatMap_congr fun i _ => List.flatMap_congr fun j _ => ?_
    rw [Nat.mul_zero, Nat.zero_div]
    exact congrArg (putByte size · _) (Nat.xor_zero _).symm
  -- a whole number of words: none of them is cut short
  · rw [if_neg fun h => hdxt h.1, show (n * 8 + 7) / 8 = n by omega]
    refine List.flatMap_congr fun i hi => ?_
    have := List.mem_range.mp hi
    rw [show min 8 (n * 8 - i * 8) = 8 by omega]
    refine List.flatMap_congr fun j _ => ?_
    rw [Nat.mul_zero, Nat.add_zero, Nat.add_assoc, Nat.add_assoc]

/-- A word of row `r`, with the rows of `n` words counted right. -/
theorem row_counted {h n r k : Nat} (hr : r ∈ List.range h) (hk : k ∈ List.range n)
    (hdxt : ∀ i < h * n, i * dxt / 2 ^ 11 = i / n) :
    r * n + k < h * n ∧ (r * n + k) * dxt / 2 ^ 11 = r := by
  rw [List.mem_range] at hr hk
  have hlt : r * n + k < h * n := by
    have : (r + 1) * n ≤ h * n := Nat.mul_le_mul_right _ hr
    rw [Nat.succ_mul] at this
    omega
  refine ⟨hlt, ?_⟩
  rw [hdxt _ hlt, Nat.mul_comm, Nat.mul_add_div (by omega), Nat.div_eq_of_lt hk, Nat.add_zero]

theorem blockCopy_rows {bpt h line : Nat} (hbpt : bpt ≠ 4) (hline : tb.line = 0)
    (htmem : tb.tmem = tt.tmem) (htt : tt.line = line)
    (hdxt : ∀ i < h * line, i * dxt / 2 ^ 11 = i / line) :
    blockCopy size bpt false tb src (h * line * 8) dxt = (List.range h).flatMap fun r =>
      (List.range (line * 8)).flatMap fun i =>
        putByte size (tt.place r i) (src + (r * (line * 8) + i)) := by
  -- the words, row by row, and the bytes of a row, word by word
  rw [blockCopy_words hbpt hline, Moves.flatMap_range_mul]
  refine List.flatMap_congr fun r hr => ?_
  rw [Moves.flatMap_range_mul]
  refine List.flatMap_congr fun k hk => List.flatMap_congr fun j _ => ?_
  obtain ⟨-, hrow⟩ := row_counted hr hk hdxt
  have hoff : (r * line + k) * 8 + j = r * (line * 8) + (k * 8 + j) := by
    rw [Nat.add_mul, Nat.mul_assoc, Nat.add_assoc]
  rw [hrow, hoff, htmem]
  unfold Tile.place
  rw [htt, Nat.add_assoc]

theorem place_add_two {r i : Nat} (h : i % 4 = 0) : tt.place r (i + 2) = tt.place r i + 2 := by
  have hrow : r * (tt.line * 8) = r * tt.line * 8 := (Nat.mul_assoc ..).symm
  unfold Tile.place
  rw [xor_flip, xor_flip, hrow]
  split_ifs <;> omega

/-- Two texels of 32 bits a word, in rows of `2 * line` words. -/
theorem blockCopy_rows32 {h line : Nat} (hline : tb.line = 0) (htmem : tb.tmem = tt.tmem)
    (htt : tt.line = line)
    (hdxt : ∀ i < h * (2 * line), i * dxt / 2 ^ 11 = i / (2 * line)) :
    blockCopy size 4 false tb src (h * (2 * line) * 8) dxt = (List.range h).flatMap fun r =>
      (List.range (2 * line * 2)).flatMap fun k =>
        put32 size false (tt.place r (k * 2)) (src + (r * (line * 4) + k) * 4) := by
  unfold blockCopy
  dsimp only
  rw [if_pos (.inl rfl), hline, show (h * (2 * line) * 8 + 7) / 8 = h * (2 * line) by omega,
    Moves.flatMap_range_mul]
  refine List.flatMap_congr fun r hr => ?_
  rw [Moves.flatMap_range_mul (2 * line) 2]
  refine List.flatMap_congr fun k hk => ?_
  obtain ⟨hlt, hrow⟩ := row_counted hr hk hdxt
  have hline8 : r * (line * 8) = r * (2 * line) * 4 := by
    rw [Nat.mul_assoc]
    congr 1
    omega
  have hline4 : r * (line * 4) = r * (2 * line) * 2 := by
    rw [Nat.mul_assoc]
    congr 1
    omega
  have hplace : (tb.tmem * 8 + (r * (2 * line) + k) * 4 + r * 0 * 8) ^^^ flip r =
      tt.place r (k * 2 * 2) := by
    unfold Tile.place
    rw [htmem, htt, hline8]
    congr 1
    omega
  -- the second texel of the word is always there
  rw [hrow, if_pos (by omega), hplace, ← place_add_two (by omega), hline4,
    show List.range 2 = [0, 1] from rfl, List.flatMap_cons, List.flatMap_cons, List.flatMap_nil,
    List.append_nil]
  congr 2
  · omega
  · congr 1
    omega
  · omega

end Words

/-! ## Section 3: Both Ways -/

section BothWays

variable {u : TexUnit} {size : Nat} {m mem : Moves.Mem} {tb tt : Tile} {b : Box} {cmdB : BitVec 64}

theorem TexUnit.OneTexture.in_order (h : u.OneTexture tb tt cmdB b) :
    ¬ (b.s1 < b.s0 ∨ b.t1 < b.t0) := by
  have := h.cols
  have := h.rows
  omega

theorem TexUnit.OneTexture.count (h : u.OneTexture tb tt cmdB b) :
    field12 cmdB 44 ≤ field12 cmdB 12 ∧
      field12 cmdB 12 - field12 cmdB 44 + 1 = b.cols * b.rows := by
  have hpos : 0 < b.cols * b.rows := by
    have := h.cols
    have := h.rows
    exact Nat.mul_pos (by unfold Box.cols; omega) (by unfold Box.rows; omega)
  have := h.sl
  have := h.sh
  omega

/-- The distance of a row of the image from the first one. -/
theorem TexUnit.OneTexture.row (h : u.OneTexture tb tt cmdB b) {r : Nat} (hr : r < b.rows) :
    (b.t0 + r) * u.ti_width + b.s0 = b.t0 * u.ti_width + b.s0 + r * b.cols := by
  -- with one row there is no distance, whatever the width of the image
  have hruns : r * u.ti_width = r * b.cols := by
    obtain hone | hw := h.runs
    · rw [show r = 0 by omega, Nat.zero_mul, Nat.zero_mul]
    · rw [hw]
  rw [Nat.add_mul, hruns]
  omega

/-- Texels of 8 and 16 bits. -/
theorem block_bytes (h : u.OneTexture tb tt cmdB b) {bpt : Nat} (hbits : 2 ^ u.ti_size = bpt * 2)
    (hbpt : bpt = 1 ∨ bpt = 2) :
    (u.loadBlock size tb cmdB).moves = (u.loadBox size tt b).moves := by
  obtain ⟨hsize, hbytes⟩ := bpt_eq hbits hbpt
  have hwords : b.cols * bpt = tt.line * 8 := by
    have := h.words
    unfold TexUnit.rowBits at this
    rw [hbits, if_neg (by omega)] at this
    rcases hbpt with rfl | rfl <;> omega
  have hdxt := h.dxt
  unfold TexUnit.sourceWords at hdxt
  rw [if_neg (by omega)] at hdxt
  obtain ⟨hle, hcount⟩ := h.count
  have hnb : b.cols * b.rows * bpt = b.rows * tt.line * 8 := by
    rw [Nat.mul_comm b.cols, Nat.mul_assoc, hwords, Nat.mul_assoc]
  rw [loadBox_moves8 h.yuvT hbits hbpt h.in_order, boxBytes_eq]
  unfold TexUnit.loadBlock
  dsimp only
  rw [if_pos hle, hcount, hbytes, if_neg (by omega), if_neg (by omega), h.yuvB, hnb,
    blockCopy_rows (by omega) h.line h.tmem rfl hdxt, h.sl, h.tl, hwords]
  -- both loops are the same now, but for how a source is counted
  refine List.flatMap_congr fun r hr => List.flatMap_congr fun i _ => ?_
  have hrow := h.row (List.mem_range.mp hr)
  have hoff : (b.t0 * u.ti_width + b.s0 + r * b.cols) * bpt =
      (b.t0 * u.ti_width + b.s0) * bpt + r * (tt.line * 8) := by
    rw [Nat.add_mul, Nat.mul_assoc r, hwords]
  unfold TexUnit.rowAddr
  rw [hrow, hoff]
  congr 1
  omega

/-- Texels of 32 bits. -/
theorem block_quarters (h : u.OneTexture tb tt cmdB b) (h3 : u.ti_size = 3) :
    (u.loadBlock size tb cmdB).moves = (u.loadBox size tt b).moves := by
  have hbytes : bytesPerTexel u.ti_size = 4 := by rw [h3]; rfl
  have hwords : b.cols = 2 * tt.line * 2 := by
    have := h.words
    unfold TexUnit.rowBits at this
    rw [if_pos h3] at this
    omega
  have hdxt := h.dxt
  unfold TexUnit.sourceWords at hdxt
  rw [if_pos h3] at hdxt
  obtain ⟨hle, hcount⟩ := h.count
  have hnb : b.cols * b.rows * 4 = b.rows * (2 * tt.line) * 8 := by
    rw [hwords, Nat.mul_comm _ b.rows, ← Nat.mul_assoc]
    omega
  rw [loadBox_moves32 h3 h.in_order]
  unfold TexUnit.loadBlock TexUnit.box32
  dsimp only
  rw [if_pos hle, hcount, hbytes, if_neg (by decide), if_neg (by decide), h.yuvB, hnb,
    blockCopy_rows32 h.line h.tmem rfl hdxt, h.sl, h.tl, hwords]
  refine List.flatMap_congr fun r hr => List.flatMap_congr fun k _ => ?_
  have hrow := h.row (List.mem_range.mp hr)
  have hline : r * b.cols = r * (tt.line * 4) := by
    rw [show b.cols = tt.line * 4 by omega]
  rw [hrow, hline]
  unfold Tile.place
  congr 1
  omega

/-- Two texels of 4 bits, one after the other, are their byte. -/
theorem boxNibbles_run (hcols : b.cols = tt.line * 8 * 2) (hs : b.s0 % 2 = 0)
    (hw : u.ti_width % 2 = 0) :
    Moves.run m (u.boxNibbles size tt b) mem =
      Moves.run m ((List.range b.rows).flatMap fun r => (List.range (tt.line * 8)).flatMap fun i =>
        putByte size (tt.place r i)
          (u.ti_addr + ((b.t0 + r) * u.ti_width + b.s0) / 2 + i)) mem := by
  unfold TexUnit.boxNibbles
  rw [hcols]
  refine Moves.run_flatMap_congr (fun r _ mem => ?_) mem
  -- the two turns of a byte have the same source and target
  rw [Moves.flatMap_range_mul]
  refine Moves.run_flatMap_congr (fun i _ mem => ?_) mem
  have hrow : (b.t0 + r) * u.ti_width % 2 = 0 := by
    rw [Nat.mul_mod, hw, Nat.mul_zero]
  have hsrc : ∀ j < 2, u.ti_addr + ((b.t0 + r) * u.ti_width + (b.s0 + (i * 2 + j))) / 2 =
      u.ti_addr + ((b.t0 + r) * u.ti_width + b.s0) / 2 + i := by
    intro j hj
    omega
  have hdst : ∀ j < 2, (i * 2 + j) / 2 = i := by
    intro j hj
    omega
  have hlow : ∀ j < 2, ((b.s0 + (i * 2 + j)) % 2 == 1) = (j == 1) := by
    intro j hj
    rw [Bool.eq_iff_iff, beq_iff_eq, beq_iff_eq]
    omega
  have hlow' : ∀ j < 2, ((i * 2 + j) % 2 == 1) = (j == 1) := by
    intro j hj
    rw [Bool.eq_iff_iff, beq_iff_eq, beq_iff_eq]
    omega
  rw [show List.range 2 = [0, 1] from rfl, List.flatMap_cons, List.flatMap_cons, List.flatMap_nil,
    List.append_nil]
  dsimp only
  rw [hsrc 0 Nat.two_pos, hsrc 1 Nat.one_lt_two, hdst 0 Nat.two_pos, hdst 1 Nat.one_lt_two,
    hlow 0 Nat.two_pos, hlow 1 Nat.one_lt_two, hlow' 0 Nat.two_pos, hlow' 1 Nat.one_lt_two]
  unfold putByte
  split_ifs
  · exact Moves.run_halves _ _
  · rfl

/-- Texels of 4 bits. -/
theorem block_nibbles (h : u.OneTexture tb tt cmdB b) (h0 : u.ti_size = 0) :
    Moves.run m (u.loadBlock size tb cmdB).moves mem =
      Moves.run m (u.loadBox size tt b).moves mem := by
  have hbytes : bytesPerTexel u.ti_size = 0 := by rw [h0]; rfl
  obtain ⟨hs, hw⟩ := h.even h0
  have hcols : b.cols = tt.line * 8 * 2 := by
    have := h.words
    unfold TexUnit.rowBits at this
    rw [h0, if_neg (by decide)] at this
    omega
  have hdxt := h.dxt
  unfold TexUnit.sourceWords at hdxt
  rw [if_neg (by omega)] at hdxt
  obtain ⟨hle, hcount⟩ := h.count
  have hnb : (b.cols * b.rows + 1) / 2 = b.rows * tt.line * 8 := by
    have hmul : b.cols * b.rows = b.rows * tt.line * 8 * 2 := by
      rw [hcols, Nat.mul_comm, ← Nat.mul_assoc, ← Nat.mul_assoc]
    omega
  rw [loadBox_moves4 h0, boxNibbles_run hcols hs hw]
  unfold TexUnit.loadBlock
  dsimp only
  rw [if_pos hle, hcount, hbytes, if_pos rfl, if_pos rfl, h.yuvB, hnb,
    blockCopy_rows (by decide) h.line h.tmem rfl hdxt, h.sl, h.tl]
  congr 1
  refine List.flatMap_congr fun r hr => List.flatMap_congr fun i _ => ?_
  have hrow := h.row (List.mem_range.mp hr)
  have hoff : r * b.cols = r * (tt.line * 8) * 2 := by
    rw [hcols, ← Nat.mul_assoc]
  rw [hrow, hoff]
  congr 1
  omega

/-- **Block.** Both ways to load a texture leave the same in TMEM. -/
theorem loadBlock_run (h : u.OneTexture tb tt cmdB b) :
    Moves.run m (u.loadBlock size tb cmdB).moves mem =
      Moves.run m (u.loadBox size tt b).moves mem := by
  have hlt := u.ti_size_lt
  match hsize : u.ti_size with
  | 0 => exact block_nibbles h hsize
  | 1 => rw [block_bytes h (show 2 ^ u.ti_size = 1 * 2 by rw [hsize]; rfl) (.inl rfl)]
  | 2 => rw [block_bytes h (show 2 ^ u.ti_size = 2 * 2 by rw [hsize]; rfl) (.inr rfl)]
  | 3 => rw [block_quarters h hsize]
  | n + 4 => omega

end BothWays

/-! ## Section 4: Loading and Fetching -/

/-- What `LOAD_TILE` puts in front of `limit` is fetched as it is in the
    image. -/
def FetchedInside (limit : TexUnit → TexKind → Nat) : Prop :=
  ∀ (u : TexUnit) (m : Bytes) (cmd : BitVec 64) (ft : Tile) (mode : BitVec 2) (f : TexFold)
    (s t bank : Nat),
    let tl := u.tiles (tileOf cmd)
    let b := Box.ofCmd cmd
    let tmem := (u.load m .tile cmd).tmem
    u.yuv tl = false → foldOf ft mode = some f →
    ft.tmem = tl.tmem → ft.line = tl.line → ft.size = u.ti_size →
    u.Fits m.length tl b (limit u f.kind) →
    b.s0 ≤ s → s ≤ b.s1 → b.t0 ≤ t → t ≤ b.t1 →
    fetchK tmem mode f (s - b.s0) (t - b.t0) bank =
      u.imageTexel (fun a => m.getD a 0) (fun idx => tlutEntry tmem mode idx bank) f s t

/-- **Loading and fetching.** A texel of a box is fetched as it is in the
    image, if it is in the half that its kind is read from. A texture of whole
    words is the same in TMEM whichever way it is loaded. -/
theorem load_and_fetch :
    FetchedInside (fun _ k => if k.lowHalf then 0x800 else 0x1000) ∧
    ∀ (u : TexUnit) (tiles : Fin 8 → Tile) (m : Bytes) (cmdB cmdT : BitVec 64),
      u.OneTexture (u.tiles (tileOf cmdB)) (tiles (tileOf cmdT)) cmdB (.ofCmd cmdT) →
      (u.load m .block cmdB).tmem = ({ u with tiles := tiles }.load m .tile cmdT).tmem := by
  constructor
  · intro u m cmd ft mode f s t bank tl b tmem hyuv hf htmem hline hsize hfits hs0 hs1 ht0 ht1
    obtain ⟨c, rfl⟩ := Nat.exists_eq_add_of_le hs0
    obtain ⟨r, rfl⟩ := Nat.exists_eq_add_of_le ht0
    have hr : r < b.rows := by
      unfold Box.rows
      omega
    have hc : c < b.cols := by
      unfold Box.cols
      omega
    rw [Nat.add_sub_cancel_left, Nat.add_sub_cancel_left]
    exact fetch_loaded hyuv hf htmem hline hsize hfits hr hc
  · intro u tiles m cmdB cmdT h
    exact loadBlock_run h

/-- Rows of one word, as boxes and in one run. -/
def wordUnit : TexUnit :=
  { plainUnit with
    ti_width := 8
    ti_size := 1
    ti_width_le := by decide
    ti_size_lt := by decide }

theorem load_and_fetch_words :
    (let f : TexFold := { kind := .i8, rowBytes := 8, base := 0, palette := 0 }
      let m := List.replicate 16 5
      let tmem := (wordUnit.load m .tile 0x1c004).tmem
      fetchK tmem 0 f (3 - 0) (1 - 0) 0 =
        wordUnit.imageTexel (fun a => m.getD a 0) (fun idx => tlutEntry tmem 0 idx 0) f 3 1) ∧
    let u := { wordUnit with tiles := fun _ => { plainTile with line := 0, line_lt := by decide } }
    (u.load (List.replicate 16 5) .block 0xf800).tmem =
      ({ u with tiles := wordUnit.tiles }.load (List.replicate 16 5) .tile 0x1c004).tmem := by
  constructor
  · refine load_and_fetch.1 wordUnit (List.replicate 16 5) 0x1c004
      { plainTile with fmt := 4, size := 1 } 0 _ 3 1 0 rfl rfl rfl rfl rfl ?_ (by decide)
      (by decide) (by decide) (by decide)
    refine ⟨by decide, by decide, nofun, fun s t _ hs _ ht => ?_, by decide, by decide⟩
    have hs : s ≤ 7 := hs
    have ht : t ≤ 1 := ht
    show 0 + (t * 8 + s) * 2 / 2 + 1 ≤ 16
    omega
  · refine load_and_fetch.2 _ wordUnit.tiles (List.replicate 16 5) 0xf800 0x1c004 ?_
    exact ⟨rfl, rfl, rfl, rfl, by decide, by decide, by decide, .inr (by decide), nofun, by decide,
      by decide, by decide, by decide⟩

/-- One texel in the upper half of TMEM, which is an index. -/
def upperTile : Tile :=
  { plainTile with fmt := 2, size := 1, tmem := 256, tmem_lt := by decide }

/-- The index is read from the lower half. -/
theorem upper_index_missed :
    ¬ FetchedInside (fun u _ => if u.ti_size = 3 then 0x800 else 0x1000) := by
  intro h
  have hload : ({ wordUnit with tiles := fun _ => upperTile }.load [1] .tile 0).tmem =
      Function.update (fun _ => 0) 0x800 1 := by
    show Moves.run _ (TexUnit.boxBytes _ 1 upperTile 1 (.ofCmd 0)) _ = _
    rw [boxBytes_eq]
    rfl
  have hinside : ∀ s t, s ≤ 0 → t ≤ 0 → 0 + (t * 8 + s) * 2 / 2 + 1 ≤ 1 := by
    intro s t hs ht
    omega
  have hfetch := h { wordUnit with tiles := fun _ => upperTile } [1] 0 upperTile 2 _ 0 0 0 rfl rfl
    rfl rfl rfl ⟨by decide, by decide, nofun, fun s t _ hs _ ht => hinside s t hs ht, by decide,
      by decide⟩ (by decide) (by decide) (by decide) (by decide)
  dsimp only at hfetch
  rw [hload] at hfetch
  exact absurd hfetch (by decide)

end Rdp
