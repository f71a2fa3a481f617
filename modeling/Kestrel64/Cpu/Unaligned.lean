import Kestrel64.Cpu.RamView

/-! # CPU: Unaligned Pairs

    `LWL` with `LWR` and `LDL` with `LDR` load a word from any address, and
    `SWL` with `SWR` and `SDL` with `SDR` store one. The left instruction has
    the address of the first byte, the right one that of the last; in
    reverse-endian mode it is the other way round.

    Bytes are counted in the order of their addresses (`ord`), so that both
    modes are one argument: the instruction at the first byte reaches the
    bytes up to the end of its word (`startOf`), the other one those from the
    start of its word on (`endOf`).
-/

namespace Cpu

variable {Dev : Type} {D : Devices Dev} {pak : Pak}

/-! ## Section 1: The merge, bit by bit -/

theorem getLsbD_mergeLoad {n s b : Nat} (left : Bool) (cur d : BitVec n) (hs : s < n) (hb : b < n) :
    (mergeLoad left s cur d).getLsbD b =
      if left then if b < s then cur.getLsbD b else d.getLsbD (b - s)
      else if b < n - s then d.getLsbD (b + s) else cur.getLsbD b := by
  unfold mergeLoad
  cases left with
  | true =>
    simp only [if_true]
    rw [BitVec.getLsbD_or, BitVec.getLsbD_and, BitVec.getLsbD_shiftLeft]
    by_cases h0 : s = 0
    · simp [h0, hb]
    · by_cases hlt : b < s
      · simp [h0, hb, hlt, show n - s + b < n by omega]
      · simp [h0, hb, hlt, show ¬ n - s + b < n by omega]
  | false =>
    simp only [Bool.false_eq_true, if_false]
    rw [BitVec.getLsbD_or, BitVec.getLsbD_and, BitVec.getLsbD_ushiftRight]
    by_cases h0 : s = 0
    · simp [h0, hb]
    · by_cases hlt : b < n - s
      · simp [h0, hb, hlt, Nat.add_comm]
      · have hout : d.getLsbD (s + b) = false := BitVec.getLsbD_of_ge _ _ (by omega)
        simp [h0, hb, hlt, hout]

theorem getLsbD_mergeStore {n s b : Nat} (left : Bool) (rt d : BitVec n) (hb : b < n) :
    (mergeStore left s rt d).getLsbD b =
      if left then if b < n - s then rt.getLsbD (b + s) else d.getLsbD b
      else if b < s then d.getLsbD b else rt.getLsbD (b - s) := by
  unfold mergeStore
  cases left with
  | true =>
    simp only [if_true]
    rw [BitVec.getLsbD_or, BitVec.getLsbD_and, BitVec.getLsbD_not, BitVec.getLsbD_ushiftRight,
      BitVec.getLsbD_ushiftRight]
    by_cases hlt : b < n - s
    · simp [hb, hlt, show s + b < n by omega, Nat.add_comm]
    · have hout : rt.getLsbD (s + b) = false := BitVec.getLsbD_of_ge _ _ (by omega)
      simp [hb, hlt, hout, show ¬ s + b < n by omega]
  | false =>
    simp only [Bool.false_eq_true, if_false]
    rw [BitVec.getLsbD_or, BitVec.getLsbD_and, BitVec.getLsbD_not, BitVec.getLsbD_shiftLeft,
      BitVec.getLsbD_shiftLeft]
    by_cases hlt : b < s
    · simp [hb, hlt]
    · simp [hb, hlt, show b - s < n by omega]

theorem UnOp.width_eq (op : UnOp) : op.width = 4 ∨ op.width = 8 := by
  cases op <;> decide

theorem getLsbD_low (x : BitVec 64) {i : Nat} (hi : i < 32) :
    (x.setWidth 32).getLsbD i = x.getLsbD i := by
  rw [BitVec.getLsbD_setWidth, decide_eq_true hi, Bool.true_and]

theorem UnOp.loaded_bit (op : UnOp) {s b : Nat} (rt d : BitVec 64) (hs : s < 8 * op.width)
    (hb : b < 8 * op.width) :
    (op.loaded s rt d).getLsbD b =
      if op.left then if b < s then rt.getLsbD b else d.getLsbD (b - s)
      else if b < 8 * op.width - s then d.getLsbD (b + s) else rt.getLsbD b := by
  unfold UnOp.loaded
  rcases op.width_eq with hw | hw
  · rw [hw] at hs hb ⊢
    rw [if_neg (by decide)]
    dsimp only
    -- the low half is the merge, whatever becomes of the upper one
    have hlow : (if op.left ∨ s = 0 then
        sext (mergeLoad op.left s (rt.setWidth 32) (d.setWidth 32))
        else rt &&& 0xffffffff00000000 |||
          zext (mergeLoad op.left s (rt.setWidth 32) (d.setWidth 32))).getLsbD b =
        (mergeLoad op.left s (rt.setWidth 32) (d.setWidth 32)).getLsbD b := by
      split_ifs
      · unfold sext
        rw [BitVec.getLsbD_signExtend]
        simp [hb, show b < 64 by omega]
      · have hkeep : ∀ b < 32, (0xffffffff00000000 : BitVec 64).getLsbD b = false := by decide
        unfold zext
        rw [BitVec.getLsbD_or, BitVec.getLsbD_and, hkeep b hb, BitVec.getLsbD_setWidth]
        simp [show b < 64 by omega]
    rw [hlow, getLsbD_mergeLoad op.left _ _ hs hb]
    split_ifs
    · exact getLsbD_low rt hb
    · exact getLsbD_low d (by omega)
    · exact getLsbD_low d (by omega)
    · exact getLsbD_low rt hb
  · rw [hw] at hs hb ⊢
    rw [if_pos rfl]
    exact getLsbD_mergeLoad op.left rt d hs hb

theorem UnOp.stored_bit (op : UnOp) {s b : Nat} (rt d : BitVec 64) (hb : b < 8 * op.width) :
    (op.stored s rt d).getLsbD b =
      if op.left then if b < 8 * op.width - s then rt.getLsbD (b + s) else d.getLsbD b
      else if b < s then d.getLsbD b else rt.getLsbD (b - s) := by
  unfold UnOp.stored
  rcases op.width_eq with hw | hw
  · rw [hw] at hb ⊢
    rw [if_neg (by decide)]
    unfold zext
    rw [BitVec.getLsbD_setWidth, getLsbD_mergeStore op.left _ _ hb,
      decide_eq_true (show b < 64 by omega), Bool.true_and]
    split_ifs
    · exact getLsbD_low rt (by omega)
    · exact getLsbD_low d hb
    · exact getLsbD_low d hb
    · exact getLsbD_low rt (by omega)
  · rw [hw] at hb ⊢
    rw [if_pos rfl]
    exact getLsbD_mergeStore op.left rt d hb

/-! ## Section 2: The merge, byte by byte -/

theorem UnOp.loaded_at (op : UnOp) {k i : Nat} (rt d : BitVec 64) (hk : k < op.width)
    (hi : i < op.width) :
    beByte (op.loaded (8 * k) rt d) op.width i =
      if op.left then if i + k < op.width then beByte d op.width (i + k) else beByte rt op.width i
      else if k ≤ i then beByte d op.width (i - k) else beByte rt op.width i := by
  apply BitVec.eq_of_getLsbD_eq
  intro b hb
  rw [getLsbD_beByte _ _ _ hb, op.loaded_bit rt d (by omega) (by omega)]
  have hd (i' : Nat) (hb : b < 8) : (beByte d op.width i').getLsbD b =
      d.getLsbD (8 * (op.width - 1 - i') + b) := getLsbD_beByte _ _ _ hb
  cases op.left with
  | true =>
    simp only [if_true]
    by_cases hc : i + k < op.width
    · rw [if_neg (by omega), if_pos hc, hd _ hb]
      congr 1
      omega
    · rw [if_pos (by omega), if_neg hc, getLsbD_beByte _ _ _ hb]
  | false =>
    simp only [Bool.false_eq_true, if_false]
    by_cases hc : k ≤ i
    · rw [if_pos (by omega), if_pos hc, hd _ hb]
      congr 1
      omega
    · rw [if_neg (by omega), if_neg hc, getLsbD_beByte _ _ _ hb]

theorem UnOp.stored_at (op : UnOp) {k i : Nat} (rt d : BitVec 64) (hk : k < op.width)
    (hi : i < op.width) :
    beByte (op.stored (8 * k) rt d) op.width i =
      if op.left then if k ≤ i then beByte rt op.width (i - k) else beByte d op.width i
      else if i + k < op.width then beByte rt op.width (i + k) else beByte d op.width i := by
  apply BitVec.eq_of_getLsbD_eq
  intro b hb
  rw [getLsbD_beByte _ _ _ hb, op.stored_bit rt d (by omega)]
  have hrt (i' : Nat) (hb : b < 8) : (beByte rt op.width i').getLsbD b =
      rt.getLsbD (8 * (op.width - 1 - i') + b) := getLsbD_beByte _ _ _ hb
  cases op.left with
  | true =>
    simp only [if_true]
    by_cases hc : k ≤ i
    · rw [if_pos (by omega), if_pos hc, hrt _ hb]
      congr 1
      omega
    · rw [if_neg (by omega), if_neg hc, getLsbD_beByte _ _ _ hb]
  | false =>
    simp only [Bool.false_eq_true, if_false]
    by_cases hc : i + k < op.width
    · rw [if_neg (by omega), if_pos hc, hrt _ hb]
      congr 1
      omega
    · rw [if_pos (by omega), if_neg hc, getLsbD_beByte _ _ _ hb]

/-- Does the instruction reach byte `j` of the unaligned word? `q` is the
    place of its own address in its word: that of byte 0 for the instruction
    at the start, that of the last byte for the one at the end. -/
def UnOp.covers (op : UnOp) (re : Bool) (q j : Nat) : Prop :=
  if op.left = re then op.width - 1 - j ≤ q else q + j < op.width

/-- The place of byte `j` in the word of the instruction. -/
def UnOp.place (op : UnOp) (re : Bool) (q j : Nat) : Nat :=
  if op.left = re then q - (op.width - 1 - j) else q + j

theorem ord_lt {re : Bool} {w j : Nat} (h : j < w) : ord re w j < w := by
  unfold ord
  split_ifs <;> omega

theorem ord_ord {re : Bool} {w j : Nat} (h : j < w) : ord re w (ord re w j) = j := by
  unfold ord
  split_ifs <;> omega

section Bytes

variable (op : UnOp) {st a j : Nat} (rt d : BitVec 64)

theorem UnOp.loaded_covered (hj : j < op.width) (hc : op.covers (reOn st) (a % op.width) j) :
    beByte (op.loaded (op.shift st a) rt d) op.width (ord (reOn st) op.width j) =
      beByte d op.width (ord (reOn st) op.width (op.place (reOn st) (a % op.width) j)) := by
  have hq : a % op.width < op.width := Nat.mod_lt _ (by omega)
  unfold UnOp.covers at hc
  unfold UnOp.shift UnOp.place
  dsimp only
  rw [op.loaded_at rt d (by split_ifs <;> omega) (ord_lt hj)]
  unfold ord
  -- left or right, in either mode, the byte is in the part that is loaded
  cases hl : op.left <;> cases hr : reOn st <;> rw [hl, hr] at hc <;>
    simp only [if_true, Bool.false_eq_true, Bool.true_eq_false, if_false] at hc ⊢ <;>
    rw [if_pos (by omega)] <;> congr 1 <;> omega

theorem UnOp.loaded_kept (hj : j < op.width) (hc : ¬ op.covers (reOn st) (a % op.width) j) :
    beByte (op.loaded (op.shift st a) rt d) op.width (ord (reOn st) op.width j) =
      beByte rt op.width (ord (reOn st) op.width j) := by
  have hq : a % op.width < op.width := Nat.mod_lt _ (by omega)
  unfold UnOp.covers at hc
  unfold UnOp.shift
  dsimp only
  rw [op.loaded_at rt d (by split_ifs <;> omega) (ord_lt hj)]
  unfold ord
  cases hl : op.left <;> cases hr : reOn st <;> rw [hl, hr] at hc <;>
    simp only [if_true, Bool.false_eq_true, Bool.true_eq_false, if_false] at hc ⊢ <;>
    rw [if_neg (by omega)]

theorem UnOp.stored_covered (hj : j < op.width) (hc : op.covers (reOn st) (a % op.width) j) :
    beByte (op.stored (op.shift st a) rt d) op.width
        (ord (reOn st) op.width (op.place (reOn st) (a % op.width) j)) =
      beByte rt op.width (ord (reOn st) op.width j) := by
  have hq : a % op.width < op.width := Nat.mod_lt _ (by omega)
  have hp : op.place (reOn st) (a % op.width) j < op.width := by
    unfold UnOp.covers at hc
    unfold UnOp.place
    split_ifs at hc ⊢ <;> omega
  unfold UnOp.shift
  dsimp only
  rw [op.stored_at rt d (by split_ifs <;> omega) (ord_lt hp)]
  unfold UnOp.covers at hc
  unfold UnOp.place ord
  cases hl : op.left <;> cases hr : reOn st <;> rw [hl, hr] at hc <;>
    simp only [if_true, Bool.false_eq_true, Bool.true_eq_false, if_false] at hc ⊢ <;>
    rw [if_pos (by omega)] <;> congr 1 <;> omega

/-- The bytes of the memory word that no covered byte goes to. -/
theorem UnOp.stored_kept {k : Nat} (hk : k < op.width)
    (hc : ∀ j < op.width, op.covers (reOn st) (a % op.width) j →
      op.place (reOn st) (a % op.width) j ≠ k) :
    beByte (op.stored (op.shift st a) rt d) op.width (ord (reOn st) op.width k) =
      beByte d op.width (ord (reOn st) op.width k) := by
  have hq : a % op.width < op.width := Nat.mod_lt _ (by omega)
  have hout : if op.left = reOn st then a % op.width < k else k < a % op.width := by
    unfold UnOp.covers UnOp.place at hc
    by_cases he : op.left = reOn st
    · simp only [he, if_true] at hc ⊢
      by_contra hle
      exact hc (k + (op.width - 1 - a % op.width)) (by omega) (by omega) (by omega)
    · simp only [he, if_false] at hc ⊢
      by_contra hle
      exact hc (k - a % op.width) (by omega) (by omega) (by omega)
  unfold UnOp.shift
  dsimp only
  rw [op.stored_at rt d (by split_ifs <;> omega) (ord_lt hk)]
  unfold ord
  cases hl : op.left <;> cases hr : reOn st <;> rw [hl, hr] at hout <;>
    simp only [if_true, Bool.false_eq_true, Bool.true_eq_false, if_false] at hout ⊢ <;>
    rw [if_neg (by omega)]

end Bytes

theorem setWidth_sext (x : BitVec 32) : (sext x).setWidth 32 = x := by
  apply BitVec.eq_of_getLsbD_eq
  intro b hb
  unfold sext
  rw [BitVec.getLsbD_setWidth, BitVec.getLsbD_signExtend]
  simp [hb, show b < 64 by omega]

/-- The word of a pair is extended by its sign: `LWR` leaves alone what the
    left instruction has extended, unless it loads the sign itself. -/
theorem UnOp.loaded_signed (op : UnOp) (hw : op.width = 4) {s : Nat} (hs : s < 32) {rt : BitVec 64}
    (d : BitVec 64) (hrt : op.left = true ∨ rt = sext (rt.setWidth 32)) :
    op.loaded s rt d = sext ((op.loaded s rt d).setWidth 32) := by
  have hne : ¬ op.width = 8 := by omega
  unfold UnOp.loaded
  rw [if_neg hne]
  dsimp only
  by_cases hc : op.left = true ∨ s = 0
  · rw [if_pos hc, setWidth_sext]
  · obtain ⟨hl, h0⟩ := not_or.mp hc
    have hsign := hrt.resolve_left hl
    rw [if_neg hc, Bool.eq_false_iff.mpr hl]
    generalize hv : mergeLoad false s (rt.setWidth 32) (d.setWidth 32) = v
    -- the sign is not under the shifted word
    have hmsb : v.msb = (rt.setWidth 32).msb := by
      rw [BitVec.msb_eq_getLsbD_last, BitVec.msb_eq_getLsbD_last, ← hv,
        getLsbD_mergeLoad false _ _ hs (by decide)]
      rw [if_neg Bool.false_ne_true, if_neg (by omega)]
    have hval : rt &&& 0xffffffff00000000 ||| zext v = sext v := by
      apply BitVec.eq_of_getLsbD_eq
      intro b hb
      have hlow : ∀ b < 64, (0xffffffff00000000 : BitVec 64).getLsbD b = decide (32 ≤ b) := by
        decide
      unfold zext
      rw [BitVec.getLsbD_or, BitVec.getLsbD_and, hlow b hb, BitVec.getLsbD_setWidth]
      unfold sext
      rw [BitVec.getLsbD_signExtend]
      by_cases hlt : b < 32
      · simp [hlt, hb, show ¬ 32 ≤ b by omega]
      · have hbit : rt.getLsbD b = (rt.setWidth 32).msb := by
          have hext : rt.getLsbD b = (sext (rt.setWidth 32)).getLsbD b := by rw [← hsign]
          unfold sext at hext
          rw [hext, BitVec.getLsbD_signExtend]
          simp [hlt, hb]
        rw [hbit, hmsb]
        simp [hlt, hb, show 32 ≤ b by omega]
    rw [hval, setWidth_sext]

/-! ## Section 3: The bytes of a pair -/

/-- The address of the instruction, for the word at `a`: of its last byte or
    of its first. -/
def UnOp.addr (op : UnOp) (re : Bool) (a : BitVec 64) : BitVec 64 :=
  a + BitVec.ofNat 64 (if op.left = re then op.width - 1 else 0)

theorem add_toNat (a : BitVec 64) {j : Nat} (hj : j < 8) :
    (a + BitVec.ofNat 64 j).toNat = (a.toNat + j) % 2 ^ 64 := by
  rw [BitVec.toNat_add, BitVec.toNat_ofNat, Nat.mod_eq_of_lt (show j < 2 ^ 64 by omega)]

/-- What an instruction covers is in its word, also where the address wraps
    around. -/
theorem UnOp.covers_word (op : UnOp) {re : Bool} {a : BitVec 64} {j : Nat} (hj : j < op.width)
    (hc : op.covers re ((op.addr re a).toNat % op.width) j) :
    (a + BitVec.ofNat 64 j).toNat / op.width = (op.addr re a).toNat / op.width ∧
      (a + BitVec.ofNat 64 j).toNat % op.width =
        op.place re ((op.addr re a).toNat % op.width) j := by
  have hlt := a.isLt
  have hx : (op.addr re a).toNat =
      (a.toNat + if op.left = re then op.width - 1 else 0) % 2 ^ 64 := by
    refine add_toNat a ?_
    have hw := op.width_eq
    split_ifs <;> omega
  have hw := op.width_eq
  rw [add_toNat a (by omega)]
  unfold UnOp.covers at hc
  unfold UnOp.place
  rw [hx] at hc ⊢
  generalize op.width = w at *
  by_cases he : op.left = re
  · simp only [he, if_true] at hc ⊢
    rcases hw with rfl | rfl <;> omega
  · simp only [he, if_false] at hc ⊢
    rcases hw with rfl | rfl <;> omega

/-- Between them the two instructions of a pair cover all bytes. -/
theorem covers_all {op op' : UnOp} {re : Bool} (hop : op.left ≠ re) (hop' : op'.left = re)
    (hw : op.width = op'.width) (a : BitVec 64) {j : Nat} (hj : j < op.width) :
    op.covers re ((op.addr re a).toNat % op.width) j ∨
      op'.covers re ((op'.addr re a).toNat % op.width) j := by
  have hlt := a.isLt
  have hx : (op.addr re a).toNat = (a.toNat + 0) % 2 ^ 64 := by
    unfold UnOp.addr
    rw [if_neg hop]
    exact add_toNat a (by decide)
  have hx' : (op'.addr re a).toNat = (a.toNat + (op.width - 1)) % 2 ^ 64 := by
    unfold UnOp.addr
    rw [if_pos hop', ← hw]
    have hwe := op.width_eq
    exact add_toNat a (by omega)
  have hwe := op.width_eq
  unfold UnOp.covers
  rw [if_neg hop, if_pos hop', hx, hx', ← hw]
  rcases hwe with hwe | hwe <;> rw [hwe] at hj ⊢ <;> omega

/-! ## Section 4: One instruction -/

section Step

variable {attr : Nat → Bool} {s : State Dev} {m : Loc → Byte} {acc : Access} {a v v' : BitVec 64}
  {n : Nat} {l l' : Loc} {spot : Nat → Loc}

theorem Reaches.unique (h : Reaches pak attr s acc v n l) (h' : Reaches pak attr s acc v n l') :
    l = l' := by
  obtain ⟨p, t, rem, hx, hram, -⟩ := h
  obtain ⟨p', t', rem', hx', hram', -⟩ := h'
  rw [hx] at hx'
  cases hx'
  exact hram.unique hram'

/-- The bytes of a word are next to each other. -/
theorem Reaches.near {w : Nat} (h : Reaches pak attr s acc v 1 l)
    (h' : Reaches pak attr s acc v' 1 l') (hw : w = 4 ∨ w = 8) (hv : v'.toNat / w = v.toNat / w) :
    l' = (l.1, l.2 / w * w + ord (reOn s.status) w (v'.toNat % w)) := by
  obtain ⟨hword, -⟩ := h.word hw
  obtain ⟨hword', hbyte'⟩ := h'.word hw
  have hal : alignDown v' w = alignDown v w := by
    unfold alignDown
    rw [hv]
  rw [hal] at hword'
  have heq := hword.unique hword'
  obtain ⟨har, hoff⟩ := Prod.mk.inj heq
  refine Prod.ext har.symm ?_
  dsimp only
  rw [← hbyte', hoff]
  exact (Nat.div_add_mod' l'.2 w).symm

theorem Holds.set (h : Holds pak attr s m) (r : Fin 32) (x : BitVec 64) :
    Holds pak attr (s.set r x) m := by
  unfold State.set
  split_ifs
  · exact h
  · exact ⟨⟨⟨h.rdram.1.quiet, h.rdram.1.placed, h.rdram.1.clean⟩, h.rdram.2⟩, h.sp, h.apart⟩

/-- The bytes of the pair's word are at `spot`. -/
def Spots (pak : Pak) (attr : Nat → Bool) (s : State Dev) (acc : Access) (a : BitVec 64) (w : Nat)
    (spot : Nat → Loc) : Prop :=
  ∀ j < w, Reaches pak attr s acc (a + BitVec.ofNat 64 j) 1 (spot j)

/-- The location of a byte that an instruction covers. -/
theorem Spots.place {op : UnOp} (h : Spots pak attr s acc a op.width spot)
    (hx : Reaches pak attr s acc (op.addr (reOn s.status) a) 1 l) {j : Nat} (hj : j < op.width)
    (hc : op.covers (reOn s.status) ((op.addr (reOn s.status) a).toNat % op.width) j) :
    spot j = (l.1, l.2 / op.width * op.width + ord (reOn s.status) op.width
      (op.place (reOn s.status) ((op.addr (reOn s.status) a).toNat % op.width) j)) := by
  obtain ⟨hdiv, hmod⟩ := op.covers_word hj hc
  have hnear := hx.near (h j hj) op.width_eq hdiv
  rwa [hmod] at hnear

/-- The instruction's own address is that of a byte of the word. -/
theorem Spots.own {op : UnOp} (h : Spots pak attr s acc a op.width spot) :
    ∃ l, Reaches pak attr s acc (op.addr (reOn s.status) a) 1 l := by
  refine ⟨spot (if op.left = reOn s.status then op.width - 1 else 0), h _ ?_⟩
  have hw := op.width_eq
  split_ifs <;> omega

/-- What an instruction makes of the register: `x` has the covered bytes from
    memory and the other ones from `rt`. -/
structure Loaded (op : UnOp) (re : Bool) (q : Nat) (rt x : BitVec 64) (b : Nat → Byte) : Prop where
  hit : ∀ j < op.width, op.covers re q j → beByte x op.width (ord re op.width j) = b j
  miss : ∀ j < op.width, ¬ op.covers re q j →
    beByte x op.width (ord re op.width j) = beByte rt op.width (ord re op.width j)
  sign : op.width = 4 → op.left = true ∨ rt = sext (rt.setWidth 32) → x = sext (x.setWidth 32)

/-- **Load step.** The bytes an instruction covers come into the register,
    and the memory stays. -/
theorem loadUnaligned_step (h : Holds pak attr s m) {op : UnOp}
    (hs : Spots pak attr s .read a op.width spot) (rt : Fin 32) :
    ∃ t x, loadUnaligned D pak op rt (op.addr (reOn s.status) a) s = t.set rt x ∧
      Holds pak attr t m ∧ Kept s t ∧
      Loaded op (reOn s.status) ((op.addr (reOn s.status) a).toNat % op.width) (s.gpr rt) x
        fun j => m (spot j) := by
  obtain ⟨l, hx⟩ := hs.own
  have hw := op.width_eq
  obtain ⟨hword, -⟩ := hx.word hw
  set v := op.addr (reOn s.status) a with hv
  have hal : (alignDown v op.width).toNat % op.width = 0 := by
    rw [alignDown_toNat]
    exact Nat.mul_mod_left _ _
  obtain ⟨t, hread, hhold, hkept⟩ :=
    readN_holds (D := D) h hw hal hword (Nat.mul_mod_left _ _)
  set d := beRead (fun x => m (l.1, x)) (l.2 / op.width * op.width) op.width with hd
  refine ⟨t, op.loaded (op.shift s.status v.toNat) (s.gpr rt) d, ?_, hhold, hkept,
    fun j hj hc => ?_, fun j hj hc => op.loaded_kept _ _ hj hc, fun hw4 hrt => ?_⟩
  · unfold loadUnaligned
    rw [hread]
    dsimp only
    rw [hkept.gpr]
  · have hp : op.place (reOn s.status) (v.toNat % op.width) j < op.width := by
      rw [← (op.covers_word hj hc).2]
      exact Nat.mod_lt _ (by omega)
    rw [op.loaded_covered _ _ hj hc, hd, beByte_beRead (by omega) (ord_lt hp),
      hs.place hx hj hc]
  · refine op.loaded_signed hw4 ?_ d hrt
    unfold UnOp.shift
    dsimp only
    rw [hw4]
    split_ifs <;> omega

/-- `m'` is `m` with `b` at the bytes of the word that `P` selects. -/
structure Patch (m m' : Loc → Byte) (spot : Nat → Loc) (b : Nat → Byte) (w : Nat) (P : Nat → Prop) :
    Prop where
  hit : ∀ j < w, P j → m' (spot j) = b j
  miss : ∀ x, (∀ j < w, P j → x ≠ spot j) → m' x = m x

theorem Patch.width {m m' : Loc → Byte} {b : Nat → Nat → Byte} {w w' : Nat} {P : Nat → Prop}
    (hw : w = w') (h : Patch m m' spot (b w) w P) : Patch m m' spot (b w') w' P := hw ▸ h

/-- **Store step.** The bytes an instruction covers go to memory, and no other
    byte changes. -/
theorem storeUnaligned_step (h : Holds pak attr s m) {op : UnOp}
    (hs : Spots pak attr s .write a op.width spot) (rt : Fin 32) :
    ∃ m', Holds pak attr (storeUnaligned D pak op rt (op.addr (reOn s.status) a) s) m' ∧
      Kept s (storeUnaligned D pak op rt (op.addr (reOn s.status) a) s) ∧
      Patch m m' spot (fun j => beByte (s.gpr rt) op.width (ord (reOn s.status) op.width j))
        op.width (op.covers (reOn s.status) ((op.addr (reOn s.status) a).toNat % op.width)) := by
  obtain ⟨l, hx⟩ := hs.own
  have hw := op.width_eq
  obtain ⟨hword, -⟩ := hx.word hw
  set x := op.addr (reOn s.status) a with hxdef
  have hal : (alignDown x op.width).toNat % op.width = 0 := by
    rw [alignDown_toNat]
    exact Nat.mul_mod_left _ _
  -- the address is translated for a store, the word is read, and written back
  obtain ⟨p, u, rem, hxlat, -⟩ := id hx
  obtain ⟨c, -, hu⟩ := xlat_ok hxlat
  have hukept : Kept s u := by
    rw [hu]
    exact ⟨rfl, rfl, rfl, rfl⟩
  have huhold : Holds pak attr u m := by
    rw [hu]
    exact h.latch _
  have huword := hword.keep hukept.status hukept.entryHi hukept.tlb
  obtain ⟨t, hread, hthold, htkept⟩ :=
    readN_holds (D := D) huhold hw hal huword.load (Nat.mul_mod_left _ _)
  have htword := huword.keep htkept.status htkept.entryHi htkept.tlb
  have hkept := hukept.trans htkept
  set d := beRead (fun y => m (l.1, y)) (l.2 / op.width * op.width) op.width with hd
  set y := op.stored (op.shift s.status x.toNat) (s.gpr rt) d with hy
  obtain ⟨t', hwrite, hhold', hkept'⟩ :=
    writeN_holds (D := D) hthold hw hal htword (Nat.mul_mod_left _ _) y
  have hexec : storeUnaligned D pak op rt x s = t' := by
    unfold storeUnaligned
    rw [hxlat]
    dsimp only
    rw [hread]
    dsimp only
    rw [hkept.status, hkept.gpr, ← hy, hwrite]
  rw [hexec]
  refine ⟨_, hhold', hkept.trans hkept', fun j hj hc => ?_, fun z hz => ?_⟩
  · have hspot := hs.place hx hj hc
    have hp : op.place (reOn s.status) (x.toNat % op.width) j < op.width := by
      rw [← (op.covers_word hj hc).2]
      exact Nat.mod_lt _ (by omega)
    rw [hspot, putWord_at (l := (l.1, l.2 / op.width * op.width)) (ord_lt hp) m y]
    exact op.stored_covered (s.gpr rt) d hj hc
  · by_cases hin : ∃ i < op.width, z = (l.1, l.2 / op.width * op.width + i)
    · -- the rest of the word is written back as it was read
      obtain ⟨i, hi, rfl⟩ := hin
      have hkeep := op.stored_kept (s.gpr rt) d (k := ord (reOn s.status) op.width i) (ord_lt hi)
        fun j hj hc hk => hz j hj hc (by rw [hs.place hx hj hc, hk, ord_ord hi])
      rw [ord_ord hi] at hkeep
      rw [putWord_at (l := (l.1, l.2 / op.width * op.width)) hi m y, hkeep]
      exact beByte_beRead (by omega) hi
    · exact putWord_out (fun i hi heq => hin ⟨i, hi, heq⟩) m y

end Step

/-! ## Section 5: Pairs -/

def widthOf (wide : Bool) : Nat := if wide then 8 else 4

/-- The instruction at the first byte: the left one, in reverse-endian mode
    the right one. -/
def startOf (wide store re : Bool) : UnOp :=
  match wide, store, re with
  | false, false, false => .lwl
  | false, false, true => .lwr
  | true, false, false => .ldl
  | true, false, true => .ldr
  | false, true, false => .swl
  | false, true, true => .swr
  | true, true, false => .sdl
  | true, true, true => .sdr

/-- The instruction at the last byte: the other one. -/
def endOf (wide store re : Bool) : UnOp := startOf wide store !re

section Pair

variable (D : Devices Dev) (pak : Pak)

/-- `LWL` at `a` and `LWR` at `a + 3`, or `LDL` at `a` and `LDR` at `a + 7`;
    in reverse-endian mode the right one at `a` and the left one at the end. -/
def loadPair (wide : Bool) (rt : Fin 32) (a : BitVec 64) (s : State Dev) : State Dev :=
  let re := reOn s.status
  loadUnaligned D pak (endOf wide false re) rt (a + BitVec.ofNat 64 (widthOf wide - 1))
    (loadUnaligned D pak (startOf wide false re) rt a s)

/-- The same with stores, the instruction at the end first if `swap`. -/
def storePair (wide swap : Bool) (rt : Fin 32) (a : BitVec 64) (s : State Dev) : State Dev :=
  let re := reOn s.status
  let first := storeUnaligned D pak (startOf wide true re) rt a
  let last := storeUnaligned D pak (endOf wide true re) rt (a + BitVec.ofNat 64 (widthOf wide - 1))
  if swap then first (last s) else last (first s)

end Pair

/-- The word with the bytes `b`, in the order of the addresses. -/
def pairWord (wide re : Bool) (b : Nat → Byte) : BitVec 64 :=
  let v := beRead (fun i => b (ord re (widthOf wide) i)) 0 (widthOf wide)
  if wide then v else sext (v.setWidth 32)

theorem startOf_width (wide store re : Bool) : (startOf wide store re).width = widthOf wide := by
  cases wide <;> cases store <;> cases re <;> rfl

theorem startOf_left (wide store re : Bool) : (startOf wide store re).left = !re := by
  cases wide <;> cases store <;> cases re <;> rfl

theorem startOf_addr (wide store re : Bool) (a : BitVec 64) :
    (startOf wide store re).addr re a = a := by
  unfold UnOp.addr
  rw [startOf_left, if_neg (by cases re <;> decide)]
  exact BitVec.add_zero a

theorem endOf_addr (wide store re : Bool) (a : BitVec 64) :
    (endOf wide store re).addr re a = a + BitVec.ofNat 64 (widthOf wide - 1) := by
  unfold UnOp.addr endOf
  rw [startOf_left, startOf_width, Bool.not_not, if_pos rfl]

theorem pair_covers (wide store re : Bool) (a : BitVec 64) {j : Nat} (hj : j < widthOf wide) :
    (startOf wide store re).covers re
        (((startOf wide store re).addr re a).toNat % (startOf wide store re).width) j ∨
      (endOf wide store re).covers re
        (((endOf wide store re).addr re a).toNat % (endOf wide store re).width) j := by
  have hstart := startOf_width wide store re
  have hend : (endOf wide store re).width = widthOf wide := startOf_width wide store !re
  rw [hend, ← hstart]
  refine covers_all ?_ ?_ (hstart.trans hend.symm) a (hstart.symm ▸ hj)
  · rw [startOf_left]
    cases re <;> decide
  · unfold endOf
    rw [startOf_left, Bool.not_not]

theorem beByte_sext (v : BitVec 64) (i : Nat) :
    beByte (sext (v.setWidth 32)) 4 i = beByte v 4 i := by
  rw [← beByte_low, setWidth_sext, beByte_low]

/-- A value is the word of its bytes. -/
theorem eq_pairWord {wide re : Bool} {v : BitVec 64} {b : Nat → Byte}
    (hb : ∀ j < widthOf wide, beByte v (widthOf wide) (ord re (widthOf wide) j) = b j)
    (hsign : wide = false → v = sext (v.setWidth 32)) : v = pairWord wide re b := by
  have hbytes : ∀ i < widthOf wide,
      b (ord re (widthOf wide) (0 + i)) = beByte v (widthOf wide) i := by
    intro i hi
    rw [Nat.zero_add, ← hb _ (ord_lt hi), ord_ord hi]
  have hle : widthOf wide ≤ 8 := by cases wide <;> decide
  have hval := (beRead_eq_zext_iff (f := fun i => b (ord re (widthOf wide) i)) hle).mpr hbytes
  unfold pairWord
  dsimp only
  cases wide with
  | true =>
    refine BitVec.eq_of_toNat_eq ?_
    rw [if_pos rfl, hval]
    exact (Nat.mod_eq_of_lt v.isLt).symm
  | false =>
    have hlow : (beRead (fun i => b (ord re (widthOf false) i)) 0 (widthOf false)).setWidth 32 =
        v.setWidth 32 := by
      refine BitVec.eq_of_toNat_eq ?_
      rw [BitVec.toNat_setWidth, BitVec.toNat_setWidth, hval]
      exact Nat.mod_mod _ _
    rw [if_neg Bool.false_ne_true, hlow]
    exact hsign rfl

section Run

variable {attr : Nat → Bool} {s : State Dev} {m : Loc → Byte} {acc : Access} {a : BitVec 64}
  {spot : Nat → Loc} {wide : Bool}

theorem State.set_gpr (s : State Dev) {r : Fin 32} (hr : r ≠ 0) (x : BitVec 64) :
    (s.set r x).gpr r = x := by
  unfold State.set
  rw [if_neg hr]
  exact if_pos rfl

theorem Spots.keep {t : State Dev} {w : Nat} (h : Spots pak attr s acc a w spot)
    (hst : t.status = s.status) (hhi : t.entryHi = s.entryHi) (htlb : t.tlb = s.tlb) :
    Spots pak attr t acc a w spot :=
  fun j hj => (h j hj).keep hst hhi htlb

theorem Spots.load {w : Nat} (h : Spots pak attr s .write a w spot) :
    Spots pak attr s .read a w spot :=
  fun j hj => (h j hj).load

theorem State.set_kept (s : State Dev) (r : Fin 32) (x : BitVec 64) :
    (s.set r x).status = s.status ∧ (s.set r x).entryHi = s.entryHi ∧ (s.set r x).tlb = s.tlb := by
  unfold State.set
  split_ifs
  · exact ⟨rfl, rfl, rfl⟩
  · exact ⟨rfl, rfl, rfl⟩

/-- **Load run.** A pair loads the word at its address. -/
theorem loadPair_word (h : Holds pak attr s m) (hs : Spots pak attr s .read a (widthOf wide) spot)
    {rt : Fin 32} (hrt : rt ≠ 0) :
    (loadPair D pak wide rt a s).gpr rt =
        pairWord wide (reOn s.status) (fun j => m (spot j)) ∧
      Holds pak attr (loadPair D pak wide rt a s) m := by
  have hw1 := startOf_width wide false (reOn s.status)
  have hw2 : (endOf wide false (reOn s.status)).width = widthOf wide :=
    startOf_width wide false !reOn s.status
  -- the instruction at the first byte
  obtain ⟨t1, x1, hexec1, hhold1, hkept1, hx1⟩ :=
    loadUnaligned_step (D := D) h (hw1.symm ▸ hs) rt
  obtain ⟨hst, hhi, htlb⟩ := t1.set_kept rt x1
  rw [hkept1.status] at hst
  have hs2 := hs.keep hst (hhi.trans hkept1.entryHi) (htlb.trans hkept1.tlb)
  -- the instruction at the last byte
  obtain ⟨t2, x2, hexec2, hhold2, -, hx2⟩ :=
    loadUnaligned_step (D := D) (hhold1.set rt x1) (hw2.symm ▸ hs2) rt
  rw [hst] at hexec2 hx2
  rw [State.set_gpr _ hrt] at hx2
  have hexec : loadPair D pak wide rt a s = t2.set rt x2 := by
    unfold loadPair
    dsimp only
    rw [startOf_addr] at hexec1
    rw [hexec1, ← endOf_addr wide false, hexec2]
  rw [hexec, State.set_gpr _ hrt]
  refine ⟨eq_pairWord (fun j hj => ?_) fun hwide => ?_, hhold2.set rt x2⟩
  · by_cases hc : (endOf wide false (reOn s.status)).covers (reOn s.status)
        (((endOf wide false (reOn s.status)).addr (reOn s.status) a).toNat %
          (endOf wide false (reOn s.status)).width) j
    · have hhit := hx2.hit j (hw2.symm ▸ hj) hc
      rwa [hw2] at hhit
    · have hkeep := hx2.miss j (hw2.symm ▸ hj) hc
      have hhit := hx1.hit j (hw1.symm ▸ hj)
        ((pair_covers wide false (reOn s.status) a hj).resolve_right hc)
      rw [hw2] at hkeep
      rw [hw1] at hhit
      exact hkeep.trans hhit
  · -- one of the two is the left instruction
    have hleft1 := startOf_left wide false (reOn s.status)
    have hleft2 : (endOf wide false (reOn s.status)).left = !!reOn s.status :=
      startOf_left wide false !reOn s.status
    have h4 : widthOf wide = 4 := by
      rw [hwide]
      rfl
    refine hx2.sign (hw2.trans h4) ?_
    cases hre : reOn s.status with
    | true =>
      rw [hre] at hleft2
      exact .inl hleft2
    | false =>
      rw [hre] at hleft1 hx1 hw1
      exact .inr (hx1.sign (hw1.trans h4) (.inl hleft1))

/-- One patch after another. -/
theorem Patch.trans {m₀ m₁ m₂ : Loc → Byte} {b : Nat → Byte} {w : Nat} {P Q : Nat → Prop}
    (hinj : ∀ i < w, ∀ j < w, spot i = spot j → i = j) (h : Patch m₀ m₁ spot b w P)
    (h' : Patch m₁ m₂ spot b w Q) : Patch m₀ m₂ spot b w fun j => P j ∨ Q j := by
  refine ⟨fun j hj hpq => ?_, fun x hx => ?_⟩
  · by_cases hq : Q j
    · exact h'.hit j hj hq
    · rw [h'.miss (spot j) fun i hi hqi heq => hq (hinj j hj i hi heq ▸ hqi)]
      exact h.hit j hj (hpq.resolve_right hq)
  · rw [h'.miss x fun j hj hq => hx j hj (.inr hq)]
    exact h.miss x fun j hj hp => hx j hj (.inl hp)

/-- The bytes of a word are at different locations. -/
theorem Spots.inj (h : Spots pak attr s acc a (widthOf wide) spot) :
    ∀ i < widthOf wide, ∀ j < widthOf wide, spot i = spot j → i = j := by
  intro i hi j hj heq
  have hle : widthOf wide ≤ 8 := by cases wide <;> decide
  have hreach := h i hi
  rw [heq] at hreach
  have hpage := hreach.inj (h j hj)
  rw [add_toNat a (by omega), add_toNat a (by omega)] at hpage
  omega

/-- Two stores on one word. -/
theorem store_then (h : Holds pak attr s m) {op op' : UnOp} (hw : op.width = widthOf wide)
    (hw' : op'.width = widthOf wide) (hs : Spots pak attr s .write a (widthOf wide) spot)
    (rt : Fin 32) :
    ∃ m', Holds pak attr (storeUnaligned D pak op' rt (op'.addr (reOn s.status) a)
        (storeUnaligned D pak op rt (op.addr (reOn s.status) a) s)) m' ∧
      Kept s (storeUnaligned D pak op' rt (op'.addr (reOn s.status) a)
        (storeUnaligned D pak op rt (op.addr (reOn s.status) a) s)) ∧
      Patch m m' spot
        (fun j => beByte (s.gpr rt) (widthOf wide) (ord (reOn s.status) (widthOf wide) j))
        (widthOf wide) fun j =>
          op.covers (reOn s.status) ((op.addr (reOn s.status) a).toNat % op.width) j ∨
            op'.covers (reOn s.status) ((op'.addr (reOn s.status) a).toNat % op'.width) j := by
  obtain ⟨m1, hhold1, hkept1, hp1⟩ := storeUnaligned_step (D := D) h (hw.symm ▸ hs) rt
  have hs' := hs.keep hkept1.status hkept1.entryHi hkept1.tlb
  have hstep := storeUnaligned_step (D := D) hhold1 (hw'.symm ▸ hs') rt
  rw [hkept1.status, hkept1.gpr] at hstep
  obtain ⟨m2, hhold2, hkept2, hp2⟩ := hstep
  have hpatch1 :=
    Patch.width (b := fun w j => beByte (s.gpr rt) w (ord (reOn s.status) w j)) hw hp1
  have hpatch2 :=
    Patch.width (b := fun w j => beByte (s.gpr rt) w (ord (reOn s.status) w j)) hw' hp2
  exact ⟨m2, hhold2, hkept1.trans hkept2, hpatch1.trans hs.inj hpatch2⟩

/-- **Store run.** A pair stores the bytes of the register, whichever of the
    two instructions comes first, and changes no other byte. -/
theorem storePair_word (h : Holds pak attr s m) (hs : Spots pak attr s .write a (widthOf wide) spot)
    (rt : Fin 32) (swap : Bool) :
    ∃ m', Holds pak attr (storePair D pak wide swap rt a s) m' ∧
      Kept s (storePair D pak wide swap rt a s) ∧
      (∀ j < widthOf wide, m' (spot j) =
        beByte (s.gpr rt) (widthOf wide) (ord (reOn s.status) (widthOf wide) j)) ∧
      ∀ x, (∀ j < widthOf wide, x ≠ spot j) → m' x = m x := by
  have hw1 := startOf_width wide true (reOn s.status)
  have hw2 : (endOf wide true (reOn s.status)).width = widthOf wide :=
    startOf_width wide true !reOn s.status
  unfold storePair
  dsimp only
  cases swap with
  | false =>
    obtain ⟨m', hhold, hkept, hp⟩ := store_then (D := D) h hw1 hw2 hs rt
    rw [startOf_addr, endOf_addr] at hhold hkept
    exact ⟨m', hhold, hkept,
      fun j hj => hp.hit j hj (pair_covers wide true (reOn s.status) a hj),
      fun x hx => hp.miss x fun j hj _ => hx j hj⟩
  | true =>
    obtain ⟨m', hhold, hkept, hp⟩ := store_then (D := D) h hw2 hw1 hs rt
    rw [startOf_addr, endOf_addr] at hhold hkept
    exact ⟨m', hhold, hkept,
      fun j hj => hp.hit j hj (pair_covers wide true (reOn s.status) a hj).symm,
      fun x hx => hp.miss x fun j hj _ => hx j hj⟩

end Run

/-- **Unaligned pairs.** Let the memory be `m` and the bytes from `a` on be at
    `spot`. A pair of loads loads the word of these bytes, with its sign, and
    a pair of stores, in either order, stores the register there and changes
    no other byte; loads after stores return what was stored. -/
theorem unaligned_pairs (D : Devices Dev) (pak : Pak) {attr : Nat → Bool} {s : State Dev}
    {m : Loc → Byte} (h : Holds pak attr s m) (wide : Bool) (a : BitVec 64) (spot : Nat → Loc) :
    (Spots pak attr s .read a (widthOf wide) spot → ∀ rt ≠ 0,
      (loadPair D pak wide rt a s).gpr rt =
          pairWord wide (reOn s.status) (fun j => m (spot j)) ∧
        Holds pak attr (loadPair D pak wide rt a s) m) ∧
    (Spots pak attr s .write a (widthOf wide) spot → ∀ rt swap,
      (∃ m', Holds pak attr (storePair D pak wide swap rt a s) m' ∧
        (∀ j < widthOf wide, m' (spot j) =
          beByte (s.gpr rt) (widthOf wide) (ord (reOn s.status) (widthOf wide) j)) ∧
        ∀ x, (∀ j < widthOf wide, x ≠ spot j) → m' x = m x) ∧
      ∀ rt' ≠ 0, (loadPair D pak wide rt' a (storePair D pak wide swap rt a s)).gpr rt' =
        if wide then s.gpr rt else sext ((s.gpr rt).setWidth 32)) := by
  refine ⟨fun hs rt hrt => loadPair_word h hs hrt, fun hs rt swap => ?_⟩
  obtain ⟨m', hhold, hkept, hbytes, hrest⟩ := storePair_word (D := D) h hs rt swap
  refine ⟨⟨m', hhold, hbytes, hrest⟩, fun rt' hrt' => ?_⟩
  have hs' := hs.load.keep hkept.status hkept.entryHi hkept.tlb
  rw [(loadPair_word (D := D) hhold hs' hrt').1, hkept.status]
  symm
  cases wide with
  | true => exact eq_pairWord (fun j hj => (hbytes j hj).symm) nofun
  | false =>
    refine eq_pairWord (fun j hj => ?_) fun _ => ?_
    · rw [hbytes j hj]
      exact beByte_sext _ _
    · exact congrArg sext (setWidth_sext _).symm

/-- A word across a page of KSEG0. -/
def acrossPage : BitVec 64 := 0xffffffff80000ffe

def coldByte (l : Loc) : Byte := if l.1 = .rdram then BitVec.ofNat 8 l.2 else 0

theorem unaligned_pairs_across :
    (loadPair noDevices .base false 5 acrossPage coldState).gpr 5 = 0xfffffffffeff0001 ∧
      (loadPair noDevices .base false 7 acrossPage
        (storePair noDevices .base false true 5 acrossPage
          (coldState.set 5 0x1122334455667788))).gpr 7 = 0x55667788 := by
  have hcold : Holds .base (fun _ => true) coldState coldByte :=
    ⟨Shows.of_clean rfl (fun _ hv => nomatch hv), fun _ => rfl, fun _ _ hc => nomatch hc⟩
  have hspots (acc : Access) : Spots .base (fun _ => true) coldState acc acrossPage (widthOf false)
      fun j => (.rdram, 0xffe + j) := by
    intro j hj
    match j, hj with
    | 0, _ | 1, _ | 2, _ | 3, _ => exact ⟨_, _, _, rfl, ⟨rfl, nofun⟩, rfl⟩
  have hset := hcold.set 5 0x1122334455667788
  have hload := (unaligned_pairs noDevices .base hcold false acrossPage _).1 (hspots .read) 5
    (by decide)
  have hround := ((unaligned_pairs noDevices .base hset false acrossPage _).2
    ((hspots .write).keep rfl rfl rfl) 5 true).2 7 (by decide)
  refine ⟨hload.1.trans ?_, hround.trans ?_⟩
  · with_unfolding_all decide
  · with_unfolding_all decide

end Cpu
