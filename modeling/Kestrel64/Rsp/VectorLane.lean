import Kestrel64.Rsp.Vector

/-! # RSP: One Lane of the Vector Unit

    What the pieces of the two paths compute in one lane:

    * the loop of the scalar path is one step per lane (`forLanes_some`,
      `forLanes_none`), since its body stays in its lane;
    * the fast path keeps the accumulator as a 48-bit number (`V48.at`), with
      `vadd48` its sum and `vprodSS`, `vprodSU`, `vprodUS` the products;
    * both saturations are functions of its upper 32 bits.
-/

namespace Rsp

open Simd Limbs

/-! ## Section 1: The loop over the lanes -/

theorem Vu.ext_lane {a b : Vu} (h : ∀ n, a.lane n = b.lane n) : a = b := by
  obtain ⟨vpr, acch, accm, accl, vcoh, vcol, vcch, vccl, vce⟩ := a
  obtain ⟨vpr', acch', accm', accl', vcoh', vcol', vcch', vccl', vce'⟩ := b
  simp only [Vu.lane, Lane.mk.injEq] at h
  rw [Vu.mk.injEq]
  refine ⟨?_, ?_, ?_, ?_, ?_, ?_, ?_, ?_, ?_⟩
  · exact funext fun r => funext fun n => congrFun (h n).1 r
  · exact funext fun n => (h n).2.1
  · exact funext fun n => (h n).2.2.1
  · exact funext fun n => (h n).2.2.2.1
  · exact funext fun n => (h n).2.2.2.2.1
  · exact funext fun n => (h n).2.2.2.2.2.1
  · exact funext fun n => (h n).2.2.2.2.2.2.1
  · exact funext fun n => (h n).2.2.2.2.2.2.2.1
  · exact funext fun n => (h n).2.2.2.2.2.2.2.2

theorem lane_setLane_self (st : Vu) (n : Fin 8) (L : Lane) : (st.setLane n L).lane n = L := by
  simp [Vu.lane, Vu.setLane]

theorem lane_setLane_ne (st : Vu) {n k : Fin 8} (L : Lane) (h : k ≠ n) :
    (st.setLane n L).lane k = st.lane k := by
  simp [Vu.lane, Vu.setLane, h]

/-- The loop over some of the lanes, when each of them succeeds. -/
theorem foldlM_lanes {body : Fin 8 → Lane → Option Lane} {f : Fin 8 → Lane}
    (ns : List (Fin 8)) (hnd : ns.Nodup) (st : Vu) (h : ∀ n ∈ ns, body n (st.lane n) = some (f n)) :
    ∃ st', ns.foldlM (fun st n => (body n (st.lane n)).map (st.setLane n)) st = some st' ∧
      (∀ n ∈ ns, st'.lane n = f n) ∧ ∀ n, n ∉ ns → st'.lane n = st.lane n := by
  induction ns generalizing st with
  | nil => exact ⟨st, rfl, nofun, fun n _ => rfl⟩
  | cons k ns ih =>
    obtain ⟨hk, hnd⟩ := List.nodup_cons.mp hnd
    have hrest : ∀ n ∈ ns, body n ((st.setLane k (f k)).lane n) = some (f n) := by
      intro n hn
      have hne : n ≠ k := fun he => hk (he ▸ hn)
      rw [lane_setLane_ne st _ hne]
      exact h n (List.mem_cons_of_mem k hn)
    obtain ⟨st', hst', hin, hout⟩ := ih hnd _ hrest
    refine ⟨st', ?_, ?_, ?_⟩
    · rw [List.foldlM_cons, h k (List.mem_cons_self ..), Option.map_some]
      exact hst'
    · intro n hn
      rcases List.mem_cons.mp hn with rfl | hn
      · rw [hout n hk, lane_setLane_self]
      · exact hin n hn
    · intro n hn
      rw [List.mem_cons, not_or] at hn
      rw [hout n hn.2, lane_setLane_ne st _ hn.1]

/-- One lane that fails makes the loop fail. -/
theorem foldlM_lanes_none {body : Fin 8 → Lane → Option Lane} (ns : List (Fin 8))
    (hnd : ns.Nodup) (st : Vu) {n : Fin 8} (hn : n ∈ ns) (h : body n (st.lane n) = none) :
    ns.foldlM (fun st n => (body n (st.lane n)).map (st.setLane n)) st = none := by
  induction ns generalizing st with
  | nil => exact absurd hn List.not_mem_nil
  | cons k ns ih =>
    obtain ⟨hk, hnd⟩ := List.nodup_cons.mp hnd
    rw [List.foldlM_cons]
    rcases List.mem_cons.mp hn with rfl | hn
    · rw [h]
      rfl
    · cases hb : body k (st.lane k) with
      | none => rfl
      | some L =>
        have hne : n ≠ k := fun he => hk (he ▸ hn)
        refine ih hnd (st.setLane k L) hn ?_
        rw [lane_setLane_ne st L hne]
        exact h

theorem forLanes_some {body : Fin 8 → Lane → Option Lane} {f : Fin 8 → Lane} (st : Vu)
    (h : ∀ n, body n (st.lane n) = some (f n)) :
    ∃ st', forLanes body st = some st' ∧ ∀ n, st'.lane n = f n := by
  obtain ⟨st', hst', hin, -⟩ := foldlM_lanes (List.finRange 8) (List.nodup_finRange 8) st
    (fun n _ => h n)
  exact ⟨st', hst', fun n => hin n (List.mem_finRange n)⟩

theorem forLanes_none (body : Fin 8 → Lane → Option Lane) {st : Vu} {n : Fin 8}
    (h : body n (st.lane n) = none) : forLanes body st = none :=
  foldlM_lanes_none _ (List.nodup_finRange 8) st (List.mem_finRange n) h

/-- `scalarEnd` on one lane. -/
def endLane (fn : Fn) (vd : Fin 32) (L : Lane) : Lane :=
  match fn with
  | .vmulf | .vmulu | .vmacf | .vmacu | .vmudh | .vmadl | .vmadm | .vmadn | .vmadh | .vabs => L
  | .vmudl | .vmudn => L.setD vd L.accl
  | .vmudm => L.setD vd L.accm
  | .vadd | .vsub => { L with vcol := 0, vcoh := 0 }
  | .vaddc => Lane.setD { L with vcoh := 0 } vd L.accl
  | .vsubc | .vch => L.setD vd L.accl
  | .vlt | .veq | .vne | .vge => Lane.setD { L with vcch := 0, vcol := 0, vcoh := 0 } vd L.accl
  | .vcl | .vcr => Lane.setD { L with vcol := 0, vcoh := 0, vce := 0 } vd L.accl
  | .vmrg => Lane.setD { L with vcoh := 0, vcol := 0 } vd L.accl
  | .vand | .vnand | .vor | .vnor | .vxor | .vnxor => L.setD vd L.accl

theorem lane_setD (st : Vu) (vd : Fin 32) (x : R128) (n : Fin 8) :
    (st.setD vd x).lane n = (st.lane n).setD vd (x n) := by
  unfold Vu.setD Vu.lane Lane.setD
  congr 1
  funext r
  dsimp only
  split <;> rfl

theorem lane_scalarEnd (fn : Fn) (vd : Fin 32) (st : Vu) (n : Fin 8) :
    (scalarEnd fn vd st).lane n = endLane fn vd (st.lane n) := by
  cases fn <;> first | rfl | exact lane_setD ..

/-! ## Section 2: The accumulator -/

/-- The accumulator of one lane as a number. -/
def V48.at (a : V48) (n : Fin 8) : BitVec 48 := join (a.h n) (a.m n) (a.l n)

theorem vcarry16_add (a b : M128) (n : Fin 8) :
    vcarry16 a b (add_epi16 a b) n =
      BitVec.ofNat 16 (((a n).toNat + (b n).toNat) / 2 ^ 16) := carry_top (a n) (b n)

theorem vadd48_at (a b : V48) (n : Fin 8) : (vadd48 a b).at n = a.at n + b.at n := by
  unfold V48.at
  rw [join_add, ← vcarry16_add, ← vcarry16_add]
  have hc2 := vcarry16_add (add_epi16 a.m b.m) (vcarry16 a.l b.l (add_epi16 a.l b.l)) n
  have hadd : (a.m n + b.m n) = add_epi16 a.m b.m n := rfl
  rw [hadd, ← hc2]
  rfl

theorem vprodSS_at (s t : M128) (n : Fin 8) :
    (vprodSS s t).at n = BitVec.ofInt 48 ((s n).toInt * (t n).toInt) := join_mul_ss (s n) (t n)

/-- Where `x` is negative, `y`. -/
theorem and_negative (x y : M128) (n : Fin 8) :
    and_si128 (cmpgt_epi16 setzero x) y n = if (x n).msb then y n else 0 := by
  have hneg : (x n).slt 0 = (x n).msb := BitVec.slt_zero_eq_msb
  show mask ((x n).slt 0) &&& y n = _
  rw [hneg]
  cases (x n).msb
  · exact BitVec.zero_and
  · exact BitVec.allOnes_and

theorem vprodSU_at (s t : M128) (n : Fin 8) :
    (vprodSU s t).at n = BitVec.ofInt 48 ((s n).toInt * ((t n).toNat : Int)) := by
  rw [← join_mul_su (s n) (t n), ← and_negative s t n]
  rfl

theorem vprodUS_at (s t : M128) (n : Fin 8) :
    (vprodUS s t).at n = BitVec.ofInt 48 (((s n).toNat : Int) * (t n).toInt) := by
  rw [Int.mul_comm, ← join_mul_su (t n) (s n), ← and_negative t s n, BitVec.mul_comm,
    BitVec.mul_comm (t n)]
  rfl

theorem accGet_join (L : Lane) : L.accGet = (join L.acch L.accm L.accl).setWidth 64 := by
  apply BitVec.eq_of_getLsbD_eq
  intro i hi
  unfold Lane.accGet join
  simp only [BitVec.getLsbD_or, BitVec.getLsbD_shiftLeft, BitVec.getLsbD_setWidth,
    BitVec.getLsbD_append]
  by_cases h1 : i < 16
  · simp [h1, hi, show i < 32 by omega]
  · by_cases h2 : i < 32
    · simp [h1, h2, hi, show i - 16 < 16 by omega, show i - 16 < 64 by omega,
        BitVec.getLsbD_of_ge L.accl i (by omega)]
    · simp [h1, h2, hi, show ¬ i - 16 < 16 by omega, show i - 32 < 64 by omega,
        show i - 16 < 64 by omega, show i - 16 - 16 = i - 32 by omega,
        BitVec.getLsbD_of_ge L.accl i (by omega), BitVec.getLsbD_of_ge L.accm (i - 16) (by omega)]

theorem setWidth_ofInt (x : Int) : (BitVec.ofInt 64 x).setWidth 48 = BitVec.ofInt 48 x := by
  apply BitVec.eq_of_toNat_eq
  rw [BitVec.toNat_setWidth, BitVec.toNat_ofInt, BitVec.toNat_ofInt]
  omega

/-- A store whose low 48 bits are known limb by limb. -/
theorem accSet_join {L : Lane} {v : BitVec 64} {h m l : BitVec 16}
    (e : v.setWidth 48 = join h m l) :
    L.accSet v = { L with acch := h, accm := m, accl := l } := by
  obtain ⟨eh, em, el⟩ := join_inj ((join_split v).trans e)
  unfold Lane.accSet
  rw [eh, em, el]

/-- The low 48 bits after an addition to the accumulator. -/
theorem accGet_add (L : Lane) (v : BitVec 64) :
    (L.accGet + v).setWidth 48 = join L.acch L.accm L.accl + v.setWidth 48 := by
  rw [BitVec.setWidth_add _ _ (by omega), accGet_join, BitVec.setWidth_setWidth_of_le _ (by omega),
    BitVec.setWidth_eq]

/-! ## Section 3: Saturation -/

theorem toInt_append (h m : BitVec 16) :
    (h ++ m : BitVec 32).toInt = h.toInt * 65536 + m.toNat := by
  have hh := h.isLt
  have hm := m.isLt
  rw [BitVec.toInt_eq_toNat_cond, BitVec.toInt_eq_toNat_cond, toNat_append16]
  split <;> split <;> omega

/-- The scalar saturation as a function of the upper 32 bits. -/
theorem accSat_eq (L : Lane) (slice : Bool) (neg pos : BitVec 16) :
    L.accSat slice neg pos =
      if (L.acch ++ L.accm : BitVec 32).toInt < -32768 then neg
      else if 32767 < (L.acch ++ L.accm : BitVec 32).toInt then pos
      else if slice = false then L.accl else L.accm := by
  have hh := L.acch.isLt
  have hm := L.accm.isLt
  have e1 : L.acch ≠ 0xffff ↔ L.acch.toNat ≠ 65535 := by
    rw [ne_eq, ← BitVec.toNat_inj]
    rfl
  have e2 : L.acch ≠ 0 ↔ L.acch.toNat ≠ 0 := by
    rw [ne_eq, ← BitVec.toNat_inj]
    rfl
  have h1 : L.acch.toInt = if L.acch.toNat < 32768 then (L.acch.toNat : Int)
      else L.acch.toNat - 65536 := by
    rw [BitVec.toInt_eq_toNat_cond]
    split <;> split <;> omega
  have h2 : L.accm.toInt = if L.accm.toNat < 32768 then (L.accm.toNat : Int)
      else L.accm.toNat - 65536 := by
    rw [BitVec.toInt_eq_toNat_cond]
    split <;> split <;> omega
  rw [toInt_append]
  unfold Lane.accSat
  simp only [e1, e2]
  generalize (if slice = false then L.accl else L.accm) = r
  by_cases hneg : L.acch.toInt < 0
  · rw [if_pos hneg]
    by_cases hf : L.acch.toNat ≠ 65535
    · rw [if_pos hf, if_pos (by split at h1 <;> omega)]
    · rw [if_neg hf]
      by_cases hlow : 0 ≤ L.accm.toInt
      · rw [if_pos hlow, if_pos (by split at h1 <;> split at h2 <;> omega)]
      · rw [if_neg hlow, if_neg (by split at h1 <;> split at h2 <;> omega),
          if_neg (by split at h1 <;> split at h2 <;> omega)]
  · rw [if_neg hneg]
    by_cases hz : L.acch.toNat ≠ 0
    · rw [if_pos hz, if_neg (by split at h1 <;> omega), if_pos (by split at h1 <;> omega)]
    · rw [if_neg hz]
      by_cases hhigh : L.accm.toInt < 0
      · rw [if_pos hhigh, if_neg (by split at h1 <;> split at h2 <;> omega),
          if_pos (by split at h1 <;> split at h2 <;> omega)]
      · rw [if_neg hhigh, if_neg (by split at h1 <;> split at h2 <;> omega),
          if_neg (by split at h1 <;> split at h2 <;> omega)]

theorem vsatSigned_at (a : V48) (n : Fin 8) :
    vsatSigned a n = sat16 (a.h n ++ a.m n : BitVec 32).toInt := by
  unfold vsatSigned
  rw [packs_wide, wide_unpack]

theorem sat16_append (h m : BitVec 16) :
    sat16 (h ++ m : BitVec 32).toInt =
      if (h ++ m : BitVec 32).toInt < -32768 then 0x8000
      else if 32767 < (h ++ m : BitVec 32).toInt then 0x7fff else m := by
  have hlow : BitVec.ofInt 16 (h ++ m : BitVec 32).toInt = m := by
    apply BitVec.eq_of_toNat_eq
    have := m.isLt
    rw [BitVec.toNat_ofInt, toInt_append]
    omega
  unfold sat16
  rw [hlow]
  rfl

/-- `accSat` for a signed result is the saturating pack. -/
theorem accSat_signed {L : Lane} (a : V48) (n : Fin 8) (hh : L.acch = a.h n) (hm : L.accm = a.m n) :
    L.accSat true 0x8000 0x7fff = vsatSigned a n := by
  rw [accSat_eq, vsatSigned_at, sat16_append, hh, hm,
    if_neg (show ¬ true = false from Bool.noConfusion)]

theorem vsatUnsignedN_at (a : V48) (n : Fin 8) :
    vsatUnsignedN a n =
      if (a.h n ++ a.m n : BitVec 32).toInt < -32768 then 0
      else if 32767 < (a.h n ++ a.m n : BitVec 32).toInt then 0xffff else a.l n := by
  have hov : packs_epi32
      (cmpgt_epi32 (unpacklo_epi16 a.m a.h) (set1_epi32 0x7fff))
      (cmpgt_epi32 (unpackhi_epi16 a.m a.h) (set1_epi32 0x7fff)) n =
      mask (decide (32767 < (a.h n ++ a.m n : BitVec 32).toInt)) := by
    rw [packs_wide, wide_cmpgt, wide_unpack, wide_set1, sat16_mask32]
    rfl
  have hun : packs_epi32
      (cmpgt_epi32 (set1_epi32 (BitVec.ofInt 32 (-0x8000))) (unpacklo_epi16 a.m a.h))
      (cmpgt_epi32 (set1_epi32 (BitVec.ofInt 32 (-0x8000))) (unpackhi_epi16 a.m a.h)) n =
      mask (decide ((a.h n ++ a.m n : BitVec 32).toInt < -32768)) := by
    rw [packs_wide, wide_cmpgt, wide_unpack, wide_set1, sat16_mask32]
    rfl
  unfold vsatUnsignedN
  rw [blendv_mask hun, blendv_mask hov]
  simp only [decide_eq_true_eq]
  rfl

theorem accSat_unsigned {L : Lane} (a : V48) (n : Fin 8) (hh : L.acch = a.h n)
    (hm : L.accm = a.m n) (hl : L.accl = a.l n) :
    L.accSat false 0x0000 0xffff = vsatUnsignedN a n := by
  rw [accSat_eq, vsatUnsignedN_at, hh, hm, hl, if_pos rfl]

/-! ## Section 4: Masks and flags -/

theorem cmpgt_at (a b : M128) (n : Fin 8) :
    cmpgt_epi16 a b n = mask (decide ((b n).toInt < (a n).toInt)) := rfl

theorem cmpgt_zero_at (b : M128) (n : Fin 8) :
    cmpgt_epi16 setzero b n = mask (decide ((b n).toInt < 0)) := rfl

theorem cmpeq_at (a b : M128) (n : Fin 8) : cmpeq_epi16 a b n = mask (a n == b n) := rfl

theorem vnot_at (x : M128) (n : Fin 8) : vnot x n = ~~~ x n := BitVec.xor_allOnes

section Masks

variable {a b m : M128} {n : Fin 8} {p q r : Bool}

theorem vnot_mask (h : a n = mask p) : vnot a n = mask (!p) := by
  rw [vnot_at, h, mask_not]

theorem and_mask (ha : a n = mask p) (hb : b n = mask q) : and_si128 a b n = mask (p && q) := by
  show a n &&& b n = _
  rw [ha, hb, mask_and]

theorem or_mask (ha : a n = mask p) (hb : b n = mask q) : or_si128 a b n = mask (p || q) := by
  show a n ||| b n = _
  rw [ha, hb, mask_or]

theorem andnot_mask (ha : a n = mask p) (hb : b n = mask q) :
    andnot_si128 a b n = mask (!p && q) := by
  show ~~~ a n &&& b n = _
  rw [ha, hb, mask_not, mask_and]

theorem blend_masks (ha : a n = mask p) (hb : b n = mask q) (hm : m n = mask r) :
    blendv_epi8 a b m n = mask (if r then q else p) := by
  rw [blendv_mask hm, ha, hb]
  cases r <;> rfl

theorem vflagFromMask_at (h : m n = mask p) : vflagFromMask m n = set p := by
  show m n &&& 1 = _
  rw [h]
  cases p <;> decide

end Masks

/-- A flag lane is 0 or 1. -/
def IsFlag (x : BitVec 16) : Prop := ∃ b, x = set b

theorem vmaskFromFlag_at {f : R128} {n : Fin 8} {b : Bool} (h : f n = set b) :
    vmaskFromFlag f n = mask b := by
  show mask ((0 : BitVec 16).slt (f n)) = mask b
  rw [h]
  cases b <;> rfl

@[simp] theorem get_set (b : Bool) : get (set b) = b.toNat := by
  cases b <;> rfl

theorem signsDiffer_eq (s t : BitVec 16) :
    signsDiffer s t = decide ((s ^^^ t).toInt < 0) := by
  have hl : signsDiffer s t = (s.signExtend 32 ^^^ t.signExtend 32).msb :=
    BitVec.slt_zero_eq_msb
  have hr : decide ((s ^^^ t).toInt < 0) = (s ^^^ t).msb := BitVec.slt_zero_eq_msb
  rw [hl, hr, BitVec.msb_xor, BitVec.msb_xor, BitVec.msb_signExtend, BitVec.msb_signExtend]
  simp

theorem signs_mask (s t : M128) (n : Fin 8) :
    cmpgt_epi16 setzero (xor_si128 s t) n = mask (signsDiffer (s n) (t n)) := by
  rw [signsDiffer_eq]
  rfl

theorem toInt_ne_zero (x : BitVec 16) : x.toInt ≠ 0 ↔ x ≠ 0 := by
  rw [ne_eq, ne_eq, ← BitVec.toInt_inj]
  rfl

/-! ## Section 5: The broadcast modifier -/

/-- The byte shuffle moves whole lanes. -/
theorem bcast_at (e : Fin 16) (v : R128) (n : Fin 8) : bcast e v n = v (src e n) := by
  have hlo : byte (kBcast e) (2 * n) = BitVec.ofNat 8 (2 * src e n) := by
    rw [byte_even]
    exact BitVec.extractLsb'_append_eq_right
  have hhi : byte (kBcast e) (2 * n + 1) = BitVec.ofNat 8 (2 * src e n + 1) := by
    rw [byte_odd]
    exact BitVec.extractLsb'_append_eq_left
  have hidx : ∀ k : Nat, k < 16 → (BitVec.ofNat 8 k).msb = false ∧
      (BitVec.ofNat 8 k).toNat % 16 = k := by decide
  have hs := (src e n).isLt
  obtain ⟨hm0, hi0⟩ := hidx (2 * src e n) (by omega)
  obtain ⟨hm1, hi1⟩ := hidx (2 * src e n + 1) (by omega)
  unfold bcast shuffle_epi8 ofBytes
  dsimp only
  rw [hlo, hhi, hm0, hm1, hi0, hi1, if_neg (by decide), if_neg (by decide), byte_even, byte_odd,
    byteHalves]

end Rsp
