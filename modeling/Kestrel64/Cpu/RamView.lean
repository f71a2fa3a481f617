import Kestrel64.Cpu.BigEndian
import Kestrel64.Cpu.CacheHits
import Kestrel64.Cpu.PageMap
import Kestrel64.Cpu.WriteCover

/-! # CPU: the Bytes of RAM

    RDRAM and the memories of the RSP as the CPU's words find them: each byte
    at a location, through the data cache or past it. `Holds` says which byte
    stands at each location; whether a line of RDRAM is cached is the page's
    business, so it is a parameter. A word that is read is the bytes of its
    locations, and a word that is written changes these and no other.
-/

namespace Cpu

variable {Dev : Type} {D : Devices Dev} {pak : Pak}

/-- A RAM and an offset in it. -/
abbrev Loc := Area × Nat

/-! ## Section 1: Words on the bus -/

/-- A RAM that is nothing but RAM: the PIF's wakes the PIF. -/
structure RamAt (pak : Pak) (pe : Nat) (l : Loc) (rem : Nat) : Prop where
  found : resolve pak pe = some (l.1, l.2, rem)
  plain : l.1 ≠ .pif

theorem RamAt.below {pe rem : Nat} {l : Loc} (h : RamAt pak pe l rem) : phys pe < baseSp := by
  have hle := pak.size_le
  have hf := h.found
  unfold resolve at hf
  dsimp only at hf
  unfold baseDmem baseSp basePifram piframSize at *
  split_ifs at hf with hsp hram
  · exact hsp.2
  · omega
  · exact absurd (congrArg Prod.fst (Option.some.inj hf)).symm h.plain

theorem RamAt.not_cart {pe rem : Nat} {l : Loc} (h : RamAt pak pe l rem) (m : Mem Dev) :
    isCart m (phys pe) = false := by
  have hlow : phys pe < 0x04040000 := h.below
  simp only [isCart, Bool.and_eq_false_iff, decide_eq_false_iff_not]
  left
  right
  omega

theorem RamAt.not_save {pe rem : Nat} {l : Loc} (h : RamAt pak pe l rem) :
    isSaveDomain (phys pe) = false := by
  have hlow : phys pe < 0x04040000 := h.below
  simp only [isSaveDomain, Bool.and_eq_false_iff, decide_eq_false_iff_not]
  left
  omega

theorem busRead_ram {pe rem n : Nat} {l : Loc} (h : RamAt pak pe l rem) (hn : n ≤ rem) (now : Nat)
    (m : Mem Dev) :
    busRead D pak now n pe m = ((beRead (m.area l.1) l.2 n).setWidth 32, m) := by
  unfold busRead
  dsimp only
  rw [h.not_cart, h.not_save, h.found]
  dsimp only
  rw [Bool.false_and, if_neg Bool.false_ne_true, if_neg Bool.false_ne_true, if_pos hn]

theorem busWrite_ram {pe rem n : Nat} {l : Loc} (h : RamAt pak pe l rem) (hn : n ≤ rem) (now : Nat)
    (v : BitVec 32) (m : Mem Dev) :
    busWrite D pak now n pe v m =
      m.setArea (beWrite (m.area l.1) l.2 n (v.setWidth 64)) l.1 := by
  have hlow : phys pe < 0x04040000 := h.below
  have hisv : ¬ (0x13ff0000 ≤ phys pe ∧ phys pe < 0x14000000) := by omega
  have hpif : ¬ (n = 4 ∧ phys pe / 4 * 4 = basePifram + 0x3c) := by
    unfold basePifram
    omega
  unfold busWrite
  dsimp only
  rw [if_neg hisv, h.not_cart, h.not_save, h.found]
  dsimp only
  rw [Bool.false_and, if_neg Bool.false_ne_true, if_neg Bool.false_ne_true, if_pos hn,
    if_neg hpif]

/-- The bytes of a doubleword are in one RAM. -/
theorem RamAt.move {pe pe' rem : Nat} {l : Loc} (h : RamAt pak pe l rem) (hpe : pe' / 8 = pe / 8) :
    RamAt pak pe' (l.1, l.2 / 8 * 8 + pe' % 8) (rem + l.2 % 8 - pe' % 8) ∧ l.2 % 8 = pe % 8 ∧
      8 ≤ rem + l.2 % 8 := by
  have hsize := pak.size_aligned
  have hle := pak.size_le
  have hdiv : phys pe' / 8 = phys pe / 8 := by
    unfold phys
    omega
  have hmod : pe % 8 = phys pe % 8 := by
    unfold phys
    omega
  have hmod' : pe' % 8 = phys pe' % 8 := by
    unfold phys
    omega
  obtain ⟨ar, off⟩ := l
  obtain ⟨hf, hp⟩ := h
  unfold resolve at hf
  dsimp only at hf ⊢
  unfold baseDmem baseSp basePifram piframSize at hf
  rw [hmod, hmod']
  generalize phys pe = q at *
  split_ifs at hf with hsp hram hpif
  · obtain ⟨rfl, rfl, rfl⟩ : ar = .sp ∧ off = q % 0x2000 ∧ rem = 0x1000 - q % 0x2000 % 0x1000 := by
      simp only [Option.some.injEq, Prod.mk.injEq] at hf
      exact ⟨hf.1.symm, hf.2.1.symm, hf.2.2.symm⟩
    have hoff : phys pe' % 0x2000 = q % 0x2000 / 8 * 8 + phys pe' % 8 := by omega
    have hrem : 0x1000 - phys pe' % 0x2000 % 0x1000 =
        0x1000 - q % 0x2000 % 0x1000 + q % 0x2000 % 8 - phys pe' % 8 := by omega
    refine ⟨⟨?_, hp⟩, by omega, by omega⟩
    unfold resolve baseDmem baseSp
    dsimp only
    rw [if_pos (by omega), hrem, ← hoff]
  · obtain ⟨rfl, rfl, rfl⟩ : ar = .rdram ∧ q = off ∧ rem = pak.size - q := by
      simp only [Option.some.injEq, Prod.mk.injEq] at hf
      exact ⟨hf.1.symm, hf.2.1, hf.2.2.symm⟩
    have hoff : phys pe' = q / 8 * 8 + phys pe' % 8 := by omega
    have hrem : pak.size - phys pe' = pak.size - q + q % 8 - phys pe' % 8 := by omega
    refine ⟨⟨?_, hp⟩, rfl, by omega⟩
    unfold resolve baseDmem baseSp
    dsimp only
    rw [if_neg (by omega), if_pos (by omega), hrem, ← hoff]
  · exact absurd (congrArg Prod.fst (Option.some.inj hf)).symm hp

/-- The second word of a doubleword. -/
theorem RamAt.next {pe rem : Nat} {l : Loc} (h : RamAt pak pe l rem) (hal : pe % 8 = 0) :
    RamAt pak (pe + 4) (l.1, l.2 + 4) (rem - 4) := by
  obtain ⟨hn, hmod, -⟩ := h.move (show (pe + 4) / 8 = pe / 8 by omega)
  have hoff : l.2 / 8 * 8 + (pe + 4) % 8 = l.2 + 4 := by omega
  have hrem : rem + l.2 % 8 - (pe + 4) % 8 = rem - 4 := by omega
  rwa [hoff, hrem] at hn

/-- A word is the two halves the bus carries it in. -/
theorem beRead_halves (f : Nat → Byte) (off : Nat) :
    (beRead f off 4).setWidth 32 ++ (beRead f (off + 4) 4).setWidth 32 = beRead f off 8 := by
  apply BitVec.eq_of_getLsbD_eq
  intro j hj
  rw [BitVec.getLsbD_append, BitVec.getLsbD_setWidth, BitVec.getLsbD_setWidth,
    getLsbD_beRead (by decide), getLsbD_beRead (by decide), getLsbD_beRead (by decide)]
  by_cases hlt : j < 32
  · have hidx : off + 4 + (4 - 1 - j / 8) = off + (8 - 1 - j / 8) := by omega
    simp [hlt, hidx, show j < 64 by omega]
  · have hidx : off + (4 - 1 - (j - 32) / 8) = off + (8 - 1 - j / 8) := by omega
    have hbit : (j - 32) % 8 = j % 8 := by omega
    simp [hlt, hidx, hbit, show j - 32 < 32 by omega, show j < 64 by omega]

theorem zext_beRead (f : Nat → Byte) (off : Nat) :
    zext ((beRead f off 4).setWidth 32) = beRead f off 4 := by
  apply BitVec.eq_of_getLsbD_eq
  intro j hj
  unfold zext
  rw [BitVec.getLsbD_setWidth, BitVec.getLsbD_setWidth, getLsbD_beRead (by decide)]
  by_cases hlt : j < 32
  · simp [hlt, hj]
  · simp [hlt]

theorem beByte_low (v : BitVec 64) (i : Nat) :
    beByte ((v.setWidth 32).setWidth 64) 4 i = beByte v 4 i := by
  apply BitVec.eq_of_getLsbD_eq
  intro j hj
  rw [getLsbD_beByte _ _ _ hj, getLsbD_beByte _ _ _ hj, BitVec.getLsbD_setWidth,
    BitVec.getLsbD_setWidth]
  simp [show 8 * (4 - 1 - i) + j < 32 by omega, show 8 * (4 - 1 - i) + j < 64 by omega]

theorem beWrite_low (f : Nat → Byte) (off : Nat) (v : BitVec 64) :
    beWrite f off 4 ((v.setWidth 32).setWidth 64) = beWrite f off 4 v := by
  funext a
  unfold beWrite
  rw [beByte_low]

theorem beByte_halves (v : BitVec 64) {i : Nat} (hi : i < 8) :
    beByte v 8 i = if i < 4 then beByte (v >>> 32) 4 i else beByte v 4 (i - 4) := by
  apply BitVec.eq_of_getLsbD_eq
  intro j hj
  by_cases hlt : i < 4
  · rw [if_pos hlt, getLsbD_beByte _ _ _ hj, getLsbD_beByte _ _ _ hj, BitVec.getLsbD_ushiftRight]
    congr 1
    omega
  · rw [if_neg hlt, getLsbD_beByte _ _ _ hj, getLsbD_beByte _ _ _ hj]
    congr 1
    omega

theorem beWrite_halves (f : Nat → Byte) (off : Nat) (v : BitVec 64) :
    beWrite (beWrite f off 4 (v >>> 32)) (off + 4) 4 v = beWrite f off 8 v := by
  funext a
  unfold beWrite
  by_cases hin : off ≤ a ∧ a < off + 8
  · rw [if_pos hin, beByte_halves v (by omega)]
    by_cases hlt : a - off < 4
    · rw [if_neg (by omega), if_pos (by omega), if_pos hlt]
    · have hidx : a - (off + 4) = a - off - 4 := by omega
      rw [if_pos (by omega), if_neg hlt, hidx]
  · rw [if_neg (by omega), if_neg (by omega), if_neg hin]

theorem busLoad_ram {pe rem w : Nat} {l : Loc} (h : RamAt pak pe l rem) (hw : w = 4 ∨ w = 8)
    (hal : pe % w = 0) (s : State Dev) :
    busLoad D pak w pe s = (beRead (s.mem.area l.1) l.2 w, s) := by
  obtain ⟨-, hmod, hrem⟩ := h.move rfl
  rcases hw with rfl | rfl
  · have hread := @busRead_ram _ D pak pe rem 4 l h (by omega) s.cartNow s.mem
    unfold busLoad read32
    dsimp only
    rw [if_neg (by decide), if_neg (by decide), if_pos rfl, hread, zext_beRead]
  · have hnext := h.next hal
    have hhi := @busRead_ram _ D pak pe rem 4 l h (by omega) s.cartNow s.mem
    have hlo := @busRead_ram _ D pak (pe + 4) (rem - 4) 4 _ hnext (by omega) s.cartNow s.mem
    unfold busLoad read64 read32
    dsimp only
    rw [if_neg (by decide), if_neg (by decide), if_neg (by decide), hhi]
    dsimp only
    rw [hlo, beRead_halves]

@[simp] theorem setArea_same (m : Mem Dev) (f : Nat → Byte) (ar : Area) :
    (m.setArea f ar).area ar = f := by cases ar <;> rfl

theorem setArea_twice (m : Mem Dev) (f g : Nat → Byte) (ar : Area) :
    (m.setArea f ar).setArea g ar = m.setArea g ar := by cases ar <;> rfl

theorem busStore_ram {pe rem w : Nat} {l : Loc} (h : RamAt pak pe l rem) (hw : w = 4 ∨ w = 8)
    (hal : pe % w = 0) (v : BitVec 64) (s : State Dev) :
    busStore D pak w pe v s =
      { s with mem := s.mem.setArea (beWrite (s.mem.area l.1) l.2 w v) l.1 } := by
  obtain ⟨-, hmod, hrem⟩ := h.move rfl
  rcases hw with rfl | rfl
  · have hwrite := @busWrite_ram _ D pak pe rem 4 l h (by omega) s.cartNow (v.setWidth 32) s.mem
    unfold busStore write32
    dsimp only
    rw [if_neg (by decide), if_neg (by decide), if_pos rfl, hwrite, beWrite_low]
  · have hnext := h.next hal
    have hhi := @busWrite_ram _ D pak pe rem 4 l h (by omega) s.cartNow
      ((v >>> 32).setWidth 32) s.mem
    have hlo := @busWrite_ram _ D pak (pe + 4) (rem - 4) 4 _ hnext (by omega) s.cartNow
      (v.setWidth 32)
      (s.mem.setArea (beWrite (s.mem.area l.1) l.2 4 (((v >>> 32).setWidth 32).setWidth 64)) l.1)
    unfold busStore write64 write32
    dsimp only
    rw [if_neg (by decide), if_neg (by decide), if_neg (by decide), hhi, hlo, setArea_same,
      setArea_twice, beWrite_low, beWrite_low, beWrite_halves]

/-! ## Section 2: Cached and uncached bytes -/

/-- The cache without the lines of addresses that are not reached through it. -/
def State.mask (attr : Nat → Bool) (s : State Dev) : State Dev :=
  { s with dcache := fun j => if attr ((s.dcache j).tagv / 16) then s.dcache j else emptyLines j }

/-- The byte at each location is the one in `m`. `attr` tells the lines of
    RDRAM that are reached through the cache. -/
structure Holds (pak : Pak) (attr : Nat → Bool) (s : State Dev) (m : Loc → Byte) : Prop where
  rdram : Shows pak (s.mask attr) fun a => m (.rdram, a)
  sp : ∀ o, s.mem.spMem o = m (.sp, o)
  /-- Nothing waits to be written back over a byte that is not cached. -/
  apart : (∃ k, attr k = true) → ∀ j, attr ((s.dcache j).tagv / 16) = false → (s.dcache j).Flushed

/-- The bytes of `v` at `l`. -/
def putWord (m : Loc → Byte) (l : Loc) (w : Nat) (v : BitVec 64) : Loc → Byte := fun x =>
  if x.1 = l.1 ∧ l.2 ≤ x.2 ∧ x.2 < l.2 + w then beByte v w (x.2 - l.2) else m x

section Mask

variable {attr : Nat → Bool}

theorem mask_line {s : State Dev} {j : Nat} (h : attr ((s.dcache j).tagv / 16) = true) :
    (s.mask attr).dcache j = s.dcache j := if_pos h

theorem mask_empty {s : State Dev} {j : Nat} (h : attr ((s.dcache j).tagv / 16) = false) :
    (s.mask attr).dcache j = emptyLines j := if_neg (by simp [h])

theorem mask_hit {s : State Dev} {a : Nat}
    (h : ((s.mask attr).dcache (a / 16 % 512)).tagv = a / 16 * 16 + 1) : attr (a / 16) = true := by
  cases hline : attr ((s.dcache (a / 16 % 512)).tagv / 16) with
  | false =>
    rw [mask_empty hline] at h
    exact absurd h (Nat.zero_ne_add_one _)
  | true =>
    rw [mask_line hline] at h
    rwa [h, show (a / 16 * 16 + 1) / 16 = a / 16 by omega] at hline

theorem mask_setLine (s : State Dev) (idx : Nat) {l : DCacheLine} (h : attr (l.tagv / 16) = true) :
    (s.setLine idx l).mask attr = (s.mask attr).setLine idx l := by
  unfold State.mask State.setLine
  dsimp only
  congr 1
  funext j
  by_cases hj : j = idx
  · simp [hj, h]
  · simp [hj]

theorem mask_flush {s : State Dev} (hq : s.mem.dpLog = []) (idx : Nat)
    (hap : attr ((s.dcache idx).tagv / 16) = false → (s.dcache idx).Flushed) :
    (dcFlush D pak idx s).mask attr = dcFlush D pak idx (s.mask attr) := by
  cases hattr : attr ((s.dcache idx).tagv / 16) with
  | false =>
    have hempty : ((s.mask attr).dcache idx).Flushed := by
      rw [mask_empty hattr]
      exact fun _ => rfl
    rw [dcFlush_of_flushed (hap hattr), dcFlush_of_flushed hempty]
  | true =>
    have hline := mask_line hattr
    obtain hf | ⟨hv, hd⟩ := (s.dcache idx).flushed_or
    · rw [dcFlush_of_flushed hf, dcFlush_of_flushed (by rw [hline]; exact hf)]
    · rw [dcFlush_dirty hq hv hd,
        dcFlush_dirty (s := s.mask attr) hq (by rw [hline]; exact hv) (by rw [hline]; exact hd),
        hline]
      exact mask_setLine _ _ hattr

theorem dcFlush_quiet {s : State Dev} (hq : s.mem.dpLog = []) (idx : Nat) :
    (dcFlush D pak idx s).mem.dpLog = [] := by
  unfold dcFlush
  dsimp only
  rw [settle_of_quiet hq]
  split_ifs
  · exact hq
  · exact hq

theorem touch_spMem {s : State Dev} (hq : s.mem.dpLog = []) (pe : Nat) :
    (dcTouch D pak pe s).mem.spMem = s.mem.spMem := by
  have hflush : (dcFlush D pak (pe / 16 % 512) s).mem.spMem = s.mem.spMem := by
    unfold dcFlush
    dsimp only
    rw [settle_of_quiet hq]
    split_ifs <;> rfl
  unfold dcTouch
  dsimp only
  split_ifs
  · rw [dcMiss_eq hq, dcFill_quiet (dcFlush_quiet hq _)]
    exact hflush
  · rfl

theorem mask_touch {s : State Dev} {pe : Nat} (hq : s.mem.dpLog = []) (hpe : attr (pe / 16) = true)
    (hap : ∀ j, attr ((s.dcache j).tagv / 16) = false → (s.dcache j).Flushed) :
    (dcTouch D pak pe s).mask attr = dcTouch D pak pe (s.mask attr) := by
  have hbase : (pe / 16 * 16 + 1) / 16 = pe / 16 := by omega
  by_cases hit : (s.dcache (pe / 16 % 512)).tagv = pe / 16 * 16 + 1
  · have hline : (s.mask attr).dcache (pe / 16 % 512) = s.dcache (pe / 16 % 512) :=
      mask_line (by rw [hit, hbase]; exact hpe)
    unfold dcTouch
    dsimp only
    rw [if_neg (not_not.mpr hit), if_neg (by rw [hline]; exact not_not.mpr hit)]
  · -- what is masked out does not hit either
    have hmiss : ((s.mask attr).dcache (pe / 16 % 512)).tagv ≠ pe / 16 * 16 + 1 := by
      cases hattr : attr ((s.dcache (pe / 16 % 512)).tagv / 16) with
      | false =>
        rw [mask_empty hattr]
        exact Nat.zero_ne_add_one _
      | true =>
        rw [mask_line hattr]
        exact hit
    have hq' := @dcFlush_quiet _ D pak _ hq (pe / 16 % 512)
    have hfill := @mask_setLine _ attr (dcFlush D pak (pe / 16 % 512) s) (pe / 16 % 512)
      (l := { tagv := pe / 16 * 16 + 1
              dirty := false
              data := fun i => if pe / 16 * 16 + i < pak.size
                then (dcFlush D pak (pe / 16 % 512) s).mem.rdram (pe / 16 * 16 + i) else 0 })
      (by rw [hbase]; exact hpe)
    unfold dcTouch
    dsimp only
    rw [if_pos hit, if_pos hmiss, dcMiss_eq hq, dcMiss_eq (s := s.mask attr) hq,
      ← mask_flush hq _ (hap _), dcFill_quiet hq', dcFill_quiet (s := State.mask attr _) hq']
    exact congrArg (fun t : State Dev =>
      { t with stallCycles := s.stallCycles + s.dcMissCycles }) hfill

/-- A touch fills a line of a cached byte only. -/
theorem touch_apart {s : State Dev} {pe : Nat} (hpe : attr (pe / 16) = true)
    (hap : ∀ j, attr ((s.dcache j).tagv / 16) = false → (s.dcache j).Flushed) (j : Nat)
    (hj : attr (((dcTouch D pak pe s).dcache j).tagv / 16) = false) :
    ((dcTouch D pak pe s).dcache j).Flushed := by
  by_cases hidx : j = pe / 16 % 512
  · have hbase : (pe / 16 * 16 + 1) / 16 = pe / 16 := by omega
    rw [hidx, dcTouch_tagv, hbase, hpe] at hj
    cases hj
  · rw [dcTouch_other hidx] at hj ⊢
    exact hap j hj

theorem mask_write {s : State Dev} {pe : Nat} (hq : s.mem.dpLog = []) (hpe : attr (pe / 16) = true)
    (hap : ∀ j, attr ((s.dcache j).tagv / 16) = false → (s.dcache j).Flushed) (v : BitVec 64)
    (n : Nat) : (dcWrite D pak pe v n s).mask attr = dcWrite D pak pe v n (s.mask attr) := by
  have hbase : (pe / 16 * 16 + 1) / 16 = pe / 16 := by omega
  have htag := @dcTouch_tagv _ D pak pe s
  have hline : ((dcTouch D pak pe s).mask attr).dcache (pe / 16 % 512) =
      (dcTouch D pak pe s).dcache (pe / 16 % 512) := mask_line (by rw [htag, hbase]; exact hpe)
  unfold dcWrite
  dsimp only
  rw [← mask_touch hq hpe hap, hline]
  exact mask_setLine _ _ (by rw [htag, hbase]; exact hpe)

end Mask

/-! ## Section 3: Words of the view -/

section View

variable {attr : Nat → Bool} {s : State Dev} {m : Loc → Byte}

theorem Holds.stall (h : Holds pak attr s m) (n : Nat) :
    Holds pak attr { s with stallCycles := n } m :=
  ⟨h.rdram.stall n, h.sp, h.apart⟩

theorem Holds.quiet (h : Holds pak attr s m) : s.mem.dpLog = [] := h.rdram.1.quiet

/-- An uncached byte stands in its RAM. -/
theorem Holds.area (h : Holds pak attr s m) {l : Loc} (hp : l.1 ≠ .pif)
    (hun : l.1 = .rdram → l.2 < pak.size ∧ attr (l.2 / 16) = false) :
    s.mem.area l.1 l.2 = m l := by
  obtain ⟨ar, off⟩ := l
  cases ar with
  | rdram =>
    obtain ⟨hlt, hattr⟩ := hun rfl
    have hmiss : ((s.mask attr).dcache (off / 16 % 512)).tagv ≠ off / 16 * 16 + 1 := by
      intro hit
      rw [mask_hit hit] at hattr
      cases hattr
    have hflat : (s.mask attr).flat off = m (.rdram, off) := h.rdram.2 off hlt
    rw [← hflat]
    exact (if_neg hmiss).symm
  | sp => exact h.sp off
  | pif => exact absurd rfl hp

theorem Holds.read_cached (h : Holds pak attr s m) {pe n : Nat} (ha : Natural pak.size pe n)
    (hpe : attr (pe / 16) = true) :
    (dcRead D pak pe n s).1 = beRead (fun a => m (.rdram, a)) pe n ∧
      Holds pak attr (dcRead D pak pe n s).2 m := by
  have hap := h.apart ⟨_, hpe⟩
  have hbase : (pe / 16 * 16 + 1) / 16 = pe / 16 := by omega
  obtain ⟨hval, hshow⟩ := h.rdram.read (D := D) ha
  have hline : ((dcTouch D pak pe s).mask attr).dcache (pe / 16 % 512) =
      (dcTouch D pak pe s).dcache (pe / 16 % 512) :=
    mask_line (by rw [dcTouch_tagv, hbase]; exact hpe)
  refine ⟨?_, ?_, ?_, fun _ => touch_apart hpe hap⟩
  · rw [← hval]
    unfold dcRead
    dsimp only
    rw [← mask_touch h.quiet hpe hap, hline]
  · show Shows pak ((dcTouch D pak pe s).mask attr) _
    rw [mask_touch h.quiet hpe hap]
    exact hshow
  · intro o
    rw [← h.sp o]
    exact congrFun (touch_spMem h.quiet pe) o

theorem putWord_rdram (m : Loc → Byte) (off w : Nat) (v : BitVec 64) :
    (fun a => putWord m (.rdram, off) w v (.rdram, a)) =
      beWrite (fun a => m (.rdram, a)) off w v := by
  funext a
  unfold putWord beWrite
  simp only [true_and]

theorem putWord_at {l : Loc} {w i : Nat} (hi : i < w) (m : Loc → Byte) (v : BitVec 64) :
    putWord m l w v (l.1, l.2 + i) = beByte v w i := by
  unfold putWord
  rw [if_pos ⟨rfl, by simp, by simpa⟩, Nat.add_sub_cancel_left]

theorem putWord_out {l x : Loc} {w : Nat} (h : ∀ i < w, x ≠ (l.1, l.2 + i)) (m : Loc → Byte)
    (v : BitVec 64) : putWord m l w v x = m x := by
  refine if_neg fun ⟨har, hlo, hhi⟩ => h (x.2 - l.2) (by omega) ?_
  rw [← har, Nat.add_sub_cancel' hlo]

theorem Holds.write_cached (h : Holds pak attr s m) {pe n : Nat} (ha : Natural pak.size pe n)
    (hpe : attr (pe / 16) = true) (v : BitVec 64) :
    Holds pak attr (dcWrite D pak pe v n s) (putWord m (.rdram, pe) n v) := by
  have hap := h.apart ⟨_, hpe⟩
  refine ⟨?_, ?_, fun _ j hj => ?_⟩
  · rw [mask_write h.quiet hpe hap, putWord_rdram]
    exact h.rdram.write ha v
  · intro o
    have hsp : (dcWrite D pak pe v n s).mem.spMem = s.mem.spMem := touch_spMem h.quiet pe
    rw [hsp, h.sp o]
    exact (if_neg (fun hc => nomatch hc.1)).symm
  · by_cases hidx : j = pe / 16 % 512
    · rw [hidx, dcWrite_line, show (pe / 16 * 16 + 1) / 16 = pe / 16 by omega, hpe] at hj
      cases hj
    · have hline : (dcWrite D pak pe v n s).dcache j = (dcTouch D pak pe s).dcache j :=
        if_neg hidx
      rw [hline] at hj ⊢
      exact touch_apart hpe hap j hj

/-- An uncached store reaches no line of the cache. -/
theorem Holds.write_uncached (h : Holds pak attr s m) {l : Loc} {n : Nat} (hp : l.1 ≠ .pif)
    (hun : l.1 = .rdram → l.2 % 16 + n ≤ 16 ∧ attr (l.2 / 16) = false) (v : BitVec 64) :
    Holds pak attr { s with mem := s.mem.setArea (beWrite (s.mem.area l.1) l.2 n v) l.1 }
      (putWord m l n v) := by
  obtain ⟨ar, off⟩ := l
  cases ar with
  | rdram =>
    obtain ⟨hline, hattr⟩ := hun rfl
    have hout (a : Nat) (ha : attr (a / 16) = true) : ¬ (off ≤ a ∧ a < off + n) := by
      intro hin
      rw [show a / 16 = off / 16 by omega, hattr] at ha
      cases ha
    obtain ⟨⟨hq, hplaced, hclean⟩, hflat⟩ := h.rdram
    refine ⟨⟨⟨hq, hplaced, ?_⟩, ?_⟩, ?_, h.apart⟩
    · intro a hlt hit hd
      rw [show (State.mask attr _).mem.rdram a = beWrite s.mem.rdram off n v a from rfl,
        beWrite_out (hout a (mask_hit hit))]
      exact hclean a hlt hit hd
    · intro a hlt
      have hold := hflat a hlt
      rw [putWord_rdram]
      unfold State.flat at hold ⊢
      dsimp only at hold ⊢
      by_cases hit : ((s.mask attr).dcache (a / 16 % 512)).tagv = a / 16 * 16 + 1
      · rw [if_pos hit] at hold
        rw [beWrite_out (hout a (mask_hit hit)), ← hold]
        exact if_pos hit
      · rw [if_neg hit] at hold
        have hnew : beWrite s.mem.rdram off n v a = beWrite (fun a => m (.rdram, a)) off n v a :=
          if_congr Iff.rfl rfl hold
        rw [← hnew]
        exact if_neg hit
    · intro o
      rw [show putWord m (.rdram, off) n v (.sp, o) = m (.sp, o) from
        if_neg (fun hc => nomatch hc.1)]
      exact h.sp o
  | sp =>
    have hram : (fun a => putWord m (.sp, off) n v (.rdram, a)) = fun a => m (.rdram, a) := by
      funext a
      exact if_neg fun hc => nomatch hc.1
    refine ⟨?_, ?_, h.apart⟩
    · obtain ⟨⟨hq, hplaced, hclean⟩, hflat⟩ := h.rdram
      rw [hram]
      exact ⟨⟨hq, hplaced, hclean⟩, hflat⟩
    · intro o
      have hnew : putWord m (.sp, off) n v (.sp, o) = beWrite s.mem.spMem off n v o := by
        unfold putWord beWrite
        simp only [true_and, h.sp o]
      exact hnew.symm
  | pif => exact absurd rfl hp

end View

/-! ## Section 4: Addresses -/

/-- The unit at `v` is in RAM, at `l`. -/
def Reaches (pak : Pak) (attr : Nat → Bool) (s : State Dev) (acc : Access) (v : BitVec 64) (n : Nat)
    (l : Loc) : Prop :=
  ∃ p t rem, xlat v.toNat acc s = .ok (p, t) ∧ RamAt pak (busAddr s.status p n) l rem ∧
    inRdram pak v.toNat (busAddr s.status p n) t = (l.1 == .rdram && attr (l.2 / 16))

/-- In the order of the addresses: reverse-endian mode counts from the other
    end of the word. -/
def ord (re : Bool) (w j : Nat) : Nat := if re then w - 1 - j else j

theorem xor_seven (p : Nat) : p ^^^ 7 = p / 8 * 8 + (7 - p % 8) := by
  have hdiv : (p ^^^ 7) / 2 ^ 3 = p / 2 ^ 3 := by
    rw [Nat.xor_div_two_pow]
    simp
  have hmod : (p ^^^ 7) % 2 ^ 3 = 7 - p % 2 ^ 3 := by
    have hlow : ∀ q < 8, q ^^^ 7 = 7 - q := by decide
    rw [Nat.xor_mod_two_pow]
    exact hlow _ (Nat.mod_lt _ (by decide))
  omega

theorem xor_four (p : Nat) (h : p % 4 = 0) : p ^^^ 4 = p / 8 * 8 + (4 - p % 8) := by
  have hdiv : (p ^^^ 4) / 2 ^ 3 = p / 2 ^ 3 := by
    rw [Nat.xor_div_two_pow]
    simp
  have hmod : (p ^^^ 4) % 2 ^ 3 = 4 - p % 2 ^ 3 := by
    have hlow : ∀ q < 8, q % 4 = 0 → q ^^^ 4 = 4 - q := by decide
    rw [Nat.xor_mod_two_pow]
    exact hlow _ (Nat.mod_lt _ (by decide)) (by omega)
  omega

/-- The word of a byte on the bus, and the byte in it. -/
theorem busAddr_word {w : Nat} (hw : w = 4 ∨ w = 8) (st p : Nat) :
    busAddr st (p / w * w) w = busAddr st p 1 / w * w ∧
      busAddr st p 1 % w = ord (reOn st) w (p % w) := by
  have h7 := xor_seven p
  have h4 := xor_four (p / 4 * 4) (by omega)
  have hbyte : busAddr st p 1 = (if reOn st then p ^^^ 7 else p) % 2 ^ 32 := rfl
  have hword : busAddr st (p / 4 * 4) 4 =
      (if reOn st then p / 4 * 4 ^^^ 4 else p / 4 * 4) % 2 ^ 32 := rfl
  have hdouble : busAddr st (p / 8 * 8) 8 = p / 8 * 8 % 2 ^ 32 := rfl
  unfold ord
  rw [hbyte]
  cases hre : reOn st with
  | true =>
    rw [hre] at hword
    rw [if_pos rfl, if_pos rfl]
    rcases hw with rfl | rfl
    · rw [hword, if_pos rfl]
      omega
    · rw [hdouble]
      omega
  | false =>
    rw [hre] at hword
    rw [if_neg Bool.false_ne_true, if_neg Bool.false_ne_true]
    rcases hw with rfl | rfl
    · rw [hword, if_neg Bool.false_ne_true]
      omega
    · rw [hdouble]
      omega

theorem alignDown_toNat (v : BitVec 64) (w : Nat) : (alignDown v w).toNat = v.toNat / w * w := by
  have hlt := v.isLt
  have hle : v.toNat / w * w ≤ v.toNat := Nat.div_mul_le_self _ _
  unfold alignDown
  rw [BitVec.toNat_ofNat, Nat.mod_eq_of_lt (by omega)]

section Reach

variable {attr : Nat → Bool} {s t : State Dev} {acc : Access} {v v' : BitVec 64} {l l' : Loc}
  {w n : Nat}

theorem xlat_ok {a p : Nat} (h : xlat a acc s = .ok (p, t)) :
    ∃ q, xlatResult s.status s.entryHi s.tlb a acc = .ok (p, q) ∧
      t = { s with xlatCacheable := q.getD s.xlatCacheable } := by
  rw [xlat_eq] at h
  cases hx : xlatResult s.status s.entryHi s.tlb a acc with
  | error e =>
    rw [hx] at h
    cases h
  | ok r =>
    rw [hx] at h
    cases h
    exact ⟨r.2, rfl, rfl⟩

/-- The word around a byte of RAM. -/
theorem Reaches.word (h : Reaches pak attr s acc v 1 l) (hw : w = 4 ∨ w = 8) :
    Reaches pak attr s acc (alignDown v w) w (l.1, l.2 / w * w) ∧
      l.2 % w = ord (reOn s.status) w (v.toNat % w) := by
  obtain ⟨p, t, rem, hx, hram, hin⟩ := h
  obtain ⟨q, hq, rfl⟩ := xlat_ok hx
  have hoff : p % 2 ^ 12 = v.toNat % 2 ^ 12 := by
    rw [xlat_eq_translate] at hx
    exact (translate_translated _ _ _ _ _ hx).1.offset
  have hpage : (alignDown v w).toNat / 2 ^ 12 = v.toNat / 2 ^ 12 := by
    rw [alignDown_toNat]
    rcases hw with rfl | rfl <;> omega
  have hp : atOffset p (alignDown v w).toNat = p / w * w := by
    rw [alignDown_toNat]
    unfold atOffset
    rcases hw with rfl | rfl <;> omega
  obtain ⟨hbus, hbyte⟩ := busAddr_word hw s.status p
  have hnear : busAddr s.status (p / w * w) w / 8 = busAddr s.status p 1 / 8 := by
    rw [hbus]
    rcases hw with rfl | rfl <;> omega
  obtain ⟨hmove, hmod, -⟩ := hram.move hnear
  have hloc : l.2 / 8 * 8 + busAddr s.status (p / w * w) w % 8 = l.2 / w * w := by
    rw [hbus]
    rcases hw with rfl | rfl <;> omega
  have hline : l.2 / w * w / 16 = l.2 / 16 := by
    rcases hw with rfl | rfl <;> omega
  rw [hloc] at hmove
  refine ⟨⟨p / w * w, { s with xlatCacheable := q.getD s.xlatCacheable }, _, ?_, hmove, ?_⟩, ?_⟩
  · rw [xlat_eq, xlatResult_page hpage, hq, ← hp]
    rfl
  · have hsize := pak.size_aligned
    have hlt : busAddr s.status p 1 / w * w < pak.size ↔ busAddr s.status p 1 < pak.size := by
      rcases hw with rfl | rfl <;> omega
    unfold inRdram at hin ⊢
    dsimp only
    rw [hbus, cacheable_page hpage, hline, ← hin, decide_eq_decide.mpr hlt]
  · have hpv : p % w = v.toNat % w := by
      rcases hw with rfl | rfl <;> omega
    rw [← hpv, ← hbyte]
    rcases hw with rfl | rfl <;> omega

theorem RamAt.unique {pe rem rem' : Nat} (h : RamAt pak pe l rem) (h' : RamAt pak pe l' rem') :
    l = l' := by
  have heq := h.found.symm.trans h'.found
  simp only [Option.some.injEq, Prod.mk.injEq] at heq
  exact Prod.ext heq.1 heq.2.1

/-- The page offset of a location, up to the order in the doubleword. -/
theorem RamAt.offset {pe rem : Nat} (h : RamAt pak pe l rem) :
    l.2 % 2 ^ 12 = pe % 2 ^ 12 ∧ (l.1 = .rdram → l.2 < pak.size) := by
  obtain ⟨ar, off⟩ := l
  have hf := h.found
  unfold resolve phys at hf
  dsimp only at hf ⊢
  split_ifs at hf with hsp hram hpif
  · simp only [Option.some.injEq, Prod.mk.injEq] at hf
    refine ⟨by omega, fun har => ?_⟩
    rw [har] at hf
    cases hf.1
  · simp only [Option.some.injEq, Prod.mk.injEq] at hf
    exact ⟨by omega, fun _ => by omega⟩
  · exact absurd (congrArg Prod.fst (Option.some.inj hf)).symm h.plain

theorem RamAt.low {pe rem : Nat} (h : RamAt pak pe l rem) (hlt : pe < pak.size) :
    l = (.rdram, pe) := by
  have hle := pak.size_le
  have hphys : phys pe = pe := Nat.mod_eq_of_lt (by omega)
  have hfound : RamAt pak pe (.rdram, pe) (pak.size - pe) := by
    refine ⟨?_, nofun⟩
    unfold resolve baseDmem
    dsimp only
    rw [hphys, if_neg (by omega), if_pos hlt]
  exact h.unique hfound

/-- Bytes at different places in their pages are at different locations. -/
theorem Reaches.inj (h : Reaches pak attr s acc v 1 l) (h' : Reaches pak attr s acc v' 1 l) :
    v.toNat % 2 ^ 12 = v'.toNat % 2 ^ 12 := by
  have hoff {v : BitVec 64} (h : Reaches pak attr s acc v 1 l) :
      l.2 % 2 ^ 12 = (if reOn s.status then v.toNat ^^^ 7 else v.toNat) % 2 ^ 12 := by
    obtain ⟨p, t, rem, hx, hram, -⟩ := h
    have hp : p % 2 ^ 12 = v.toNat % 2 ^ 12 := by
      rw [xlat_eq_translate] at hx
      exact (translate_translated _ _ _ _ _ hx).1.offset
    have hbus : busAddr s.status p 1 = (if reOn s.status then p ^^^ 7 else p) % 2 ^ 32 := rfl
    rw [hram.offset.1, hbus]
    have hpx := xor_seven p
    have hvx := xor_seven v.toNat
    split_ifs <;> omega
  have heq := (hoff h).symm.trans (hoff h')
  have hvx := xor_seven v.toNat
  have hvx' := xor_seven v'.toNat
  split_ifs at heq <;> omega

/-- What an instruction on the memory leaves alone. -/
structure Kept (s t : State Dev) : Prop where
  status : t.status = s.status
  entryHi : t.entryHi = s.entryHi
  tlb : t.tlb = s.tlb
  gpr : t.gpr = s.gpr

theorem Kept.trans {u : State Dev} (h : Kept s t) (h' : Kept t u) : Kept s u :=
  ⟨h'.status.trans h.status, h'.entryHi.trans h.entryHi, h'.tlb.trans h.tlb, h'.gpr.trans h.gpr⟩

theorem touch_kept (pe : Nat) (s : State Dev) : Kept s (dcTouch D pak pe s) := by
  unfold dcTouch dcMiss
  dsimp only
  split_ifs <;> exact ⟨rfl, rfl, rfl, rfl⟩

/-- Where an address leads does not depend on what was accessed before. -/
theorem Reaches.keep (h : Reaches pak attr s acc v n l) (hst : t.status = s.status)
    (hhi : t.entryHi = s.entryHi) (htlb : t.tlb = s.tlb) : Reaches pak attr t acc v n l := by
  obtain ⟨p, u, rem, hx, hram, hin⟩ := h
  obtain ⟨q, hq, rfl⟩ := xlat_ok hx
  refine ⟨p, { t with xlatCacheable := q.getD t.xlatCacheable }, rem, ?_, ?_, ?_⟩
  · rw [xlat_eq, hst, hhi, htlb, hq]
    rfl
  · rwa [hst]
  · have hlatch : ∀ u : State Dev, q.getD u.xlatCacheable = q.getD (q.getD u.xlatCacheable) := by
      intro u
      cases q <;> rfl
    have hpe : busAddr t.status p n = busAddr s.status p n := by rw [hst]
    have hsame := cacheable_latch hq (s := { t with xlatCacheable := q.getD t.xlatCacheable })
      (t := { s with xlatCacheable := q.getD s.xlatCacheable }) (hlatch t) (hlatch s)
    rw [hpe, ← hin]
    exact congrArg (· && decide (busAddr s.status p n < pak.size)) hsame

/-- What can be stored to can be loaded from. -/
theorem Reaches.load (h : Reaches pak attr s .write v n l) : Reaches pak attr s .read v n l := by
  obtain ⟨p, u, rem, hx, hram, hin⟩ := h
  obtain ⟨q, hq, rfl⟩ := xlat_ok hx
  refine ⟨p, _, rem, ?_, hram, hin⟩
  rw [xlat_eq, xlatResult_read hq]
  rfl

theorem Holds.latch {m : Loc → Byte} (h : Holds pak attr s m) (c : Bool) :
    Holds pak attr { s with xlatCacheable := c } m :=
  ⟨⟨⟨h.rdram.1.quiet, h.rdram.1.placed, h.rdram.1.clean⟩, h.rdram.2⟩, h.sp, h.apart⟩

/-- The two ways to a word of RAM. -/
theorem reached {m : Loc → Byte} {pe rem : Nat} (h : Holds pak attr s m) (hw : w = 4 ∨ w = 8)
    (hl : l.2 % w = 0) (hram : RamAt pak pe l rem)
    (hin : inRdram pak v.toNat pe s = (l.1 == .rdram && attr (l.2 / 16))) :
    (inRdram pak v.toNat pe s = true ∧ l = (.rdram, pe) ∧ attr (pe / 16) = true ∧
        Natural pak.size pe w) ∨
      (inRdram pak v.toNat pe s = false ∧ pe % w = 0 ∧ ∀ i < w, s.mem.area l.1 (l.2 + i) =
        m (l.1, l.2 + i) ∧ (l.1 = .rdram → l.2 % 16 + w ≤ 16 ∧ attr (l.2 / 16) = false)) := by
  have hsize := pak.size_aligned
  obtain ⟨-, hmod, -⟩ := hram.move rfl
  cases hc : inRdram pak v.toNat pe s with
  | true =>
    have hlt : pe < pak.size := by
      have hand := hc
      unfold inRdram at hand
      exact of_decide_eq_true (Bool.and_eq_true_iff.mp hand).2
    obtain rfl := hram.low hlt
    rw [hc] at hin
    refine .inl ⟨rfl, rfl, (Bool.and_eq_true_iff.mp hin.symm).2, ?_, hl, ?_⟩
    · rcases hw with rfl | rfl <;> decide
    · rcases hw with rfl | rfl <;> dsimp only at hl <;> omega
  | false =>
    rw [hc] at hin
    have hun (har : l.1 = .rdram) : attr (l.2 / 16) = false := by
      rw [har] at hin
      exact hin.symm
    refine .inr ⟨rfl, ?_, fun i hi => ⟨?_, fun har => ⟨?_, hun har⟩⟩⟩
    · rcases hw with rfl | rfl <;> omega
    · refine h.area (l := (l.1, l.2 + i)) hram.plain fun har => ⟨?_, ?_⟩
      · have hlt := hram.offset.2 har
        dsimp only
        rcases hw with rfl | rfl <;> omega
      · have hline : (l.2 + i) / 16 = l.2 / 16 := by
          rcases hw with rfl | rfl <;> omega
        dsimp only
        rw [hline]
        exact hun har
    · rcases hw with rfl | rfl <;> omega

/-- The front of an access to an aligned unit in RAM. -/
theorem Reaches.gate {m : Loc → Byte} (hr : Reaches pak attr s acc v w l) (h : Holds pak attr s m)
    (hv : v.toNat % w = 0) : ∃ p u rem, gate v.toNat w acc s = .ok (p, u) ∧ Holds pak attr u m ∧
      Kept s u ∧ RamAt pak (busAddr u.status p w) l rem ∧
      inRdram pak v.toNat (busAddr u.status p w) u = (l.1 == .rdram && attr (l.2 / 16)) := by
  obtain ⟨p, u, rem, hx, hram, hin⟩ := hr
  obtain ⟨c, -, rfl⟩ := xlat_ok hx
  refine ⟨p, { s with xlatCacheable := c.getD s.xlatCacheable }, rem, ?_, h.latch _,
    ⟨rfl, rfl, rfl, rfl⟩, hram, hin⟩
  unfold Cpu.gate
  rw [if_neg (not_not.mpr hv), ← xlat_eq_translate, hx]

/-- A load of a word finds its bytes. -/
theorem readN_holds {m : Loc → Byte} (h : Holds pak attr s m) (hw : w = 4 ∨ w = 8)
    (hv : v.toNat % w = 0) (hr : Reaches pak attr s .read v w l) (hl : l.2 % w = 0) :
    ∃ t, readN D pak w v s = .ok (beRead (fun a => m (l.1, a)) l.2 w, t) ∧ Holds pak attr t m ∧
      Kept s t := by
  obtain ⟨p, u, rem, hgate, hlatch, hkept, hram, hin⟩ := hr.gate h hv
  rw [readN_eq, hgate]
  change ∃ t, Except.ok _ = _ ∧ _
  dsimp only
  obtain ⟨hc, hloc, hattr, hnat⟩ | ⟨hc, hpe, hbytes⟩ := reached hlatch hw hl hram hin
  · obtain ⟨hval, hhold⟩ := hlatch.read_cached (D := D) hnat hattr
    rw [if_pos hc, hloc]
    exact ⟨_, congrArg Except.ok (Prod.ext hval rfl), hhold, hkept.trans (touch_kept _ u)⟩
  · have hmem : beRead (u.mem.area l.1) l.2 w = beRead (fun a => m (l.1, a)) l.2 w :=
      beRead_congr fun i hi => (hbytes i hi).1
    rw [if_neg (by simp [hc])]
    unfold uncachedRead
    dsimp only
    rw [ramSettle_of_quiet hlatch.quiet, busLoad_ram hram hw hpe, hmem]
    exact ⟨_, rfl, hlatch.stall _, hkept.status, hkept.entryHi, hkept.tlb, hkept.gpr⟩

/-- A store of a word changes its bytes. -/
theorem writeN_holds {m : Loc → Byte} (h : Holds pak attr s m) (hw : w = 4 ∨ w = 8)
    (hv : v.toNat % w = 0) (hr : Reaches pak attr s .write v w l) (hl : l.2 % w = 0)
    (x : BitVec 64) :
    ∃ t, writeN D pak w v x s = .ok t ∧ Holds pak attr t (putWord m l w x) ∧ Kept s t := by
  obtain ⟨p, u, rem, hgate, hlatch, hkept, hram, hin⟩ := hr.gate h hv
  rw [writeN_eq, hgate]
  change ∃ t, Except.ok _ = _ ∧ _
  dsimp only
  obtain ⟨hc, hloc, hattr, hnat⟩ | ⟨hc, hpe, hbytes⟩ := reached hlatch hw hl hram hin
  · rw [if_pos hc]
    obtain ⟨hst, hhi, htlb, hgpr⟩ := @touch_kept _ D pak (busAddr u.status p w) u
    refine ⟨_, rfl, ?_, hkept.trans ⟨hst, hhi, htlb, hgpr⟩⟩
    rw [hloc]
    exact hlatch.write_cached hnat hattr x
  · have hpos : 0 < w := by
      rcases hw with rfl | rfl <;> decide
    rw [if_neg (by simp [hc]), ramSettle_of_quiet hlatch.quiet, busStore_ram hram hw hpe]
    exact ⟨_, rfl, hlatch.write_uncached hram.plain (hbytes 0 hpos).2 x, hkept.status,
      hkept.entryHi, hkept.tlb, hkept.gpr⟩

end Reach

end Cpu
