import Kestrel64.Cpu.Bus
import Kestrel64.Lib.Overlay
import Kestrel64.Lib.RingLog
import Kestrel64.Lib.Transition

/-! # RCP: The Journal of DMA Writes

    A DMA from the SP's memory to RDRAM is an act of the RSP at its own
    instant, and the CPU may not have got there. `spDmaLogPush` takes the
    bytes at once into a ring of payload and enters the transfer in the
    journal; `dpLogApply` writes it to RDRAM when the CPU's clock is past its
    instant. The CPU does not apply the journal at every instant: a look at
    RDRAM asks first, by page, whether some transfer that is not applied yet
    touches it (`dmaSettle`). And the RSP, which has to see its own writes at
    once, lays them over what it copies (`rdpSnapshot`).

    The reference is `spDma`, which writes RDRAM immediately.

    `Journal` ties the two together: the journal's rings hold what was
    accepted (`log`), RDRAM is what the applied part of it gives, and the
    page counters count the rest.
-/

namespace Rcp.Dma

open Overlay

abbrev Byte := Cpu.Byte
abbrev Ram := Nat → Byte

/-! ## Section 1: Model -/

def kDpLogN : Nat := 2 ^ 12
def kDmaPayN : Nat := 2 ^ 20
def kDmaPgN : Nat := 0x800

/-- The registers of the SP's DMA. -/
structure SpRegs where
  sp_mem_addr : Nat
  sp_dram_addr : Nat
  sp_rd_len : Nat
  sp_wr_len : Nat

/-- An entry of the journal; `reg` says what kind it is, and 16 is a DMA. -/
structure DpLogEnt where
  at' : Nat
  reg : Nat

structure DpLogDma where
  dram : Nat
  length : Nat
  count : Nat
  skip : Nat
  pay : Nat

structure State where
  rdram : Ram
  dmem : Ram
  imem : Ram
  regs : SpRegs
  dpLog : Nat → DpLogEnt
  dpLogDma : Nat → DpLogDma
  dpLogHead : Nat
  dpLogTail : Nat
  dmaPay : Nat → Byte
  dmaPayHead : Nat
  dmaPayTail : Nat
  /-- 16 bits each. -/
  dmaPg : Nat → Nat
  dmaPgPend : Nat

/-- The fields of `SP_WR_LEN`. -/
def lenLength (len : Nat) : Nat := (len % 0x1000 + 8) / 8 * 8

def lenCount (len : Nat) : Nat := len / 2 ^ 12 % 0x100 + 1

def lenSkip (len : Nat) : Nat := len / 2 ^ 20 % 0x1000 / 8 * 8

/-- `sp_mem_addr & 0xff8`, and whether it is in IMEM. -/
def memOffOf (r : SpRegs) : Nat := r.sp_mem_addr % 0x1000 / 8 * 8

def isImem (r : SpRegs) : Bool := r.sp_mem_addr / 0x1000 % 2 = 1

def dramOf (r : SpRegs) : Nat := r.sp_dram_addr % 0x1000000 / 8 * 8

/-- `memcpy(&f[dst], &src[from], n)`. -/
def memcpy (f : Ram) (dst : Nat) (src : Ram) (from' n : Nat) : Ram :=
  fun x => if dst ≤ x ∧ x < dst + n then src (from' + (x - dst)) else f x

/-- What a DMA leaves in the registers. -/
def regsAfter (r : SpRegs) (memOff dram : Nat) : SpRegs where
  sp_mem_addr := (if isImem r then 0x1000 else 0) + memOff
  sp_dram_addr := dram % 0x1000000
  sp_rd_len := 0xff8
  sp_wr_len := 0xff8

variable (pak : Cpu.Pak)

/-- One row of `spDma(true)`: a block ends where the SP's memory wraps and
    where the RDRAM ends. -/
def spDmaRow (sp : Ram) (length memOff dram : Nat) (ram : Ram) : Ram :=
  chunkLoop
    (fun i =>
      let n := 0x1000 - (memOff + i) % 0x1000
      if dram + i < pak.size then min n (pak.size - (dram + i)) else n)
    (fun i n ram =>
      if dram + i < pak.size then memcpy ram (dram + i) sp ((memOff + i) % 0x1000) n else ram)
    length 0 ram

/-- The rows of `spDma(true)`, with the two addresses as they advance. -/
def spDmaRows (sp : Ram) (length skip : Nat) : Nat → Nat → Nat → Ram → Ram × Nat × Nat
  | 0, memOff, dram, ram => (ram, memOff, dram)
  | c + 1, memOff, dram, ram =>
    spDmaRows sp length skip c ((memOff + length) % 0x1000) (dram + length + skip)
      (spDmaRow pak sp length memOff dram ram)

/-- `spDma(true)`, after `SP_WR_LEN` has been written with `len`: RDRAM and
    the registers. -/
def spDma (dmem imem : Ram) (r : SpRegs) (len : Nat) (ram : Ram) : Ram × SpRegs :=
  let sp := if isImem r then imem else dmem
  let out := spDmaRows pak sp (lenLength len) (lenSkip len) (lenCount len) (memOffOf r) (dramOf r)
    ram
  (out.1, regsAfter r out.2.1 out.2.2)

/-- One row into the ring of payload: a block also ends where the ring
    wraps. -/
def pushRow (sp : Ram) (length memOff w : Nat) (pay : Ram) : Ram :=
  chunkLoop
    (fun i => min (0x1000 - (memOff + i) % 0x1000) (kDmaPayN - (w + i) % kDmaPayN))
    (fun i n pay => memcpy pay ((w + i) % kDmaPayN) sp ((memOff + i) % 0x1000) n)
    length 0 pay

def pushRows (sp : Ram) (length : Nat) : Nat → Nat → Nat → Ram → Ram × Nat × Nat
  | 0, memOff, w, pay => (pay, memOff, w)
  | c + 1, memOff, w, pay =>
    pushRows sp length c ((memOff + length) % 0x1000) (w + length)
      (pushRow sp length memOff w pay)

/-- `dmaPgMark`: one more, or one less, transfer on the pages of the span. -/
def dmaPgMark (pg : Nat → Nat) (dram span : Nat) (up : Bool) : Nat → Nat := fun p =>
  if dram / 0x1000 ≤ p ∧ p ≤ (dram + span - 1) / 0x1000 ∧ p < kDmaPgN then
    (pg p + if up then 1 else 0xffff) % 0x10000
  else pg p

def dpLogPush (s : State) (at' reg : Nat) : State :=
  { s with
    dpLog := Function.update s.dpLog (s.dpLogTail % kDpLogN) ⟨at', reg⟩
    dpLogTail := s.dpLogTail + 1 }

/-- The journal or the ring of payload is full for `total` bytes: the RSP
    waits in `dpLogWait` until the CPU has emptied the journal. -/
def mustWait (s : State) (total : Nat) : Bool :=
  s.dmaPayTail + total - s.dmaPayHead > kDmaPayN || s.dpLogTail - s.dpLogHead ≥ kDpLogN

/-- `spDmaLogPush`: `none` where it returns false. `hit` says that the
    transfer overlaps what the RDP may be painting. -/
def spDmaLogPush (s : State) (hit : Bool) (at' len : Nat) : Option State :=
  let length := lenLength len
  let count := lenCount len
  let skip := lenSkip len
  let total := length * count
  if total > kDmaPayN / 4 then none
  else if hit then none
  else
    let dram := dramOf s.regs
    let sp := if isImem s.regs then s.imem else s.dmem
    let pay := s.dmaPayTail
    let out := pushRows sp length count (memOffOf s.regs) pay s.dmaPay
    let s := { s with
      dmaPay := out.1
      dmaPayTail := out.2.2
      regs := regsAfter s.regs out.2.1 (dram + (length + skip) * count)
      dpLogDma := Function.update s.dpLogDma (s.dpLogTail % kDpLogN) ⟨dram, length, count, skip, pay⟩
      dmaPgPend := (s.dmaPgPend + 1) % 2 ^ 32
      dmaPg := dmaPgMark s.dmaPg dram ((length + skip) * count) true }
    some (dpLogPush s at' 16)

/-- One row out of the ring of payload, cut where the ring wraps and where
    the RDRAM ends. -/
def applyRow (pay : Ram) (length r dram : Nat) (ram : Ram) : Ram :=
  chunkLoop
    (fun i => kDmaPayN - (r + i) % kDmaPayN)
    (fun i n ram =>
      if dram + i < pak.size then
        memcpy ram (dram + i) pay ((r + i) % kDmaPayN) (min n (pak.size - (dram + i)))
      else ram)
    length 0 ram

def applyRows (pay : Ram) (length skip : Nat) : Nat → Nat → Nat → Ram → Ram × Nat
  | 0, r, _, ram => (ram, r)
  | c + 1, r, dram, ram =>
    applyRows pay length skip c (r + length) (dram + length + skip)
      (applyRow pak pay length r dram ram)

def spDmaLogApply (s : State) (d : DpLogDma) : State :=
  let out := applyRows pak s.dmaPay d.length d.skip d.count d.pay d.dram s.rdram
  { s with rdram := out.1, dmaPayHead := out.2 }

/-- The entry at the head of the journal. The other kinds of entry touch
    devices. -/
def applyEnt (s : State) : State :=
  let e := s.dpLog (s.dpLogHead % kDpLogN)
  let s :=
    if e.reg.testBit 5 ∨ e.reg.testBit 6 then s
    else if e.reg.testBit 4 then
      let d := s.dpLogDma (s.dpLogHead % kDpLogN)
      let s := spDmaLogApply pak s d
      { s with
        dmaPg := dmaPgMark s.dmaPg d.dram ((d.length + d.skip) * d.count) false
        dmaPgPend := (s.dmaPgPend + (2 ^ 32 - 1)) % 2 ^ 32 }
    else s
  { s with dpLogHead := s.dpLogHead + 1 }

/-- The loop of `dpLogApply`, with at most `k` entries left. -/
def applyLoop (upTo : Nat) : Nat → State → State
  | 0, s => s
  | k + 1, s =>
    if upTo < (s.dpLog (s.dpLogHead % kDpLogN)).at' then s
    else applyLoop upTo k (applyEnt pak s)

/-- Apply what is dated up to `upTo`. -/
def dpLogApply (upTo : Nat) (s : State) : State :=
  applyLoop pak upTo (s.dpLogTail - s.dpLogHead) s

/-- `dmaSettleSlow`: many pages are not looked up one by one. -/
def dmaSettleSlow (now lo hi : Nat) (s : State) : State :=
  let hi := if hi ≤ lo then lo + 1 else hi
  let p := lo / 0x1000
  let e := (hi - 1) / 0x1000
  if p + 8 ≤ e then dpLogApply pak now s
  else if (List.range (e + 1 - p)).any fun i => p + i < kDmaPgN && s.dmaPg (p + i) ≠ 0 then
    dpLogApply pak now s
  else s

/-- `dmaSettle`: the CPU, at `now`, is about to look at `[lo, hi)`. -/
def dmaSettle (now lo hi : Nat) (s : State) : State :=
  if s.dmaPgPend = 0 then s
  else
    let p := lo / 0x1000
    if lo < hi ∧ (hi - 1) / 0x1000 = p ∧ p < kDmaPgN ∧ s.dmaPg p = 0 then s
    else dmaSettleSlow pak now lo hi s

/-- One row of `spDmaOverlay`: what falls in `[a, b)`. -/
def overlayRow (pay : Ram) (length r dram a b : Nat) (base : Ram) : Ram :=
  chunkLoop
    (fun i => kDmaPayN - (r + i) % kDmaPayN)
    (fun i n base =>
      let dd := dram + i
      let lo := max dd a
      let hi := min (dd + n) b
      if lo < hi then memcpy base lo pay ((r + i) % kDmaPayN + (lo - dd)) (hi - lo) else base)
    length 0 base

def overlayRows (pay : Ram) (length skip a b : Nat) : Nat → Nat → Nat → Ram → Ram
  | 0, _, _, base => base
  | c + 1, r, dram, base =>
    overlayRows pay length skip a b c (r + length) (dram + length + skip)
      (overlayRow pay length r dram a b base)

def spDmaOverlay (s : State) (d : DpLogDma) (a b : Nat) (base : Ram) : Ram :=
  overlayRows s.dmaPay d.length d.skip a b d.count d.pay d.dram base

/-- The entries from `h` on, `k` of them, laid over the copy. -/
def overlayLoop (s : State) (a b : Nat) : Nat → Nat → Ram → Ram
  | _, 0, base => base
  | h, k + 1, base =>
    let base :=
      if (s.dpLog (h % kDpLogN)).reg.testBit 4 then
        spDmaOverlay s (s.dpLogDma (h % kDpLogN)) a b base
      else base
    overlayLoop s a b (h + 1) k base

/-- `rdpSnapshot` on the RSP's thread: the copy of `[current, end)`. `h0` is
    the head of the journal before the copy, and `seen` is RDRAM as the copy
    found it, byte by byte: the CPU goes on applying meanwhile. -/
def rdpSnapshot (s : State) (h0 : Nat) (seen : Ram) (current end' : Nat) (sh : Ram) : Ram :=
  let a := current % 0x1000000
  let b := min (end' % 0x1000000) pak.size
  if b ≤ a then sh
  else overlayLoop s a b h0 (s.dpLogTail - h0) (memcpy sh a seen a (b - a))

/-! ## Section 2: Rows -/

theorem kDmaPayN_pos : 0 < kDmaPayN := by decide

/-- A block that does not cross the wrap of a ring of `N`. -/
theorem ring_block {N w i x n : Nat} (hN : 0 < N) (hi : i ≤ x) (hx : x < i + n)
    (hn : n ≤ N - (w + i) % N) : (w + i) % N + (x - i) = (w + x) % N := by
  have hlt : (w + i) % N + (x - i) < N := by
    have := Nat.mod_lt (w + i) hN
    omega
  rw [← Nat.mod_eq_of_lt hlt, Nat.mod_add_mod]
  congr 1
  omega

/-- A block copied out of a ring is part of the row that lands there. -/
theorem memcpy_eq_paint {pay ram : Ram} {N r dram lo hi i n lo' hi' : Nat} (hN : 0 < N)
    (hn : n ≤ N - (r + i) % N) (hlo : lo' = max (dram + i) lo) (hhi : hi' = min (dram + i + n) hi) :
    (if lo' < hi' then memcpy ram lo' pay ((r + i) % N + (lo' - (dram + i))) (hi' - lo') else ram) =
      paint (part (spanIdx dram lo hi) (fun k => pay ((r + k) % N)) i (i + n)) ram := by
  subst hlo hhi
  funext x
  by_cases hx : max (dram + i) lo ≤ x ∧ x < min (dram + i + n) hi
  · have hblock := ring_block (w := r) (i := i) (x := x - dram) hN (by omega) (by omega) hn
    rw [if_pos (by omega), memcpy, if_pos (by omega), show (r + i) % N + (max (dram + i) lo -
      (dram + i)) + (x - max (dram + i) lo) = (r + i) % N + (x - dram - i) by omega, hblock]
    simp only [paint, part, spanIdx]
    rw [if_pos (by omega), Option.bind_some, if_pos (by omega)]
    rfl
  · have hleft : (if max (dram + i) lo < min (dram + i + n) hi then memcpy ram (max (dram + i) lo)
        pay ((r + i) % N + (max (dram + i) lo - (dram + i)))
        (min (dram + i + n) hi - max (dram + i) lo) else ram) x = ram x := by
      split
      · rw [memcpy, if_neg (by omega)]
      · rfl
    rw [hleft]
    simp only [paint, part, spanIdx]
    split
    · rw [Option.bind_some, if_neg (by omega)]
      rfl
    · rfl

theorem applyRow_eq (pay : Ram) (length r dram : Nat) (ram : Ram) :
    applyRow pak pay length r dram ram =
      paint (part (spanIdx dram 0 pak.size) (fun k => pay ((r + k) % kDmaPayN)) 0 length) ram := by
  refine chunkLoop_eq_paint ?_ ?_ ram (Nat.zero_le _)
  · intro i _
    have := Nat.mod_lt (r + i) kDmaPayN_pos
    omega
  · intro i n f hn hlim _
    rw [← memcpy_eq_paint kDmaPayN_pos hlim rfl rfl]
    by_cases hd : dram + i < pak.size
    · rw [if_pos hd, if_pos (by omega), Nat.max_eq_left (Nat.zero_le _), Nat.sub_self,
        Nat.add_zero]
      congr 1
      omega
    · rw [if_neg hd, if_neg (by omega)]

theorem overlayRow_eq (pay : Ram) (length r dram a b : Nat) (base : Ram) :
    overlayRow pay length r dram a b base =
      paint (part (spanIdx dram a b) (fun k => pay ((r + k) % kDmaPayN)) 0 length) base := by
  refine chunkLoop_eq_paint ?_ ?_ base (Nat.zero_le _)
  · intro i _
    have := Nat.mod_lt (r + i) kDmaPayN_pos
    omega
  · intro i n f hn hlim _
    exact memcpy_eq_paint kDmaPayN_pos hlim rfl rfl

theorem spDmaRow_eq (sp : Ram) (length memOff dram : Nat) (ram : Ram) :
    spDmaRow pak sp length memOff dram ram =
      paint (part (spanIdx dram 0 pak.size) (fun k => sp ((memOff + k) % 0x1000)) 0 length)
        ram := by
  refine chunkLoop_eq_paint ?_ ?_ ram (Nat.zero_le _)
  · intro i _
    dsimp only
    split <;> omega
  · intro i n f hn hlim _
    have hlim' : n ≤ 0x1000 - (memOff + i) % 0x1000 := by
      dsimp only at hlim
      split at hlim <;> omega
    rw [← memcpy_eq_paint (by decide) hlim' rfl rfl]
    by_cases hd : dram + i < pak.size
    · simp only [hd, if_true] at hlim ⊢
      rw [if_pos (by omega), Nat.max_eq_left (Nat.zero_le _), Nat.sub_self, Nat.add_zero]
      congr 1
      omega
    · rw [if_neg hd, if_neg (by omega)]

/-- How far behind position `w` of a ring the slot `y` is. -/
def ringIdx (N w y : Nat) : Option Nat := if y < N then some ((y + N - w % N) % N) else none

theorem ringIdx_eq_some {N w y k : Nat} (hk : k < N) :
    ringIdx N w y = some k ↔ y = (w + k) % N := by
  have hw : w % N < N := Nat.mod_lt _ (by omega)
  have hsum : (w + k) % N = if w % N + k < N then w % N + k else w % N + k - N := by
    rw [Nat.add_mod, Nat.mod_eq_of_lt hk]
    split
    · next h => exact Nat.mod_eq_of_lt h
    · rw [Nat.mod_eq_sub_mod (by omega), Nat.mod_eq_of_lt (by omega)]
  have hback : ∀ z < 2 * N, z % N = if z < N then z else z - N := by
    intro z hz
    split
    · next h => exact Nat.mod_eq_of_lt h
    · rw [Nat.mod_eq_sub_mod (by omega), Nat.mod_eq_of_lt (by omega)]
  unfold ringIdx
  by_cases hy : y < N
  · rw [if_pos hy, Option.some.injEq, hback _ (by omega), hsum]
    split <;> split <;> omega
  · rw [if_neg hy, hsum]
    simp only [reduceCtorEq, false_iff]
    split <;> omega

theorem pushRow_eq (sp : Ram) {length memOff w : Nat} (pay : Ram) (hlen : length ≤ kDmaPayN) :
    pushRow sp length memOff w pay =
      paint (part (ringIdx kDmaPayN w) (fun k => sp ((memOff + k) % 0x1000)) 0 length) pay := by
  refine chunkLoop_eq_paint ?_ ?_ pay (Nat.zero_le _)
  · intro i _
    have := Nat.mod_lt (w + i) kDmaPayN_pos
    omega
  · intro i n f hn hlim hle
    have hring : n ≤ kDmaPayN - (w + i) % kDmaPayN := by omega
    have hsp : n ≤ 0x1000 - (memOff + i) % 0x1000 := by omega
    funext y
    simp only [memcpy, paint, part]
    by_cases hy : (w + i) % kDmaPayN ≤ y ∧ y < (w + i) % kDmaPayN + n
    · -- slot `y` takes byte `i + t` of the row
      obtain ⟨t, rfl⟩ := Nat.exists_eq_add_of_le hy.1
      have hblock := ring_block (w := w) (i := i) (x := i + t) kDmaPayN_pos (by omega) (by omega)
        hring
      have hsrc := ring_block (w := memOff) (i := i) (x := i + t) (show 0 < 0x1000 by decide)
        (by omega) (by omega) hsp
      rw [show i + t - i = t by omega] at hblock hsrc
      have hidx : ringIdx kDmaPayN w ((w + i) % kDmaPayN + t) = some (i + t) :=
        (ringIdx_eq_some (by omega)).mpr hblock
      rw [if_pos hy, hidx, Option.bind_some, if_pos (by omega), Nat.add_sub_cancel_left, hsrc]
      rfl
    · rw [if_neg hy]
      cases hidx : ringIdx kDmaPayN w y with
      | none => rfl
      | some k =>
        have hno : ¬ (i ≤ k ∧ k < i + n) := by
          rintro ⟨h1, h2⟩
          have hyk := (ringIdx_eq_some (by omega)).mp hidx
          have hblock := ring_block (w := w) (i := i) (x := k) kDmaPayN_pos h1 h2 hring
          omega
        rw [Option.bind_some, if_neg hno]
        rfl

/-- A row into the ring of payload: its bytes are there, the others stay. -/
theorem pushRow_spec (sp : Ram) {length : Nat} (memOff w : Nat) (pay : Ram) (hlen : length ≤ kDmaPayN) :
    (∀ k < length, pushRow sp length memOff w pay ((w + k) % kDmaPayN) =
      sp ((memOff + k) % 0x1000)) ∧
    ∀ y, (∀ k < length, y ≠ (w + k) % kDmaPayN) → pushRow sp length memOff w pay y = pay y := by
  rw [pushRow_eq sp pay hlen]
  constructor
  · intro k hk
    have hidx : ringIdx kDmaPayN w ((w + k) % kDmaPayN) = some k :=
      (ringIdx_eq_some (by omega)).mpr rfl
    simp [paint, part, hidx, hk]
  · intro y hy
    simp only [paint, part]
    cases hidx : ringIdx kDmaPayN w y with
    | none => rfl
    | some k =>
      have hno : ¬ (0 ≤ k ∧ k < length) := by
        rintro ⟨-, hk⟩
        exact hy k hk ((ringIdx_eq_some (by omega)).mp hidx)
      rw [Option.bind_some, if_neg hno]
      rfl

/-- Two positions of a ring less than its size apart are different slots. -/
theorem ring_ne {N w i j : Nat} (hij : i < j) (hj : j < i + N) : (w + i) % N ≠ (w + j) % N := by
  intro h
  have hdvd : N ∣ (w + j) - (w + i) := (Nat.modEq_iff_dvd' (by omega)).mp h
  have := Nat.le_of_dvd (by omega) hdvd
  omega

/-- All rows: the payload of the transfer follows `w`, the rest of the ring
    stays. -/
theorem pushRows_spec (sp : Ram) (length : Nat) (c : Nat) (memOff : Nat) (w : Nat) (pay : Ram)
    (hoff : memOff < 0x1000) (htot : length * c ≤ kDmaPayN) :
    (∀ j < length * c, (pushRows sp length c memOff w pay).1 ((w + j) % kDmaPayN) =
      sp ((memOff + j) % 0x1000)) ∧
    (∀ y, (∀ j < length * c, y ≠ (w + j) % kDmaPayN) →
      (pushRows sp length c memOff w pay).1 y = pay y) ∧
    (pushRows sp length c memOff w pay).2 = ((memOff + length * c) % 0x1000, w + length * c) := by
  induction c generalizing memOff w pay with
  | zero =>
    refine ⟨by simp, fun y _ => rfl, ?_⟩
    simp [pushRows, Nat.mod_eq_of_lt hoff]
  | succ c ih =>
    rw [Nat.mul_succ] at htot ⊢
    obtain ⟨hrow, hrest⟩ := pushRow_spec sp memOff w pay
      (show length ≤ kDmaPayN by omega)
    obtain ⟨h1, h2, h3⟩ := ih ((memOff + length) % 0x1000) (w + length)
      (pushRow sp length memOff w pay) (Nat.mod_lt _ (by decide)) (by omega)
    refine ⟨?_, ?_, ?_⟩
    · intro j hj
      by_cases hjl : j < length
      · -- the later rows leave the first one alone
        have hkeep := h2 ((w + j) % kDmaPayN) fun j' hj' => by
          rw [Nat.add_assoc]
          exact ring_ne (by omega) (by omega)
        exact hkeep.trans (hrow j hjl)
      · have hlater := h1 (j - length) (by omega)
        rw [Nat.mod_add_mod, show w + length + (j - length) = w + j by omega,
          show memOff + length + (j - length) = memOff + j by omega] at hlater
        exact hlater
    · intro y hy
      have hkeep := h2 y fun j hj => by
        have := hy (length + j) (by omega)
        rwa [← Nat.add_assoc] at this
      exact hkeep.trans (hrest y fun k hk => hy k (by omega))
    · rw [pushRows, h3, Nat.mod_add_mod, Nat.add_comm (length * c) length, Nat.add_assoc,
        Nat.add_assoc]

theorem applyRows_eq (pay : Ram) {length : Nat} (skip r dram : Nat) (hlen : 0 < length) (m c : Nat)
    (ram : Ram) :
    applyRows pak pay length skip m (r + c * length) (dram + c * (length + skip)) ram =
      (paint (rowsPart 0 pak.size dram length (length + skip)
        (fun j => pay ((r + j) % kDmaPayN)) c (c + m)) ram, r + (c + m) * length) := by
  induction m generalizing c ram with
  | zero => simp [applyRows]
  | succ m ih =>
    have hrow := part_spanIdx 0 pak.size dram c
      (fun j => pay ((r + j) % kDmaPayN)) (show 0 < length + skip by omega)
      (Nat.le_add_right length skip)
    simp only [← Nat.add_assoc] at hrow
    rw [applyRows, applyRow_eq, hrow,
      show r + c * length + length = r + (c + 1) * length by rw [Nat.succ_mul, Nat.add_assoc],
      show dram + c * (length + skip) + length + skip = dram + (c + 1) * (length + skip) by
        rw [Nat.succ_mul]; omega,
      ih (c + 1), paint_rowsPart (by omega) (by omega), show c + 1 + m = c + (m + 1) by omega]

theorem overlayRows_eq (pay : Ram) {length : Nat} (skip r dram a b : Nat) (hlen : 0 < length)
    (m c : Nat) (base : Ram) :
    overlayRows pay length skip a b m (r + c * length) (dram + c * (length + skip)) base =
      paint (rowsPart a b dram length (length + skip)
        (fun j => pay ((r + j) % kDmaPayN)) c (c + m)) base := by
  induction m generalizing c base with
  | zero => simp [overlayRows]
  | succ m ih =>
    have hrow := part_spanIdx a b dram c
      (fun j => pay ((r + j) % kDmaPayN)) (show 0 < length + skip by omega)
      (Nat.le_add_right length skip)
    simp only [← Nat.add_assoc] at hrow
    rw [overlayRows, overlayRow_eq, hrow,
      show r + c * length + length = r + (c + 1) * length by rw [Nat.succ_mul, Nat.add_assoc],
      show dram + c * (length + skip) + length + skip = dram + (c + 1) * (length + skip) by
        rw [Nat.succ_mul]; omega,
      ih (c + 1), paint_rowsPart (by omega) (by omega), show c + 1 + m = c + (m + 1) by omega]

theorem spDmaRows_eq (sp : Ram) {length : Nat} (skip memOff dram : Nat) (hlen : 0 < length)
    (m c : Nat) (ram : Ram) :
    spDmaRows pak sp length skip m ((memOff + c * length) % 0x1000) (dram + c * (length + skip))
        ram =
      (paint (rowsPart 0 pak.size dram length (length + skip)
        (fun j => sp ((memOff + j) % 0x1000)) c (c + m)) ram,
        (memOff + (c + m) * length) % 0x1000, dram + (c + m) * (length + skip)) := by
  induction m generalizing c ram with
  | zero => simp [spDmaRows]
  | succ m ih =>
    have hrow := part_spanIdx 0 pak.size dram c
      (fun j => sp ((memOff + j) % 0x1000)) (show 0 < length + skip by omega)
      (Nat.le_add_right length skip)
    simp only [← Nat.add_assoc] at hrow
    rw [spDmaRows, spDmaRow_eq]
    simp only [Nat.mod_add_mod]
    rw [hrow,
      show memOff + c * length + length = memOff + (c + 1) * length by
        rw [Nat.succ_mul, Nat.add_assoc],
      show dram + c * (length + skip) + length + skip = dram + (c + 1) * (length + skip) by
        rw [Nat.succ_mul]; omega,
      ih (c + 1), paint_rowsPart (by omega) (by omega), show c + 1 + m = c + (m + 1) by omega]

/-! ## Section 3: Transfers -/

/-- A DMA as the RSP asks for it: the SP's memories and registers at its
    instant, and what it writes to `SP_WR_LEN`. -/
structure Req where
  dmem : Ram
  imem : Ram
  regs : SpRegs
  len : Nat

namespace Req

def dram (q : Req) : Nat := dramOf q.regs
def length (q : Req) : Nat := lenLength q.len
def count (q : Req) : Nat := lenCount q.len
def skip (q : Req) : Nat := lenSkip q.len

/-- The bytes it takes, in order. -/
def bytes (q : Req) (j : Nat) : Byte :=
  (if isImem q.regs then q.imem else q.dmem) ((memOffOf q.regs + j) % 0x1000)

/-- What it writes, inside `[lo, hi)`. -/
def painted (q : Req) (lo hi : Nat) : Nat → Option Byte :=
  rowsPart lo hi q.dram q.length (q.length + q.skip) q.bytes 0 q.count

theorem length_pos (q : Req) : 0 < q.length := by
  unfold length lenLength
  omega

theorem count_pos (q : Req) : 0 < q.count := Nat.succ_pos _

end Req

theorem memOffOf_lt (r : SpRegs) : memOffOf r < 0x1000 := by
  unfold memOffOf
  omega

/-- What `spDma` writes is the transfer. -/
theorem spDma_fst (q : Req) (ram : Ram) :
    (spDma pak q.dmem q.imem q.regs q.len ram).1 = paint (q.painted 0 pak.size) ram := by
  have h := spDmaRows_eq pak (if isImem q.regs then q.imem else q.dmem) q.skip
    (memOffOf q.regs) q.dram q.length_pos q.count 0 ram
  simp only [Nat.zero_mul, Nat.add_zero, Nat.zero_add, Nat.mod_eq_of_lt (memOffOf_lt _)] at h
  exact congrArg Prod.fst h

theorem spDma_snd (q : Req) (ram : Ram) :
    (spDma pak q.dmem q.imem q.regs q.len ram).2 =
      regsAfter q.regs ((memOffOf q.regs + q.length * q.count) % 0x1000)
        (q.dram + (q.length + q.skip) * q.count) := by
  have h := spDmaRows_eq pak (if isImem q.regs then q.imem else q.dmem) q.skip
    (memOffOf q.regs) q.dram q.length_pos q.count 0 ram
  simp only [Nat.zero_mul, Nat.add_zero, Nat.zero_add, Nat.mod_eq_of_lt (memOffOf_lt _)] at h
  have h2 := congrArg Prod.snd h
  rw [Nat.mul_comm q.count, Nat.mul_comm q.count] at h2
  exact congrArg (fun p : Nat × Nat => regsAfter q.regs p.1 p.2) h2

/-- The entry of the journal for a transfer whose payload begins at `r`. -/
def Req.entry (q : Req) (r : Nat) : DpLogDma where
  dram := q.dram
  length := q.length
  count := q.count
  skip := q.skip
  pay := r

/-- The payload of `q` is in the ring from position `r` on. -/
def PayAt (pay : Ram) (r : Nat) (q : Req) : Prop :=
  ∀ j < q.length * q.count, pay ((r + j) % kDmaPayN) = q.bytes j

theorem spDmaLogApply_eq {s : State} {r : Nat} {q : Req} (h : PayAt s.dmaPay r q) :
    spDmaLogApply pak s (q.entry r) =
      { s with rdram := paint (q.painted 0 pak.size) s.rdram, dmaPayHead := r + q.length * q.count } := by
  have hrows := applyRows_eq pak s.dmaPay q.skip r q.dram q.length_pos q.count 0 s.rdram
  simp only [Nat.zero_mul, Nat.add_zero, Nat.zero_add] at hrows
  rw [rowsPart_congr h, Nat.mul_comm q.count] at hrows
  unfold spDmaLogApply Req.entry
  dsimp only
  rw [hrows]
  rfl

theorem spDmaOverlay_eq {s : State} {r : Nat} {q : Req} (h : PayAt s.dmaPay r q) (a b : Nat)
    (base : Ram) : spDmaOverlay s (q.entry r) a b base = paint (q.painted a b) base := by
  have hrows := overlayRows_eq s.dmaPay q.skip r q.dram a b q.length_pos q.count 0 base
  simp only [Nat.zero_mul, Nat.add_zero, Nat.zero_add] at hrows
  rw [rowsPart_congr h] at hrows
  exact hrows

/-- Inside the window a transfer is the same whatever the window. -/
theorem Req.painted_window (q : Req) {a b c d x : Nat} (h1 : a ≤ x ∧ x < b) (h2 : c ≤ x ∧ x < d) :
    q.painted a b x = q.painted c d x := by
  unfold Req.painted rowsPart
  simp [h1, h2]

/-- The entry counts on page `p`. -/
def Req.touches (q : Req) (p : Nat) : Bool :=
  q.dram / 0x1000 ≤ p && p ≤ (q.dram + (q.length + q.skip) * q.count - 1) / 0x1000

/-- A transfer that writes an address touches its page. -/
theorem Req.touches_of_painted {q : Req} {lo hi x : Nat} (h : q.painted lo hi x ≠ none) :
    q.touches (x / 0x1000) = true := by
  have hlen := q.length_pos
  obtain ⟨h1, h2, -, -⟩ := of_rowsPart (by omega) h
  simp only [Req.touches, Bool.and_eq_true, decide_eq_true_eq]
  exact ⟨Nat.div_le_div_right h1, Nat.div_le_div_right (by omega)⟩

/-! ## Section 4: The journal -/

/-- An entry of the journal, with the transfer it stands for if it is one. -/
structure Logged where
  at' : Nat
  reg : Nat
  dma : Option Req

/-- The kind of the entry tells whether it is a transfer. -/
def Logged.Ok (e : Logged) : Prop :=
  match e.dma with
  | some _ => e.reg = 16
  | none => e.reg.testBit 4 = false

def Logged.touches (p : Nat) (e : Logged) : Bool :=
  match e.dma with
  | some q => q.touches p
  | none => false

def Logged.isDma (e : Logged) : Bool := e.dma.isSome

/-- What a list of entries writes to RDRAM. -/
def overs (lo hi : Nat) (es : List Logged) : List (Nat → Option Byte) :=
  es.filterMap fun e => e.dma.map fun q => q.painted lo hi

/-- The payloads of the entries follow each other in the ring from `r` to
    `t`. -/
def PayChain (pay : Ram) : Nat → List Logged → Nat → Prop
  | r, [], t => r = t
  | r, e :: es, t =>
    match e.dma with
    | none => PayChain pay r es t
    | some q => PayAt pay r q ∧ PayChain pay (r + q.length * q.count) es t

/-- The entries of the journal's side ring that are transfers, from number `h`
    on, with their payloads from position `r` on. -/
def Slots (slot : Nat → DpLogDma) : Nat → Nat → List Logged → Prop
  | _, _, [] => True
  | h, r, e :: es =>
    match e.dma with
    | none => Slots slot (h + 1) r es
    | some q => slot (h % kDpLogN) = q.entry r ∧ Slots slot (h + 1) (r + q.length * q.count) es

theorem PayChain.le {pay : Ram} {r t : Nat} {es : List Logged} (h : PayChain pay r es t) :
    r ≤ t := by
  induction es generalizing r with
  | nil => exact Nat.le_of_eq h
  | cons e es ih =>
    unfold PayChain at h
    split at h
    · exact ih h
    · exact (Nat.le_add_right ..).trans (ih h.2)

/-- Writing past the end of the chain leaves it, as long as the ring has
    room. -/
theorem PayChain.congr {pay pay' : Ram} {r t : Nat} {es : List Logged} (h : PayChain pay r es t)
    (hsame : ∀ j, r ≤ j → j < t → pay' (j % kDmaPayN) = pay (j % kDmaPayN)) :
    PayChain pay' r es t := by
  induction es generalizing r with
  | nil => exact h
  | cons e es ih =>
    unfold PayChain at h ⊢
    split at h
    · exact ih h hsame
    · have hle := h.2.le
      refine ⟨fun j hj => ?_, ih h.2 fun j hj hjt => hsame j (by omega) hjt⟩
      rw [hsame (r + j) (by omega) (by omega)]
      exact h.1 j hj

theorem PayChain.snoc {pay : Ram} {r t u : Nat} {es : List Logged} {e : Logged}
    (h : PayChain pay r es t) (he : PayChain pay t [e] u) : PayChain pay r (es ++ [e]) u := by
  induction es generalizing r with
  | nil =>
    obtain rfl : r = t := h
    exact he
  | cons e' es ih =>
    rw [List.cons_append]
    unfold PayChain at h ⊢
    split at h
    · exact ih h
    · exact ⟨h.1, ih h.2⟩

theorem Slots.congr {slot slot' : Nat → DpLogDma} {h r : Nat} {es : List Logged}
    (hs : Slots slot h r es)
    (hsame : ∀ j, h ≤ j → j < h + es.length → slot' (j % kDpLogN) = slot (j % kDpLogN)) :
    Slots slot' h r es := by
  induction es generalizing h r with
  | nil => trivial
  | cons e es ih =>
    rw [List.length_cons] at hsame
    unfold Slots at hs ⊢
    split at hs
    · exact ih hs fun j hj hjl => hsame j (by omega) (by omega)
    · refine ⟨?_, ih hs.2 fun j hj hjl => hsame j (by omega) (by omega)⟩
      rw [hsame h (Nat.le_refl h) (by omega)]
      exact hs.1

theorem Slots.snoc {slot : Nat → DpLogDma} {pay : Ram} {h r t : Nat} {es : List Logged}
    {e : Logged} (hs : Slots slot h r es) (hp : PayChain pay r es t)
    (he : Slots slot (h + es.length) t [e]) : Slots slot h r (es ++ [e]) := by
  induction es generalizing h r with
  | nil =>
    obtain rfl : r = t := hp
    exact he
  | cons e' es ih =>
    rw [List.length_cons, ← Nat.add_assoc, Nat.add_right_comm] at he
    rw [List.cons_append]
    unfold Slots at hs ⊢
    unfold PayChain at hp
    split at hs
    · next hd =>
      simp only [hd] at hp
      exact ih hs hp he
    · next hd =>
      simp only [hd] at hp
      exact ⟨hs.1, ih hs.2 hp.2 he⟩

/-- The state of the journal, `done` entries into RDRAM and `todo` to go. -/
structure Journal (ram₀ : Ram) (done todo : List Logged) (s : State) : Prop where
  head : s.dpLogHead = done.length
  tail : s.dpLogTail = done.length + todo.length
  room : todo.length ≤ kDpLogN
  ring : RingLog.Holds kDpLogN s.dpLog ((done ++ todo).map fun e => ⟨e.at', e.reg⟩)
  ok : ∀ e ∈ done ++ todo, e.Ok
  slots : Slots s.dpLogDma done.length s.dmaPayHead todo
  pay : PayChain s.dmaPay s.dmaPayHead todo s.dmaPayTail
  payRoom : s.dmaPayTail ≤ s.dmaPayHead + kDmaPayN
  ram : s.rdram = paintAll (overs 0 pak.size done) ram₀
  pg : ∀ p < kDmaPgN, s.dmaPg p = todo.countP (Logged.touches p)
  pend : s.dmaPgPend = todo.countP Logged.isDma

variable {pak} {ram₀ : Ram} {done todo : List Logged} {s : State}

theorem overs_append (lo hi : Nat) (es fs : List Logged) :
    overs lo hi (es ++ fs) = overs lo hi es ++ overs lo hi fs := List.filterMap_append

/-- What the journal has at its head. -/
theorem Journal.head_slot {e : Logged} (h : Journal pak ram₀ done (e :: todo) s) :
    s.dpLog (s.dpLogHead % kDpLogN) = ⟨e.at', e.reg⟩ := by
  have hroom := h.room
  rw [List.length_cons] at hroom
  have hlen : done.length < ((done ++ e :: todo).map fun e => (⟨e.at', e.reg⟩ : DpLogEnt)).length := by
    simp
  have hslot := h.ring done.length hlen (by simp; omega)
  rw [h.head, hslot]
  simp

theorem dmaPgMark_down {pg : Nat → Nat} {q : Req} {p n r : Nat} (hp : p < kDmaPgN)
    (hpg : pg p = n + if q.touches p then 1 else 0) (hn : n < 0xffff) :
    dmaPgMark pg (q.entry r).dram (((q.entry r).length + (q.entry r).skip) * (q.entry r).count) false
      p = n := by
  unfold dmaPgMark
  cases ht : q.touches p with
  | true =>
    have hspan := ht
    simp only [Req.touches, Bool.and_eq_true, decide_eq_true_eq] at hspan
    rw [if_pos ⟨hspan.1, hspan.2, hp⟩, hpg, ht]
    simp
    omega
  | false =>
    have hspan := ht
    simp only [Req.touches, Bool.and_eq_false_iff, decide_eq_false_iff_not] at hspan
    rw [if_neg, hpg, ht]
    · rfl
    · rintro ⟨h1, h2, -⟩
      rcases hspan with hno | hno
      · exact hno h1
      · exact hno h2

theorem dmaPgMark_up {pg : Nat → Nat} {q : Req} {p n : Nat} (hp : p < kDmaPgN) (hpg : pg p = n)
    (hn : n < 0xffff) :
    dmaPgMark pg q.dram ((q.length + q.skip) * q.count) true p =
      n + if q.touches p then 1 else 0 := by
  unfold dmaPgMark
  cases ht : q.touches p with
  | true =>
    have hspan := ht
    simp only [Req.touches, Bool.and_eq_true, decide_eq_true_eq] at hspan
    rw [if_pos ⟨hspan.1, hspan.2, hp⟩, hpg]
    simp
    omega
  | false =>
    have hspan := ht
    simp only [Req.touches, Bool.and_eq_false_iff, decide_eq_false_iff_not] at hspan
    rw [if_neg, hpg]
    · rfl
    · rintro ⟨h1, h2, -⟩
      rcases hspan with hno | hno
      · exact hno h1
      · exact hno h2

/-- An entry that is no transfer. -/
theorem Journal.applyEnt_other {e : Logged} (h : Journal pak ram₀ done (e :: todo) s)
    (hd : e.dma = none) : applyEnt pak s = { s with dpLogHead := s.dpLogHead + 1 } := by
  have hok := h.ok e (by simp)
  simp only [Logged.Ok, hd] at hok
  unfold applyEnt
  rw [h.head_slot]
  simp [hok]

theorem Journal.applyEnt_dma {e : Logged} {q : Req} (h : Journal pak ram₀ done (e :: todo) s)
    (hd : e.dma = some q) :
    applyEnt pak s =
      { s with
        rdram := paint (q.painted 0 pak.size) s.rdram
        dmaPayHead := s.dmaPayHead + q.length * q.count
        dmaPg := dmaPgMark s.dmaPg (q.entry s.dmaPayHead).dram
          (((q.entry s.dmaPayHead).length + (q.entry s.dmaPayHead).skip) *
            (q.entry s.dmaPayHead).count) false
        dmaPgPend := (s.dmaPgPend + (2 ^ 32 - 1)) % 2 ^ 32
        dpLogHead := s.dpLogHead + 1 } := by
  have hok := h.ok e (by simp)
  simp only [Logged.Ok, hd] at hok
  have hslots := h.slots
  have hpay := h.pay
  simp only [Slots, PayChain, hd] at hslots hpay
  unfold applyEnt
  rw [h.head_slot, hok]
  rw [← h.head] at hslots
  dsimp only
  rw [if_neg (by decide), if_pos (by decide)]
  dsimp only
  rw [hslots.1, spDmaLogApply_eq pak hpay.1]

/-- Applying the entry at the head. -/
theorem Journal.applyEnt {e : Logged} (h : Journal pak ram₀ done (e :: todo) s) :
    Journal pak ram₀ (done ++ [e]) todo (applyEnt pak s) := by
  have hroom := h.room
  rw [List.length_cons] at hroom
  have hhead : s.dpLogHead + 1 = (done ++ [e]).length := by simp [h.head]
  have htail : s.dpLogTail = (done ++ [e]).length + todo.length := by
    rw [h.tail]
    simp
    omega
  have hlist : (done ++ [e]) ++ todo = done ++ e :: todo := by simp
  have hslots := h.slots
  have hpay := h.pay
  have hcount : ∀ p, todo.countP (Logged.touches p) ≤ todo.length := fun _ => List.countP_le_length
  have hcount' : todo.countP Logged.isDma ≤ todo.length := List.countP_le_length
  have hN : kDpLogN = 4096 := rfl
  cases hd : e.dma with
  | none =>
    rw [h.applyEnt_other hd]
    simp only [Slots, PayChain, hd] at hslots hpay
    refine ⟨hhead, htail, by omega, hlist ▸ h.ring, hlist ▸ h.ok, ?_, hpay, h.payRoom, ?_, ?_, ?_⟩
    · rwa [List.length_append]
    · rw [overs_append, h.ram]
      simp [overs, hd]
    · intro p hp
      have := h.pg p hp
      simpa [Logged.touches, hd] using this
    · have := h.pend
      simpa [Logged.isDma, hd] using this
  | some q =>
    rw [h.applyEnt_dma hd]
    simp only [Slots, PayChain, hd] at hslots hpay
    have hle := hpay.2.le
    refine ⟨hhead, htail, by omega, hlist ▸ h.ring, hlist ▸ h.ok, ?_, hpay.2, ?_, ?_, ?_, ?_⟩
    · rw [List.length_append]
      exact hslots.2
    · have := h.payRoom
      show s.dmaPayTail ≤ s.dmaPayHead + q.length * q.count + kDmaPayN
      omega
    · show paint (q.painted 0 pak.size) s.rdram = _
      rw [overs_append, paintAll_append, h.ram]
      simp [overs, hd]
    · intro p hp
      refine dmaPgMark_down hp ?_ (by have := hcount p; omega)
      rw [h.pg p hp, List.countP_cons]
      simp [Logged.touches, hd]
    · show (s.dmaPgPend + (2 ^ 32 - 1)) % 2 ^ 32 = _
      rw [h.pend, List.countP_cons]
      simp only [Logged.isDma, hd, Option.isSome_some, if_true]
      omega

/-- The loop of `dpLogApply` takes what is due. -/
theorem Journal.applyLoop (upTo : Nat) (h : Journal pak ram₀ done todo s) :
    Journal pak ram₀ (done ++ todo.takeWhile (·.at' ≤ upTo)) (todo.dropWhile (·.at' ≤ upTo))
      (applyLoop pak upTo todo.length s) := by
  induction todo generalizing done s with
  | nil => simpa [Dma.applyLoop] using h
  | cons e todo ih =>
    rw [List.length_cons, Dma.applyLoop, h.head_slot]
    by_cases hdue : e.at' ≤ upTo
    · rw [if_neg (by simpa using hdue), List.takeWhile_cons_of_pos (by simpa using hdue),
        List.dropWhile_cons_of_pos (by simpa using hdue)]
      have := ih h.applyEnt
      rwa [List.append_assoc] at this
    · rw [if_pos (by simpa using hdue), List.takeWhile_cons_of_neg (by simpa using hdue),
        List.dropWhile_cons_of_neg (by simpa using hdue), List.append_nil]
      exact h

theorem Journal.dpLogApply (upTo : Nat) (h : Journal pak ram₀ done todo s) :
    Journal pak ram₀ (done ++ todo.takeWhile (·.at' ≤ upTo)) (todo.dropWhile (·.at' ≤ upTo))
      (dpLogApply pak upTo s) := by
  have hlen : s.dpLogTail - s.dpLogHead = todo.length := by
    rw [h.head, h.tail]
    omega
  rw [Dma.dpLogApply, hlen]
  exact h.applyLoop upTo

/-! ## Section 5: Pushes -/

/-- The transfer the RSP asks for with a write of `len`. -/
def State.req (s : State) (len : Nat) : Req := ⟨s.dmem, s.imem, s.regs, len⟩

/-- What a push that is accepted leaves, but for the entry itself. -/
theorem spDmaLogPush_eq {s' : State} {hit : Bool} {at' len : Nat}
    (h : spDmaLogPush s hit at' len = some s') :
    let q := s.req len
    let pay := (pushRows (if isImem s.regs then s.imem else s.dmem) q.length q.count
      (memOffOf s.regs) s.dmaPayTail s.dmaPay).1
    q.length * q.count ≤ kDmaPayN ∧ PayAt pay s.dmaPayTail q ∧
      (∀ y, (∀ j < q.length * q.count, y ≠ (s.dmaPayTail + j) % kDmaPayN) → pay y = s.dmaPay y) ∧
      s' = dpLogPush { s with
        dmaPay := pay
        dmaPayTail := s.dmaPayTail + q.length * q.count
        regs := regsAfter s.regs ((memOffOf s.regs + q.length * q.count) % 0x1000)
          (q.dram + (q.length + q.skip) * q.count)
        dpLogDma := Function.update s.dpLogDma (s.dpLogTail % kDpLogN) (q.entry s.dmaPayTail)
        dmaPgPend := (s.dmaPgPend + 1) % 2 ^ 32
        dmaPg := dmaPgMark s.dmaPg q.dram ((q.length + q.skip) * q.count) true } at' 16 := by
  intro q pay
  unfold spDmaLogPush at h
  dsimp only at h
  split at h
  case isTrue => simp at h
  next htot =>
  split at h
  case isTrue => simp at h
  have htot : q.length * q.count ≤ kDmaPayN := by
    have := Nat.div_le_self kDmaPayN 4
    show lenLength len * lenCount len ≤ kDmaPayN
    omega
  obtain ⟨h1, h2, h3⟩ := pushRows_spec (if isImem s.regs then s.imem else s.dmem) q.length q.count _
    s.dmaPayTail s.dmaPay (memOffOf_lt s.regs) htot
  refine ⟨htot, h1, h2, ?_⟩
  rw [← Option.some.inj h]
  have hout : (pushRows (if isImem s.regs then s.imem else s.dmem) (lenLength len) (lenCount len)
    (memOffOf s.regs) s.dmaPayTail s.dmaPay).2 = _ := h3
  rw [hout]
  rfl

/-- An accepted push leaves the registers `spDma` leaves. -/
theorem spDmaLogPush_regs {s' : State} {hit : Bool} {at' len : Nat}
    (h : spDmaLogPush s hit at' len = some s') (ram : Ram) :
    s'.regs = (spDma pak s.dmem s.imem s.regs len ram).2 := by
  obtain ⟨-, -, -, rfl⟩ := spDmaLogPush_eq h
  exact (spDma_snd pak (s.req len) ram).symm

theorem ring_slot_ne {N i j : Nat} (hij : i < j) (hj : j < i + N) : i % N ≠ j % N := by
  have := ring_ne (w := 0) hij hj
  simpa using this

/-- Any push: the entry is the newest of the ring. -/
theorem Journal.ring_push (h : Journal pak ram₀ done todo s) (e : Logged) :
    RingLog.Holds kDpLogN
      (Function.update s.dpLog (s.dpLogTail % kDpLogN) ⟨e.at', e.reg⟩)
      ((done ++ (todo ++ [e])).map fun e => ⟨e.at', e.reg⟩) := by
  have := h.ring.push ⟨e.at', e.reg⟩
  rw [List.length_map, List.length_append, ← h.tail] at this
  simpa using this

/-- An accepted transfer is the newest entry. -/
theorem Journal.pushDma {s' : State} {hit : Bool} {at' len : Nat}
    (h : Journal pak ram₀ done todo s)
    (hroom : mustWait s ((s.req len).length * (s.req len).count) = false)
    (hp : spDmaLogPush s hit at' len = some s') :
    Journal pak ram₀ done (todo ++ [⟨at', 16, some (s.req len)⟩]) s' := by
  obtain ⟨htot, hpay, hkeep, rfl⟩ := spDmaLogPush_eq hp
  generalize hpay' : (pushRows _ _ _ _ _ _).1 = pay' at hpay hkeep
  simp only [mustWait, gt_iff_lt, ge_iff_le, Bool.or_eq_false_iff, decide_eq_false_iff_not,
    not_lt, not_le] at hroom
  have hle := h.pay.le
  have hN : kDpLogN = 4096 := rfl
  have hlen : todo.length < kDpLogN := by
    have := hroom.2
    rw [h.head, h.tail] at this
    omega
  have hcount : ∀ p, todo.countP (Logged.touches p) ≤ todo.length := fun _ => List.countP_le_length
  have hcount' : todo.countP Logged.isDma ≤ todo.length := List.countP_le_length
  -- the payloads of the entries that wait are out of the way
  have hold : PayChain pay' s.dmaPayHead todo s.dmaPayTail := by
    refine h.pay.congr fun j hj hjt => hkeep _ fun j' hj' => ?_
    have := ring_slot_ne (N := kDmaPayN) (i := j) (j := s.dmaPayTail + j') (by omega) (by omega)
    exact this
  refine ⟨h.head, ?_, ?_, h.ring_push ⟨at', 16, some (s.req len)⟩, ?_, ?_, ?_, ?_, h.ram, ?_, ?_⟩
  · show s.dpLogTail + 1 = _
    rw [h.tail]
    simp
    omega
  · simp
    omega
  · intro e he
    rw [← List.append_assoc] at he
    rcases List.mem_append.mp he with he | he
    · exact h.ok e he
    · obtain rfl := List.mem_singleton.mp he
      rfl
  · show Slots (Function.update s.dpLogDma (s.dpLogTail % kDpLogN) _) _ _ _
    refine Slots.snoc (h.slots.congr fun j hj hjl => Function.update_of_ne ?_ ..) h.pay ?_
    · rw [h.tail]
      exact ring_slot_ne (by omega) (by omega)
    · simp [Slots, h.tail]
  · exact hold.snoc ⟨hpay, rfl⟩
  · show s.dmaPayTail + _ ≤ s.dmaPayHead + kDmaPayN
    omega
  · intro p hp
    refine (dmaPgMark_up hp (h.pg p hp) (by have := hcount p; omega)).trans ?_
    rw [List.countP_append, List.countP_singleton]
    rfl
  · show (s.dmaPgPend + 1) % 2 ^ 32 = _
    rw [h.pend, List.countP_append]
    simp only [Logged.isDma, List.countP_singleton, Option.isSome_some, if_true]
    omega

/-- An entry of another kind. -/
theorem Journal.pushOther {at' reg : Nat} (h : Journal pak ram₀ done todo s)
    (hreg : reg.testBit 4 = false) (hroom : s.dpLogTail - s.dpLogHead < kDpLogN) :
    Journal pak ram₀ done (todo ++ [⟨at', reg, none⟩]) (dpLogPush s at' reg) := by
  have hlen : todo.length < kDpLogN := by
    rw [h.head, h.tail] at hroom
    omega
  refine ⟨h.head, ?_, ?_, h.ring_push ⟨at', reg, none⟩, ?_, ?_, ?_, h.payRoom, h.ram, ?_, ?_⟩
  · show s.dpLogTail + 1 = _
    rw [h.tail]
    simp
    omega
  · simp
    omega
  · intro e he
    rw [← List.append_assoc] at he
    rcases List.mem_append.mp he with he | he
    · exact h.ok e he
    · obtain rfl := List.mem_singleton.mp he
      exact hreg
  · exact h.slots.snoc h.pay trivial
  · exact h.pay.snoc rfl
  · intro p hp
    rw [List.countP_append]
    exact h.pg p hp
  · rw [List.countP_append]
    exact h.pend

end Rcp.Dma
