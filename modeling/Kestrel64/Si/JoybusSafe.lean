import Mathlib.Tactic.SplitIfs
import Kestrel64.Si.Joybus

/-! # SI: No Block Leaves PIF RAM

    Whatever is in the 64 bytes of PIF RAM and in the ports, a run ends and
    every access it makes is in bounds. It changes the flag of a command whose
    device did not answer, and bytes of its RX area.

    * `command_safe` — what one command does.
    * `Run.scan_safe` — what the loop does.
    * `pifProcessJoybus_safe_iff` — when `&pifram[rxStart]` is an element too.

    A command with an empty RX area may end its TX area on the last byte. The
    pointer to the RX area is then to `pifram[64]`, though nothing uses it.
-/

namespace Si

open Checked (Safe)
open Gb (GbCart)

variable {M : Type} (H : Host M)

/-! ## Section 1: Answers -/

/-- Whether a controller is there, and whether it is a mouse. -/
def PadPort.kind (pp : PadPort) : Bool × Bool := (pp.connected, pp.mouse)

/-- What is plugged in: the four ports, and the clock of the cartridge. -/
def Memory.devices (m : Memory M) : (Fin 4 → Bool × Bool) × Bool :=
  (fun port => (m.padPort port).kind, m.rtc.on)

/-- Whether a controller has `cmd`; a mouse has no slot. -/
def padAnswers (kind : Bool × Bool) (cmd : Byte) : Bool :=
  kind.1 && (cmd == 0x00 || cmd == 0xFF || cmd == 0x01 || (cmd == 0x02 || cmd == 0x03) && !kind.2)

/-- Whether the cartridge has `cmd`. -/
def cartAnswers (clock : Bool) (cmd : Byte) : Bool :=
  cmd == 0x00 || cmd == 0x04 || cmd == 0x05 ||
    (cmd == 0x06 || cmd == 0x07 || cmd == 0x08) && clock

/-- Whether the device that `h` addresses answers it. -/
def Memory.answers (m : Memory M) (h : Cmd) : Bool :=
  let cmd := m.pifram.getD h.txStart 0
  if hport : h.channel < 4 then padAnswers (m.devices.1 ⟨h.channel, hport⟩) cmd
  else h.channel == 4 && cartAnswers m.devices.2 cmd

theorem Memory.answers_pad (m : Memory M) {h : Cmd} (hport : h.channel < 4) :
    m.answers h =
      padAnswers (m.padPort ⟨h.channel, hport⟩).kind (m.pifram.getD h.txStart 0) :=
  dif_pos hport

theorem Memory.answers_cart (m : Memory M) {h : Cmd} (hcart : h.channel = 4) :
    m.answers h = cartAnswers m.rtc.on (m.pifram.getD h.txStart 0) := by
  unfold Memory.answers
  rw [dif_neg (by omega), hcart]
  rfl

/-- There is nothing behind channel 4. -/
theorem Memory.answers_none (m : Memory M) {h : Cmd} (hport : ¬ h.channel < 4)
    (hcart : h.channel ≠ 4) : m.answers h = false := by
  unfold Memory.answers
  rw [dif_neg hport, beq_false_of_ne hcart, Bool.false_and]

theorem Memory.answers_congr {m m' : Memory M} {h : Cmd} (hdev : m'.devices = m.devices)
    (hcmd : m'.pifram.getD h.txStart 0 = m.pifram.getD h.txStart 0) :
    m'.answers h = m.answers h := by
  unfold Memory.answers
  rw [hdev, hcmd]

theorem Memory.devices_setPort {m : Memory M} {port : Fin 4} {pp : PadPort}
    (h : pp.kind = (m.padPort port).kind) : (m.setPort port pp).devices = m.devices := by
  refine Prod.ext (funext fun p => ?_) rfl
  by_cases hp : p = port
  · subst hp
    exact (congrArg PadPort.kind (Function.update_self _ _ _)).trans h
  · exact congrArg PadPort.kind (Function.update_of_ne hp _ _)

/-! ## Section 2: Accessories

    Every access is in bounds, and the controller in the port stays.
-/

section Accessory

variable (pp : PadPort) (port : Nat) (wr : Bool) (off : Nat) (data : Bytes)

theorem table_safe {n : Nat} {f : Nat → Checked Byte}
    (h : ∀ k < n, Safe (f k) fun _ => True) : Safe (table n f) fun _ => True :=
  Safe.mapM fun k hk => h k (List.mem_range.mp hk)

theorem PadPort.tpakSync_kind : (pp.tpakSync H port).kind = pp.kind := by
  unfold PadPort.tpakSync
  split_ifs
  · rfl
  · rfl

theorem PadPort.gbWindow_safe : Safe (pp.gbWindow H wr off data) (·.1.kind = pp.kind) := by
  unfold PadPort.gbWindow
  cases wr with
  | true =>
    have hloop : Safe ((List.range 32).foldlM (fun gb k => GbCart.write H.time gb
        (((pp.tp.bank &&& 3).toNat * 0x4000 + (off - 0xC000) + k) % 0x10000) (data.getD k 0))
        pp.gb) fun _ => True :=
      Safe.foldlM (fun gb _ _ _ => gb.write_safe H.time _ _) trivial
    exact hloop.bind fun gb _ => .ok rfl
  | false => exact (table_safe fun k _ => pp.gb.read_safe _).bind fun _ _ => .ok rfl

theorem PadPort.tpakRegs_kind (last : Byte) : (pp.tpakRegs wr off last).1.kind = pp.kind := by
  unfold PadPort.tpakRegs
  split_ifs <;> rfl

theorem PadPort.tpakRst_kind : (pp.tpakRst off data).1.kind = pp.kind := by
  unfold PadPort.tpakRst
  split_ifs
  · rfl
  · rfl

theorem PadPort.transferPak_safe :
    Safe (pp.transferPak H port wr off data) (·.1.kind = pp.kind) := by
  have hsync := pp.tpakSync_kind H port
  unfold PadPort.transferPak
  generalize pp.tpakSync H port = pp₁ at hsync
  dsimp only
  split_ifs
  · exact (pp₁.gbWindow_safe H wr off data).mono fun _ h => h.trans hsync
  · exact .ok ((pp₁.tpakRegs_kind wr off _).trans hsync)
  · exact .ok (((pp₁.tpakRegs wr off _).1.tpakRst_kind off _).trans
      ((pp₁.tpakRegs_kind wr off _).trans hsync))

theorem PadPort.controllerPak_safe :
    Safe (pp.controllerPak wr off data) (·.1.kind = pp.kind) := by
  unfold PadPort.controllerPak
  split_ifs with hwr hroom
  · have hloop : Safe ((List.range 32).foldlM
        (fun pak k => Checked.write pak (off + k) (data.getD k 0)) pp.mempak)
        fun pak => pak.length = pp.mempak.length := by
      refine Safe.foldlM (fun pak k hk hpak => ?_) rfl
      have hin : off + k < pak.length := by have := List.mem_range.mp hk; omega
      rw [Checked.write_eq hin]
      exact .ok (List.length_set.trans hpak)
    exact hloop.bind fun _ _ => .ok rfl
  · exact .ok rfl
  · refine (table_safe fun k _ => ?_).bind fun _ _ => .ok rfl
    split_ifs with hk
    · exact .read hk
    · exact .ok trivial

theorem PadPort.rumblePak_kind : (pp.rumblePak wr off data).1.kind = pp.kind := by
  unfold PadPort.rumblePak
  split_ifs <;> rfl

theorem PadPort.safe_access : Safe (pp.access H port wr off data) (·.1.kind = pp.kind) := by
  unfold PadPort.access
  split_ifs
  · exact pp.transferPak_safe H port wr off data
  · exact pp.controllerPak_safe wr off data
  · exact .ok (pp.rumblePak_kind wr off data)
  · exact .ok rfl
  · exact .ok rfl

end Accessory

theorem Rtc.rtcWrite_on (r : Rtc) (blk : Nat) (d : Bytes) : (r.rtcWrite H blk d).on = r.on := by
  unfold Rtc.rtcWrite
  dsimp only
  split_ifs <;> rfl

/-! ## Section 3: Handlers -/

/-- The bytes of the RX area. -/
def Cmd.Owns (h : Cmd) (i : Nat) : Prop := h.rxStart ≤ i ∧ i < h.rxStart + h.rx

/-- What the loop checks. -/
def Cmd.Fits (h : Cmd) : Prop := h.rxStart + h.rx ≤ 64 ∧ h.txStart < 64

/-- `m` is a state inside `h`, which began in `m₀`. -/
structure Touched (h : Cmd) (m₀ m : Memory M) : Prop where
  size : m.pifram.length = 64
  frame : ∀ i, ¬ h.Owns i → m.pifram.getD i 0 = m₀.pifram.getD i 0
  devices : m.devices = m₀.devices

theorem Touched.refl {h : Cmd} {m : Memory M} (hsize : m.pifram.length = 64) : Touched h m m :=
  ⟨hsize, fun _ _ => rfl, rfl⟩

/-- A change outside of PIF RAM. -/
theorem Touched.aside {h : Cmd} {m₀ m m' : Memory M} (hm : Touched h m₀ m)
    (hram : m'.pifram = m.pifram) (hdev : m'.devices = m.devices) : Touched h m₀ m' :=
  ⟨hram ▸ hm.size, hram ▸ hm.frame, hdev.trans hm.devices⟩

section Handlers

variable {h : Cmd} {m₀ m : Memory M} (hfit : h.Fits) (hm : Touched h m₀ m)

include hfit hm

theorem put_safe {k : Nat} (hk : k < h.rx) (b : Byte) : Safe (m.put h k b) (Touched h m₀) := by
  have hin : h.rxStart + k < m.pifram.length := by
    have := hfit.1
    rw [hm.size]
    omega
  unfold Memory.put
  rw [Checked.write_eq hin]
  refine .ok ⟨List.length_set.trans hm.size, fun i hi => ?_, hm.devices⟩
  have hne : h.rxStart + k ≠ i := by
    intro heq
    exact hi ⟨by omega, by omega⟩
  show (m.pifram.set _ b).getD i 0 = _
  rw [List.getD_eq_getElem?_getD, List.getElem?_set_ne hne, ← List.getD_eq_getElem?_getD]
  exact hm.frame i hi

theorem fill_safe {n : Nat} (hn : n ≤ h.rx) (f : Nat → Byte) :
    Safe (m.fill h n f) (Touched h m₀) :=
  Safe.foldlM (fun _ k hk hm => put_safe hfit hm (by have := List.mem_range.mp hk; omega) (f k)) hm

theorem putInfo_safe (b0 b1 b2 : Byte) : Safe (m.putInfo h b0 b1 b2) (Touched h m₀) := by
  unfold Memory.putInfo
  split_ifs with hrx
  · refine (put_safe hfit hm (by omega) b0).bind fun m₁ hm₁ => ?_
    refine (put_safe hfit hm₁ (by omega) b1).bind fun m₂ hm₂ => ?_
    exact put_safe hfit hm₂ (by omega) b2
  · exact .ok hm

theorem info_safe (port : Fin 4) : Safe (m.info h port) (Touched h m₀) := by
  unfold Memory.info
  dsimp only
  split_ifs
  · exact putInfo_safe hfit hm _ _ _
  · exact putInfo_safe hfit hm _ _ _
  · exact putInfo_safe hfit hm _ _ _

theorem putPair_safe (k : Nat) (b0 b1 : Byte) : Safe (m.putPair h k b0 b1) (Touched h m₀) := by
  unfold Memory.putPair
  split_ifs with hrx
  · exact (put_safe hfit hm (by omega) b0).bind fun _ hm₁ => put_safe hfit hm₁ (by omega) b1
  · exact .ok hm

theorem buttons_safe (port : Fin 4) : Safe (m.buttons H h port) (Touched h m₀) := by
  unfold Memory.buttons
  have hs : Touched h m₀ (m.samplePad H port).1 := hm.aside rfl rfl
  generalize m.samplePad H port = sampled at hs
  obtain ⟨ms, pad⟩ := sampled
  refine (fill_safe hfit hs le_rfl _).bind fun m₁ hm₁ => ?_
  refine (putPair_safe hfit hm₁ 0 _ _).bind fun m₂ hm₂ => ?_
  refine (putPair_safe hfit hm₂ 2 _ _).bind fun m₃ hm₃ => ?_
  split_ifs with hmouse
  · have hfst : h.rxStart < m₃.pifram.length := by
      have := hfit.1
      rw [hm₃.size]
      omega
    refine (Safe.read hfst).bind fun b _ => ?_
    exact (put_safe hfit hm₃ (by omega) _).bind fun _ hm₄ => put_safe hfit hm₄ (by omega) _
  · exact .ok hm₃

theorem txByte_safe (k : Nat) : Safe (m.txByte h k) fun _ => True := by
  unfold Memory.txByte
  split_ifs with hk
  · refine .read ?_
    have hend : h.txStart + h.tx + h.rx ≤ 64 := hfit.1
    rw [hm.size]
    omega
  · exact .ok trivial

theorem wire_safe : Safe (m.wire h) fun _ => True := by
  unfold Memory.wire
  split_ifs with htx
  · have hend : h.txStart + h.tx + h.rx ≤ 64 := hfit.1
    have hhi : h.txStart + 1 < m.pifram.length := by rw [hm.size]; omega
    have hlo : h.txStart + 2 < m.pifram.length := by rw [hm.size]; omega
    exact (Safe.read hhi).bind fun _ _ => (Safe.read hlo).bind fun _ _ => .ok trivial
  · exact .ok trivial

theorem pakData_safe (wr : Bool) : Safe (m.pakData h wr) fun _ => True := by
  unfold Memory.pakData
  split_ifs
  · exact table_safe fun k _ => txByte_safe hfit hm (3 + k)
  · exact .ok trivial

theorem pakReply_safe (wr : Bool) (data : Bytes) :
    Safe (m.pakReply h wr data) (Touched h m₀) := by
  unfold Memory.pakReply
  split_ifs
  · exact .ok hm
  · exact fill_safe hfit hm (Nat.min_le_left _ _) _

theorem pak_safe (port : Fin 4) (wr : Bool) : Safe (m.pak H h port wr) (Touched h m₀) := by
  unfold Memory.pak
  refine (wire_safe hfit hm).bind fun wire _ => ?_
  refine (pakData_safe hfit hm wr).bind fun data _ => ?_
  refine ((m.padPort port).safe_access H port wr _ data).bind fun out hout => ?_
  have hset : Touched h m₀ (m.setPort port out.1) := hm.aside rfl (Memory.devices_setPort hout)
  refine (pakReply_safe hfit hset wr out.2).bind fun m₁ hm₁ => ?_
  dsimp only
  split_ifs <;> first | exact put_safe hfit hm₁ ‹_› _ | exact .ok hm₁

theorem eepromRead_safe : Safe (m.eepromRead h) (Touched h m₀) := by
  unfold Memory.eepromRead
  refine (txByte_safe hfit hm 1).bind fun addr _ => ?_
  refine Safe.foldlM (fun m₁ k hk hm₁ => ?_) hm
  have hbyte : Safe (m₁.eepromByte (addr.toNat * 8 + k)) fun _ => True := by
    unfold Memory.eepromByte
    split_ifs with hin
    · exact .read hin
    · exact .ok trivial
  exact hbyte.bind fun b _ =>
    put_safe hfit hm₁ (by have := List.mem_range.mp hk; omega) b

theorem eepromSet_safe {off k : Nat} (hk : k < h.tx - 2) :
    Safe (m.eepromSet h off k) (Touched h m₀) := by
  unfold Memory.eepromSet
  split_ifs with hin
  · have hend : h.txStart + h.tx + h.rx ≤ 64 := hfit.1
    have htx : h.txStart + 2 + k < m.pifram.length := by rw [hm.size]; omega
    refine (Safe.read htx).bind fun b _ => ?_
    rw [Checked.write_eq hin]
    exact .ok (hm.aside rfl rfl)
  · exact .ok hm

theorem eepromWrite_safe : Safe (m.eepromWrite h) (Touched h m₀) := by
  unfold Memory.eepromWrite
  refine (txByte_safe hfit hm 1).bind fun addr _ => ?_
  have hloop : Safe ((List.range (min 8 (h.tx - 2))).foldlM
      (fun m k => m.eepromSet h (addr.toNat * 8 + k) k) m) (Touched h m₀) := by
    refine Safe.foldlM (fun m₁ k hk hm₁ => ?_) hm
    have hlt := List.mem_range.mp hk
    exact eepromSet_safe hfit hm₁ (by omega)
  refine hloop.bind fun m₁ hm₁ => ?_
  split_ifs with hrx
  · exact put_safe hfit hm₁ (by omega) _
  · exact .ok hm₁

theorem rtcReadBlock_safe : Safe (m.rtcReadBlock H h) (Touched h m₀) := by
  unfold Memory.rtcReadBlock
  refine (txByte_safe hfit hm 1).bind fun addr _ => ?_
  refine (fill_safe hfit hm (Nat.min_le_left _ _) _).bind fun m₁ hm₁ => ?_
  split_ifs with hrx
  · exact put_safe hfit hm₁ (by omega) _
  · exact .ok hm₁

theorem rtcWriteBlock_safe : Safe (m.rtcWriteBlock H h) (Touched h m₀) := by
  unfold Memory.rtcWriteBlock
  refine (txByte_safe hfit hm 1).bind fun addr _ => ?_
  refine (table_safe fun k _ => txByte_safe hfit hm (2 + k)).bind fun d _ => ?_
  have hset : Touched h m₀ { m with rtc := m.rtc.rtcWrite H (addr &&& 3).toNat d } :=
    hm.aside rfl (Prod.ext rfl (m.rtc.rtcWrite_on H _ d))
  dsimp only
  split_ifs with hrx
  · exact put_safe hfit hset (by omega) _
  · exact .ok hset

end Handlers

/-! ## Section 4: Commands -/

/-- The RX size on return. -/
def mark (answered : Bool) (rxsz : Byte) : Byte := if answered then rxsz else rxsz ||| 0x80

/-- The reply to `h` and whether there was one, from `m` on. -/
structure Replied (h : Cmd) (m : Memory M) (x : Memory M × Bool) : Prop where
  size : x.1.pifram.length = 64
  flag : x.1.pifram.getD (h.at' + 1) 0 = mark x.2 (m.pifram.getD (h.at' + 1) 0)
  frame : ∀ i, i ≠ h.at' + 1 → ¬ h.Owns i → x.1.pifram.getD i 0 = m.pifram.getD i 0
  devices : x.1.devices = m.devices

/-- The RX size is in front of the RX area. -/
theorem Cmd.not_owns (h : Cmd) : ¬ h.Owns (h.at' + 1) := by
  intro hown
  have : h.at' + 2 + h.tx ≤ h.at' + 1 := hown.1
  omega

section Commands

variable {h : Cmd} {m : Memory M} (hfit : h.Fits) (hsize : m.pifram.length = 64)

include hfit hsize

theorem rxsz_lt : h.at' + 1 < m.pifram.length := by
  have : h.at' + 2 < 64 := hfit.2
  rw [hsize]
  omega

theorem absent_safe : Safe (m.absent h) fun x => Replied h m x ∧ x.2 = false := by
  have hin := rxsz_lt hfit hsize
  unfold Memory.absent
  rw [Checked.read_eq hin 0, Checked.ok_bind, Checked.write_eq hin]
  refine .ok ⟨⟨List.length_set.trans hsize, ?_, fun i hi _ => ?_, rfl⟩, rfl⟩
  · show (m.pifram.set _ _).getD _ 0 = _
    rw [List.getD_eq_getElem?_getD, List.getElem?_set_self hin]
    rfl
  · show (m.pifram.set _ _).getD i 0 = _
    rw [List.getD_eq_getElem?_getD, List.getElem?_set_ne (Ne.symm hi), ← List.getD_eq_getElem?_getD]

omit hfit hsize in
theorem answered_safe {x : Checked (Memory M)} (hx : Safe x (Touched h m)) :
    Safe (answered x) fun x => Replied h m x ∧ x.2 = true := by
  refine hx.bind fun m₁ hm₁ => .ok ⟨⟨hm₁.size, ?_, fun i _ hi => hm₁.frame i hi, hm₁.devices⟩, rfl⟩
  exact hm₁.frame _ h.not_owns

theorem controller_safe {port : Fin 4} (hpad : (m.padPort port).connected = true) (cmd : Byte) :
    Safe (m.controller H h port cmd)
      fun x => Replied h m x ∧ x.2 = padAnswers (m.padPort port).kind cmd := by
  have hm := Touched.refl (h := h) hsize
  unfold Memory.controller padAnswers PadPort.kind
  rw [hpad]
  split_ifs with h0 h1 h2 hmouse
  · refine (answered_safe (info_safe hfit hm port)).mono fun x hx => ⟨hx.1, hx.2.trans ?_⟩
    rcases h0 with rfl | rfl <;> rfl
  · subst h1
    exact (answered_safe (buttons_safe H hfit hm port)).mono fun x hx => ⟨hx.1, hx.2⟩
  · refine (absent_safe hfit hsize).mono fun x hx => ⟨hx.1, hx.2.trans ?_⟩
    rw [hmouse]
    rcases h2 with rfl | rfl <;> rfl
  · refine (answered_safe (pak_safe H hfit hm port _)).mono fun x hx => ⟨hx.1, hx.2.trans ?_⟩
    rw [Bool.eq_false_iff.mpr hmouse]
    rcases h2 with rfl | rfl <;> rfl
  · refine (absent_safe hfit hsize).mono fun x hx => ⟨hx.1, hx.2.trans ?_⟩
    rw [not_or] at h0 h2
    rw [beq_false_of_ne h0.1, beq_false_of_ne h0.2, beq_false_of_ne h1, beq_false_of_ne h2.1,
      beq_false_of_ne h2.2]
    rfl

theorem cartridge_safe (cmd : Byte) :
    Safe (m.cartridge H h cmd) fun x => Replied h m x ∧ x.2 = cartAnswers m.rtc.on cmd := by
  have hm := Touched.refl (h := h) hsize
  unfold Memory.cartridge
  split_ifs with h0 h4 h5 h6 hon h7 hon h8 hon
  · subst h0
    exact answered_safe (putInfo_safe hfit hm _ _ _)
  · subst h4
    exact answered_safe (eepromRead_safe hfit hm)
  · subst h5
    exact answered_safe (eepromWrite_safe hfit hm)
  · rw [h6, hon]
    exact answered_safe (putInfo_safe hfit hm _ _ _)
  · rw [h6, Bool.eq_false_iff.mpr hon]
    exact absent_safe hfit hsize
  · rw [h7, hon]
    exact answered_safe (rtcReadBlock_safe H hfit hm)
  · rw [h7, Bool.eq_false_iff.mpr hon]
    exact absent_safe hfit hsize
  · rw [h8, hon]
    exact answered_safe (rtcWriteBlock_safe H hfit hm)
  · rw [h8, Bool.eq_false_iff.mpr hon]
    exact absent_safe hfit hsize
  · refine (absent_safe hfit hsize).mono fun x hx => ⟨hx.1, hx.2.trans ?_⟩
    rw [cartAnswers, beq_false_of_ne h0, beq_false_of_ne h4, beq_false_of_ne h5,
      beq_false_of_ne h6, beq_false_of_ne h7, beq_false_of_ne h8]
    rfl

end Commands

/-- The time on the line of a command that was executed. -/
def Entry.time (e : Entry) : Nat := billTx e.cmd.tx + if e.billed then billRx e.cmd.rx else 0

/-- What a run from `m` to `m'` says of a command. -/
structure Told (m m' : Memory M) (e : Entry) : Prop where
  answered : e.answered = m.answers e.cmd
  flag : m'.pifram.getD (e.cmd.at' + 1) 0 =
    mark e.answered (m.pifram.getD (e.cmd.at' + 1) 0)
  billed : e.billed = decide (m'.pifram.getD (e.cmd.at' + 1) 0 &&& 0x80 = 0)

/-- The commands `hs` took `m` to `m'`, with the entries `es` in the log. -/
structure Ran (hs : List Cmd) (m m' : Memory M) (es : List Entry) : Prop where
  cmds : es.map Entry.cmd = hs
  size : m'.pifram.length = 64
  devices : m'.devices = m.devices
  frame : ∀ i, (∀ h ∈ hs, i ≠ h.at' + 1 ∧ ¬ h.Owns i) →
    m'.pifram.getD i 0 = m.pifram.getD i 0
  told : ∀ e ∈ es, Told m m' e

theorem mark_false_ne (rxsz : Byte) : mark false rxsz &&& 0x80 ≠ 0 := by
  intro h
  have hbit := congrArg (BitVec.getLsbD · 7) h
  simp [mark] at hbit

section Bill

variable {h : Cmd} {m : Memory M} (hfit : h.Fits) {x : Memory M × Bool} (hx : Replied h m x)

include hx

theorem Replied.ran {billed : Bool} (hans : x.2 = m.answers h)
    (hbill : billed = decide (x.1.pifram.getD (h.at' + 1) 0 &&& 0x80 = 0)) :
    Ran [h] m x.1 [⟨h, x.2, billed⟩] := by
  refine ⟨rfl, hx.size, hx.devices, fun i hi => ?_, fun e he => ?_⟩
  · have hout := hi h List.mem_cons_self
    exact hx.frame i hout.1 hout.2
  · rw [List.mem_singleton.mp he]
    exact ⟨hans, hx.flag, hbill⟩

include hfit

theorem bill_safe (us : Nat) (hans : x.2 = m.answers h) :
    Safe (x.1.bill h (us + billTx h.tx) x.2)
      fun out => Ran [h] m out.1 [out.2.1] ∧ out.2.2 = us + out.2.1.time := by
  unfold Memory.bill
  rw [Checked.read_eq (rxsz_lt hfit hx.size) 0, Checked.ok_bind]
  split_ifs with hflag
  · exact .ok ⟨hx.ran hans (decide_eq_true hflag).symm, Nat.add_assoc _ _ _⟩
  · exact .ok ⟨hx.ran hans (decide_eq_false hflag).symm, rfl⟩

end Bill

section Command

variable {h : Cmd} {m : Memory M} (hfit : h.Fits) (hsize : m.pifram.length = 64) (us : Nat)

include hfit hsize

/-- A command on a hardened library, if its RX area has a first byte. -/
theorem command_safe {hardened : Bool} (hptr : hardened = true → h.rxStart < 64) :
    Safe (m.command H hardened h us)
      fun out => Ran [h] m out.1 [out.2.1] ∧ out.2.2 = us + out.2.1.time := by
  have hrefer : refer hardened m.pifram h.rxStart = .ok () := by
    refine if_pos ?_
    have := hfit.1
    rw [hsize]
    cases hardened with
    | false => exact (Nat.lt_or_eq_of_le (by omega)).imp_right fun heq => ⟨rfl, heq⟩
    | true => exact .inl (hptr rfl)
  have hcmd : h.txStart < m.pifram.length := hsize ▸ hfit.2
  unfold Memory.command
  rw [Checked.read_eq hcmd 0, Checked.ok_bind, hrefer, Checked.ok_bind]
  dsimp only
  split_ifs with hport hpad hcart
  · refine (controller_safe H hfit hsize hpad _).bind fun x hx => ?_
    exact bill_safe hfit hx.1 us (hx.2.trans (m.answers_pad hport).symm)
  · refine (absent_safe hfit hsize).bind fun x hx => ?_
    have hno : m.answers h = false := by
      rw [m.answers_pad hport, padAnswers]
      exact Bool.and_eq_false_imp.mpr fun hc => absurd hc hpad
    have hbill : x.1.pifram.getD (h.at' + 1) 0 &&& 0x80 ≠ 0 := by
      rw [hx.1.flag, hx.2]
      exact mark_false_ne _
    exact .ok ⟨hx.1.ran (hx.2.trans hno.symm) (decide_eq_false hbill).symm, rfl⟩
  · refine (cartridge_safe H hfit hsize _).bind fun x hx => ?_
    exact bill_safe hfit hx.1 us (hx.2.trans (m.answers_cart hcart).symm)
  · refine (absent_safe hfit hsize).bind fun x hx => ?_
    exact bill_safe hfit hx.1 us (hx.2.trans (m.answers_none hport hcart).symm)

theorem command_fault (hptr : 64 ≤ h.rxStart) : m.command H true h us = .error .index := by
  have hcmd : h.txStart < m.pifram.length := hsize ▸ hfit.2
  have hrefer : refer true m.pifram h.rxStart = .error .index := by
    refine if_neg ?_
    rintro (hin | ⟨hno, -⟩)
    · omega
    · exact Bool.noConfusion hno
  unfold Memory.command
  rw [Checked.read_eq hcmd 0, Checked.ok_bind, hrefer]
  rfl

end Command

/-! ## Section 5: The loop -/

/-- The commands of a block, from `i` on. -/
def headers (ram : Bytes) : Nat → Nat → Nat → List Cmd
  | 0, _, _ => []
  | fuel + 1, i, channel =>
    if i < 63 then
      let t := ram.getD i 0
      if t = 0xFE then []
      else if t = 0x00 then headers ram fuel (i + 1) (channel + 1)
      else if t = 0xFF then headers ram fuel (i + 1) channel
      else
        let h := cmdAt i channel t (ram.getD (i + 1) 0)
        if 64 < h.rxStart + h.rx ∨ 64 ≤ h.txStart then []
        else h :: headers ram fuel (h.rxStart + h.rx) (channel + 1)
    else []

/-- The commands in PIF RAM. -/
def Memory.block (m : Memory M) : List Cmd := headers m.pifram 63 0 0

theorem rxStart_cmdAt (i channel : Nat) (t rxsz : Byte) :
    i + 2 ≤ (cmdAt i channel t rxsz).rxStart :=
  Nat.le_add_right _ _

theorem headers_spec (ram : Bytes) (fuel i channel : Nat) :
    ∀ h ∈ headers ram fuel i channel, i ≤ h.at' ∧ h.Fits := by
  induction fuel generalizing i channel with
  | zero => nofun
  | succ fuel ih =>
    unfold headers
    dsimp only
    split_ifs with hi hend hskip hpad hbad
    · nofun
    · exact fun h hh => (ih _ _ h hh).imp_left (by omega)
    · exact fun h hh => (ih _ _ h hh).imp_left (by omega)
    · nofun
    · rw [not_or] at hbad
      refine List.forall_mem_cons.mpr ⟨⟨le_rfl, Nat.le_of_not_lt hbad.1, Nat.lt_of_not_le hbad.2⟩,
        fun h hh => ?_⟩
      refine (ih _ _ h hh).imp_left fun hle => ?_
      have hend := rxStart_cmdAt i channel (ram.getD i 0) (ram.getD (i + 1) 0)
      omega
    · nofun

theorem headers_congr {ram ram' : Bytes} (fuel i channel : Nat)
    (h : ∀ k, i ≤ k → ram'.getD k 0 = ram.getD k 0) :
    headers ram' fuel i channel = headers ram fuel i channel := by
  induction fuel generalizing i channel with
  | zero => rfl
  | succ fuel ih =>
    unfold headers
    rw [h i le_rfl, h (i + 1) (Nat.le_succ i)]
    rw [ih (i + 1) (channel + 1) fun k hk => h k (by omega)]
    rw [ih (i + 1) channel fun k hk => h k (by omega)]
    dsimp only
    rw [ih _ (channel + 1) fun k hk => h k (by
      have := rxStart_cmdAt i channel (ram.getD i 0) (ram.getD (i + 1) 0)
      omega)]

theorem Ran.ahead {h : Cmd} {m m₁ : Memory M} {e : Entry} (hran : Ran [h] m m₁ [e]) (k : Nat)
    (hk : h.rxStart + h.rx ≤ k) : m₁.pifram.getD k 0 = m.pifram.getD k 0 := by
  refine hran.frame k fun g hg => ?_
  rw [List.mem_singleton.mp hg]
  refine ⟨?_, fun hown => absurd hown.2 (Nat.not_lt.mpr hk)⟩
  unfold Cmd.rxStart at hk
  omega

theorem Ran.nil {m : Memory M} (hsize : m.pifram.length = 64) : Ran [] m m [] :=
  ⟨rfl, hsize, rfl, fun _ _ => rfl, nofun⟩

/-- A command leaves the ones behind it. -/
theorem Ran.headers_eq {h : Cmd} {m m₁ : Memory M} {e : Entry} (hran : Ran [h] m m₁ [e])
    (fuel channel : Nat) :
    headers m₁.pifram fuel (h.rxStart + h.rx) channel =
      headers m.pifram fuel (h.rxStart + h.rx) channel :=
  headers_congr _ _ _ hran.ahead

/-- A command, and then commands behind its RX area. -/
theorem Ran.cons {h : Cmd} {hs : List Cmd} {m m₁ m₂ : Memory M} {e : Entry} {es : List Entry}
    (hfst : Ran [h] m m₁ [e]) (hrest : Ran hs m₁ m₂ es)
    (hge : ∀ g ∈ hs, h.rxStart + h.rx ≤ g.at') : Ran (h :: hs) m m₂ (e :: es) := by
  have hcmd : e.cmd = h := List.singleton_inj.mp hfst.cmds
  have hend : h.at' + 2 ≤ h.rxStart := by unfold Cmd.rxStart; omega
  have hcmds : ∀ {e' : Entry}, e' ∈ es → e'.cmd ∈ hs := by
    intro e' he'
    rw [← hrest.cmds]
    exact List.mem_map_of_mem he'
  -- the first command leaves what is behind it, the others what is in front of them
  have hahead := hfst.ahead
  have hbehind : m₂.pifram.getD (h.at' + 1) 0 = m₁.pifram.getD (h.at' + 1) 0 := by
    refine hrest.frame _ fun g hg => ?_
    have := hge g hg
    exact ⟨by omega, fun hown => by have := hown.1; unfold Cmd.rxStart at this; omega⟩
  refine ⟨?_, hrest.size, hrest.devices.trans hfst.devices, fun i hi => ?_, fun e' he' => ?_⟩
  · rw [List.map_cons, hcmd, hrest.cmds]
  · rw [List.forall_mem_cons] at hi
    rw [hrest.frame i hi.2]
    exact hfst.frame i (List.forall_mem_singleton.mpr hi.1)
  · rcases List.mem_cons.mp he' with rfl | he'
    · have htold := hfst.told e' List.mem_cons_self
      rw [← hcmd] at hbehind
      exact ⟨htold.answered, hbehind.trans htold.flag, hbehind ▸ htold.billed⟩
    · have htold := hrest.told e' he'
      have hpos := hge _ (hcmds he')
      refine ⟨?_, ?_, htold.billed⟩
      · rw [htold.answered]
        exact Memory.answers_congr hfst.devices (hahead _ (by unfold Cmd.txStart; omega))
      · rw [htold.flag, hahead _ (by omega)]

/-- `r'` is `r` after the commands `hs`. -/
def Run.Goes (hs : List Cmd) (r r' : Run M) : Prop :=
  ∃ es, Ran hs r.mem r'.mem es ∧ r'.log = r.log ++ es ∧
    r'.us = r.us + (es.map Entry.time).sum

theorem Run.Goes.nil {r : Run M} (hsize : r.mem.pifram.length = 64) : r.Goes [] r :=
  ⟨[], .nil hsize, (List.append_nil _).symm, rfl⟩

theorem Run.Goes.cons {h : Cmd} {hs : List Cmd} {r r' : Run M} {m : Memory M} {e : Entry}
    (hfst : Ran [h] r.mem m [e]) (hrest : Run.Goes hs ⟨m, r.us + e.time, r.log ++ [e]⟩ r')
    (hge : ∀ g ∈ hs, h.rxStart + h.rx ≤ g.at') : r.Goes (h :: hs) r' := by
  obtain ⟨es, hran, hlog, hus⟩ := hrest
  refine ⟨e :: es, hfst.cons hran hge, ?_, ?_⟩
  · rw [hlog, List.append_assoc]
    rfl
  · rw [hus, List.map_cons, List.sum_cons]
    exact Nat.add_assoc _ _ _

theorem Run.scan_safe {r : Run M} (hsize : r.mem.pifram.length = 64) {hardened : Bool}
    {fuel i : Nat} (hfuel : 63 ≤ fuel + i) (channel : Nat)
    (hptr : hardened = true → ∀ h ∈ headers r.mem.pifram fuel i channel, h.rxStart < 64) :
    Safe (r.scan H hardened fuel i channel)
      (r.Goes (headers r.mem.pifram fuel i channel)) := by
  induction fuel generalizing r i channel with
  | zero =>
    unfold Run.scan
    rw [if_neg (by omega)]
    exact .ok (.nil hsize)
  | succ fuel ih =>
    unfold Run.scan headers
    unfold headers at hptr
    split_ifs at hptr ⊢ with hi
    · rw [Checked.read_eq (by omega) 0, Checked.ok_bind]
      dsimp only at hptr ⊢
      split_ifs at hptr ⊢ with hstop hskip hpad hbad
      · exact .ok (.nil hsize)
      · exact ih hsize (by omega) _ hptr
      · exact ih hsize (by omega) _ hptr
      · rw [Checked.read_eq (by omega) 0, Checked.ok_bind, if_pos hbad]
        exact .ok (.nil hsize)
      · rw [Checked.read_eq (by omega) 0, Checked.ok_bind, if_neg hbad]
        rw [not_or] at hbad
        have hfit := And.intro (Nat.le_of_not_lt hbad.1) (Nat.lt_of_not_le hbad.2)
        have hend := rxStart_cmdAt i channel (r.mem.pifram.getD i 0) (r.mem.pifram.getD (i + 1) 0)
        generalize cmdAt i channel _ _ = h at hptr hfit hend
        refine (command_safe H hfit hsize r.us fun hc => ?_).bind fun out hout => ?_
        · exact hptr hc h List.mem_cons_self
        obtain ⟨m, e, us⟩ := out
        obtain ⟨hfst, hus⟩ := hout
        -- the block from here on is the one that was there before the command
        have htail := hfst.headers_eq fuel (channel + 1)
        have hgoes := ih (r := ⟨m, us, r.log ++ [e]⟩) hfst.size
          (i := h.rxStart + h.rx) (by omega) (channel + 1)
          fun hc g hg => hptr hc g (List.mem_cons_of_mem _ (htail ▸ hg))
        refine hgoes.mono fun r' hr' => ?_
        dsimp only at hr' hus
        rw [htail, hus] at hr'
        exact .cons hfst hr' fun g hg => (headers_spec _ _ _ _ g hg).1
    · exact .ok (.nil hsize)

theorem Run.scan_fault {r : Run M} (hsize : r.mem.pifram.length = 64) {fuel i channel : Nat}
    (hptr : ∃ h ∈ headers r.mem.pifram fuel i channel, 64 ≤ h.rxStart) :
    r.scan H true fuel i channel = .error .index := by
  induction fuel generalizing r i channel with
  | zero =>
    obtain ⟨h, hh, -⟩ := hptr
    exact absurd hh List.not_mem_nil
  | succ fuel ih =>
    unfold headers at hptr
    unfold Run.scan
    split_ifs at hptr ⊢ with hi
    · rw [Checked.read_eq (by omega) 0, Checked.ok_bind]
      dsimp only at hptr ⊢
      split_ifs at hptr ⊢ with hstop hskip hpad hbad
      · exact absurd hptr (by simp)
      · exact ih hsize hptr
      · exact ih hsize hptr
      · exact absurd hptr (by simp)
      · rw [Checked.read_eq (by omega) 0, Checked.ok_bind, if_neg hbad]
        rw [not_or] at hbad
        have hfit := And.intro (Nat.le_of_not_lt hbad.1) (Nat.lt_of_not_le hbad.2)
        generalize cmdAt i channel _ _ = h at hptr hfit
        rcases Nat.lt_or_ge h.rxStart 64 with hin | hout
        · obtain ⟨out, hok, hfst, -⟩ := command_safe H hfit hsize r.us fun (_ : true = true) => hin
          rw [hok, Checked.ok_bind]
          refine ih (r := ⟨out.1, out.2.2, r.log ++ [out.2.1]⟩) hfst.size ?_
          dsimp only
          rw [hfst.headers_eq]
          obtain ⟨g, hg, hge⟩ := hptr
          rcases List.mem_cons.mp hg with rfl | hg
          · omega
          · exact ⟨g, hg, hge⟩
        · rw [command_fault H hfit hsize r.us hout]
          rfl
    · exact absurd hptr (by simp)

/-! ## Section 6: Runs -/

theorem pifProcessJoybus_goes {m : Memory M} (hsize : m.pifram.length = 64) {hardened : Bool}
    (hptr : hardened = true → ∀ h ∈ m.block, h.rxStart < 64) :
    Safe (pifProcessJoybus H hardened m) fun r =>
      Ran m.block m r.mem r.log ∧ r.us = (r.log.map Entry.time).sum := by
  refine (Run.scan_safe H (r := ⟨m, 0, []⟩) hsize le_rfl 0 hptr).mono fun r hr => ?_
  obtain ⟨es, hran, hlog, hus⟩ := hr
  rw [List.nil_append] at hlog
  rw [Nat.zero_add] at hus
  rw [hlog]
  exact ⟨hran, hus⟩

/-- A run changed flags of RX sizes and bytes of RX areas. -/
structure Memory.Kept (m : Memory M) (r : Run M) : Prop where
  size : r.mem.pifram.length = 64
  executed : r.log.map Entry.cmd = m.block
  flags : ∀ h ∈ m.block, r.mem.pifram.getD (h.at' + 1) 0 = m.pifram.getD (h.at' + 1) 0 ∨
    r.mem.pifram.getD (h.at' + 1) 0 = m.pifram.getD (h.at' + 1) 0 ||| 0x80
  frame : ∀ i, (∀ h ∈ m.block, i ≠ h.at' + 1 ∧ ¬ h.Owns i) →
    r.mem.pifram.getD i 0 = m.pifram.getD i 0

theorem Ran.kept {m : Memory M} {r : Run M} (hran : Ran m.block m r.mem r.log) : m.Kept r := by
  refine ⟨hran.size, hran.cmds, fun h hh => ?_, hran.frame⟩
  rw [← hran.cmds] at hh
  obtain ⟨e, he, rfl⟩ := List.mem_map.mp hh
  rw [(hran.told e he).flag]
  cases e.answered with
  | true => exact .inl rfl
  | false => exact .inr rfl

/-- The pointer to the RX area is to an element unless the area is empty and
    the TX area takes the last byte; it is the only access a run ever makes
    outside of PIF RAM. -/
theorem pifProcessJoybus_safe_iff (m : Memory M) (hsize : m.pifram.length = 64) :
    Safe (pifProcessJoybus H false m) m.Kept ∧
      (Safe (pifProcessJoybus H true m) m.Kept ↔ ∀ h ∈ m.block, h.rxStart < 64) := by
  refine ⟨(pifProcessJoybus_goes H hsize fun hc => absurd hc Bool.false_ne_true).mono
      fun r hr => hr.1.kept,
    fun hsafe h hh => Nat.lt_of_not_le fun hge => ?_,
    fun hptr => (pifProcessJoybus_goes H hsize fun _ => hptr).mono fun r hr => hr.1.kept⟩
  obtain ⟨r, hok, -⟩ := hsafe
  have hfault := Run.scan_fault H (r := ⟨m, 0, []⟩) hsize ⟨h, hh, hge⟩
  cases hfault.symm.trans hok

/-- A host without a network game or a movie, at the epoch. -/
def idle : Host Unit where
  time := 0
  localtime _ := ⟨0, 0, 0, 1, 4, 0, 70⟩
  mktime _ := 0
  lockstep := false
  netplayPad _ _ pad := ((), pad)
  movieSample _ _ pad := ((), pad)
  tpakGen _ := 0
  tpakRom _ := none

/-- A console with nothing plugged in. -/
def console (ram : Bytes) : Memory Unit where
  pifram := ram
  padPort _ := {}
  padRemote _ := {}
  padPolls := 0
  eeprom := []
  saveType := .none
  saveDirty := false
  rtc := {}
  movie := ()

/-- 62 bytes to the first controller, and no room for a reply. -/
def brimful : Bytes := 0x3E :: List.replicate 63 0x00

theorem pifProcessJoybus_brimful :
    ¬ Safe (pifProcessJoybus idle true (console brimful)) (console brimful).Kept := by
  rintro ⟨r, hok, -⟩
  have hfault : pifProcessJoybus idle true (console brimful) = .error .index := rfl
  cases hfault.symm.trans hok

/-- One byte, and room for four. -/
def buttonRead : Bytes := 0x01 :: 0x04 :: 0x01 :: List.replicate 61 0xFE

theorem pifProcessJoybus_buttonRead :
    Safe (pifProcessJoybus idle true (console buttonRead)) (console buttonRead).Kept :=
  (pifProcessJoybus_safe_iff idle (console buttonRead) rfl).2.mpr (by decide)

end Si
