import Kestrel64.Lib.WriteBack
import Kestrel64.Si.Joybus

/-! # SI: What the Joybus Saves

    The EEPROM and the Controller Paks are written back to files. Whatever the
    block of commands does to one of them, it marks it as dirty: `pifProcessJoybus_stores`
    says so of every block, on every port and with every accessory.
-/

namespace Si

open Checked WriteBack

variable {M : Type} {H : Host M}

/-! ## Section 1: The buffers -/

def PadPort.pak (pp : PadPort) : Buffer Bytes := ⟨pp.mempak, pp.mempakDirty⟩

def Memory.eep (m : Memory M) : Buffer Bytes := ⟨m.eeprom, m.saveDirty⟩

structure PadPort.Stores (pp pp' : PadPort) : Prop where
  next : pp.pak.Next pp'.pak
  size : pp'.mempak.length = pp.mempak.length

structure Memory.Stores (m m' : Memory M) : Prop where
  next : m.eep.Next m'.eep
  size : m'.eeprom.length = m.eeprom.length
  saveType : m'.saveType = m.saveType
  ports : ∀ p, (m.padPort p).Stores (m'.padPort p)

variable {m m' m'' : Memory M} {pp pp' : PadPort}

theorem PadPort.Stores.refl (pp : PadPort) : pp.Stores pp := ⟨.refl _, rfl⟩

/-- Nothing that is stored has changed. -/
theorem PadPort.Stores.aside (hpak : pp'.mempak = pp.mempak)
    (hdirty : pp'.mempakDirty = pp.mempakDirty) : pp.Stores pp' := by
  refine ⟨?_, congrArg List.length hpak⟩
  have hsame : pp'.pak = pp.pak := by
    unfold PadPort.pak
    rw [hpak, hdirty]
  rw [hsame]
  exact .refl _

theorem PadPort.Stores.trans {pp'' : PadPort} (h₁ : pp.Stores pp') (h₂ : pp'.Stores pp'') :
    pp.Stores pp'' :=
  ⟨h₁.next.trans h₂.next, h₂.size.trans h₁.size⟩

theorem Memory.Stores.refl (m : Memory M) : m.Stores m := ⟨.refl _, rfl, rfl, fun _ => .refl _⟩

theorem Memory.Stores.trans (h₁ : m.Stores m') (h₂ : m'.Stores m'') : m.Stores m'' where
  next := h₁.next.trans h₂.next
  size := h₂.size.trans h₁.size
  saveType := h₂.saveType.trans h₁.saveType
  ports p := (h₁.ports p).trans (h₂.ports p)

/-- A change of PIF RAM, the clock or the pads' input. -/
theorem Memory.Stores.aside (heep : m'.eep = m.eep) (htype : m'.saveType = m.saveType)
    (hports : m'.padPort = m.padPort) : m.Stores m' where
  next := heep ▸ .refl _
  size := congrArg (fun b => b.data.length) heep
  saveType := htype
  ports p := by
    rw [hports]
    exact .refl _

theorem Memory.Stores.setPort {p : Fin 4} (h : (m.padPort p).Stores pp) :
    m.Stores (m.setPort p pp) where
  next := .refl _
  size := rfl
  saveType := rfl
  ports q := by
    change (m.padPort q).Stores (Function.update m.padPort p pp q)
    by_cases hq : q = p
    · subst hq
      rw [Function.update_self]
      exact h
    · rw [Function.update_of_ne hq]
      exact .refl _

/-! ## Section 2: Accessories -/

variable {wr : Bool} {off : Nat} {data : Bytes} {port : Nat}

theorem write_length {xs ys : Bytes} {i : Nat} {b : Byte} (h : Checked.write xs i b = .ok ys) :
    ys.length = xs.length := by
  unfold Checked.write at h
  split_ifs at h
  cases h
  exact List.length_set

theorem PadPort.tpakSync_stores : pp.Stores (pp.tpakSync H port) := by
  unfold PadPort.tpakSync
  split_ifs
  · exact .refl _
  · exact .aside rfl rfl

theorem PadPort.tpakRegs_stores (last : Byte) : pp.Stores (pp.tpakRegs wr off last).1 := by
  unfold PadPort.tpakRegs
  split_ifs <;> exact .aside rfl rfl

theorem PadPort.tpakRst_stores : pp.Stores (pp.tpakRst off data).1 := by
  unfold PadPort.tpakRst
  split_ifs <;> exact .aside rfl rfl

theorem PadPort.gbWindow_stores : Yields (pp.gbWindow H wr off data) (pp.Stores ·.1) := by
  unfold PadPort.gbWindow
  cases wr with
  | true => exact (Yields.trivial _).bind fun gb _ => .ok (.aside rfl rfl)
  | false => exact (Yields.trivial _).bind fun _ _ => .ok (.refl _)

theorem PadPort.transferPak_stores :
    Yields (pp.transferPak H port wr off data) (pp.Stores ·.1) := by
  have hsync : pp.Stores (pp.tpakSync H port) := PadPort.tpakSync_stores
  unfold PadPort.transferPak
  generalize pp.tpakSync H port = pp₁ at hsync
  dsimp only
  split_ifs
  · exact PadPort.gbWindow_stores.mono fun _ h => hsync.trans h
  · exact .ok (hsync.trans (PadPort.tpakRegs_stores _))
  · exact .ok ((hsync.trans (PadPort.tpakRegs_stores _)).trans PadPort.tpakRst_stores)

theorem PadPort.controllerPak_stores :
    Yields (pp.controllerPak wr off data) (pp.Stores ·.1) := by
  unfold PadPort.controllerPak
  split_ifs
  · have hloop : Yields ((List.range 32).foldlM
        (fun pak k => Checked.write pak (off + k) (data.getD k 0)) pp.mempak)
        fun pak => pak.length = pp.mempak.length :=
      .foldlM (fun _ _ hb _ hw => (write_length hw).trans hb) rfl
    exact hloop.bind fun pak hpak => .ok ⟨.of_dirty rfl, hpak⟩
  · exact .ok (.refl _)
  · exact (Yields.trivial _).bind fun _ _ => .ok (.refl _)

theorem PadPort.rumblePak_stores : pp.Stores (pp.rumblePak wr off data).1 := by
  unfold PadPort.rumblePak
  split_ifs <;> exact .aside rfl rfl

theorem PadPort.access_stores : Yields (pp.access H port wr off data) (pp.Stores ·.1) := by
  unfold PadPort.access
  split_ifs
  · exact PadPort.transferPak_stores
  · exact PadPort.controllerPak_stores
  · exact .ok PadPort.rumblePak_stores
  · exact .ok (.refl _)
  · exact .ok (.refl _)

/-! ## Section 3: Commands -/

variable {h : Cmd} {cmd : Byte} {p : Fin 4}

theorem Memory.put_stores (k : Nat) (b : Byte) : Yields (m.put h k b) m.Stores :=
  (Yields.trivial _).bind fun _ _ => .ok (.aside rfl rfl rfl)

theorem Memory.fill_stores (n : Nat) (f : Nat → Byte) : Yields (m.fill h n f) m.Stores :=
  .foldlM (fun _ _ hm => (Memory.put_stores _ _).mono fun _ h => hm.trans h) (.refl m)

/-- A program behind one that keeps what is stored. -/
theorem Yields.stores {x : Checked (Memory M)} {f : Memory M → Checked (Memory M)}
    (hx : Yields x m.Stores) (hf : ∀ m', Yields (f m') m'.Stores) : Yields (x >>= f) m.Stores :=
  hx.bind fun m' hm' => (hf m').mono fun _ h => hm'.trans h

theorem Memory.putInfo_stores (b0 b1 b2 : Byte) : Yields (m.putInfo h b0 b1 b2) m.Stores := by
  unfold Memory.putInfo
  split_ifs
  · refine Yields.stores (Memory.put_stores _ _) fun m₁ => ?_
    exact Yields.stores (Memory.put_stores _ _) fun m₂ => Memory.put_stores _ _
  · exact .ok (.refl m)

theorem Memory.info_stores : Yields (m.info h p) m.Stores := by
  unfold Memory.info
  dsimp only
  split_ifs <;> exact Memory.putInfo_stores _ _ _

theorem Memory.samplePad_stores : m.Stores (m.samplePad H p).1 := .aside rfl rfl rfl

theorem Memory.putPair_stores (k : Nat) (b0 b1 : Byte) : Yields (m.putPair h k b0 b1) m.Stores := by
  unfold Memory.putPair
  split_ifs
  · exact Yields.stores (Memory.put_stores _ _) fun m₁ => Memory.put_stores _ _
  · exact .ok (.refl m)

theorem Memory.buttons_stores : Yields (m.buttons H h p) m.Stores := by
  have hs : m.Stores (m.samplePad H p).1 := Memory.samplePad_stores
  unfold Memory.buttons
  generalize m.samplePad H p = sampled at hs
  obtain ⟨ms, pad⟩ := sampled
  refine Yields.mono (P := ms.Stores) ?_ fun _ h => hs.trans h
  refine Yields.stores (Memory.fill_stores _ _) fun m₁ => ?_
  refine Yields.stores (Memory.putPair_stores _ _ _) fun m₂ => ?_
  refine Yields.stores (Memory.putPair_stores _ _ _) fun m₃ => ?_
  split_ifs
  · refine (Yields.trivial _).bind fun b _ => ?_
    exact Yields.stores (Memory.put_stores _ _) fun m₄ => Memory.put_stores _ _
  · exact .ok (.refl m₃)

theorem Memory.pakReply_stores : Yields (m.pakReply h wr data) m.Stores := by
  unfold Memory.pakReply
  split_ifs
  · exact .ok (.refl m)
  · exact Memory.fill_stores _ _

theorem Memory.pak_stores : Yields (m.pak H h p wr) m.Stores := by
  unfold Memory.pak
  refine (Yields.trivial _).bind fun wire _ => ?_
  refine (Yields.trivial _).bind fun data _ => ?_
  refine PadPort.access_stores.bind fun out hout => ?_
  obtain ⟨pp, data⟩ := out
  refine Yields.mono (P := (m.setPort p pp).Stores) ?_ fun _ h => (Stores.setPort hout).trans h
  refine Yields.stores Memory.pakReply_stores fun m₁ => ?_
  dsimp only
  generalize (if wr = true then 0 else 32) = crcAt
  split_ifs
  · exact Memory.put_stores _ _
  · exact Memory.put_stores _ _
  · exact .ok (.refl m₁)

theorem Memory.eepromRead_stores : Yields (m.eepromRead h) m.Stores := by
  unfold Memory.eepromRead
  refine (Yields.trivial _).bind fun addr _ => .foldlM (fun m₁ k hm₁ => ?_) (.refl m)
  refine (Yields.trivial _).bind fun b _ => ?_
  exact (Memory.put_stores _ _).mono fun _ h => hm₁.trans h

theorem Memory.eepromSet_stores (off k : Nat) : Yields (m.eepromSet h off k) m.Stores := by
  unfold Memory.eepromSet
  split_ifs
  · refine (Yields.trivial _).bind fun b _ => ?_
    refine Yields.bind (P := fun xs => xs.length = m.eeprom.length) (fun _ hw => write_length hw) ?_
    exact fun xs hxs => .ok ⟨.of_dirty rfl, hxs, rfl, fun _ => .refl _⟩
  · exact .ok (.refl m)

theorem Memory.eepromWrite_stores : Yields (m.eepromWrite h) m.Stores := by
  unfold Memory.eepromWrite
  refine (Yields.trivial _).bind fun addr _ => Yields.stores ?_ fun m₁ => ?_
  · refine .foldlM (fun m₁ k hm₁ => ?_) (.refl m)
    exact (Memory.eepromSet_stores _ _).mono fun _ h => hm₁.trans h
  · split_ifs
    · exact Memory.put_stores _ _
    · exact .ok (.refl m₁)

theorem Memory.rtcReadBlock_stores : Yields (m.rtcReadBlock H h) m.Stores := by
  unfold Memory.rtcReadBlock
  refine (Yields.trivial _).bind fun addr _ => ?_
  refine Yields.stores (Memory.fill_stores _ _) fun m₁ => ?_
  split_ifs
  · exact Memory.put_stores _ _
  · exact .ok (.refl m₁)

theorem Memory.rtcWriteBlock_stores : Yields (m.rtcWriteBlock H h) m.Stores := by
  unfold Memory.rtcWriteBlock
  refine (Yields.trivial _).bind fun addr _ => ?_
  refine (Yields.trivial _).bind fun d _ => ?_
  have hset : m.Stores { m with rtc := m.rtc.rtcWrite H (addr &&& 3).toNat d } := .aside rfl rfl rfl
  dsimp only
  split_ifs
  · exact (Memory.put_stores _ _).mono fun _ h => hset.trans h
  · exact .ok hset

/-! ## Section 4: The block -/

theorem Memory.absent_stores : Yields (m.absent h) (m.Stores ·.1) := by
  unfold Memory.absent
  refine (Yields.trivial _).bind fun rxsz _ => ?_
  exact (Yields.trivial _).bind fun ram _ => .ok (.aside rfl rfl rfl)

theorem answered_stores {x : Checked (Memory M)} (hx : Yields x m.Stores) :
    Yields (answered x) (m.Stores ·.1) :=
  hx.bind fun _ h => .ok h

theorem Memory.controller_stores : Yields (m.controller H h p cmd) (m.Stores ·.1) := by
  unfold Memory.controller
  split_ifs
  · exact answered_stores Memory.info_stores
  · exact answered_stores Memory.buttons_stores
  · exact Memory.absent_stores
  · exact answered_stores Memory.pak_stores
  · exact Memory.absent_stores

theorem Memory.cartridge_stores : Yields (m.cartridge H h cmd) (m.Stores ·.1) := by
  unfold Memory.cartridge
  split_ifs
  · exact answered_stores (Memory.putInfo_stores _ _ _)
  · exact answered_stores Memory.eepromRead_stores
  · exact answered_stores Memory.eepromWrite_stores
  · exact answered_stores (Memory.putInfo_stores _ _ _)
  · exact Memory.absent_stores
  · exact answered_stores Memory.rtcReadBlock_stores
  · exact Memory.absent_stores
  · exact answered_stores Memory.rtcWriteBlock_stores
  · exact Memory.absent_stores
  · exact Memory.absent_stores

theorem Memory.bill_stores (us : Nat) (ans : Bool) : Yields (m.bill h us ans) (m.Stores ·.1) := by
  unfold Memory.bill
  refine (Yields.trivial _).bind fun rxsz _ => ?_
  split_ifs <;> exact .ok (.refl m)

theorem Memory.command_stores (hardened : Bool) (us : Nat) :
    Yields (m.command H hardened h us) (m.Stores ·.1) := by
  have hbill (x : Memory M × Bool) (us : Nat) (hx : m.Stores x.1) :
      Yields (x.1.bill h us x.2) (m.Stores ·.1) :=
    (Memory.bill_stores us x.2).mono fun _ h => hx.trans h
  unfold Memory.command
  refine (Yields.trivial _).bind fun cmd _ => (Yields.trivial _).bind fun _ _ => ?_
  dsimp only
  split_ifs
  · exact Memory.controller_stores.bind fun x hx => hbill x _ hx
  · exact Memory.absent_stores.bind fun x hx => .ok hx
  · exact Memory.cartridge_stores.bind fun x hx => hbill x _ hx
  · exact Memory.absent_stores.bind fun x hx => hbill x _ hx

theorem Run.scan_stores {hardened : Bool} {fuel i channel : Nat} {r : Run M}
    (hr : m.Stores r.mem) : Yields (r.scan H hardened fuel i channel) (m.Stores ·.mem) := by
  induction fuel generalizing i channel r with
  | zero =>
    unfold Run.scan
    split_ifs
    · exact .error
    · exact .ok hr
  | succ fuel ih =>
    unfold Run.scan
    split_ifs
    · refine (Yields.trivial _).bind fun t _ => ?_
      split_ifs
      · exact .ok hr
      · exact ih hr
      · exact ih hr
      · refine (Yields.trivial _).bind fun rxsz _ => ?_
        dsimp only
        split_ifs
        · exact .ok hr
        · exact (Memory.command_stores _ _).bind fun x hx => ih (hr.trans hx)
    · exact .ok hr

theorem pifProcessJoybus_stores {hardened : Bool} {r : Run M}
    (h : pifProcessJoybus H hardened m = .ok r) : m.Stores r.mem :=
  Run.scan_stores (.refl m) r h

end Si
