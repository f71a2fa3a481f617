import Kestrel64.Lib.Visitor
import Kestrel64.Movie.Tape
import Mathlib.Data.List.Nodup

/-! # Save States: the Fields

    `visitAll` of `core/savestate.cpp`: the fields of the machine that a save
    state holds, in their order, with a mark in front of each section.

    A field is kept as the bytes of its object, whose number the type fixes.
    Versions 14 to 21 lack fields that were added later; `visitAll` gets such a
    field from others, sets it, or leaves it as it is.
-/

namespace Savestate

open Visitor

/-! ## Section 1: Kinds of fields -/

/-- Bytes of a number that is known. -/
abbrev Raw (n : Nat) := { b : Bytes // b.length = n }

/-- A memory that is allocated once, at most 4 GB. -/
abbrev Mem := { b : Bytes // b.length < 2 ^ 32 }

/-- A vector below the limit of `vecBlob`. -/
abbrev Vec := { b : Bytes // b.length ≤ 2 ^ 30 }

inductive Kind where
  /-- `pod`, `arr`, `atom` -/
  | raw (n : Nat)
  /-- `blob` of an array -/
  | blob (n : Nat)
  /-- `blob` of the RDRAM, `vecFixed` -/
  | fixed
  /-- `vecBlob` -/
  | vec
  /-- `vecBlob` of the RAM of a Game Boy cartridge -/
  | gbRam
  /-- `rcpPend`, of which two bits are saved -/
  | pend
  /-- the samples of the movie -/
  | polls
deriving DecidableEq

abbrev Kind.Val : Kind → Type
  | .raw n => Raw n
  | .blob n => Raw n
  | .fixed => Mem
  | .vec => Vec
  | .gbRam => Vec
  | .pend => BitVec 32
  | .polls => Movie.Tape

/-- `new` in the place of `old`, if it may stand there. -/
def replace {P : Bytes → Prop} [DecidablePred P] (old : { b : Bytes // P b }) (new : Bytes) :
    { b : Bytes // P b } :=
  if h : P new then ⟨new, h⟩ else old

@[simp] theorem replace_of {P : Bytes → Prop} [DecidablePred P] (old new : { b : Bytes // P b }) :
    replace old new.1 = new := dif_pos new.2

/-- What `StateIO` does with a field. -/
def Kind.slot : (κ : Kind) → Slot κ.Val
  | .raw n => ⟨.plain n, Subtype.val, replace⟩
  | .blob n => ⟨.counted fun _ size => size = n, Subtype.val, replace⟩
  | .fixed => ⟨.counted fun v size => size = v.1.length, Subtype.val, replace⟩
  | .vec => ⟨.counted fun _ size => size ≤ 2 ^ 30, Subtype.val, replace⟩
  | .gbRam =>
    ⟨.counted fun _ size => size ≤ 2 ^ 30, Subtype.val,
      -- the ROM does not travel: the RAM counts only for a cartridge like it
      fun ram b => if b.length = ram.1.length then replace ram b else ram⟩
  | .pend =>
    ⟨.plain 4, fun pend => Bytes.le 4 (pend &&& 3).toNat,
      fun _ b => BitVec.ofNat 32 (Bytes.ofLe b)⟩
  | .polls =>
    ⟨.plain 8, fun tape => Bytes.le 8 tape.polls.toNat,
      fun tape b => Movie.seek (BitVec.ofNat 64 (Bytes.ofLe b)) tape⟩

/-! ## Section 2: The fields -/

inductive SysField where
  | retiredInsns | rspCycles | rspPhase
deriving DecidableEq

inductive CpuField where
  | gpr | pc | nextPc | curPc | hi | lo | cop0 | fpr | fcr0 | fcr31 | cp2latch | cop0Unused | llbit
  | memAbort | xlatCacheable | inDelay | justBranched | jitDelaySlot | timerIntr | randomReload
  | countFrac | stallCycles | stallOps | stallOpsRem | ilk | dcbR | halted | retired | exceptions
  | icSeq | tlb | dcache | icache
deriving DecidableEq

inductive RcpField where
  | mi_mode | mi_mask | mi_intr | mi_repeat_on | mi_repeat_len
  | sp_mem_addr | sp_dram_addr | sp_rd_len | sp_wr_len
  | sp_status | sp_semaphore | sp_pc | sp_intr_on_break
  | dpc_start | dpc_end | dpc_current | dpcCurReads | dpc_submitted | dpc_status
  | dpc_clock | dpc_bufbusy | dpc_pipebusy | dpc_tmem
  | dps_tbist | dps_test_mode | dps_buftest_addr | dps_span
  | vi_ctrl | vi_origin | vi_width | vi_intr | vi_current | viFlips | viFields | dpSyncs
  | vi_burst | vi_vsync | vi_hsync | vi_leap | vi_hstart | vi_vstart | vi_vburst
  | vi_xscale | vi_yscale
  | ai_dram | ai_len | ai_ctrl | ai_status | ai_dacrate | ai_bitrate
  | ai_fifo_addr | ai_fifo_len | ai_fifo_count | ai_play_remaining | aiLastRetired | aiAcc
  | pi_dram_addr | pi_cart_addr | pi_rd_len | pi_wr_len | pi_status | pi_bsd
  | ri_mode | ri_config | ri_select | ri_refresh | si_dram_addr | si_status
deriving DecidableEq

inductive MemField where
  | saveType | flashMode | flashStatus | flashErasePage | flashWritePage | flashPageBuf
  | cartLatch | cartLatchValid | cartLatchExpiry | cartIoBusyUntil
  | viLastRetired | viNextAt | aiNextAt | evNextAt | isvHdr
  | rdpResume | rdpLastEnd | rdpHasResume | rcpPend | spDoneAt | dpDoneAt
deriving DecidableEq

inductive RspField where
  | r | pc | vpr | acch | accm | accl | vcoh | vcol | vcch | vccl | vce | divin | divout | divdp
  | running | cyclesRun | curpc | branch | branchTarget | branchState | halt | broke
  | inDelay | pendingTarget | budget
deriving DecidableEq

/-- `tl` is a local of `StateVisitor::rdp`: the palette of a version below 22. -/
inductive RdpField where
  | sawSyncFull | stopAt | ci_addr | ci_width | ci_size | zi_addr
  | ti_addr | ti_width | ti_size | ti_fmt | fill_color
  | blend_color | fog_color | prim_color | env_color | prim_lod_frac | prim_z
  | k0 | k1 | k2 | k3 | k4 | k5 | other_lo | other_hi | combine_lo | combine_hi | comb | combined
  | sx0 | sy0 | sx1 | sy1 | pxWrites | pxZWrites | tiles | tmem | tl
  | prim_min_level | prim_dz | sx1fc | key_center | key_scale | key_width
deriving DecidableEq

inductive RamField where
  | rdram | rdramHidden | dmem | imem | siBusy | siToPif | siDram | siDoneAt | piBusy | piDoneAt
  | pifram | pifBootMode | pifRomLocked | pifFrozen | pifSum | pifSumGot | cicSum | pifBootDeadline
  | eeprom | saveRam
deriving DecidableEq

inductive PortField where
  | mempak | rumble | power | cartOn | pull | bank | rst | ramOn | romBank | hiBank | mode
  | rtc | latched | rtcBase | ram
deriving DecidableEq

inductive Field where
  | sys (f : SysField)
  | cpu (f : CpuField)
  | rcp (f : RcpField)
  | mem (f : MemField)
  | rsp (f : RspField)
  | rdp (f : RdpField)
  | ram (f : RamField)
  | port (p : Fin 4) (f : PortField)
  | polls
deriving DecidableEq

@[reducible] def CpuField.kind : CpuField → Kind
  | .gpr | .cop0 | .fpr => .raw (32 * 8)
  | .fcr0 | .fcr31 | .randomReload | .countFrac | .stallCycles | .stallOpsRem | .icSeq => .raw 4
  | .llbit | .memAbort | .xlatCacheable | .inDelay | .justBranched | .jitDelaySlot | .timerIntr
  | .dcbR | .halted => .raw 1
  | .tlb => .raw (32 * 40)
  | .dcache => .blob (512 * 32)
  | .icache => .blob (512 * 44)
  | _ => .raw 8

@[reducible] def RcpField.kind : RcpField → Kind
  | .mi_repeat_on | .sp_intr_on_break => .raw 1
  | .dpcCurReads | .aiLastRetired | .aiAcc => .raw 8
  | .dps_span => .raw (128 * 4)
  | .ai_fifo_addr | .ai_fifo_len => .raw (2 * 4)
  | .pi_bsd => .raw (8 * 4)
  | _ => .raw 4

@[reducible] def MemField.kind : MemField → Kind
  | .saveType | .flashMode | .flashErasePage | .flashWritePage | .cartLatch
  | .rdpResume | .rdpLastEnd => .raw 4
  | .cartLatchValid | .rdpHasResume => .raw 1
  | .flashPageBuf => .blob 128
  | .isvHdr => .blob 0x20
  | .rcpPend => .pend
  | _ => .raw 8

@[reducible] def RspField.kind : RspField → Kind
  | .r => .raw (32 * 4)
  | .vpr => .raw (32 * 16)
  | .acch | .accm | .accl | .vcoh | .vcol | .vcch | .vccl | .vce => .raw 16
  | .divin | .divout => .raw 2
  | .divdp | .running | .branch | .halt | .broke | .inDelay => .raw 1
  | .cyclesRun | .budget => .raw 8
  | _ => .raw 4

@[reducible] def RdpField.kind : RdpField → Kind
  | .sawSyncFull | .prim_lod_frac | .prim_min_level => .raw 1
  | .comb => .raw (2 * 32)
  | .combined => .raw (4 * 4)
  | .pxWrites | .pxZWrites => .raw 8
  | .tiles => .raw (8 * 60)
  | .tmem => .blob 0x1000
  | .tl => .raw (256 * 2)
  | .key_width => .raw (3 * 2)
  | _ => .raw 4

@[reducible] def RamField.kind : RamField → Kind
  | .rdram | .rdramHidden | .dmem | .imem | .pifram => .fixed
  | .siDram => .raw 4
  | .siDoneAt | .piDoneAt | .cicSum | .pifBootDeadline => .raw 8
  | .pifSum => .raw 6
  | .eeprom | .saveRam => .vec
  | _ => .raw 1

@[reducible] def PortField.kind : PortField → Kind
  | .mempak => .vec
  | .romBank => .raw 2
  | .rtc | .latched => .raw 5
  | .rtcBase => .raw 8
  | .ram => .gbRam
  | _ => .raw 1

@[reducible] def Field.kind : Field → Kind
  | .sys _ => .raw 8
  | .cpu f => f.kind
  | .rcp f => f.kind
  | .mem f => f.kind
  | .rsp f => f.kind
  | .rdp f => f.kind
  | .ram f => f.kind
  | .port _ f => f.kind
  | .polls => .polls

abbrev Field.Val (f : Field) : Type := f.kind.Val

def slot (f : Field) : Slot f.Val := f.kind.slot

/-- The fields of the machine. -/
abbrev Vals := (f : Field) → f.Val

/-! ## Section 3: The visits -/

/-- Four characters. -/
def mark (four : String) : Bytes := four.toList.map fun c => BitVec.ofNat 8 c.toNat

abbrev Visits := List (Visit Field.Val)

def cpuRegs : List CpuField :=
  [.gpr, .pc, .nextPc, .curPc, .hi, .lo, .cop0, .fpr, .fcr0, .fcr31, .cp2latch, .cop0Unused, .llbit,
    .memAbort, .xlatCacheable, .inDelay, .justBranched, .jitDelaySlot, .timerIntr, .randomReload,
    .countFrac, .stallCycles, .stallOps, .stallOpsRem, .ilk, .dcbR, .halted, .retired, .exceptions,
    .icSeq]

def visitCpu : Visits :=
  .tag (mark "CPU ") :: cpuRegs.map (fun f => .field (.cpu f)) ++
    [.tag (mark "TLB "), .field (.cpu .tlb), .tag (mark "DC  "), .field (.cpu .dcache),
      .tag (mark "IC  "), .field (.cpu .icache)]

def rcpRegs : List RcpField :=
  [.mi_mode, .mi_mask, .mi_intr, .mi_repeat_on, .mi_repeat_len,
    .sp_mem_addr, .sp_dram_addr, .sp_rd_len, .sp_wr_len,
    .sp_status, .sp_semaphore, .sp_pc, .sp_intr_on_break,
    .dpc_start, .dpc_end, .dpc_current, .dpcCurReads, .dpc_submitted, .dpc_status,
    .dpc_clock, .dpc_bufbusy, .dpc_pipebusy, .dpc_tmem,
    .dps_tbist, .dps_test_mode, .dps_buftest_addr, .dps_span,
    .vi_ctrl, .vi_origin, .vi_width, .vi_intr, .vi_current, .viFlips, .viFields, .dpSyncs,
    .vi_burst, .vi_vsync, .vi_hsync, .vi_leap, .vi_hstart, .vi_vstart, .vi_vburst,
    .vi_xscale, .vi_yscale,
    .ai_dram, .ai_len, .ai_ctrl, .ai_status, .ai_dacrate, .ai_bitrate,
    .ai_fifo_addr, .ai_fifo_len, .ai_fifo_count, .ai_play_remaining, .aiLastRetired, .aiAcc,
    .pi_dram_addr, .pi_cart_addr, .pi_rd_len, .pi_wr_len, .pi_status, .pi_bsd,
    .ri_mode, .ri_config, .ri_select, .ri_refresh, .si_dram_addr, .si_status]

def visitRcp : Visits := .tag (mark "RCP ") :: rcpRegs.map fun f => .field (.rcp f)

/-- Up to version 18 the end of IO_BUSY was the end of the bus value. -/
def visitMemory (version : Nat) : Visits :=
  .tag (mark "MEM ") ::
    ([.saveType, .flashMode, .flashStatus, .flashErasePage, .flashWritePage, .flashPageBuf,
      .cartLatch, .cartLatchValid, .cartLatchExpiry] : List MemField).map
        (fun f => .field (.mem f)) ++
    (if 19 ≤ version then [.field (.mem .cartIoBusyUntil)]
      else [.derive (.mem .cartIoBusyUntil) fun m => m (.mem .cartLatchExpiry)]) ++
    ([.viLastRetired, .viNextAt, .aiNextAt, .evNextAt, .isvHdr,
      .rdpResume, .rdpLastEnd, .rdpHasResume,
      .rcpPend, .spDoneAt, .dpDoneAt] : List MemField).map (fun f => .field (.mem f))

def rspRegs : List RspField :=
  [.r, .pc, .vpr, .acch, .accm, .accl, .vcoh, .vcol, .vcch, .vccl, .vce, .divin, .divout, .divdp,
    .running, .cyclesRun, .curpc, .branch, .branchTarget, .branchState, .halt, .broke,
    .inDelay, .pendingTarget, .budget]

def visitRsp : Visits := .tag (mark "RSP ") :: rspRegs.map fun f => .field (.rsp f)

/-- The upper half of TMEM for a palette of 256 halfwords: every entry in the
    four banks, high byte first. -/
def paletteBanks (tl : Bytes) : Bytes :=
  (List.range 256).flatMap fun i =>
    (List.replicate 4 [tl.getD (2 * i + 1) 0, tl.getD (2 * i) 0]).flatten

theorem length_paletteBanks (tl : Bytes) : (paletteBanks tl).length = 0x800 := by
  have hentry : ∀ i, (List.replicate 4 [tl.getD (2 * i + 1) 0, tl.getD (2 * i) 0]).flatten.length =
      8 := fun _ => rfl
  simp only [paletteBanks, List.length_flatMap, hentry, List.map_const', List.length_range,
    List.sum_replicate_nat, Nat.reduceMul]

/-- TMEM of a state up to version 21, with its palette. -/
def convertPalette (tmem : Raw 0x1000) (tl : Raw (256 * 2)) : Raw 0x1000 :=
  ⟨tmem.1.take 0x800 ++ paletteBanks tl.1, by
    rw [List.length_append, List.length_take, tmem.2, length_paletteBanks]
    rfl⟩

def rdpRegs : List RdpField :=
  [.sawSyncFull, .stopAt, .ci_addr, .ci_width, .ci_size, .zi_addr,
    .ti_addr, .ti_width, .ti_size, .ti_fmt, .fill_color,
    .blend_color, .fog_color, .prim_color, .env_color, .prim_lod_frac, .prim_z,
    .k0, .k1, .k2, .k3, .k4, .k5, .other_lo, .other_hi, .combine_lo, .combine_hi, .comb, .combined,
    .sx0, .sy0, .sx1, .sy1, .pxWrites, .pxZWrites, .tiles, .tmem]

def visitRdp (version : Nat) : Visits :=
  .tag (mark "RDP ") :: rdpRegs.map (fun f => .field (.rdp f)) ++
    (if version < 22 then
      [.field (.rdp .tl),
        .derive (.rdp .tmem) fun m => convertPalette (m (.rdp .tmem)) (m (.rdp .tl))]
      else []) ++
    (if 16 ≤ version then [.field (.rdp .prim_min_level)] else []) ++
    (if 17 ≤ version then [.field (.rdp .prim_dz)] else []) ++
    (if 20 ≤ version then [.field (.rdp .sx1fc)]
      else [.derive (.rdp .sx1fc) fun m => m (.rdp .sx1)]) ++
    (if 21 ≤ version then
      [.field (.rdp .key_center), .field (.rdp .key_scale), .field (.rdp .key_width)] else [])

/-- A `bool` that is false. -/
def no : Raw 1 := ⟨[0], rfl⟩

def visitPorts (fs : List PortField) : Visits :=
  (List.finRange 4).flatMap fun p => fs.map fun f => .field (.port p f)

/-- Nobody saves in the first seconds, so a state up to version 17 is past the
    boot of the PIF. -/
def visitRam (version : Nat) : Visits :=
  .tag (mark "RAM ") ::
    ([.rdram, .rdramHidden, .dmem, .imem, .siBusy, .siToPif, .siDram, .siDoneAt,
      .piBusy, .piDoneAt, .pifram] : List RamField).map (fun f => .field (.ram f)) ++
    (if 18 ≤ version then
      ([.pifBootMode, .pifRomLocked, .pifFrozen, .pifSum, .pifSumGot, .cicSum,
        .pifBootDeadline] : List RamField).map (fun f => .field (.ram f))
      else [.derive (.ram .pifBootMode) fun _ => no, .derive (.ram .pifFrozen) fun _ => no]) ++
    [.field (.ram .eeprom), .field (.ram .saveRam)] ++
    visitPorts [.mempak, .rumble] ++
    (if 15 ≤ version then
      visitPorts [.power, .cartOn, .pull, .bank, .rst, .ramOn, .romBank, .hiBank, .mode,
        .rtc, .latched, .rtcBase, .ram]
      else [])

def visitMovie : Visits := [.tag (mark "MOVI"), .field .polls]

def visitSys : Visits :=
  [.tag (mark "SYS "), .field (.sys .retiredInsns), .field (.sys .rspCycles),
    .field (.sys .rspPhase)]

def visitAll (version : Nat) : Visits :=
  visitSys ++ visitCpu ++ visitRcp ++ visitMemory version ++ visitRsp ++ visitRdp version ++
    visitRam version ++ visitMovie ++ [.tag (mark "END ")]

end Savestate
