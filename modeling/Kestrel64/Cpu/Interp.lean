import Kestrel64.Cpu.Core

/-! # CPU: The Interpreter

    `execute` in `cpu/cpu.cpp` over the whole instruction set. An instruction
    that does not touch memory or coprocessor 0 is given by what it does,
    `Eff`, read off the registers; `Core.perform` then does it. The memory
    instructions are in `Core`.

    The arithmetic of coprocessor 1 runs on the host's floating-point unit
    and is a parameter, `Fpu`.
-/

namespace Cpu

variable {Dev : Type}

/-! ## Section 1: Fields -/

def opOP (w : BitVec 32) : Nat := w.toNat / 2 ^ 26

def opRs (w : BitVec 32) : Fin 32 := ⟨w.toNat / 2 ^ 21 % 32, Nat.mod_lt _ (by decide)⟩

def opRt (w : BitVec 32) : Fin 32 := ⟨w.toNat / 2 ^ 16 % 32, Nat.mod_lt _ (by decide)⟩

def opRd (w : BitVec 32) : Fin 32 := ⟨w.toNat / 2 ^ 11 % 32, Nat.mod_lt _ (by decide)⟩

def opSa (w : BitVec 32) : Nat := w.toNat / 2 ^ 6 % 32

def opFunct (w : BitVec 32) : Nat := w.toNat % 64

def opImm16 (w : BitVec 32) : BitVec 64 := zext (w.setWidth 16)

def opSimm (w : BitVec 32) : BitVec 64 := sext (w.setWidth 16)

/-- `SIMM << 2` -/
def opOffset (w : BitVec 32) : BitVec 64 := opSimm w <<< 2

def opTarget26 (w : BitVec 32) : BitVec 64 := zext ((w &&& 0x03ffffff) <<< 2)

/-! ## Section 2: What an instruction does -/

/-- The exceptions of the instructions that reach no memory. -/
inductive Cond where
  | syscall
  | breakpoint
  | reservedInstruction
  | copUnusable
  | overflow
  | trap
  deriving DecidableEq, Repr

def Cond.code : Cond → Nat
  | .syscall => 8
  | .breakpoint => 9
  | .reservedInstruction => 10
  | .copUnusable => 11
  | .overflow => 12
  | .trap => 13

inductive Eff where
  | nop
  | set (i : Fin 32) (v : BitVec 64)
  | hilo (hi lo : BitVec 64)
  /-- A multiplication or a division, with its latency. -/
  | mulDiv (cost : Nat) (hi lo : BitVec 64)
  | jump (link : Option (Fin 32)) (target : BitVec 64)
  | branch (likely link taken : Bool) (target : BitVec 64)
  | raise (e : Cond)
  /-- The same, with the coprocessor in `Cause.CE`. -/
  | raiseCe (e : Cond) (ce : Nat)
  | fpr32 (i : Fin 32) (v : BitVec 32)
  | fpr64 (i : Fin 32) (v : BitVec 64)
  | cp2 (v : BitVec 64)

/-- The return address. -/
def Core.linkAddr (c : Core Dev) : BitVec 64 := sext (c.nextPc.setWidth 32)

def Core.chargeMulDiv (c : Core Dev) (total : Nat) : Core Dev :=
  if c.mulDivMode < 2 then c
  else c.setCpu { c.cpu with stallCycles := c.cpu.stallCycles + (total - 1) }

def Core.perform (c : Core Dev) : Eff → Core Dev
  | .nop => c
  | .set i v => c.set i v
  | .hilo hi lo => { c with hi := hi, lo := lo }
  | .mulDiv cost hi lo => { c.chargeMulDiv cost with hi := hi, lo := lo }
  | .jump link target =>
    let c := match link with
      | some r => c.set r c.linkAddr
      | none => c
    { c with justBranched := true, nextPc := target }
  | .branch likely link taken target =>
    let c := if link then c.set 31 c.linkAddr else c
    if !likely then { c with justBranched := true, nextPc := if taken then target else c.nextPc }
    else if taken then { c with justBranched := true, nextPc := target }
    -- a likely branch that is not taken skips its delay slot
    else { c with pc := c.nextPc, nextPc := c.nextPc + 4 }
  | .raise e => Cpu.raise e.code c
  | .raiseCe e ce => (Cpu.raise e.code c).setCe ce
  | .fpr32 i v => c.setCpu (c.cpu.fprSet32 i v)
  | .fpr64 i v => c.setCpu (c.cpu.fprSet64 i v)
  | .cp2 v => { c with cp2latch := v }

/-- `ADD` and its kin trap on signed overflow. -/
def unlessOverflow {n : Nat} (bad : BitVec n) (i : Fin 32) (v : BitVec 64) : Eff :=
  if bad.msb then .raise .overflow else .set i v

def trapIf (b : Bool) : Eff := if b then .raise .trap else .nop

/-- `0` and `1` for the comparisons. -/
def flag (b : Bool) : BitVec 64 := if b then 1 else 0

/-- Unrecognised encodings are reserved instructions. -/
def unimplemented : Eff := .raise .reservedInstruction

def div32 (a b : BitVec 32) : Eff :=
  if b = 0 then .mulDiv 37 (sext a) (sext (if a.msb then 1 else 0xffffffff : BitVec 32))
  else if a = 0x80000000 ∧ b = -1 then .mulDiv 37 0 (sext (0x80000000 : BitVec 32))
  else .mulDiv 37 (sext (a.srem b)) (sext (a.sdiv b))

def divu32 (a b : BitVec 32) : Eff :=
  if b = 0 then .mulDiv 37 (sext a) (sext (0xffffffff : BitVec 32))
  else .mulDiv 37 (sext (a % b)) (sext (a / b))

def div64 (a b : BitVec 64) : Eff :=
  if b = 0 then .mulDiv 69 a (if a.msb then 1 else -1)
  else if a = 0x8000000000000000 ∧ b = -1 then .mulDiv 69 0 0x8000000000000000
  else .mulDiv 69 (a.srem b) (a.sdiv b)

def divu64 (a b : BitVec 64) : Eff :=
  if b = 0 then .mulDiv 69 a (-1) else .mulDiv 69 (a % b) (a / b)

/-! ## Section 3: SPECIAL and REGIMM -/

/-- The doubleword functions. -/
def isSpecial64 : Nat → Bool
  | 0x14 | 0x16 | 0x17 | 0x1c | 0x1d | 0x1e | 0x1f => true
  | 0x2c | 0x2d | 0x2e | 0x2f => true
  | 0x38 | 0x3a | 0x3b | 0x3c | 0x3e | 0x3f => true
  | _ => false

def special (w : BitVec 32) (c : Core Dev) : Eff :=
  let rd := opRd w
  let sa := opSa w
  let a := c.cpu.gpr (opRs w)
  let b := c.cpu.gpr (opRt w)
  let a32 : BitVec 32 := a.setWidth 32
  let b32 : BitVec 32 := b.setWidth 32
  if isSpecial64 (opFunct w) && reserved64 c.status then .raise .reservedInstruction
  else
    match opFunct w with
    | 0x00 => .set rd (sext (b32 <<< sa))
    | 0x02 => .set rd (sext (b32 >>> sa))
    -- the arithmetic shifts see all 64 bits
    | 0x03 => .set rd (sext ((b.sshiftRight sa).setWidth 32))
    | 0x04 => .set rd (sext (b32 <<< (a.toNat % 32)))
    | 0x06 => .set rd (sext (b32 >>> (a.toNat % 32)))
    | 0x07 => .set rd (sext ((b.sshiftRight (a.toNat % 32)).setWidth 32))
    | 0x08 => .jump none a
    | 0x09 => .jump (some (if rd = 0 then 31 else rd)) a
    | 0x0c => .raise .syscall
    | 0x0d => .raise .breakpoint
    | 0x0f => .nop
    | 0x10 => .set rd c.hi
    | 0x11 => .hilo a c.lo
    | 0x12 => .set rd c.lo
    | 0x13 => .hilo c.hi a
    | 0x14 => .set rd (b <<< (a.toNat % 64))
    | 0x16 => .set rd (b >>> (a.toNat % 64))
    | 0x17 => .set rd (b.sshiftRight (a.toNat % 64))
    | 0x18 =>
      let r := sext a32 * sext b32
      .mulDiv 5 (sext ((r >>> 32).setWidth 32)) (sext (r.setWidth 32))
    | 0x19 =>
      let r := zext a32 * zext b32
      .mulDiv 5 (sext ((r >>> 32).setWidth 32)) (sext (r.setWidth 32))
    | 0x1a => div32 a32 b32
    | 0x1b => divu32 a32 b32
    | 0x1c =>
      let r := a.signExtend 128 * b.signExtend 128
      .mulDiv 8 ((r >>> 64).setWidth 64) (r.setWidth 64)
    | 0x1d =>
      let r := a.setWidth 128 * b.setWidth 128
      .mulDiv 8 ((r >>> 64).setWidth 64) (r.setWidth 64)
    | 0x1e => div64 a b
    | 0x1f => divu64 a b
    | 0x20 =>
      let r := a32 + b32
      unlessOverflow ((a32 ^^^ r) &&& (b32 ^^^ r)) rd (sext r)
    | 0x21 => .set rd (sext ((a + b).setWidth 32))
    | 0x22 =>
      let r := a32 - b32
      unlessOverflow ((a32 ^^^ b32) &&& (a32 ^^^ r)) rd (sext r)
    | 0x23 => .set rd (sext ((a - b).setWidth 32))
    | 0x24 => .set rd (a &&& b)
    | 0x25 => .set rd (a ||| b)
    | 0x26 => .set rd (a ^^^ b)
    | 0x27 => .set rd (~~~(a ||| b))
    | 0x2a => .set rd (flag (a.slt b))
    | 0x2b => .set rd (flag (a.ult b))
    | 0x2c =>
      let r := a + b
      unlessOverflow ((a ^^^ r) &&& (b ^^^ r)) rd r
    | 0x2d => .set rd (a + b)
    | 0x2e =>
      let r := a - b
      unlessOverflow ((a ^^^ b) &&& (a ^^^ r)) rd r
    | 0x2f => .set rd (a - b)
    | 0x30 => trapIf (b.sle a)
    | 0x31 => trapIf (b.ule a)
    | 0x32 => trapIf (a.slt b)
    | 0x33 => trapIf (a.ult b)
    | 0x34 => trapIf (a == b)
    | 0x36 => trapIf (a != b)
    | 0x38 => .set rd (b <<< sa)
    | 0x3a => .set rd (b >>> sa)
    | 0x3b => .set rd (b.sshiftRight sa)
    | 0x3c => .set rd (b <<< (sa + 32))
    | 0x3e => .set rd (b >>> (sa + 32))
    | 0x3f => .set rd (b.sshiftRight (sa + 32))
    | _ => unimplemented

/-- The linking branches read their condition before they link: `rs` may be
    `r31`. -/
def regimm (w : BitVec 32) (c : Core Dev) : Eff :=
  let a := c.cpu.gpr (opRs w)
  let simm := opSimm w
  let target := c.pc + opOffset w
  match (opRt w).val with
  | 0x00 => .branch false false (a.slt 0) target
  | 0x01 => .branch false false ((0 : BitVec 64).sle a) target
  | 0x02 => .branch true false (a.slt 0) target
  | 0x03 => .branch true false ((0 : BitVec 64).sle a) target
  | 0x10 => .branch false true (a.slt 0) target
  | 0x11 => .branch false true ((0 : BitVec 64).sle a) target
  | 0x12 => .branch true true (a.slt 0) target
  | 0x13 => .branch true true ((0 : BitVec 64).sle a) target
  | 0x08 => trapIf (simm.sle a)
  | 0x09 => trapIf (simm.ule a)
  | 0x0a => trapIf (a.slt simm)
  | 0x0b => trapIf (a.ult simm)
  | 0x0c => trapIf (a == simm)
  | 0x0e => trapIf (a != simm)
  | _ => unimplemented

/-- The jumps, branches and immediate forms of `execute`. `pc` is the delay
    slot's address already. -/
def immediate (w : BitVec 32) (c : Core Dev) : Eff :=
  let rt := opRt w
  let a := c.cpu.gpr (opRs w)
  let b := c.cpu.gpr rt
  let a32 : BitVec 32 := a.setWidth 32
  let simm := opSimm w
  let i32 : BitVec 32 := simm.setWidth 32
  let target := c.pc + opOffset w
  match opOP w with
  | 0x02 => .jump none (c.pc &&& 0xfffffffff0000000 ||| opTarget26 w)
  | 0x03 => .jump (some 31) (c.pc &&& 0xfffffffff0000000 ||| opTarget26 w)
  | 0x04 => .branch false false (a == b) target
  | 0x05 => .branch false false (a != b) target
  | 0x06 => .branch false false (a.sle 0) target
  | 0x07 => .branch false false ((0 : BitVec 64).slt a) target
  | 0x08 =>
    let r := a32 + i32
    unlessOverflow ((a32 ^^^ r) &&& (i32 ^^^ r)) rt (sext r)
  | 0x09 => .set rt (sext ((a + simm).setWidth 32))
  | 0x0a => .set rt (flag (a.slt simm))
  | 0x0b => .set rt (flag (a.ult simm))
  | 0x0c => .set rt (a &&& opImm16 w)
  | 0x0d => .set rt (a ||| opImm16 w)
  | 0x0e => .set rt (a ^^^ opImm16 w)
  | 0x0f => .set rt (sext (((opImm16 w) <<< 16).setWidth 32))
  | 0x14 => .branch true false (a == b) target
  | 0x15 => .branch true false (a != b) target
  | 0x16 => .branch true false (a.sle 0) target
  | 0x17 => .branch true false ((0 : BitVec 64).slt a) target
  | 0x18 =>
    let r := a + simm
    unlessOverflow ((a ^^^ r) &&& (simm ^^^ r)) rt r
  | 0x19 => .set rt (a + simm)
  | _ => unimplemented

/-! ## Section 4: Coprocessor 0 -/

/-- A register by its number. -/
def Core.cop0At (c : Core Dev) : Nat → BitVec 64
  | 10 => BitVec.ofNat 64 c.cpu.entryHi
  | 12 => BitVec.ofNat 64 c.cpu.status
  | 17 => BitVec.ofNat 64 c.mach.llAddr
  | 28 => BitVec.ofNat 64 c.mach.tagLo
  | r => c.cop0 r

def readCop0 (r : Nat) (c : Core Dev) : BitVec 64 :=
  match r with
  | 7 | 21 | 22 | 23 | 24 | 25 | 31 => c.cop0Unused
  | 15 => 0x0b22
  -- `Count` runs on while the pipeline stands still
  | 9 => zext ((c.cop0 c0Count).setWidth 32 +
      BitVec.ofNat 32 ((c.countFrac + c.cpu.stallCycles * 2 ^ 7) / 2 ^ 8))
  | r => c.cop0At r

/-- Every write latches the bus; each register has its own mask. -/
def writeCop0 (r : Nat) (v : BitVec 64) (c : Core Dev) : Core Dev :=
  let c := { c with cop0Unused := v }
  let v32 : BitVec 32 := v.setWidth 32
  match r with
  | 0 => c.setCop0 c0Index (sext (v32 &&& 0x8000003F))
  | 1 => c
  | 2 => c.setCop0 c0EntryLo0 (v &&& 0x3FFFFFFF)
  | 3 => c.setCop0 c0EntryLo1 (v &&& 0x3FFFFFFF)
  | 4 => c.setCop0 c0Context (v &&& ~~~0x7FFFFF ||| c.cop0 c0Context &&& 0x7FFFFF)
  | 5 => c.setCop0 c0PageMask (v &&& 0x01FFE000)
  | 6 => { c.setCop0 c0Wired (zext (v32 &&& 0x3F)) with randomReload := 2 }
  | 8 => c
  | 10 => (c.setCpu { c.cpu with entryHi := v.toNat &&& 0xC00000FFFFFFE0FF }).bumpXlat
  | 11 => { c.setCop0 c0Compare (sext v32) with timerIntr := false }
  | 12 => (c.setCpu { c.cpu with status := sext32 (v32 &&& ~~~0x80000).toNat }).bumpXlat
  | 13 => c.setCop0 c0Cause
      (sext ((c.cop0 c0Cause).setWidth 32 &&& ~~~0x300 ||| v32 &&& 0x300))
  | 15 => c
  | 16 => c.setCop0 c0Config (sext (v32 &&& 0x0F00800F ||| 0x70066460))
  | 17 => { c with mach := { c.mach with llAddr := v32.toNat } }
  | 18 => { c.setCop0 c0WatchLo (sext (v32 &&& 0xFFFFFFFB)) with watchArmed := v32 &&& 3 != 0 }
  | 19 => c.setCop0 c0WatchHi (sext (v32 &&& 0xF))
  | 20 => c.setCop0 c0XContext (v &&& ~~~0x1FFFFFFFF ||| c.cop0 c0XContext &&& 0x1FFFFFFFF)
  | 26 => c.setCop0 26 (zext (v32 &&& 0xFF))
  | 27 => c
  | 7 | 21 | 22 | 23 | 24 | 25 | 31 => c
  | 28 => { c with mach := { c.mach with tagLo := v.toNat } }
  | r => c.setCop0 r v

/-- The mask field of a TLB entry counts in pairs of bits: the higher one
    decides. -/
def normPageMask (pm : Nat) : Nat :=
  (List.range 6).foldl (fun out k =>
    if (pm / 2 ^ 13).testBit (2 * k + 1) then out ||| 3 * 2 ^ (2 * k) else out) 0 * 2 ^ 13

/-- The complement in 64 bits. -/
def not64 (n : Nat) : Nat := (2 ^ 64 - 1) ^^^ n

def tlbWrite (index : Nat) (c : Core Dev) : Core Dev :=
  let i := index % 64
  if 32 ≤ i then c
  else
    let mask := normPageMask (c.cop0 c0PageMask).toNat
    let lo0 := (c.cop0 c0EntryLo0).toNat
    let lo1 := (c.cop0 c0EntryLo1).toNat
    let e : TlbEntry :=
      { mask := mask
        hi := c.cpu.entryHi &&& not64 mask
        lo0 := lo0 &&& 0x03FFFFFE
        lo1 := lo1 &&& 0x03FFFFFE
        global := lo0 % 2 == 1 && lo1 % 2 == 1 }
    (c.setCpu { c.cpu with tlb := c.cpu.tlb.set i e }).bumpXlat

/-- `TLBR` loads `EntryHi` too, and with it the address space. -/
def tlbRead (index : Nat) (c : Core Dev) : Core Dev :=
  let i := index % 64
  if 32 ≤ i then c
  else
    match c.cpu.tlb[i]? with
    | none => c
    | some e =>
      let g : BitVec 64 := if e.global then 1 else 0
      let c := c.setCop0 c0PageMask (BitVec.ofNat 64 e.mask)
      let c := c.setCop0 c0EntryLo0 (BitVec.ofNat 64 e.lo0 &&& ~~~1 ||| g)
      let c := c.setCop0 c0EntryLo1 (BitVec.ofNat 64 e.lo1 &&& ~~~1 ||| g)
      c.setCpu { c.cpu with entryHi := e.hi &&& not64 e.mask }

/-- Does `TLBP` take this entry? -/
def TlbEntry.probed (e : TlbEntry) (entryHi : Nat) : Bool :=
  let cmpMask := (0xFFFFFFFF ^^^ (e.mask % 2 ^ 32 ||| 0x1FFF)) &&& 0xFFFFE000
  (entryHi ^^^ e.hi) % 2 ^ 32 &&& cmpMask == 0
    && (entryHi ^^^ e.hi) &&& 0xC000000000000000 == 0
    && (e.global || e.hi % 0x100 == entryHi % 0x100)

def tlbProbe (c : Core Dev) : Core Dev :=
  match c.cpu.tlb.findIdx? (·.probed c.cpu.entryHi) with
  | some i => c.setCop0 c0Index (BitVec.ofNat 64 i)
  | none => c.setCop0 c0Index 0x80000000

/-- `ERET` has no delay slot. -/
def eret (c : Core Dev) : Core Dev :=
  let st := c.status
  let erl := st.testBit 2
  let target := c.cop0 (if erl then c0ErrorEPC else c0EPC)
  let st' := st &&& if erl then 0xFFFFFFFB else 0xFFFFFFFD
  { c.bumpXlat with
    mach := { c.mach with cpu := { c.cpu with status := st' }, llbit := false }
    pc := target
    nextPc := target + 4
    inDelay := false }

section Execute

/-- What the floating-point unit makes of an operation: `trap` is a
    floating-point exception. -/
structure FpuOut where
  fcr31 : BitVec 32
  fpr : Fin 32 → BitVec 64
  cycles : Nat
  trap : Bool

/-- An operation under `Status.FR`, the control register and the registers. -/
abbrev Fpu := BitVec 32 → Bool → BitVec 32 → (Fin 32 → BitVec 64) → FpuOut

variable (D : Devices Dev) (pak : Pak) (fpu : Fpu)

/-- The bytes `XLOG` logs. -/
def xlog : Nat → BitVec 64 → Core Dev → Core Dev
  | 0, _, c => c
  | n + 1, ptr, c => xlog n (ptr + 1) (Core.load D pak 1 ptr c).2

def xlogLen (len : BitVec 64) : Nat := min len.toNat 0x10000

/-- The registers of an `EMUX` instruction, which are not where the others
    have theirs. -/
def emuxRd (w : BitVec 32) : Fin 32 := ⟨w.toNat / 2 ^ 20 % 32, Nat.mod_lt _ (by decide)⟩

def emuxRt (w : BitVec 32) : Fin 32 := ⟨w.toNat / 2 ^ 15 % 32, Nat.mod_lt _ (by decide)⟩

/-- The extensions for a test program: detect, log and exit. -/
def emuxOp (w : BitVec 32) (c : Core Dev) : Core Dev :=
  let argRd := emuxRd w
  let argRt := emuxRt w
  let code := w.toNat / 2 ^ 6 % 0x200
  match opFunct w with
  | 0x20 => c.set argRd (if code = 1 then 0x1020 else 0)
  | 0x25 => xlog D pak (xlogLen (c.cpu.gpr argRt)) (c.cpu.gpr argRd) c
  | 0x2c => if code = 1 then { c with halted := true } else c
  | _ => c

/-- The functions of the CO space. -/
def cop0Co (w : BitVec 32) (c : Core Dev) : Core Dev :=
  match opFunct w with
  | 0x18 => eret c
  | 0x01 => tlbRead (c.cop0 c0Index).toNat c
  | 0x02 => tlbWrite (c.cop0 c0Index).toNat c
  | 0x06 => tlbWrite (c.cop0 c0Random).toNat c
  | 0x08 => tlbProbe c
  | _ => emuxOp D pak w c

def cop0op (w : BitVec 32) (c : Core Dev) : Core Dev :=
  if cpuMode c.status ≠ 0 && !c.status.testBit 28 then c.perform (.raise .copUnusable)
  else
    match (opRs w).val with
    | 0x00 => c.set (opRt w) (sext ((readCop0 (opRd w) c).setWidth 32))
    | 0x04 => writeCop0 (opRd w) (sext ((c.cpu.gpr (opRt w)).setWidth 32)) c
    | 0x01 => c.set (opRt w) (readCop0 (opRd w) c)
    | 0x05 => writeCop0 (opRd w) (c.cpu.gpr (opRt w)) c
    | _ => if w.getLsbD 25 then cop0Co D pak w c else c.perform unimplemented

/-! ## Section 5: Coprocessors 1 and 2 -/

/-- `CTC1` to the control register may leave a cause armed. `Cause.CE` then
    comes from the next instruction. -/
def ctc1 (w : BitVec 32) (c : Core Dev) : Core Dev :=
  if opRd w ≠ 31 then c
  else
    let fcr31 : BitVec 32 := (c.cpu.gpr (opRt w)).setWidth 32 &&& 0x0183FFFF
    let c := { c with fcr31 := fcr31 }
    if fcr31.getLsbD 17 || (fcr31 >>> 12) &&& (fcr31 >>> 7) &&& 0x1f != 0 then
      let r := read32 D pak c.cpu.cartNow (c.pc.toNat % 2 ^ 32) c.cpu.mem
      let nop := r.1.toNat / 2 ^ 26
      (raise 15 (c.setCpu { c.cpu with mem := r.2 })).setCe
        (if 0x10 ≤ nop ∧ nop ≤ 0x13 then nop - 0x10 else 0)
    else c

/-- `FCR0`, the revision. -/
def fcr0 : BitVec 32 := 0x00000a00

/-- An arithmetic operation, conversion or comparison. -/
def fpuOp (w : BitVec 32) (c : Core Dev) : Core Dev :=
  let out := fpu w (c.status.testBit 26) c.fcr31 c.cpu.fpr
  let c := { c with fcr31 := out.fcr31 }
  let c := c.setCpu { c.cpu with
    fpr := out.fpr
    stallCycles := c.cpu.stallCycles + out.cycles }
  if out.trap then raise 15 c else c

def cop1op (w : BitVec 32) (c : Core Dev) : Core Dev :=
  let rd := opRd w
  let b := c.cpu.gpr (opRt w)
  if !c.status.testBit 29 then c.perform (.raiseCe .copUnusable 1)
  else
    match (opRs w).val with
    | 0x00 => c.perform (.set (opRt w) (sext (c.cpu.fprGet32 rd)))
    | 0x01 => c.perform (.set (opRt w) (c.cpu.fprGet64 rd))
    | 0x02 => c.perform (.set (opRt w)
        (sext (if rd = 31 then c.fcr31 else if rd = 0 then fcr0 else 0)))
    | 0x04 => c.perform (.fpr32 rd (b.setWidth 32))
    | 0x05 => c.perform (.fpr64 rd b)
    | 0x06 => ctc1 D pak w c
    | 0x08 => c.perform (.branch ((opRt w).val.testBit 1) false
        ((opRt w).val.testBit 0 == c.fcr31.getLsbD 23) (c.pc + opOffset w))
    | _ => fpuOp fpu w c

/-- Coprocessor 2 is one latch. -/
def cop2op (w : BitVec 32) (c : Core Dev) : Eff :=
  if !c.status.testBit 30 then .raiseCe .copUnusable 2
  else
    match (opRs w).val with
    | 0x00 => .set (opRt w) (sext (c.cp2latch.setWidth 32))
    | 0x01 => .set (opRt w) c.cp2latch
    | 0x02 => .set (opRt w) 0
    | 0x04 => .cp2 (c.cpu.gpr (opRt w))
    | 0x05 => .cp2 (c.cpu.gpr (opRt w))
    | 0x06 => .nop
    | _ => .raiseCe .reservedInstruction 2

/-! ## Section 6: execute -/

/-- The primary opcodes that are reserved in 32-bit user and supervisor
    mode. -/
def isOp64 : Nat → Bool
  | 0x18 | 0x19 | 0x1a | 0x1b | 0x27 | 0x2c | 0x2d | 0x34 | 0x37 | 0x3c | 0x3f => true
  | _ => false

/-- The memory instructions. -/
inductive MemKind where
  | load (op : Op)
  | store (op : Op)
  | unaligned (op : UnOp)
  | linked (width : Nat)
  | conditional (width : Nat)
  | cache

def MemKind.decode : Nat → Option MemKind
  | 0x1a => some (.unaligned .ldl)
  | 0x1b => some (.unaligned .ldr)
  | 0x20 => some (.load .lb)
  | 0x21 => some (.load .lh)
  | 0x22 => some (.unaligned .lwl)
  | 0x23 => some (.load .lw)
  | 0x24 => some (.load .lbu)
  | 0x25 => some (.load .lhu)
  | 0x26 => some (.unaligned .lwr)
  | 0x27 => some (.load .lwu)
  | 0x28 => some (.store .sb)
  | 0x29 => some (.store .sh)
  | 0x2a => some (.unaligned .swl)
  | 0x2b => some (.store .sw)
  | 0x2c => some (.unaligned .sdl)
  | 0x2d => some (.unaligned .sdr)
  | 0x2e => some (.unaligned .swr)
  | 0x2f => some .cache
  | 0x30 => some (.linked 4)
  | 0x31 => some (.load .lwc1)
  | 0x34 => some (.linked 8)
  | 0x35 => some (.load .ldc1)
  | 0x37 => some (.load .ld)
  | 0x38 => some (.conditional 4)
  | 0x39 => some (.store .swc1)
  | 0x3c => some (.conditional 8)
  | 0x3d => some (.store .sdc1)
  | 0x3f => some (.store .sd)
  | _ => none

def execMem (k : MemKind) (w : BitVec 32) (c : Core Dev) : Core Dev :=
  let rt := opRt w
  let a := c.cpu.gpr (opRs w) + opSimm w
  match k with
  | .load op =>
    if op.isFp && !c.status.testBit 29 then c.perform (.raiseCe .copUnusable 1)
    else Core.execLoad D pak op rt a c
  | .store op =>
    if op.isFp && !c.status.testBit 29 then c.perform (.raiseCe .copUnusable 1)
    else Core.execStore D pak ⟨op, opRs w, rt, opSimm w⟩ a c
  | .unaligned op => Core.execUnaligned D pak op rt a c
  | .linked width => Core.execLinked D pak width rt a c
  | .conditional width => Core.execConditional D pak width rt a c
  | .cache => Core.execCache D pak rt a c

def Core.execute (w : BitVec 32) (c : Core Dev) : Core Dev :=
  if isOp64 (opOP w) && reserved64 c.status then c.perform (.raise .reservedInstruction)
  else
    match MemKind.decode (opOP w) with
    | some k => execMem D pak k w c
    | none =>
      match opOP w with
      | 0x00 => c.perform (special w c)
      | 0x01 => c.perform (regimm w c)
      | 0x10 => cop0op D pak w c
      | 0x11 => cop1op D pak fpu w c
      | 0x12 => c.perform (cop2op w c)
      | _ => c.perform (immediate w c)

/-- `step` in front of `execute`: the instruction's address is out of `pc`,
    and `pc` and `nextPc` move on. -/
def Core.advance (c : Core Dev) : Core Dev :=
  { c with
    pc := c.nextPc
    nextPc := c.nextPc + 4
    justBranched := false }

/-- The instruction at `pc` goes into execution. -/
def Core.issue (c : Core Dev) : Core Dev :=
  { c with curPc := c.pc, memAbort := false }.advance

/-- `step` behind `execute`. -/
def Core.retire (c : Core Dev) : Core Dev :=
  { c.setCpu { c.cpu with gpr := fun i => if i = 0 then 0 else c.cpu.gpr i } with
    inDelay := c.justBranched }

/-- One instruction, fetched already and not interrupted. -/
def Core.stepOp (w : BitVec 32) (c : Core Dev) : Core Dev :=
  (c.issue.execute D pak fpu w).retire

end Execute

end Cpu
