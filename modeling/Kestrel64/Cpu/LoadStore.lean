import Kestrel64.Cpu.Translate

/-! # CPU: Loads and Stores

    The access ladder of `cpu/cpu.cpp` in its three copies: the interpreter
    (`execute` with `read8` to `write64`), the generic dynarec helper
    `jitMem` and the helper `jitMemOp` specialised by opcode.

    A helper returns 0 to hand the instruction to the interpreter, and
    otherwise 1, or 2 where the access armed a deadline. Host-side state is
    left out: statistics, debug watches and the barrier that keeps the RSP's
    thread from overtaking the CPU's.
-/

namespace Cpu

variable {Dev : Type}

/-! ## Section 1: Instructions -/

inductive Op where
  | lb | lh | lw | lbu | lhu | lwu | ld
  | sb | sh | sw | sd
  | lwc1 | ldc1 | swc1 | sdc1
  deriving DecidableEq, Repr

structure Instr where
  op : Op
  rs : Fin 32
  rt : Fin 32
  simm : BitVec 64

/-- The effective address `gpr[RS] + SIMM`. -/
def Instr.addr (i : Instr) (s : State Dev) : BitVec 64 := s.gpr i.rs + i.simm

/-- `r0` is hardwired. -/
def State.set (s : State Dev) (i : Fin 32) (v : BitVec 64) : State Dev :=
  if i = 0 then s else { s with gpr := fun j => if j = i then v else s.gpr j }

def State.setFpr (s : State Dev) (i : Fin 32) (v : BitVec 64) : State Dev :=
  { s with fpr := fun j => if j = i then v else s.fpr j }

/-- The even register of the pair. -/
def evenReg (i : Fin 32) : Fin 32 := ⟨i.val / 2 * 2, by omega⟩

def State.fprGet64 (s : State Dev) (i : Fin 32) : BitVec 64 :=
  if s.status.testBit 26 then s.fpr i else s.fpr (evenReg i)

def State.fprSet64 (s : State Dev) (i : Fin 32) (v : BitVec 64) : State Dev :=
  if s.status.testBit 26 then s.setFpr i v else s.setFpr (evenReg i) v

def State.fprGet32 (s : State Dev) (i : Fin 32) : BitVec 32 :=
  if s.status.testBit 26 then (s.fpr i).setWidth 32
  else if i.val % 2 = 1 then (s.fpr (evenReg i) >>> 32).setWidth 32
  else (s.fpr i).setWidth 32

def State.fprSet32 (s : State Dev) (i : Fin 32) (v : BitVec 32) : State Dev :=
  let low := s.fpr i &&& 0xffffffff00000000 ||| v.setWidth 64
  if s.status.testBit 26 then s.setFpr i low
  else if i.val % 2 = 1 then
    let e := evenReg i
    s.setFpr e (s.fpr e &&& 0x00000000ffffffff ||| v.setWidth 64 <<< 32)
  else s.setFpr i low

def sext {n : Nat} (v : BitVec n) : BitVec 64 := v.signExtend 64

def zext {n : Nat} (v : BitVec n) : BitVec 64 := v.setWidth 64

/-! ## Section 2: The data cache and the bus -/

section Access

variable (D : Devices Dev) (pak : Pak)

/-- The CPU is about to look at `[lo, hi)` of RDRAM. -/
def State.settle (s : State Dev) (lo hi : Nat) : State Dev :=
  { s with mem := dmaSettle D pak s.cartNow lo hi s.mem }

/-- Write a dirty line back and fill the line with `base`. -/
def dcMiss (idx base : Nat) (s : State Dev) : State Dev :=
  let s := { s with stallCycles := s.stallCycles + s.dcMissCycles }
  let l := s.dcache idx
  let s := s.settle D pak base (base + 16)
  let s :=
    if l.dirty && l.tagv % 2 == 1 then
      let tag := l.tagv / 16 * 16
      let s := s.settle D pak tag (tag + 16)
      let ram := fun a =>
        if tag ≤ a ∧ a < tag + 16 ∧ a < pak.size then l.data (a - tag) else s.mem.rdram a
      { s with mem := { s.mem with rdram := ram } }
    else s
  let line : DCacheLine :=
    { tagv := base + 1
      dirty := false
      data := fun i => if base + i < pak.size then s.mem.rdram (base + i) else 0 }
  { s with dcache := fun j => if j = idx then line else s.dcache j }

/-- Bring the line of `pe` in if another one is there. -/
def dcTouch (pe : Nat) (s : State Dev) : State Dev :=
  let idx := pe / 16 % 512
  let base := pe / 16 * 16
  if (s.dcache idx).tagv ≠ base + 1 then dcMiss D pak idx base s else s

def dcRead (pe size : Nat) (s : State Dev) : BitVec 64 × State Dev :=
  let s := dcTouch D pak pe s
  (beRead (s.dcache (pe / 16 % 512)).data (pe % 16) size, s)

def dcWrite (pe : Nat) (val : BitVec 64) (size : Nat) (s : State Dev) : State Dev :=
  let s := dcTouch D pak pe s
  let l := s.dcache (pe / 16 % 512)
  let line := { l with data := beWrite l.data (pe % 16) size val, dirty := true }
  { s with dcache := fun j => if j = pe / 16 % 512 then line else s.dcache j }

/-- An uncached access settles the journal under it first. -/
def ramSettle (pe size : Nat) (s : State Dev) : State Dev :=
  if pe < pak.size then s.settle D pak pe (pe + size) else s

/-- `mem->read8` to `mem->read64`. -/
def busLoad (size pe : Nat) (s : State Dev) : BitVec 64 × State Dev :=
  let now := s.cartNow
  if size = 1 then
    let r := read8 D pak now pe s.mem
    (zext r.1, { s with mem := r.2 })
  else if size = 2 then
    let r := read16 D pak now pe s.mem
    (zext r.1, { s with mem := r.2 })
  else if size = 4 then
    let r := read32 D pak now pe s.mem
    (zext r.1, { s with mem := r.2 })
  else
    let r := read64 D pak now pe s.mem
    (r.1, { s with mem := r.2 })

/-- `mem->write8` to `mem->write64`. -/
def busStore (size pe : Nat) (v : BitVec 64) (s : State Dev) : State Dev :=
  let now := s.cartNow
  if size = 1 then { s with mem := write8 D pak now pe (v.setWidth 8) s.mem }
  else if size = 2 then { s with mem := write16 D pak now pe (v.setWidth 16) s.mem }
  else if size = 4 then { s with mem := write32 D pak now pe (v.setWidth 32) s.mem }
  else { s with mem := write64 D pak now pe v s.mem }

/-- The register is sampled first, the stall is charged after. -/
def uncachedRead (pe size : Nat) (s : State Dev) : BitVec 64 × State Dev :=
  let s := ramSettle D pak pe size s
  let r := busLoad D pak size pe s
  (r.1, { r.2 with stallCycles := r.2.stallCycles + r.2.uncachedCycles })

/-- The MI repeat arm: the next store to RDRAM is broadcast, once. -/
def storeRepeat (pm : Nat) (reg : BitVec 64) (sz : Nat) (s : State Dev) :
    Option (State Dev) :=
  if !s.mem.miRepeatOn then none
  else if pak.size ≤ pm then none
  else
    some { s with
      stGuardRepeat := false
      mem := miRepeatStore D pak s.cartNow pm reg sz { s.mem with miRepeatOn := false } }

/-- A sub-word store to the cartridge latches a halfword on its bus. -/
def storeCart (pm : Nat) (reg : BitVec 64) (width : Nat) (s : State Dev) :
    Option (State Dev) :=
  if !isCart s.mem pm then none
  else
    let hw : BitVec 16 := (reg <<< ((2 - width - pm % 2) * 8)).setWidth 16
    some { s with mem := D.cartWrite s.cartNow pm (zext hw) 2 s.mem }

def storeQuirk (pm : Nat) (reg : BitVec 64) (width : Nat) (s : State Dev) :
    Option (State Dev) :=
  (wordStoreQuirk D pak s.cartNow pm reg width s.mem).map fun m => { s with mem := m }

/-- The bus address of a unit: doublewords are not moved by `reXor`. -/
def busAddr (st p sz : Nat) : Nat :=
  if sz = 8 then p % 2 ^ 32 else reXor st p sz % 2 ^ 32

def inRdram (a pe : Nat) (s : State Dev) : Bool := cacheable a s && pe < pak.size

/-! ## Section 3: The interpreter -/

def alignBad (v size : Nat) (acc : Access) : Except Exc Unit :=
  if v % size ≠ 0 then .error (.addressError acc) else .ok ()

/-- The body of `read8` to `read64`. -/
def readN (size : Nat) (v : BitVec 64) (s : State Dev) : Except Exc (BitVec 64 × State Dev) := do
  alignBad v.toNat size .read
  let r ← xlat v.toNat .read s
  let s := r.2
  let pe := busAddr s.status r.1 size
  return if inRdram pak v.toNat pe s then dcRead D pak pe size s
    else uncachedRead D pak pe size s

/-- The body of `write32` and `write64`. -/
def writeN (size : Nat) (v x : BitVec 64) (s : State Dev) : Except Exc (State Dev) := do
  alignBad v.toNat size .write
  let r ← xlat v.toNat .write s
  let s := r.2
  let pe := busAddr s.status r.1 size
  return if inRdram pak v.toNat pe s then dcWrite D pak pe x size s
    else busStore D pak size pe x (ramSettle D pak pe size s)

def State.read8 (v : BitVec 64) (s : State Dev) : Except Exc (BitVec 8 × State Dev) := do
  let r ← readN D pak 1 v s
  return (r.1.setWidth 8, r.2)

def State.read16 (v : BitVec 64) (s : State Dev) : Except Exc (BitVec 16 × State Dev) := do
  let r ← readN D pak 2 v s
  return (r.1.setWidth 16, r.2)

def State.read32 (v : BitVec 64) (s : State Dev) : Except Exc (BitVec 32 × State Dev) := do
  let r ← readN D pak 4 v s
  return (r.1.setWidth 32, r.2)

def State.read64 (v : BitVec 64) (s : State Dev) : Except Exc (BitVec 64 × State Dev) :=
  readN D pak 8 v s

def State.write32 (v : BitVec 64) (x : BitVec 32) (s : State Dev) : Except Exc (State Dev) :=
  writeN D pak 4 v (zext x) s

def State.write64 (v x : BitVec 64) (s : State Dev) : Except Exc (State Dev) :=
  writeN D pak 8 v x s

/-- `SB` and `SH`: repeat, cartridge latch, word-store quirk, cache or bus. -/
def storeSub (size : Nat) (a reg : BitVec 64) (s : State Dev) : Except Exc (State Dev) := do
  alignBad a.toNat size .write
  let r ← xlat a.toNat .write s
  let s := r.2
  let pm := r.1 % 2 ^ 32 % 2 ^ 29
  let pe := reXor s.status r.1 size % 2 ^ 32
  return (storeRepeat D pak pm reg size s).getD <|
    (storeCart D pm reg size s).getD <|
    (storeQuirk D pak pm reg size s).getD <|
    if inRdram pak a.toNat pe s then dcWrite D pak pe reg size s
    else busStore D pak size pe reg (ramSettle D pak pe size s)

/-- `SW`: repeat, cache or bus. -/
def storeWord (a reg : BitVec 64) (s : State Dev) : Except Exc (State Dev) := do
  alignBad a.toNat 4 .write
  let r ← xlat a.toNat .write s
  let s := r.2
  let pm := r.1 % 2 ^ 32 % 2 ^ 29
  let pe := reXor s.status r.1 4 % 2 ^ 32
  return (storeRepeat D pak pm reg 4 s).getD <|
    if inRdram pak a.toNat pe s then dcWrite D pak pe reg 4 s
    else busStore D pak 4 pe reg (ramSettle D pak pe 4 s)

/-- `SD`: repeat, word-store quirk, cache or bus. The bus store does not
    settle the journal. -/
def storeDouble (a reg : BitVec 64) (s : State Dev) : Except Exc (State Dev) := do
  alignBad a.toNat 8 .write
  let r ← xlat a.toNat .write s
  let s := r.2
  let pm := r.1 % 2 ^ 32 % 2 ^ 29
  let pe := r.1 % 2 ^ 32
  return (storeRepeat D pak pm reg 8 s).getD <|
    (storeQuirk D pak pm reg 8 s).getD <|
    if inRdram pak a.toNat pe s then dcWrite D pak pe reg 8 s
    else busStore D pak 8 pe reg s

/-- The opcodes that are reserved in 32-bit user and supervisor mode. -/
def Op.is64 : Op → Bool
  | .lwu | .ld | .sd => true
  | _ => false

/-- The opcodes that need coprocessor 1. -/
def Op.isFp : Op → Bool
  | .lwc1 | .ldc1 | .swc1 | .sdc1 => true
  | _ => false

/-- The load and store cases of `execute` behind its checks on the opcode. -/
def executeOp (i : Instr) (s : State Dev) : Except Exc (State Dev) :=
  let a := i.addr s
  match i.op with
  | .lb => do
    let r ← State.read8 D pak a s
    return r.2.set i.rt (sext r.1)
  | .lh => do
    let r ← State.read16 D pak a s
    return r.2.set i.rt (sext r.1)
  | .lw => do
    let r ← State.read32 D pak a s
    return r.2.set i.rt (sext r.1)
  | .lbu => do
    let r ← State.read8 D pak a s
    return r.2.set i.rt (zext r.1)
  | .lhu => do
    let r ← State.read16 D pak a s
    return r.2.set i.rt (zext r.1)
  | .lwu => do
    let r ← State.read32 D pak a s
    return r.2.set i.rt (zext r.1)
  | .ld => do
    let r ← State.read64 D pak a s
    return r.2.set i.rt r.1
  | .sb => storeSub D pak 1 a (s.gpr i.rt) s
  | .sh => storeSub D pak 2 a (s.gpr i.rt) s
  | .sw => storeWord D pak a (s.gpr i.rt) s
  | .sd => storeDouble D pak a (s.gpr i.rt) s
  | .lwc1 => do
    let r ← State.read32 D pak a s
    return r.2.fprSet32 i.rt r.1
  | .ldc1 => do
    let r ← State.read64 D pak a s
    return r.2.fprSet64 i.rt r.1
  | .swc1 => State.write32 D pak a (s.fprGet32 i.rt) s
  | .sdc1 => State.write64 D pak a (s.fprGet64 i.rt) s

/-- `execute`: reserved opcodes and an unusable coprocessor first. -/
def execute (i : Instr) (s : State Dev) : Except Exc (State Dev) :=
  if i.op.is64 && reserved64 s.status then .error .reservedInstruction
  else if i.op.isFp && !s.status.testBit 29 then .error .copUnusable
  else executeOp D pak i s

/-! ## Section 4: The dynarec helpers -/

/-- Width of the access. -/
def Op.size : Op → Nat
  | .lb | .lbu | .sb => 1
  | .lh | .lhu | .sh => 2
  | .lw | .lwu | .sw | .lwc1 | .swc1 => 4
  | .ld | .sd | .ldc1 | .sdc1 => 8

def Op.store : Op → Bool
  | .sb | .sh | .sw | .sd | .swc1 | .sdc1 => true
  | _ => false

def Op.access (op : Op) : Access := if op.store then .write else .read

/-- The register a load writes, from the raw value. -/
def loadInto (op : Op) (rt : Fin 32) (raw : BitVec 64) (s : State Dev) : State Dev :=
  match op with
  | .lb => s.set rt (sext (raw.setWidth 8))
  | .lh => s.set rt (sext (raw.setWidth 16))
  | .lw => s.set rt (sext (raw.setWidth 32))
  | .lbu => s.set rt (zext (raw.setWidth 8))
  | .lhu => s.set rt (zext (raw.setWidth 16))
  | .lwu => s.set rt (zext (raw.setWidth 32))
  | .lwc1 => s.fprSet32 rt (raw.setWidth 32)
  | .ldc1 => s.fprSet64 rt raw
  | _ => s.set rt raw

/-- The store ladder of `jitMem`. -/
def jitStore (sz a p : Nat) (reg : BitVec 64) (s : State Dev) : State Dev :=
  let pe := busAddr s.status p sz
  let pm := p % 2 ^ 32 % 2 ^ 29
  (storeRepeat D pak pm reg sz s).getD <|
    (if sz = 1 ∨ sz = 2 then storeCart D pm reg sz s else none).getD <|
    (if sz ≠ 4 then storeQuirk D pak pm reg sz s else none).getD <|
    if inRdram pak a pe s then dcWrite D pak pe reg sz s
    else busStore D pak sz pe reg (ramSettle D pak pe sz s)

/-- The generic helper: integer loads and stores. -/
def jitMem (i : Instr) (s : State Dev) : Nat × State Dev :=
  let a := (i.addr s).toNat
  if i.op.isFp then (0, s)
  else if i.op.is64 && reserved64 s.status then (0, s)
  else if 1 < i.op.size ∧ a % i.op.size ≠ 0 then (0, s)
  else
    match translate true a i.op.access s with
    | .error _ => (0, s)
    | .ok (p, s) =>
      if p = 2 ^ 64 - 1 then (0, s)
      else if i.op.store then (1, jitStore D pak i.op.size a p (s.gpr i.rt) s)
      else
        let pe := busAddr s.status p i.op.size
        let r := if inRdram pak a pe s then dcRead D pak pe i.op.size s
          else uncachedRead D pak pe i.op.size s
        (1, loadInto i.op i.rt r.1 r.2)

/-- The translation of `jitMemOp`: the shortcut, else a probe. `none` is a
    fault. -/
def jitXlat (a : Nat) (acc : Access) (s : State Dev) : Option (Nat × State Dev) :=
  match xlatDirect a s with
  | some p => some (p, s)
  | none =>
    match translate true a acc s with
    | .error _ => none
    | .ok (p, s) => if p = 2 ^ 64 - 1 then none else some (p, s)

/-- The return code of an access that reached the bus: did it arm a
    deadline? -/
def armed (s s' : State Dev) : Nat :=
  if D.armEpoch s'.mem.dev ≠ D.armEpoch s.mem.dev then 2 else 1

/-- The load half of `jitMemOp`. -/
def jitMemOpLoad (op : Op) (a p : Nat) (rt : Fin 32) (s : State Dev) : Nat × State Dev :=
  let pe := busAddr s.status p op.size
  if inRdram pak a pe s then
    let r := dcRead D pak pe op.size s
    (1, loadInto op rt r.1 r.2)
  else
    let r := uncachedRead D pak pe op.size s
    (armed D s r.2, loadInto op rt r.1 r.2)

/-- The store half of `jitMemOp`. -/
def jitMemOpStore (sz a p : Nat) (reg : BitVec 64) (s : State Dev) : Nat × State Dev :=
  let pe := busAddr s.status p sz
  let pm := p % 2 ^ 32 % 2 ^ 29
  match storeRepeat D pak pm reg sz s with
  | some s' => (1, s')
  | none =>
    match (if sz = 1 ∨ sz = 2 then storeCart D pm reg sz s else none) with
    | some s' => (1, s')
    | none =>
      match (if sz ≠ 4 then storeQuirk D pak pm reg sz s else none) with
      | some s' => (1, s')
      | none =>
        if inRdram pak a pe s then
          (1, dcWrite D pak pe reg sz s)
        else
          let s := ramSettle D pak pe sz s
          let s' := busStore D pak sz pe reg s
          (armed D s s', s')

/-- The helper specialised by opcode, called with the address and the value
    of the source register. -/
def jitMemOp (op : Op) (a : BitVec 64) (rt : Fin 32) (rtVal : BitVec 64) (s : State Dev) :
    Nat × State Dev :=
  let a := a.toNat
  if op.isFp && !s.status.testBit 29 then (0, s)
  else if op.is64 && reserved64 s.status then (0, s)
  else if 1 < op.size ∧ a % op.size ≠ 0 then (0, s)
  else
    match jitXlat a op.access s with
    | none => (0, s)
    | some (p, s) =>
      if op.store then
        -- the value of `SWC1` and `SDC1` comes from the FPU bank
        let rtVal := if !op.isFp then rtVal
          else if op.size = 4 then zext (s.fprGet32 rt) else s.fprGet64 rt
        jitMemOpStore D pak op.size a p rtVal s
      else jitMemOpLoad D pak op a p rt s

end Access

end Cpu
