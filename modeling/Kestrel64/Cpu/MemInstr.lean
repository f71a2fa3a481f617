import Kestrel64.Cpu.DCache
import Kestrel64.Cpu.HelperEquiv

/-! # CPU: the Other Memory Instructions

    The instructions of `execute` in `cpu/cpu.cpp` that reach the data cache
    or the bus and are not plain loads and stores: the unaligned loads and
    stores, the linked ones, and `CACHE` with the instruction cache behind
    it. `Machine` is the CPU with the state these need.

    An instruction that faults leaves the machine as it was at the fault;
    the entry into the exception handler is not here.
-/

namespace Cpu

variable {Dev : Type}

/-! ## Section 1: State -/

/-- A line of the instruction cache: 32 bytes. -/
structure ICacheLine where
  ptag : Nat
  valid : Bool
  seq : Nat
  data : Nat → Byte

structure Machine (Dev : Type) where
  cpu : State Dev
  icache : Nat → ICacheLine
  icSeq : Nat
  icMissCycles : Nat
  /-- `TagLo`, register 28 of coprocessor 0. -/
  tagLo : Nat
  llbit : Bool
  /-- `LLAddr`, register 17 of coprocessor 0. -/
  llAddr : Nat

/-! ## Section 2: Unaligned loads and stores -/

inductive UnOp where
  | lwl | lwr | ldl | ldr
  | swl | swr | sdl | sdr
  deriving DecidableEq, Repr

def UnOp.width : UnOp → Nat
  | .lwl | .lwr | .swl | .swr => 4
  | .ldl | .ldr | .sdl | .sdr => 8

def UnOp.left : UnOp → Bool
  | .lwl | .ldl | .swl | .sdl => true
  | _ => false

def UnOp.store : UnOp → Bool
  | .swl | .swr | .sdl | .sdr => true
  | _ => false

/-- Reverse-endian user mode. -/
def reOn (st : Nat) : Bool := st.testBit 25 && cpuMode st = 2

/-- How far the unit is shifted against the memory word. -/
def UnOp.shift (op : UnOp) (st a : Nat) : Nat :=
  let k := a % op.width
  8 * if op.left = reOn st then op.width - 1 - k else k

/-- The word around the address. -/
def alignDown (a : BitVec 64) (w : Nat) : BitVec 64 := BitVec.ofNat 64 (a.toNat / w * w)

/-- Memory into the register: the bytes the load does not reach are kept. -/
def mergeLoad {n : Nat} (left : Bool) (s : Nat) (cur d : BitVec n) : BitVec n :=
  if left then
    (cur &&& if s = 0 then 0 else BitVec.allOnes n >>> (n - s)) ||| d <<< s
  else
    (cur &&& if s = 0 then 0 else BitVec.allOnes n <<< (n - s)) ||| d >>> s

/-- The register into memory. -/
def mergeStore {n : Nat} (left : Bool) (s : Nat) (rt d : BitVec n) : BitVec n :=
  if left then (d &&& ~~~(BitVec.allOnes n >>> s)) ||| rt >>> s
  else (d &&& ~~~(BitVec.allOnes n <<< s)) ||| rt <<< s

/-- The register after an unaligned load. `LWR` only extends the sign when it
    loaded the sign. -/
def UnOp.loaded (op : UnOp) (s : Nat) (rt d : BitVec 64) : BitVec 64 :=
  if op.width = 8 then mergeLoad op.left s rt d
  else
    let w := mergeLoad op.left s (rt.setWidth 32) (d.setWidth 32)
    if op.left ∨ s = 0 then sext w else rt &&& 0xffffffff00000000 ||| zext w

/-- The word an unaligned store writes back. -/
def UnOp.stored (op : UnOp) (s : Nat) (rt d : BitVec 64) : BitVec 64 :=
  if op.width = 8 then mergeStore op.left s rt d
  else zext (mergeStore op.left s (rt.setWidth 32) (d.setWidth 32))

section Exec

variable (D : Devices Dev) (pak : Pak)

def loadUnaligned (op : UnOp) (rt : Fin 32) (a : BitVec 64) (s : State Dev) : State Dev :=
  match readN D pak op.width (alignDown a op.width) s with
  | .error _ => s
  | .ok (d, s') => s'.set rt (op.loaded (op.shift s.status a.toNat) (s'.gpr rt) d)

/-- The address is translated for a store first, so that a fault is the
    store's; then the word is read, merged and written. -/
def storeUnaligned (op : UnOp) (rt : Fin 32) (a : BitVec 64) (s : State Dev) : State Dev :=
  let v := alignDown a op.width
  match xlat a.toNat .write s with
  | .error _ => s
  | .ok (_, s) =>
    match readN D pak op.width v s with
    | .error _ => s
    | .ok (d, s) =>
      let x := op.stored (op.shift s.status a.toNat) (s.gpr rt) d
      match writeN D pak op.width v x s with
      | .error _ => s
      | .ok s => s

/-! ## Section 3: Linked loads and stores -/

inductive LinkOp where
  | ll | lld | sc | scd
  deriving DecidableEq, Repr

def LinkOp.width : LinkOp → Nat
  | .ll | .sc => 4
  | .lld | .scd => 8

def LinkOp.store : LinkOp → Bool
  | .sc | .scd => true
  | _ => false

/-- `LL` and `LLD` remember the physical address. -/
def loadLinked (w : Nat) (rt : Fin 32) (a : BitVec 64) (m : Machine Dev) : Machine Dev :=
  match gate a.toNat w .read m.cpu, readN D pak w a m.cpu with
  | .ok (pa, _), .ok (d, s) =>
    { m with
      cpu := s.set rt (if w = 8 then d else sext (d.setWidth 32))
      llAddr := pa / 2 ^ 4 % 2 ^ 32
      llbit := true }
  | _, _ => m

/-- `SC` and `SCD` store if the link is up. -/
def storeConditional (w : Nat) (rt : Fin 32) (a : BitVec 64) (m : Machine Dev) : Machine Dev :=
  if a.toNat % w ≠ 0 then m
  else if m.llbit then
    match writeN D pak w a (if w = 8 then m.cpu.gpr rt else zext ((m.cpu.gpr rt).setWidth 32))
      m.cpu with
    | .error _ => m
    | .ok s => { m with cpu := s.set rt 1 }
  else { m with cpu := m.cpu.set rt 0 }

/-! ## Section 4: CACHE -/

def Machine.setILine (m : Machine Dev) (idx : Nat) (l : ICacheLine) : Machine Dev :=
  { m with icache := fun j => if j = idx then l else m.icache j }

def icFill (idx base : Nat) (m : Machine Dev) : Machine Dev :=
  let s := m.cpu.settle D pak base (base + 32)
  let m := { m with
    cpu := { s with stallCycles := s.stallCycles + m.icMissCycles }
    icSeq := m.icSeq + 1 }
  m.setILine idx
    { ptag := base
      valid := true
      seq := m.icSeq
      data := fun i => if base + i < pak.size then s.mem.rdram (base + i) else 0 }

/-- RDRAM with the bytes of the line over it. -/
def ICacheLine.writeTo (l : ICacheLine) (size : Nat) (ram : Nat → Byte) : Nat → Byte := fun a =>
  if l.ptag ≤ a ∧ a < l.ptag + 32 ∧ a < size then l.data (a - l.ptag) else ram a

/-- The operations of `CACHE` on the instruction cache. -/
inductive ICacheFn where
  | indexInvalidate
  | indexLoadTag
  | indexStoreTag
  | hitInvalidate
  | fill
  | hitWriteback
  | reserved
  deriving DecidableEq, Repr

def ICacheFn.decode : Nat → ICacheFn
  | 0 => .indexInvalidate
  | 1 => .indexLoadTag
  | 2 => .indexStoreTag
  | 4 => .hitInvalidate
  | 5 => .fill
  | 6 => .hitWriteback
  | _ => .reserved

/-- The instruction half of `cacheOp`. -/
def cacheOpI (fn : ICacheFn) (vaddr : Nat) (m : Machine Dev) : Machine Dev :=
  let phys := vaddr % 2 ^ 29
  let idx := phys / 32 % 512
  let base := phys / 32 * 32
  let l := m.icache idx
  match fn with
  | .indexInvalidate => m.setILine idx { l with valid := false }
  | .indexLoadTag =>
    let pstate := if l.valid then 2 else 0
    { m with tagLo := pstate * 2 ^ 6 ||| l.ptag / 2 ^ 12 * 2 ^ 8 }
  | .indexStoreTag =>
    let pstate := m.tagLo / 2 ^ 6 % 4
    m.setILine idx
      { l with valid := pstate ≠ 0, ptag := m.tagLo / 2 ^ 8 % 2 ^ 20 * 2 ^ 12 }
  | .hitInvalidate =>
    if l.valid && l.ptag == base then m.setILine idx { l with valid := false } else m
  | .fill => icFill D pak idx base m
  | .hitWriteback =>
    if l.valid && l.ptag == base then
      let s := m.cpu.settle D pak l.ptag (l.ptag + 32)
      { m with cpu := { s with mem :=
        { s.mem with rdram := l.writeTo pak.size s.mem.rdram } } }
    else m
  | .reserved => m

/-- `cacheOp`: bit 0 of the field selects the cache, bits 4 to 2 the
    operation. -/
def cacheOp (op vaddr : Nat) (m : Machine Dev) : Machine Dev :=
  if op % 2 = 1 then
    let r := cacheOpD D pak (.decode (op / 4 % 8)) vaddr m.tagLo m.cpu
    { m with tagLo := r.1, cpu := r.2 }
  else cacheOpI D pak (.decode (op / 4 % 8)) vaddr m

/-- `CACHE` is privileged, and its address is translated as a load's. -/
def execCache (op : Fin 32) (a : BitVec 64) (m : Machine Dev) : Machine Dev :=
  if cpuMode m.cpu.status ≠ 0 && !m.cpu.status.testBit 28 then m
  else
    match translate false a.toNat .read m.cpu with
    | .error _ => m
    | .ok (_, s) => cacheOp D pak op a.toNat { m with cpu := s }

/-! ## Section 5: Instructions -/

/-- The instructions that reach the data cache or the bus. -/
inductive MemInstr where
  | access (i : Instr)
  | unaligned (op : UnOp) (rs rt : Fin 32) (simm : BitVec 64)
  | linked (op : LinkOp) (rs rt : Fin 32) (simm : BitVec 64)
  | cache (op : Fin 32) (rs : Fin 32) (simm : BitVec 64)

/-- A doubleword instruction where these are reserved. -/
def reservedWidth (w : Nat) (s : State Dev) : Bool := w == 8 && reserved64 s.status

def Machine.exec (m : Machine Dev) : MemInstr → Machine Dev
  | .access i =>
    match execute D pak i m.cpu with
    | .error _ => m
    | .ok s => { m with cpu := s }
  | .unaligned op rs rt simm =>
    let a := m.cpu.gpr rs + simm
    if reservedWidth op.width m.cpu then m
    else if op.store then { m with cpu := storeUnaligned D pak op rt a m.cpu }
    else { m with cpu := loadUnaligned D pak op rt a m.cpu }
  | .linked op rs rt simm =>
    let a := m.cpu.gpr rs + simm
    if reservedWidth op.width m.cpu then m
    else if op.store then storeConditional D pak op.width rt a m
    else loadLinked D pak op.width rt a m
  | .cache op rs simm => execCache D pak op (m.cpu.gpr rs + simm) m

end Exec

end Cpu
