import Kestrel64.Cpu.DCache

/-! # Cheats: The Engine

    `Cheats::run` of `core/cheats.cpp`: one list of GameShark lines, run over
    the machine in one phase of a video field.

    The machine is that of the CPU model: a cached write goes through the
    data cache, the others go to RDRAM. The watch point and the writer tags
    only print, and are left out. Beside the machine, `Out` keeps which line
    did which write; the code does not read it.

    Addresses and values are numbers. The 24 bits of an address and 255 steps
    of at most 255, and likewise a value, stay below 2^32.
-/

namespace Cheats

open Cpu

/-! ## Section 1: Lines -/

structure Line where
  addr : BitVec 32
  val : BitVec 32
deriving DecidableEq, Repr

/-- The family of a line. -/
def Line.family (l : Line) : Nat := l.addr.toNat / 2 ^ 24

def kRdramMask : Nat := 0x00ffffff

/-- The physical address of a line. -/
def Line.phys (l : Line) : Nat := l.addr.toNat % (kRdramMask + 1)

/-- `A0` and `A1` patch once, at boot. -/
def Line.boot (l : Line) : Bool := l.family = 0xa0 || l.family = 0xa1

/-- `80` and `81` write through the cache. -/
def Line.cached (l : Line) : Bool := l.family = 0x80 || l.family = 0x81

def Line.size (l : Line) : Nat := if l.family = 0x81 ∨ l.family = 0xa1 then 2 else 1

inductive Phase where
  | boot
  | frame
deriving DecidableEq, Repr

/-! ## Section 2: The machine -/

section Machine

variable {Dev : Type} (D : Devices Dev) (pak : Pak)

/-- `peekPhysCoherent` of one byte: a dirty line shadows RDRAM. -/
def peekByte (s : State Dev) (phys : Nat) : Cpu.Byte :=
  let l := s.dcache (phys / 16 % 512)
  if l.dirty ∧ l.tagv = phys / 16 * 16 + 1 then l.data (phys % 16)
  else if phys < pak.size then s.mem.rdram phys
  else 0

def peekPhysCoherent (phys size : Nat) (s : State Dev) : Nat :=
  (beRead (peekByte pak s) phys size).toNat

def pokePhysCoherent (phys size val : Nat) (s : State Dev) : State Dev :=
  if pak.size < phys + size then s else dcWrite D pak phys (BitVec.ofNat 64 val) size s

/-- `read`. -/
def read (phys size : Nat) (s : State Dev) : Nat :=
  if pak.size < phys + size then 0 else peekPhysCoherent pak phys size s

/-- A write, with the number of the line it is for. -/
structure Write where
  line : Nat
  phys : Nat
  size : Nat
  val : Nat
  cached : Bool
deriving DecidableEq, Repr

/-- The machine, and what was written so far. -/
structure Out (Dev : Type) where
  cpu : State Dev
  log : List Write := []

/-- `write`. -/
def write (o : Out Dev) (w : Write) : Out Dev :=
  if pak.size < w.phys + w.size then o
  else
    { cpu :=
        if w.cached then pokePhysCoherent D pak w.phys w.size w.val o.cpu
        else
          let mem := o.cpu.mem
          { o.cpu with
            mem := { mem with rdram := beWrite mem.rdram w.phys w.size (BitVec.ofNat 64 w.val) } }
      log := o.log ++ [w] }

/-! ## Section 3: The run -/

/-- What waits for the next line: the repeat prefix and the failed condition. -/
structure Pending where
  rep : Nat := 0
  repAddr : Nat := 0
  repVal : Nat := 0
  skipNext : Bool := false
deriving DecidableEq, Repr

/-- Whether a condition fails. Lines of other families do not. -/
def Line.fails (s : State Dev) (l : Line) : Bool :=
  if l.family = 0xd0 then read pak l.phys 1 s ≠ l.val.toNat % 2 ^ 8
  else if l.family = 0xd1 then read pak l.phys 2 s ≠ l.val.toNat % 2 ^ 16
  else if l.family = 0xd2 then read pak l.phys 1 s = l.val.toNat % 2 ^ 8
  else if l.family = 0xd3 then read pak l.phys 2 s = l.val.toNat % 2 ^ 16
  else false

/-- The loop over the `k` rounds that are left. -/
def writeLoop (i size repAddr repVal : Nat) (cached : Bool) : Nat → Nat → Nat → Out Dev → Out Dev
  | 0, _, _, o => o
  | k + 1, a, v, o =>
    writeLoop i size repAddr repVal cached k (a + repAddr) (v + repVal)
      (write D pak o ⟨i, a, size, v % 2 ^ (8 * size), cached⟩)

/-- One round of `run`, for line number `i`. -/
def runLine (ph : Phase) (i : Nat) (l : Line) (p : Pending) (o : Out Dev) : Pending × Out Dev :=
  let t := l.family
  if t = 0x50 then
    if p.skipNext then ({ p with skipNext := false }, o)
    else
      let rep := l.addr.toNat / 2 ^ 8 % 2 ^ 8
      ({ p with
          rep := if rep = 0 then 1 else rep
          repAddr := l.addr.toNat % 2 ^ 8
          repVal := l.val.toNat % 2 ^ 16 }, o)
  else if p.skipNext then ({ p with skipNext := false, rep := 0 }, o)
  else if t = 0xd0 ∨ t = 0xd1 ∨ t = 0xd2 ∨ t = 0xd3 then
    ({ p with skipNext := l.fails pak o.cpu, rep := 0 }, o)
  else if t = 0x80 ∨ t = 0x81 ∨ t = 0xa0 ∨ t = 0xa1 then
    if l.boot ≠ decide (ph = .boot) then ({ p with rep := 0 }, o)
    else
      let v := l.val.toNat % 2 ^ (8 * l.size)
      let k := if p.rep ≠ 0 then p.rep else 1
      ({ p with rep := 0 },
        writeLoop D pak i l.size p.repAddr p.repVal l.cached k l.phys v o)
  else ({ p with rep := 0 }, o)

/-- `run` from line number `i` on. -/
def runFrom (ph : Phase) : Nat → List Line → Pending → Out Dev → Out Dev
  | _, [], _, o => o
  | i, l :: ls, p, o =>
    let (p, o) := runLine D pak ph i l p o
    runFrom ph (i + 1) ls p o

/-- `Cheats::run`. -/
def run (ph : Phase) (lines : List Line) (s : State Dev) : Out Dev :=
  runFrom D pak ph 0 lines {} { cpu := s }

end Machine

end Cheats
