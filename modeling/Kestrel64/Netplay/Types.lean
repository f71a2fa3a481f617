import Kestrel64.Lib.OrdMap
import Mathlib.Data.Fintype.Pi
import Mathlib.Logic.Function.Basic
import Kestrel64.Lib.Index

/-! # Netplay: Data Model

    The records of `net/netplay.cpp`. One host and up to three guests play
    the same emulation in lockstep; only controller pads travel. Each pad is
    applied `delay` fields after it is read.

    * `Session` of the source is one record that every process owns. A
      process uses either its host half or its guest half, so the model has
      `HostSession` and `GuestSession`.
    * `epoch` (u32) and `field` (u64) are natural numbers: they only ever
      count synchronisations and video fields up from zero.
    * The five-second warnings and the wait-time averages of `afterField`
      are left out; they are read by nothing but the status display.
-/

namespace Netplay

/-- A controller connector. Bit `i` of a `u8` mask is connector `i`. -/
abbrev Slot := Fin 4

/-- A set of connectors (`u8 mask`, of which only the low four bits are used). -/
abbrev Mask := Slot → Bool

/-- `1u << i`. -/
def Mask.bit (i : Slot) : Mask := fun j => j = i

/-- `m & ~(1u << i)`. -/
def Mask.clear (m : Mask) (i : Slot) : Mask := fun j => m j && j ≠ i

/-- The number of connectors in the mask. -/
def Mask.count (m : Mask) : Nat := (List.finRange 4).countP (fun i => m i)

@[simp] theorem Mask.bit_apply (i j : Slot) : Mask.bit i j = decide (j = i) := rfl

@[simp] theorem Mask.clear_apply (m : Mask) (i j : Slot) :
    m.clear i j = (m j && decide (j ≠ i)) := rfl

/-- `NetPad`: buttons and stick. -/
structure Pad where
  b : BitVec 32
  x : BitVec 8
  y : BitVec 8
deriving DecidableEq, Repr

/-- A value-initialised `NetPad`: nothing pressed, stick centred. -/
def Pad.rest : Pad := ⟨0, 0, 0⟩

/-- The split-screen views a host can put on screen (`kViewFull` ..
    `kViewQuad`; `kViewAuto` is only ever an argument of `setView`). -/
inductive View where
  | full | rows | cols | quad
deriving DecidableEq, Repr

/-- The inputs of one field: four pads and the view. -/
structure Frame where
  p : Slot → Pad
  view : View
deriving DecidableEq

/-- `Frame{}`, with the view given. -/
def Frame.blank (v : View) : Frame := ⟨fun _ => .rest, v⟩

/-- What is plugged into a connector. -/
structure PadCfg where
  connected : Bool
  mouse : Bool
  accessory : BitVec 8
deriving DecidableEq, Repr

/-- Serialised machine states and 64-bit hashes. -/
abbrev Blob := List (BitVec 8)
abbrev Hash := BitVec 64

/-! ### Wire messages -/

/-- The body of a `"hello"`: what `admit` reads from it, and whether it was
    long enough (`r.ok`). -/
structure Hello where
  ok : Bool
  magic : BitVec 32
  ver : BitVec 32
  romHash : Hash
deriving DecidableEq, Repr

/-- Guest to host: `"in"`, `"h"`, `"bye"`. -/
inductive UpMsg where
  | input (ep f : Nat) (p : Pad)
  | hash (ep f : Nat) (h : Hash)
  | bye
deriving DecidableEq

/-- Host to guest: `"in"`, `"sync"`, `"bye"`. -/
inductive DownMsg where
  | input (ep f : Nat) (fr : Frame)
  | sync (ep d : Nat) (m : Mask) (cfg : Slot → PadCfg) (blob : Blob)
  | bye
deriving DecidableEq

/-! ### Sessions -/

/-- A guest's hash that the host has no hash of its own for yet. -/
structure PeerHash where
  slot : Slot
  f : Nat
  h : Hash
deriving DecidableEq

/-- The host's half of `Session`, with the process-wide variables its core
    thread owns (`g_pad`/`g_view` as `cur`, `g_lockstep`, `g_viewSlot`, the
    controller ports) and `System::netSyncReq`. -/
structure HostSession where
  delay : Nat
  romHash : Hash
  msg : String
  synced : Bool
  epoch : Nat
  field : Nat
  /-- Connectors with a player in the game. -/
  mask : Mask
  /-- Complete inputs of this epoch, by field. -/
  ready : OrdMap Nat Frame
  checks : Nat
  desyncs : Nat
  /-- `partial` of the source: pads received so far, by field. -/
  partialPads : OrdMap Nat (Slot → Option Pad)
  /-- The view the host set when it sent its own pad of the field. -/
  partialView : OrdMap Nat View
  hostView : View
  /-- Players that enter at the next synchronisation. -/
  pendingMask : Mask
  myHash : OrdMap Nat Hash
  peerHash : List PeerHash
  netSyncReq : Bool
  cur : Frame
  lockstep : Bool
  viewSlot : Option Slot
  ports : Slot → PadCfg
  saved : Option (Slot → PadCfg)
  /-- `some f` while the core thread waits inside `afterField` for field `f`. -/
  waiting : Option Nat
deriving DecidableEq

/-- Where a guest's core thread is. The critical sections of `afterField`
    and `clientApplySync` end where the lock is released. -/
inductive Phase where
  /-- Outside `afterField`. -/
  | idle
  /-- In the first wait of `afterField`: no state received yet. -/
  | waitSync
  /-- In the second wait of `afterField`, for the inputs of field `f`. -/
  | waitField (f : Nat)
  /-- In `clientApplySync`, lock released, loading the received state. -/
  | applying (ep d : Nat) (m : Mask) (cfg : Slot → PadCfg) (blob : Blob)
  /-- The session was stopped. -/
  | off
deriving DecidableEq

/-- The guest is loading a received state. -/
def Phase.isApplying : Phase → Bool
  | .applying .. => true
  | _ => false

/-- The guest's half of `Session`. -/
structure GuestSession where
  slot : Slot
  delay : Nat
  msg : String
  lost : Bool
  synced : Bool
  epoch : Nat
  field : Nat
  mask : Mask
  ready : OrdMap Nat Frame
  rxEpoch : Nat
  syncReady : Bool
  syncBlob : Blob
  syncDelay : Nat
  syncMask : Mask
  syncCfg : Slot → PadCfg
  cur : Frame
  lockstep : Bool
  viewSlot : Option Slot
  tainted : Bool
  ports : Slot → PadCfg
  saved : Option (Slot → PadCfg)
  phase : Phase
  /-- The thread `clientRx` is running. -/
  receiving : Bool
deriving DecidableEq

/-! ### Constants -/

/-- `kMagic`, "K64N". -/
def kMagic : BitVec 32 := 0x4E34364B
/-- `kVersion`: 2 since the view travels in `"in"`. -/
def kVersion : BitVec 32 := 2
/-- `kHashEvery`: fields between two hash checks. -/
def kHashEvery : Nat := 60
/-- `kMaxDelay`. -/
def kMaxDelay : Nat := 30

/-- `envDelay`: the value of `KESTREL_NETPLAY_DELAY` when it is set and not
    empty, clamped to `1 .. kMaxDelay`. -/
def envDelay (e : Option (BitVec 32)) : Nat :=
  let d := match e with
    | some v => v.toNat
    | none => 2
  if d < 1 then 1 else if kMaxDelay < d then kMaxDelay else d

theorem envDelay_pos (e : Option (BitVec 32)) : 1 ≤ envDelay e := by
  unfold envDelay kMaxDelay
  dsimp only
  split <;> split <;> first | omega | (split <;> omega)

end Netplay
