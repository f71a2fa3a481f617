import Kestrel64.Lib.Transition
import Kestrel64.Netplay.Types

/-! # Netplay: the Host and its Guests

    The critical sections of `net/netplay.cpp`, each one an atomic step on
    the state of the whole game.

    * `Sys` is the host's session, the list `S.peers` in the order of
      admission (links are never removed from it) and a `Log`.
    * Each link carries one FIFO queue per direction and the guest at its
      far end. A process that joins again is a new link with a new guest.
    * `Log` is proof-only state: every frame broadcast, every `setCur` of a
      field and every pad a guest sent. No step reads it.

    `serviceSync` and `afterField` of one process run on the same thread, so
    the host never synchronises inside a wait of `afterField`. A run covers
    one session of the host, from `host` up to its `stop`.
-/

namespace Netplay

/-! ## Section 1: State -/

/-- Who a log entry is about; guests go by the index of their link. -/
inductive Machine where
  | host
  | guest (i : Nat)
deriving DecidableEq

/-- `setCur` was called with `frame` for field `field` of epoch `epoch`. -/
structure Applied where
  who : Machine
  epoch : Nat
  field : Nat
  frame : Frame
deriving DecidableEq

/-- The host broadcast `frame` for field `field` of epoch `epoch`. -/
structure Bcast where
  epoch : Nat
  field : Nat
  frame : Frame
deriving DecidableEq

/-- The guest of link `i` sent its pad of field `field` of epoch `epoch`. -/
structure Sent where
  i : Nat
  epoch : Nat
  field : Nat
  pad : Pad
deriving DecidableEq

/-- The proof-only record of a session, newest entries first. -/
structure Log where
  applied : List Applied
  bcasts : List Bcast
  sent : List Sent

/-- A `Link` of `S.peers` with its two queues and its guest. -/
structure Peer where
  slot : Slot
  alive : Bool
  up : List UpMsg
  down : List DownMsg
  guest : GuestSession

structure Sys where
  host : HostSession
  peers : List Peer
  log : Log

/-- `l->send` to a live link. -/
def Peer.post (m : DownMsg) (p : Peer) : Peer :=
  if p.alive then { p with down := p.down ++ [m] } else p

/-- `for(auto& l : S.peers) if(l->alive) l->send(..)`. -/
def Sys.broadcast (s : Sys) (m : DownMsg) : Sys :=
  { s with peers := s.peers.map (Peer.post m) }

def Sys.setPeer (s : Sys) (i : Nat) (p : Peer) : Sys :=
  { s with peers := s.peers.set i p }

/-- The host's `setCur` for a field of the current epoch. -/
def Sys.hostSetCur (s : Sys) (f : Nat) (fr : Frame) : Sys :=
  { s with
    host := { s.host with cur := fr }
    log := { s.log with applied := ⟨.host, s.host.epoch, f, fr⟩ :: s.log.applied } }

/-! ## Section 2: Host

    All of these run with `mu` taken. -/

/-- Close field `f` with frame `fr`: publish it and hand it out. -/
def publish (s : Sys) (f : Nat) (fr : Frame) : Sys :=
  Sys.broadcast
    { s with
      host := { s.host with
        partialPads := s.host.partialPads.erase f
        partialView := s.host.partialView.erase f
        ready := s.host.ready.insert f fr }
      log := { s.log with bcasts := ⟨s.host.epoch, f, fr⟩ :: s.log.bcasts } }
    (.input s.host.epoch f fr)

/-- The frame built from the pads received for a field. -/
def assemble (row : Slot → Option Pad) (v : Option View) : Frame :=
  ⟨fun i => (row i).getD .rest, v.getD .full⟩

/-- Some connector of the game has not sent its pad. -/
def missing (m : Mask) (row : Slot → Option Pad) : Bool :=
  (List.finRange 4).any (fun i => m i && (row i).isNone)

def tryComplete (s : Sys) (f : Nat) : Sys :=
  match s.host.partialPads.find? f with
  | none => s
  | some row =>
    if missing s.host.mask row then s
    else publish s f (assemble row (s.host.partialView.find? f))

/-- The pads of field `f` received so far (`S.partial[f]`). -/
def HostSession.row (h : HostSession) (f : Nat) : Slot → Option Pad :=
  (h.partialPads.find? f).getD (fun _ => none)

/-- `S.partial[f][slot] = {true, p}`. -/
def putPad (s : Sys) (slot : Slot) (f : Nat) (p : Pad) : Sys :=
  { s with host := { s.host with
      partialPads := s.host.partialPads.insert f
        (Function.update (s.host.row f) slot (some p)) } }

def submit (s : Sys) (slot : Slot) (f : Nat) (p : Pad) : Sys :=
  -- late or repeated
  if f < s.host.field ∨ s.host.ready.contains f then s
  else
    tryComplete (putPad s slot f p) f

/-- `S.partialView[f] = S.hostView`. -/
def putView (s : Sys) (f : Nat) : Sys :=
  { s with host := { s.host with
      partialView := s.host.partialView.insert f s.host.hostView } }

def hostSubmit (s : Sys) (f : Nat) (p : Pad) : Sys := submit (putView s f) 0 f p

def compareHash (h : HostSession) (slot : Slot) (f : Nat) (theirs mine : Hash) :
    HostSession :=
  if theirs = mine then { h with checks := h.checks + 1 }
  else
    { h with
      checks := h.checks + 1
      desyncs := h.desyncs + 1
      msg := "DESINCRONIA con jugador " ++ toString (slot.val + 1) ++ " en el campo " ++
        toString f ++ ": resincronizando"
      netSyncReq := true }

/-- `for(u64 f : pend) tryComplete(f)` over the fields waiting now. -/
def retryAll (s : Sys) : Sys := s.host.partialPads.keys.foldl tryComplete s

/-- Link `i` is gone: dead, and no longer waiting to enter. -/
def dropLink (s : Sys) (i : Nat) (l : Peer) : Sys :=
  { s.setPeer i { l with alive := false } with
    host := { s.host with pendingMask := s.host.pendingMask.clear l.slot } }

/-- The player of connector `c` leaves the game. Its connector stays plugged
    in (changing it would take a synchronisation) but sends rest. -/
def leaveGame (s : Sys) (c : Slot) : Sys :=
  retryAll { s with host := { s.host with mask := s.host.mask.clear c } }

/-- The last critical section of `hostRx`. -/
def hostRxExit (s : Sys) (i : Nat) (l : Peer) : Sys :=
  let t := dropLink s i l
  let t := if t.host.mask l.slot then leaveGame t l.slot else t
  { t with host := { t.host with
      msg := "jugador " ++ toString (l.slot.val + 1) ++ " se ha ido" } }

/-- One message of link `i` at the host. -/
def hostRx (s : Sys) (i : Nat) (l : Peer) : UpMsg → Sys
  | .input ep f p =>
    if ep = s.host.epoch ∧ s.host.synced then submit s l.slot f p else s
  | .hash ep f h =>
    if ep ≠ s.host.epoch then s
    else match s.host.myHash.find? f with
      | some mine => { s with host := compareHash s.host l.slot f h mine }
      | none => { s with host := { s.host with
          peerHash := s.host.peerHash ++ [⟨l.slot, f, h⟩] } }
  | .bye => hostRxExit s i l

/-- The connectors of the live links, with the host's own. -/
def aliveSlots (peers : List Peer) : Mask :=
  fun i => i = 0 || peers.any (fun l => l.alive && l.slot = i)

/-- The free connector `admit` gives out. -/
def freeSlot (s : Sys) : Option Slot :=
  let used : Mask := fun i =>
    s.host.mask i || s.host.pendingMask i || aliveSlots s.peers i
  [1, 2, 3].find? (fun i => !used i)

/-- The checks of `admit`, with the texts of its rejections. -/
def admitSlot (s : Sys) (r : Hello) : Except String Slot :=
  if !r.ok ∨ r.magic ≠ kMagic ∨ r.ver ≠ kVersion then
    .error "version de kestrel64 distinta"
  else if r.romHash ≠ s.host.romHash then
    .error "la ROM no es la misma que la del anfitrion"
  else match freeSlot s with
    | some slot => .ok slot
    | none => .error "partida llena (4 jugadores)"

/-- The `"hello"` that `join` sends. -/
def joinHello (romHash : Hash) : Hello := ⟨true, kMagic, kVersion, romHash⟩

/-- The session a guest starts `clientRx` with: `join` after `resetSession`. -/
def joined (slot : Slot) (delay : Nat) (ports : Slot → PadCfg) : GuestSession where
  slot := slot
  delay := delay
  msg := "esperando el estado"
  lost := false
  synced := false
  epoch := 0
  field := 0
  mask := .bit 0
  ready := ∅
  rxEpoch := 0
  syncReady := false
  syncBlob := []
  syncDelay := 2
  syncMask := .bit 0
  syncCfg := fun _ => ⟨false, false, 0⟩
  cur := .blank .full
  lockstep := false
  viewSlot := none
  tainted := false
  ports := ports
  saved := none
  phase := .idle
  receiving := true

/-- `admit`: a rejected connection leaves the session as it was. `sent` tells
    whether the `"welcome"` went out; `ports` is what the guest had plugged
    in. -/
def admitGuest (s : Sys) (r : Hello) (sent : Bool) (ports : Slot → PadCfg) : Sys :=
  match admitSlot s r with
  | .error _ => s
  | .ok slot =>
    if !sent then s
    else
      { s with
        host := { s.host with
          pendingMask := fun i => s.host.pendingMask i || Mask.bit slot i
          msg := "entra el jugador " ++ toString (slot.val + 1) ++ ": sincronizando"
          netSyncReq := true }
        peers := s.peers ++
          [{ slot := slot, alive := true, up := [], down := [],
             guest := joined slot s.host.delay ports }] }

/-- `for(f = 0; f < d; f++) S.ready.emplace(f, fr)`, then `S.ready[0]`. -/
def prefill (ready : OrdMap Nat Frame) (d : Nat) (fr : Frame) : OrdMap Nat Frame :=
  ((List.range d).foldl (fun m f => m.emplace f fr) ready).emplace 0 (.blank .full)

/-- The frame `S.ready[0]` names once `prefill` has run. -/
def firstFrame (ready : OrdMap Nat Frame) : Frame :=
  (ready.find? 0).getD (.blank .full)

/-- The connectors as the synchronisation fixes them on every machine. -/
def syncPorts (mask : Mask) (ports : Slot → PadCfg) : Slot → PadCfg :=
  fun i => ⟨mask i, (ports i).mouse, (ports i).accessory⟩

/-- The players of the next epoch: everyone in or waiting to enter who is
    still connected. -/
def nextMask (s : Sys) : Mask := fun i =>
  (s.host.mask i || s.host.pendingMask i || Mask.bit 0 i) && aliveSlots s.peers i

/-- `serviceSync` up to `captureState`: a new epoch with nothing in it. -/
def openEpoch (s : Sys) : Sys :=
  { s with host := { s.host with
      netSyncReq := false
      mask := nextMask s
      pendingMask := fun _ => false
      epoch := s.host.epoch + 1
      field := 0
      ready := ∅
      partialPads := ∅
      partialView := ∅
      myHash := ∅
      peerHash := []
      saved := some (s.host.saved.getD s.host.ports)
      ports := syncPorts (nextMask s) s.host.ports } }

/-- The rest of `serviceSync` up to `setCur(S.ready[0])`: the first `delay`
    fields are filled with the view on screen. -/
def fillEpoch (s : Sys) : Sys :=
  let ready := prefill s.host.ready s.host.delay (.blank s.host.cur.view)
  Sys.hostSetCur
    { s with host := { s.host with
        ready := ready
        synced := true
        lockstep := true
        viewSlot := some 0 } } 0 (firstFrame ready)

/-- The host and its links once every machine has been sent the state. -/
def syncStart (s : Sys) (state : Blob) : Sys :=
  let t := openEpoch s
  fillEpoch (t.broadcast (.sync t.host.epoch t.host.delay t.host.mask t.host.ports state))

/-- `serviceSync`. `pad` is the local pad, `state` the bytes `captureState`
    produced; whether reloading them worked changes nothing but a message
    that the last one replaces. -/
def serviceSync (s : Sys) (pad : Pad) (state : Blob) : Sys :=
  let t := syncStart s state
  let t := hostSubmit t t.host.delay pad
  { t with host := { t.host with
      msg := "sincronizado: " ++ toString t.host.mask.count ++ " jugadores, estado de " ++
        toString (state.length / 1024) ++ " KiB (epoca " ++ toString t.host.epoch ++ ")" } }

/-- The hash block of the host's `afterField`: compare with every guest hash
    of field `f`, drop the older ones. -/
def hostHash (h : HostSession) (f : Nat) (hash : Hash) : HostSession :=
  let mine := h.myHash.insert f hash
  let h := { h with myHash := if 32 < mine.size then mine.eraseFirst else mine }
  let h := (h.peerHash.filter (fun q => q.f = f)).foldl
    (fun h q => compareHash h q.slot f q.h hash) h
  { h with peerHash := h.peerHash.filter (fun q => f < q.f) }

/-- The end of the host's `afterField`, once the inputs of `f` are there. -/
def hostResume (s : Sys) (f : Nat) : Sys :=
  match s.host.ready.find? f with
  | none => { s with host := { s.host with waiting := some f } }
  | some fr =>
    let t := s.hostSetCur f fr
    { t with host := { t.host with
        ready := t.host.ready.eraseBefore f
        waiting := none } }

/-- `S.field++`. -/
def nextField (s : Sys) : Sys :=
  { s with host := { s.host with field := s.host.field + 1 } }

/-- Every `kHashEvery` fields the hashes are compared. -/
def hashCheck (s : Sys) (f : Nat) (hash : Hash) : Sys :=
  if f % kHashEvery = 0 then { s with host := hostHash s.host f hash } else s

/-- The host's `afterField`, up to its wait. -/
def hostField (s : Sys) (pad : Pad) (hash : Hash) : Sys :=
  -- a host without guests yet
  if !s.host.synced then s
  else
    let f := s.host.field + 1
    let t := hostSubmit (nextField s) (f + s.host.delay) pad
    hostResume (hashCheck t f hash) f

/-- The view `setView` settles on for a mode in `0 .. 4` (4 is `kViewAuto`). -/
def pickView (mask : Mask) : Nat → View
  | 0 => .full
  | 1 => .rows
  | 2 => .cols
  | 3 => .quad
  | _ => if 2 < mask.count then .quad else .rows

/-- `setView` on the host. -/
def setView (h : HostSession) (mode : Int) : Except String HostSession :=
  if mode < 0 ∨ 4 < mode then .error "vista desconocida"
  else
    let v := pickView h.mask mode.toNat
    let name := match v with
      | .full => "completa"
      | .rows => "franjas"
      | .cols => "columnas"
      | .quad => "cuadrantes"
    .ok { h with
      hostView := v
      msg := "pantalla " ++ name ++ " desde el campo " ++ toString (h.field + h.delay + 1) }

/-! ## Section 3: Guest -/

/-- What one critical section of a guest does: its new state, what it sends
    and the field it applied, if any. -/
structure GuestOut where
  guest : GuestSession
  sends : List UpMsg := []
  applied : Option (Nat × Nat × Frame) := none

/-- One message of the host at the guest (`clientRx`). -/
def clientRx (g : GuestSession) : DownMsg → GuestSession
  | .input ep f fr =>
    if ep = g.rxEpoch then { g with ready := g.ready.insert f fr } else g
  | .sync ep d m cfg blob =>
    { g with
      rxEpoch := ep
      syncDelay := d
      syncMask := m
      syncCfg := cfg
      syncBlob := blob
      syncReady := true
      ready := ∅ }
  | .bye =>
    { g with lost := true, receiving := false, msg := "conexion con el anfitrion perdida" }

/-- The last critical section of `clientRx`, when the connection fails. -/
def clientRxExit (g : GuestSession) : GuestSession :=
  { g with lost := true, receiving := false, msg := "conexion con el anfitrion perdida" }

/-- `clientApplySync` up to the point where it releases the lock. -/
def beginApplySync (g : GuestSession) : GuestSession :=
  { g with
    phase := .applying g.rxEpoch g.syncDelay g.syncMask g.syncCfg g.syncBlob
    syncBlob := []
    syncReady := false }

/-- `clientApplySync` from where it takes the lock again; `ok` is what
    `restoreState` returned. -/
def endApplySync (g : GuestSession) (ep d : Nat) (m : Mask) (cfg : Slot → PadCfg)
    (pad : Pad) (ok : Bool) : GuestOut :=
  let g := { g with
    phase := .idle
    saved := some (g.saved.getD g.ports)
    ports := cfg
    tainted := true }
  if !ok then
    { guest := { g with lost := true, msg := "no se pudo cargar el estado del anfitrion" } }
  -- another one is on its way: that one counts
  else if g.syncReady then { guest := g }
  else
    let ready := prefill g.ready d (.blank g.cur.view)
    { guest := { g with
        epoch := ep
        delay := d
        mask := m
        field := 0
        ready := ready
        synced := true
        lockstep := true
        viewSlot := some g.slot
        cur := firstFrame ready
        msg := "sincronizado (epoca " ++ toString ep ++ ", jugador " ++
          toString (g.slot.val + 1) ++ ")" }
      sends := [.input ep d pad]
      applied := some (ep, 0, firstFrame ready) }

/-- The wait of the guest's `afterField` for field `f`, and what follows it. -/
def guestAwait (g : GuestSession) (f : Nat) : GuestOut :=
  if g.syncReady then { guest := beginApplySync g }
  else match g.ready.find? f with
    | some fr =>
      { guest := { g with cur := fr, ready := g.ready.eraseBefore f, phase := .idle }
        applied := some (g.epoch, f, fr) }
    | none =>
      if g.lost then { guest := { g with phase := .idle } }
      else { guest := { g with phase := .waitField f } }

/-- The guest's `afterField`, up to its wait. -/
def guestField (g : GuestSession) (pad : Pad) (hash : Hash) : GuestOut :=
  if g.lost then
    -- without a host: play on alone
    { guest := if g.synced then
        { g with synced := false, lockstep := false, viewSlot := none } else g }
  else if g.syncReady then { guest := beginApplySync g }
  else if !g.synced then { guest := { g with phase := .waitSync } }
  else
    let f := g.field + 1
    let out := guestAwait { g with field := f } f
    { out with
      sends := .input g.epoch (f + g.delay) pad ::
        (if f % kHashEvery = 0 then [.hash g.epoch f hash] else []) }

/-- A guest's core thread looks at its wait condition again. -/
def guestWake (g : GuestSession) : Option GuestOut :=
  match g.phase with
  | .waitSync =>
    if g.syncReady then some { guest := beginApplySync g }
    else if g.lost then some { guest := { g with phase := .idle } }
    else none
  | .waitField f => some (guestAwait g f)
  | _ => none

/-- The pads among the messages a guest sends. -/
def sentPads (i : Nat) (ms : List UpMsg) : List Sent :=
  ms.filterMap (fun m => match m with
    | .input ep f p => some ⟨i, ep, f, p⟩
    | _ => none)

/-- Note what the guest of link `i` did. -/
def Log.record (log : Log) (i : Nat) (out : GuestOut) : Log :=
  { log with
    sent := sentPads i out.sends ++ log.sent
    applied := match out.applied with
      | some (ep, f, fr) => ⟨.guest i, ep, f, fr⟩ :: log.applied
      | none => log.applied }

/-- The guest of link `i` takes the step `out`. -/
def Sys.guestStep (s : Sys) (i : Nat) (l : Peer) (out : GuestOut) : Sys :=
  { s.setPeer i { l with guest := out.guest, up := l.up ++ out.sends } with
    log := s.log.record i out }

/-! ## Section 4: The System -/

/-- The critical sections, with what each takes from its environment: the
    local pad, the CPU hash, the captured state, results of I/O. -/
inductive Label where
  | admitGuest (r : Hello) (sent : Bool) (ports : Slot → PadCfg)
  | hostRx (i : Nat)
  | hostRxExit (i : Nat)
  | serviceSync (pad : Pad) (state : Blob)
  | hostField (pad : Pad) (hash : Hash)
  | hostWake
  | setView (mode : Int)
  | clientRx (i : Nat)
  | clientRxExit (i : Nat)
  | guestField (i : Nat) (pad : Pad) (hash : Hash)
  | guestWake (i : Nat)
  | guestApplied (i : Nat) (pad : Pad) (ok : Bool)
  | guestStop (i : Nat)

/-- One step of the game; `none` when the label is not enabled. -/
def step (s : Sys) : Label → Option Sys
  | .admitGuest r sent ports => some (admitGuest s r sent ports)
  | .hostRx i => do
    let l ← s.peers[i]?
    guard l.alive
    match l.up with
    | [] => none
    | m :: ms => some (hostRx (s.setPeer i { l with up := ms }) i { l with up := ms } m)
  | .hostRxExit i => do
    let l ← s.peers[i]?
    guard l.alive
    some (hostRxExit s i l)
  | .serviceSync pad state =>
    if s.host.netSyncReq ∧ s.host.waiting = none then some (serviceSync s pad state) else none
  | .hostField pad hash =>
    if s.host.waiting = none then some (hostField s pad hash) else none
  | .hostWake =>
    match s.host.waiting with
    | some f => some (hostResume s f)
    | none => none
  | .setView mode =>
    match setView s.host mode with
    | .ok h => some { s with host := h }
    | .error _ => none
  | .clientRx i => do
    let l ← s.peers[i]?
    guard (l.guest.receiving ∧ l.guest.phase ≠ .off)
    match l.down with
    | [] => none
    | m :: ms => some (s.setPeer i { l with down := ms, guest := clientRx l.guest m })
  | .clientRxExit i => do
    let l ← s.peers[i]?
    guard (l.guest.receiving ∧ l.guest.phase ≠ .off)
    some (s.setPeer i { l with guest := clientRxExit l.guest })
  | .guestField i pad hash => do
    let l ← s.peers[i]?
    guard (l.guest.phase = .idle)
    some (s.guestStep i l (guestField l.guest pad hash))
  | .guestWake i => do
    let l ← s.peers[i]?
    let out ← guestWake l.guest
    some (s.guestStep i l out)
  | .guestApplied i pad ok => do
    let l ← s.peers[i]?
    match l.guest.phase with
    | .applying ep d m cfg _ => some (s.guestStep i l (endApplySync l.guest ep d m cfg pad ok))
    | _ => none
  | .guestStop i => do
    let l ← s.peers[i]?
    guard (l.guest.phase ≠ .off)
    some (s.setPeer i { l with
      up := l.up ++ [.bye]
      guest := { l.guest with phase := .off, lockstep := false } })

/-- The host right after `host`: `resetSession`, `romHashOf`, `envDelay`. -/
def hosting (env : Option (BitVec 32)) (romHash : Hash) (ports : Slot → PadCfg) :
    HostSession where
  delay := envDelay env
  romHash := romHash
  msg := "partida abierta"
  synced := false
  epoch := 0
  field := 0
  mask := .bit 0
  ready := ∅
  checks := 0
  desyncs := 0
  partialPads := ∅
  partialView := ∅
  hostView := .full
  pendingMask := fun _ => false
  myHash := ∅
  peerHash := []
  netSyncReq := false
  cur := .blank .full
  lockstep := false
  viewSlot := none
  ports := ports
  saved := none
  waiting := none

/-- A game nobody has joined yet. -/
def start (env : Option (BitVec 32)) (romHash : Hash) (ports : Slot → PadCfg) : Sys where
  host := hosting env romHash ports
  peers := []
  log := ⟨[], [], []⟩

/-- The netplay protocol as a labelled transition system. -/
def netplay : LTS.System Sys Label where
  init s := ∃ env romHash ports, s = start env romHash ports
  step s l s' := step s l = some s'

end Netplay
