import Kestrel64.Lib.Bytes
import Kestrel64.Lib.RingBuffer
import Kestrel64.Lib.Transition

/-! # Audio: The Sink

    The emulator pushes samples into a ring; a feeder thread takes them out in
    whole buffers and gives these to the device, which plays four of them in
    turn. When the ring is full the oldest samples are dropped. When it runs
    low the feeder stops until there is a cushion again.

    * `silence_never` — the feeder never fills up a buffer with silence.
    * `heard_in_order` — what the device gets, with what was dropped in
      between and what is still in the ring, is what was pushed.

    The two threads take turns at each lock: the feeder's look at the ring and
    its `ringPull` are two steps, and the emulator may push in between. What
    the device is given, and what it was given since it was opened, is kept
    beside the state (`Backend.pushed`, `sent`, `lost`).

    The dump to a WAV file, the recorder and the marks of the ring's level are
    left out.
-/

namespace Audio

open LTS
open RingBuffer (copyOut)

/-! ## Section 1: The backend -/

abbrev Sample := BitVec 16

def kChannels : Nat := 2
def kBufFrames : Nat := 512
def kNumBufs : Nat := 4
def kBufSamples : Nat := kBufFrames * kChannels
def kRingFrames : Nat := 44100 / 4
def kPrimeSamples : Nat := kBufSamples * kNumBufs

/-- Where the feeder is in its loop. -/
inductive Pc where
  | top
  /-- In front of buffer `i`. -/
  | slot (i : Nat)
  /-- It has seen a whole buffer in the ring. -/
  | pull (i : Fin kNumBufs)
  deriving DecidableEq, Repr

structure Backend where
  ring : RingBuffer.Ring Sample := ⟨[], 0, 0, 0⟩
  dev : Bool := false
  /-- `WHDR_INQUEUE` -/
  inqueue : Fin kNumBufs → Bool := fun _ => false
  buf : Fin kNumBufs → List Sample := fun _ => []
  pc : Pc := .top
  rate : Nat := 0
  disabled : Bool := false
  primed : Bool := false
  statPulled : Nat := 0
  statSilence : Nat := 0
  statDropped : Nat := 0
  statPushed : Nat := 0
  statRefills : Nat := 0
  statStarved : Nat := 0
  /-- What went into the ring since the device was opened. -/
  pushed : List Sample := []
  /-- The buffers that the device got since then. -/
  sent : List (List Sample) := []
  /-- `statDropped` when it was opened. -/
  lost : Nat := 0

namespace Backend

variable (g : Backend)

/-- What is taken out, and `dst`. -/
def ringPull (n : Nat) : Backend × List Sample :=
  let got := min n g.ring.count
  ({ g with
      ring := g.ring.discard got
      statPulled := g.statPulled + got
      statSilence := g.statSilence + (n - got)
      statRefills := g.statRefills + 1
      statStarved := if got < n then g.statStarved + 1 else g.statStarved },
    copyOut g.ring.cells g.ring.rd got ++ List.replicate (n - got) 0)

def ringPush (src : List Sample) : Backend :=
  let cap := g.ring.cap
  let n := src.length
  let (src', skipped) := if cap ≤ n then (src.drop (n - cap), n - cap) else (src, 0)
  let drop := if cap < g.ring.count + src'.length then g.ring.count + src'.length - cap else 0
  { g with
    ring := (g.ring.discard drop).put src'
    statPushed := g.statPushed + n
    statDropped := g.statDropped + skipped + drop
    pushed := g.pushed ++ src }

/-- One step of `feederLoop`. -/
def feeder : Backend :=
  match g.pc with
  | .top =>
    if g.primed then { g with pc := .slot 0 }
    else if g.ring.count < kPrimeSamples then g
    else { g with primed := true, pc := .slot 0 }
  | .slot i =>
    if h : i < kNumBufs then
      if g.inqueue ⟨i, h⟩ then { g with pc := .slot (i + 1) }
      else
        let primed := if g.ring.count < kBufSamples then false else g.primed
        if primed then { g with pc := .pull ⟨i, h⟩ } else { g with primed := false, pc := .top }
    else { g with pc := .top }
  | .pull i =>
    let (g, dst) := g.ringPull kBufSamples
    { g with
      buf := Function.update g.buf i dst
      inqueue := Function.update g.inqueue i true
      sent := g.sent ++ [dst]
      pc := .slot (i.val + 1) }

/-- Before this the feeder has come to the top of its loop and left it. -/
def closeDevice : Backend := { g with dev := false, inqueue := fun _ => false }

/-- `opens` is what `waveOutOpen` says. -/
def openDevice (opens : Bool) (sampleRate : Nat) : Backend :=
  if opens then
    { g with
      dev := true
      buf := fun _ => List.replicate kBufSamples 0
      ring := ⟨List.replicate (kRingFrames * kChannels) 0, 0, 0, 0⟩
      primed := false
      rate := sampleRate
      pc := .top
      pushed := []
      sent := []
      lost := g.statDropped }
  else { g with dev := false, disabled := true }

/-- The device stays open at a rate that differs by 1% or less. -/
def near (a b : Nat) : Bool := a = b || (max a b - min a b) * 100 ≤ max a b

/-- `init` opens the device, or opens it again. -/
def opening (off : Bool) (sampleRate : Nat) : Bool :=
  8000 ≤ sampleRate && sampleRate ≤ 96000 && !off && !g.disabled &&
    !(g.dev && near g.rate sampleRate)

/-- `off` is `KESTREL_AUDIO=0`. -/
def init (off opens : Bool) (sampleRate : Nat) : Backend :=
  if sampleRate < 8000 ∨ 96000 < sampleRate then g
  else if off then { g with disabled := true }
  else if g.disabled then g
  else if g.dev ∧ near g.rate sampleRate then g
  else (if g.dev then g.closeDevice else g).openDevice opens sampleRate

end Backend

/-- A call of `pushRdram`: a span of RDRAM, and what the menu has set. -/
structure Call where
  base : Bytes
  addr : Nat
  len : Nat
  sampleRate : Nat
  audioOn : Bool
  volume : Int
  opens : Bool

namespace Call

variable (c : Call)

/-- The span, cut to RDRAM and to whole pairs of samples. -/
def nsamp : Nat := min c.len (c.base.length - c.addr) / 2 / 2 * 2

/-- Samples are big-endian. -/
def sample (i : Nat) : Sample :=
  c.base.getD (c.addr + 2 * i) 0 ++ c.base.getD (c.addr + 2 * i + 1) 0

def scaled (x : Sample) : Sample :=
  if c.audioOn = false then 0
  else if c.volume = 100 then x
  else BitVec.ofInt 16 ((x.toInt * max 0 (min c.volume 100)).tdiv 100)

def samples : List Sample := (List.range c.nsamp).map fun i => c.scaled (c.sample i)

end Call

def Backend.pushRdram (g : Backend) (off : Bool) (c : Call) : Backend :=
  if g.disabled then g
  else
    let g := g.init off c.opens c.sampleRate
    if g.dev = false ∨ c.base.length ≤ c.addr ∨ c.nsamp = 0 then g else g.ringPush c.samples

/-! ## Section 2: The two threads -/

inductive Label where
  | pushRdram (c : Call)
  | feeder
  /-- The device has played buffer `i`. -/
  | done (i : Fin kNumBufs)
  | shutdown

/-- Closing the device waits for the feeder. -/
def step (off : Bool) (g : Backend) (l : Label) (g' : Backend) : Prop :=
  match l with
  | .pushRdram c =>
      (g.dev = true → g.opening off c.sampleRate = true → g.pc = .top) ∧ g' = g.pushRdram off c
  | .feeder => g.dev = true ∧ g' = g.feeder
  | .done i => g' = { g with inqueue := Function.update g.inqueue i false }
  | .shutdown => (g.dev = true → g.pc = .top) ∧ g' = g.closeDevice

def sink (off : Bool) : System Backend Label where
  init := fun g => g = {}
  step := step off

/-! ## Section 3: The ring -/

variable {off : Bool} {g g' : Backend}

/-- The queue takes the samples, and loses as many as are counted from its
    front. -/
theorem ringPush_spec (hok : g.ring.Ok) (src : List Sample) :
    (g.ringPush src).ring.Ok ∧ (g.ringPush src).ring.cap = g.ring.cap ∧
      (g.ringPush src).ring.count = min g.ring.cap (g.ring.count + src.length) ∧
      ∃ gap, g.ring.contents ++ src = gap ++ (g.ringPush src).ring.contents ∧
        (g.ringPush src).statDropped = g.statDropped + gap.length := by
  have hcount := hok.count
  have hlen := hok.length_contents
  by_cases hbig : g.ring.cap ≤ src.length
  · -- the end of `src` fills the ring
    have htail : (src.drop (src.length - g.ring.cap)).length = g.ring.cap := by
      rw [List.length_drop]
      omega
    have hdrop : (if g.ring.cap < g.ring.count + g.ring.cap then g.ring.count + g.ring.cap - g.ring.cap
        else 0) = g.ring.count := by
      split_ifs <;> omega
    obtain ⟨hok', hcontents, hcap⟩ := @RingBuffer.Ring.Ok.replace _ _ g.ring.count
      (src.drop (src.length - g.ring.cap)) hok le_rfl (by omega)
    have hring : (g.ringPush src).ring =
        (g.ring.discard g.ring.count).put (src.drop (src.length - g.ring.cap)) := by
      unfold Backend.ringPush
      dsimp only
      rw [if_pos hbig]
      dsimp only
      rw [htail, hdrop]
    have hstat : (g.ringPush src).statDropped =
        g.statDropped + (src.length - g.ring.cap) + g.ring.count := by
      unfold Backend.ringPush
      dsimp only
      rw [if_pos hbig]
      dsimp only
      rw [htail, hdrop]
    rw [hring, hstat]
    refine ⟨hok', hcap, ?_, g.ring.contents ++ src.take (src.length - g.ring.cap), ?_, ?_⟩
    · change g.ring.count - g.ring.count + (src.drop (src.length - g.ring.cap)).length = _
      omega
    · rw [hcontents, ← hlen, List.drop_length, List.nil_append, List.append_assoc,
        List.take_append_drop]
    · rw [List.length_append, List.length_take, hlen]
      omega
  · have hle : g.ring.count + src.length - g.ring.cap ≤ g.ring.count := by omega
    have hdrop : (if g.ring.cap < g.ring.count + src.length then
        g.ring.count + src.length - g.ring.cap else 0) =
        g.ring.count + src.length - g.ring.cap := by
      split_ifs <;> omega
    obtain ⟨hok', hcontents, hcap⟩ := @RingBuffer.Ring.Ok.replace _ _ _ src hok hle (by omega)
    have hring : (g.ringPush src).ring =
        (g.ring.discard (g.ring.count + src.length - g.ring.cap)).put src := by
      unfold Backend.ringPush
      dsimp only
      rw [if_neg hbig]
      dsimp only
      rw [hdrop]
    have hstat : (g.ringPush src).statDropped =
        g.statDropped + 0 + (g.ring.count + src.length - g.ring.cap) := by
      unfold Backend.ringPush
      dsimp only
      rw [if_neg hbig]
      dsimp only
      rw [hdrop]
    rw [hring, hstat]
    refine ⟨hok', hcap, ?_, g.ring.contents.take (g.ring.count + src.length - g.ring.cap), ?_, ?_⟩
    · change g.ring.count - (g.ring.count + src.length - g.ring.cap) + src.length = _
      omega
    · rw [hcontents, ← List.append_assoc, List.take_append_drop]
    · rw [List.length_take, hlen]
      omega

theorem ringPush_dev (src : List Sample) : (g.ringPush src).dev = g.dev := by
  unfold Backend.ringPush
  rfl

theorem ringPush_pushed (src : List Sample) : (g.ringPush src).pushed = g.pushed ++ src := by
  unfold Backend.ringPush
  rfl

/-- A whole buffer is in the ring. -/
theorem ringPull_spec (hok : g.ring.Ok) {n : Nat} (hn : n ≤ g.ring.count) :
    g.ringPull n =
      ({ g with
          ring := g.ring.discard n
          statPulled := g.statPulled + n
          statRefills := g.statRefills + 1 },
        g.ring.contents.take n) := by
  unfold Backend.ringPull
  dsimp only
  rw [Nat.min_eq_left hn, Nat.sub_self, List.replicate_zero, List.append_nil,
    if_neg (lt_irrefl n), hok.copyOut_eq hn]
  rfl

/-! ## Section 4: Runs -/

/-- Buffers, each behind what was dropped in front of it. -/
def weave (cuts : List (List Sample × List Sample)) : List Sample :=
  cuts.flatMap fun c => c.1 ++ c.2

theorem weave_concat (cuts : List (List Sample × List Sample)) (gap b : List Sample) :
    weave (cuts ++ [(gap, b)]) = weave cuts ++ gap ++ b := by
  unfold weave
  rw [List.flatMap_append, List.flatMap_singleton, List.append_assoc]

/-- The device got the samples in order, and all that it did not get was
    dropped or is still in the ring. -/
def Heard (g : Backend) : Prop :=
  ∃ cuts gap, cuts.map Prod.snd = g.sent ∧
    g.pushed = weave cuts ++ gap ++ g.ring.contents ∧
    g.statDropped = g.lost + (cuts.map fun c => c.1.length).sum + gap.length

structure Open (g : Backend) : Prop where
  ok : g.ring.Ok
  cap : g.ring.cap = kRingFrames * kChannels
  full : ∀ i, g.pc = .pull i → kBufSamples ≤ g.ring.count
  sent : ∀ b ∈ g.sent, b.length = kBufSamples
  heard : Heard g

structure Inv (g : Backend) : Prop where
  silence : g.statSilence = 0
  device : g.dev = true → Open g

/-- The ring and what it is measured by stay. -/
theorem Open.aside (h : Open g) (hring : g'.ring = g.ring) (hpushed : g'.pushed = g.pushed)
    (hsent : g'.sent = g.sent) (hstat : g'.statDropped = g.statDropped) (hlost : g'.lost = g.lost)
    (hfull : ∀ i, g'.pc = .pull i → kBufSamples ≤ g.ring.count) : Open g' := by
  obtain ⟨cuts, gap, hcuts, hsplit, hdropped⟩ := h.heard
  refine ⟨hring ▸ h.ok, hring ▸ h.cap, fun i hi => hring ▸ hfull i hi, hsent ▸ h.sent, cuts, gap, ?_,
    ?_, ?_⟩
  · rw [hsent, hcuts]
  · rw [hpushed, hring, hsplit]
  · rw [hstat, hlost, hdropped]

theorem Open.ringPush (h : Open g) (src : List Sample) : Open (g.ringPush src) := by
  obtain ⟨hok, hcap, hcount, gap', hsplit, hstat⟩ := ringPush_spec h.ok src
  obtain ⟨cuts, gap, hsent, hpushed, hdropped⟩ := h.heard
  refine ⟨hok, hcap.trans h.cap, fun i hi => ?_, h.sent, cuts, gap ++ gap', hsent, ?_, ?_⟩
  · have hfull := h.full i hi
    have hroom : kBufSamples ≤ g.ring.cap := by
      rw [h.cap]
      decide
    rw [hcount]
    omega
  · change g.pushed ++ src = _
    rw [hpushed, List.append_assoc, hsplit]
    simp only [List.append_assoc]
  · change _ = g.lost + _ + _
    rw [hstat, hdropped, List.length_append]
    omega

theorem open_openDevice (sampleRate : Nat) : Open (g.openDevice true sampleRate) := by
  have hcap : (g.openDevice true sampleRate).ring.cap = kRingFrames * kChannels :=
    List.length_replicate
  have hrd : (g.openDevice true sampleRate).ring.rd < (g.openDevice true sampleRate).ring.cap := by
    rw [hcap]
    exact (by decide : 0 < kRingFrames * kChannels)
  exact ⟨⟨hrd, Nat.zero_le _, (Nat.zero_mod _).symm⟩, hcap, nofun, nofun, [], [], rfl, rfl, rfl⟩

theorem Inv.init (h : Inv g) (opens : Bool) (sampleRate : Nat) :
    Inv (g.init off opens sampleRate) := by
  unfold Backend.init
  split_ifs
  · exact h
  · exact ⟨h.silence, fun hdev => (h.device hdev).aside rfl rfl rfl rfl rfl (h.device hdev).full⟩
  · exact h
  · exact h
  · cases opens with
    | true => exact ⟨h.silence, fun _ => open_openDevice _⟩
    | false => exact ⟨h.silence, nofun⟩
  · cases opens with
    | true => exact ⟨h.silence, fun _ => open_openDevice _⟩
    | false => exact ⟨h.silence, nofun⟩

theorem Inv.pushRdram (h : Inv g) (c : Call) : Inv (g.pushRdram off c) := by
  unfold Backend.pushRdram
  split_ifs
  · exact h
  · have hinit := @Inv.init off _ h c.opens c.sampleRate
    generalize g.init off c.opens c.sampleRate = g₁ at hinit
    dsimp only
    split_ifs with hskip
    · exact hinit
    · rw [not_or, Bool.not_eq_false] at hskip
      exact ⟨hinit.silence, fun _ => (hinit.device hskip.1).ringPush _⟩

theorem Inv.feeder (h : Inv g) (hdev : g.dev = true) : Inv g.feeder := by
  have hopen := h.device hdev
  have haside {g' : Backend} (hring : g'.ring = g.ring) (hpushed : g'.pushed = g.pushed)
      (hsent : g'.sent = g.sent) (hstat : g'.statDropped = g.statDropped) (hlost : g'.lost = g.lost)
      (hsilence : g'.statSilence = g.statSilence)
      (hfull : ∀ i, g'.pc = .pull i → kBufSamples ≤ g.ring.count) : Inv g' :=
    ⟨hsilence.trans h.silence, fun _ => hopen.aside hring hpushed hsent hstat hlost hfull⟩
  unfold Backend.feeder
  cases hpc : g.pc with
  | top =>
    dsimp only
    split_ifs
    · exact haside rfl rfl rfl rfl rfl rfl nofun
    · exact h
    · exact haside rfl rfl rfl rfl rfl rfl nofun
  | slot i =>
    dsimp only
    by_cases hi : i < kNumBufs
    · rw [dif_pos hi]
      by_cases hlow : g.ring.count < kBufSamples
      · rw [if_pos hlow, if_neg Bool.false_ne_true]
        split_ifs <;> exact haside rfl rfl rfl rfl rfl rfl nofun
      · -- it has seen a whole buffer
        rw [if_neg hlow]
        split_ifs
        · exact haside rfl rfl rfl rfl rfl rfl nofun
        · exact haside rfl rfl rfl rfl rfl rfl fun _ _ => Nat.le_of_not_lt hlow
        · exact haside rfl rfl rfl rfl rfl rfl nofun
    · rw [dif_neg hi]
      exact haside rfl rfl rfl rfl rfl rfl nofun
  | pull i =>
    have hfull := hopen.full i hpc
    obtain ⟨cuts, gap, hcuts, hsplit, hdropped⟩ := hopen.heard
    have hlen : (g.ring.contents.take kBufSamples).length = kBufSamples := by
      rw [List.length_take, hopen.ok.length_contents]
      exact Nat.min_eq_left hfull
    dsimp only
    rw [ringPull_spec hopen.ok hfull]
    refine ⟨h.silence, fun _ => ⟨hopen.ok.discard hfull, hopen.cap, nofun, fun b hb => ?_,
      cuts ++ [(gap, g.ring.contents.take kBufSamples)], [], ?_, ?_, ?_⟩⟩
    · rcases List.mem_append.mp hb with hb | hb
      · exact hopen.sent b hb
      · exact (List.mem_singleton.mp hb) ▸ hlen
    · rw [List.map_append, hcuts]
      rfl
    · change g.pushed = _ ++ (g.ring.discard kBufSamples).contents
      rw [hopen.ok.contents_discard hfull, weave_concat, hsplit, List.append_nil, List.append_assoc,
        List.append_assoc (weave cuts ++ gap), List.take_append_drop, ← List.append_assoc]
    · change g.statDropped = g.lost + _ + 0
      rw [hdropped, List.map_append, List.sum_append]
      simp only [List.map_cons, List.map_nil, List.sum_cons, List.sum_nil, Nat.add_zero,
        Nat.add_assoc]

theorem inv_of_run {tr} (hr : (sink off).Run tr g) : Inv g := by
  induction hr with
  | init h =>
    cases h
    exact ⟨rfl, nofun⟩
  | @step tr g l g' _ hs ih =>
    cases l with
    | pushRdram c =>
      obtain ⟨_, rfl⟩ := hs
      exact ih.pushRdram c
    | feeder =>
      obtain ⟨hdev, rfl⟩ := hs
      exact ih.feeder hdev
    | done i =>
      cases hs
      exact ⟨ih.silence, fun hdev =>
        (ih.device hdev).aside rfl rfl rfl rfl rfl (ih.device hdev).full⟩
    | shutdown =>
      obtain ⟨_, rfl⟩ := hs
      exact ⟨ih.silence, nofun⟩

/-- **The device hears what was pushed**: no silence, no sample twice and none
    out of order, and what is missing was counted as dropped. -/
theorem heard_in_order {tr} (hr : (sink off).Run tr g) :
    g.statSilence = 0 ∧ (g.dev = true → Heard g ∧ ∀ b ∈ g.sent, b.length = kBufSamples) := by
  have h := inv_of_run hr
  exact ⟨h.silence, fun hdev => ⟨(h.device hdev).heard, (h.device hdev).sent⟩⟩

/-- A pair of samples, at half of the volume. -/
def pair : Call where
  base := [0x12, 0x34, 0xFF, 0xFE]
  addr := 0
  len := 4
  sampleRate := 32000
  audioOn := true
  volume := 50
  opens := true

theorem heard_in_order_pair :
    Heard (Backend.pushRdram {} false pair) ∧
      (Backend.pushRdram {} false pair).pushed = [0x091A, 0xFFFF] := by
  have hr : (sink false).Run [({}, .pushRdram pair)] (Backend.pushRdram {} false pair) :=
    .step (.init rfl) ⟨nofun, rfl⟩
  have hdev : (Backend.openDevice {} true 32000).dev = true := rfl
  have hcond : ¬ ((Backend.openDevice {} true 32000).dev = false ∨
      pair.base.length ≤ pair.addr ∨ pair.nsamp = 0) := by
    rw [hdev]
    decide
  have hpush : Backend.pushRdram {} false pair =
      (Backend.openDevice {} true 32000).ringPush pair.samples := by
    have hinit : Backend.init {} false pair.opens pair.sampleRate =
        Backend.openDevice {} true 32000 := by
      unfold Backend.init
      rw [if_neg (by decide), if_neg (by decide), if_neg (by decide), if_neg (by decide),
        if_neg (by decide)]
      rfl
    unfold Backend.pushRdram
    rw [if_neg (by decide), hinit]
    exact if_neg hcond
  have hsamples : pair.samples = [0x091A, 0xFFFF] := by decide
  rw [hpush, hsamples] at hr ⊢
  generalize hg : (Backend.openDevice {} true 32000).ringPush [0x091A, 0xFFFF] = g at hr
  refine ⟨((heard_in_order hr).2 ?_).1, ?_⟩
  · rw [← hg, ringPush_dev, hdev]
  · rw [← hg, ringPush_pushed]
    rfl

end Audio
