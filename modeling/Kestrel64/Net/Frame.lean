import Kestrel64.Lib.Bytes
import Kestrel64.Lib.Patch

/-! # Net: Frames over TCP

    `TcpConn` of `net/tcp.cpp`. A frame is a `u32` with the length of what
    follows, a `u32` with the length of the JSON text, the text, and a blob.

    TCP keeps the order of the bytes and nothing else. How many of them one
    `recv` or `send` moves is up to the kernel: here it is a function `cut`
    of the number of the call, and 0 stands for an error or a closed
    connection. `framing` is for every such function.

    What the code reads or writes outside of a buffer is an outcome of its
    own, `Stop.pastEnd`, so that its absence can be stated.
-/

namespace Net

open Patch

/-! ## Section 1: Model -/

/-- Why a call gave no result. -/
inductive Stop where
  /-- The call returned `false`. -/
  | failed
  /-- An access past the end of a buffer. -/
  | pastEnd
deriving DecidableEq, Repr

/-- The receiving side: the bytes still to come, and the calls of `recv` so far. -/
structure Inbox where
  stream : Bytes
  calls : Nat := 0

/-- The sending side: the bytes on the wire, and the calls of `send` so far. -/
structure Outbox where
  wire : Bytes := []
  calls : Nat := 0

/-- One call of `recv` for up to `len` bytes. -/
def recv (cut : Nat → Nat) (len : Nat) (c : Inbox) : Bytes × Inbox :=
  let n := min (cut c.calls) len
  (c.stream.take n, { stream := c.stream.drop n, calls := c.calls + 1 })

/-- The loop of `recvAll`; `buf` holds the `got` bytes received so far. A round
    that goes on has received a byte, so `len` rounds are enough. -/
def recvLoop (cut : Nat → Nat) (len : Nat) : Nat → Bytes → Inbox → Except Stop Bytes × Inbox
  | 0, buf, c => (.ok buf, c)
  | fuel + 1, buf, c =>
    if buf.length < len then
      let (piece, c) := recv cut (len - buf.length) c
      if piece = [] then (.error .failed, c)
      else recvLoop cut len fuel (buf ++ piece) c
    else (.ok buf, c)

def recvAll (cut : Nat → Nat) (len : Nat) (c : Inbox) : Except Stop Bytes × Inbox :=
  recvLoop cut len len [] c

/-- One call of `send`. -/
def send (cut : Nat → Nat) (src : Bytes) (o : Outbox) : Nat × Outbox :=
  let n := min (cut o.calls) src.length
  (n, { wire := o.wire ++ src.take n, calls := o.calls + 1 })

/-- The loop of `sendAll`; `src` is what is left to send. -/
def sendLoop (cut : Nat → Nat) : Nat → Bytes → Outbox → Except Stop Outbox
  | 0, _, o => .ok o
  | fuel + 1, src, o =>
    if src = [] then .ok o
    else
      let (n, o) := send cut src o
      if n = 0 then .error .failed
      else sendLoop cut fuel (src.drop n) o

def sendAll (cut : Nat → Nat) (src : Bytes) (o : Outbox) : Except Stop Outbox :=
  sendLoop cut src.length src o

def rd32le (p : Bytes) : Nat := Bytes.ofLe (p.take 4)

/-- `len` bytes of `p` from `off` on. -/
def read (p : Bytes) (off len : Nat) : Except Stop Bytes :=
  if off + len ≤ p.length then .ok (slice p off len) else .error .pastEnd

/-- Copy `src` into `p` at `off`. -/
def store (p : Bytes) (off : Nat) (src : Bytes) : Except Stop Bytes :=
  if off + src.length ≤ p.length then .ok (overwrite p off src) else .error .pastEnd

/-- The cap of 64 MB. -/
def maxTotal : Nat := 64 * 1024 * 1024

/-- What `recvFrame` does with a payload of `total` bytes. -/
def unpack (total : Nat) (payload : Bytes) : Except Stop (Bytes × Bytes) := do
  let head ← read payload 0 4
  let jsonLen := rd32le head
  if total - 4 < jsonLen then .error .failed
  else do
    let json ← read payload 4 jsonLen
    let blob ← read payload (4 + jsonLen) (payload.length - (4 + jsonLen))
    .ok (json, blob)

def recvFrame (cut : Nat → Nat) (c : Inbox) : Except Stop (Bytes × Bytes) × Inbox :=
  match recvAll cut 4 c with
  | (.error e, c) => (.error e, c)
  | (.ok hdr, c) =>
    let total := rd32le hdr
    if total < 4 ∨ maxTotal < total then (.error .failed, c)
    else
      match recvAll cut total c with
      | (.error e, c) => (.error e, c)
      | (.ok payload, c) => (unpack total payload, c)

/-- The buffer `sendFrame` fills. The lengths are `u32`. -/
def pack (json blob : Bytes) : Except Stop Bytes := do
  let jsonLen := json.length % 2 ^ 32
  let total := (4 + jsonLen + blob.length) % 2 ^ 32
  let frame := List.replicate ((4 + total) % 2 ^ 32) 0
  let frame ← store frame 0 (Bytes.le 4 total)
  let frame ← store frame 4 (Bytes.le 4 jsonLen)
  let frame ← store frame 8 (json.take jsonLen)
  if blob.length ≠ 0 then store frame (8 + jsonLen) blob else .ok frame

def sendFrame (cut : Nat → Nat) (json blob : Bytes) (o : Outbox) : Except Stop Outbox := do
  let frame ← pack json blob
  sendAll cut frame o

/-- Send the frames one after the other. -/
def sendFrames (cut : Nat → Nat) : List (Bytes × Bytes) → Outbox → Except Stop Outbox
  | [], o => .ok o
  | f :: fs, o => do
    let o ← sendFrame cut f.1 f.2 o
    sendFrames cut fs o

/-- Receive frames until a call fails, at most `n` of them. -/
def recvFrames (cut : Nat → Nat) : Nat → Inbox → List (Bytes × Bytes)
  | 0, _ => []
  | n + 1, c =>
    match recvFrame cut c with
    | (.error _, _) => []
    | (.ok f, c) => f :: recvFrames cut n c

/-! ## Section 2: Whole buffers over any cut -/

section Cuts

variable {cut : Nat → Nat}

/-- A call moves the front of the stream; it moves something if it does not fail. -/
theorem recv_spec (cut : Nat → Nat) (len : Nat) (c : Inbox) :
    ∃ m ≤ len, recv cut len c = (c.stream.take m, { stream := c.stream.drop m, calls := c.calls + 1 }) ∧
      (0 < cut c.calls → 0 < len → 0 < m) :=
  ⟨min (cut c.calls) len, Nat.min_le_right _ _, rfl, fun hcut hlen => lt_min hcut hlen⟩

/-- Whatever the cuts, a buffer that is filled holds the front of the stream. -/
theorem recvLoop_spec {len fuel : Nat} (buf : Bytes) (c : Inbox) (hfuel : len ≤ buf.length + fuel)
    (hbuf : buf.length ≤ len) :
    (recvLoop cut len fuel buf c).1 = .error .failed ∨
      len - buf.length ≤ c.stream.length ∧
      (recvLoop cut len fuel buf c).1 = .ok (buf ++ c.stream.take (len - buf.length)) ∧
      (recvLoop cut len fuel buf c).2.stream = c.stream.drop (len - buf.length) := by
  induction fuel generalizing buf c with
  | zero =>
    have hz : len - buf.length = 0 := by omega
    right
    rw [hz]
    exact ⟨Nat.zero_le _, by simp [recvLoop], rfl⟩
  | succ fuel ih =>
    by_cases hlt : buf.length < len
    · -- `m` bytes arrive, the loop goes on for the rest
      obtain ⟨m, hle, hrecv, -⟩ := recv_spec cut (len - buf.length) c
      simp only [recvLoop, if_pos hlt, hrecv]
      by_cases hnil : c.stream.take m = []
      · left
        rw [if_pos hnil]
      · rw [if_neg hnil]
        have hpos : 0 < (c.stream.take m).length := List.length_pos_iff.mpr hnil
        have hsize : (c.stream.take m).length = min m c.stream.length := List.length_take ..
        have hlen : (buf ++ c.stream.take m).length = buf.length + min m c.stream.length := by
          rw [List.length_append, hsize]
        rcases ih (buf ++ c.stream.take m) { stream := c.stream.drop m, calls := c.calls + 1 }
          (by omega) (by omega) with hfail | ⟨hroom, hok, hrest⟩
        · exact .inl hfail
        · right
          simp only [List.length_drop, hlen] at hroom hok hrest
          have hall : min m c.stream.length = m := by omega
          rw [hall] at hroom hok hrest
          have hsplit : len - buf.length = m + (len - (buf.length + m)) := by omega
          refine ⟨by omega, ?_, ?_⟩
          · rw [hok, hsplit, List.take_add, List.append_assoc]
          · rw [hrest, hsplit, List.drop_drop]
    · have hz : len - buf.length = 0 := by omega
      right
      simp only [recvLoop, if_neg hlt, hz]
      exact ⟨Nat.zero_le _, by simp, rfl⟩

/-- When no call fails and the bytes are there, the buffer is filled. -/
theorem recvLoop_ok (hcut : ∀ k, 0 < cut k) {len : Nat} (fuel : Nat) (buf : Bytes) {c : Inbox}
    (hroom : len - buf.length ≤ c.stream.length) :
    ∃ b, (recvLoop cut len fuel buf c).1 = .ok b := by
  induction fuel generalizing buf c with
  | zero => exact ⟨buf, rfl⟩
  | succ fuel ih =>
    by_cases hlt : buf.length < len
    · obtain ⟨m, hle, hrecv, hpos⟩ := recv_spec cut (len - buf.length) c
      have hm := hpos (hcut c.calls) (by omega)
      have hsize : (c.stream.take m).length = m := by
        rw [List.length_take]
        omega
      have hnil : ¬ c.stream.take m = [] := by
        intro h
        rw [h, List.length_nil] at hsize
        omega
      simp only [recvLoop, if_pos hlt, hrecv, if_neg hnil]
      apply ih
      rw [List.length_append, hsize, List.length_drop]
      omega
    · simp only [recvLoop, if_neg hlt]
      exact ⟨buf, rfl⟩

theorem recvAll_spec (cut : Nat → Nat) (len : Nat) (c : Inbox) :
    (recvAll cut len c).1 = .error .failed ∨
      len ≤ c.stream.length ∧ (recvAll cut len c).1 = .ok (c.stream.take len) ∧
      (recvAll cut len c).2.stream = c.stream.drop len :=
  recvLoop_spec [] c (Nat.le_add_left _ _) (Nat.zero_le _)

theorem recvAll_ok (hcut : ∀ k, 0 < cut k) (len : Nat) {c : Inbox} (h : len ≤ c.stream.length) :
    ∃ c', recvAll cut len c = (.ok (c.stream.take len), c') ∧ c'.stream = c.stream.drop len := by
  obtain ⟨b, hb⟩ := recvLoop_ok hcut len [] h
  rcases recvAll_spec cut len c with hfail | ⟨-, hok, hrest⟩
  · rw [recvAll, hb] at hfail
    cases hfail
  · exact ⟨_, Prod.ext hok rfl, hrest⟩

/-- What is sent piece by piece is on the wire as a whole. -/
theorem sendLoop_spec (hcut : ∀ k, 0 < cut k) {fuel : Nat} (src : Bytes) (o : Outbox)
    (hfuel : src.length ≤ fuel) :
    ∃ o', sendLoop cut fuel src o = .ok o' ∧ o'.wire = o.wire ++ src := by
  induction fuel generalizing src o with
  | zero =>
    have hnil : src = [] := List.eq_nil_of_length_eq_zero (by omega)
    exact ⟨o, rfl, by rw [hnil, List.append_nil]⟩
  | succ fuel ih =>
    by_cases hnil : src = []
    · exact ⟨o, by rw [sendLoop, if_pos hnil], by rw [hnil, List.append_nil]⟩
    · have hpos := hcut o.calls
      have hsrc : 0 < src.length := List.length_pos_iff.mpr hnil
      have hne : ¬ min (cut o.calls) src.length = 0 := by omega
      obtain ⟨o', hrun, hwire⟩ := ih (src.drop (min (cut o.calls) src.length)) (send cut src o).2
        (by rw [List.length_drop]; omega)
      refine ⟨o', ?_, ?_⟩
      · rw [sendLoop, if_neg hnil]
        show (if min (cut o.calls) src.length = 0 then _ else _) = _
        rw [if_neg hne]
        exact hrun
      · rw [hwire]
        show o.wire ++ src.take _ ++ src.drop _ = _
        rw [List.append_assoc, List.take_append_drop]

end Cuts

/-! ## Section 3: One frame -/

/-- The bytes of a frame. -/
def encode (f : Bytes × Bytes) : Bytes :=
  Bytes.le 4 (4 + f.1.length + f.2.length) ++ (Bytes.le 4 f.1.length ++ (f.1 ++ f.2))

/-- A frame the receiver takes. -/
def Fits (f : Bytes × Bytes) : Prop := 4 + f.1.length + f.2.length ≤ maxTotal

instance (f : Bytes × Bytes) : Decidable (Fits f) := inferInstanceAs (Decidable (_ ≤ _))

theorem rd32le_le {x : Nat} (h : x < 2 ^ 32) (rest : Bytes) :
    rd32le (Bytes.le 4 x ++ rest) = x := by
  have htake : (Bytes.le 4 x ++ rest).take 4 = Bytes.le 4 x := List.take_left' (Bytes.length_le 4 x)
  rw [rd32le, htake, Bytes.ofLe_le]
  exact Nat.mod_eq_of_lt h

theorem read_ok {p : Bytes} {off len : Nat} (h : off + len ≤ p.length) :
    read p off len = .ok (slice p off len) := if_pos h

theorem store_ok {p src : Bytes} {off : Nat} (a b c : Bytes) (hp : p = a ++ (b ++ c))
    (hoff : off = a.length) (h : b.length = src.length) :
    store p off src = .ok (a ++ (src ++ c)) := by
  subst hp hoff
  have hroom : a.length + src.length ≤ (a ++ (b ++ c)).length := by
    simp only [List.length_append]
    omega
  have htail : (a ++ (b ++ c)).drop (a.length + src.length) = c := by
    rw [← List.drop_drop, List.drop_left, List.drop_left' h]
  rw [store, if_pos hroom, overwrite, List.take_left, htail, List.append_assoc]

/-- The buffer of a frame, filled part by part, holds its bytes. -/
theorem pack_eq {f : Bytes × Bytes} (h : Fits f) : pack f.1 f.2 = .ok (encode f) := by
  obtain ⟨json, blob⟩ := f
  have hcap : 4 + json.length + blob.length ≤ 67108864 := h
  have hjson : json.length % 2 ^ 32 = json.length := Nat.mod_eq_of_lt (by omega)
  have htotal : (4 + json.length + blob.length) % 2 ^ 32 = 4 + json.length + blob.length :=
    Nat.mod_eq_of_lt (by omega)
  have hframe : (4 + (4 + json.length + blob.length)) % 2 ^ 32 =
      4 + (4 + (json.length + blob.length)) := by omega
  have htake : json.take json.length = json := List.take_length
  -- the zeros of the buffer, cut where the four parts go
  have hzeros : List.replicate (4 + (4 + (json.length + blob.length))) (0 : Byte) =
      [] ++ (List.replicate 4 0 ++ (List.replicate 4 0 ++
        (List.replicate json.length 0 ++ List.replicate blob.length 0))) := by
    rw [List.nil_append, ← List.replicate_add, ← List.replicate_add, ← List.replicate_add]
  generalize hhead : Bytes.le 4 (4 + json.length + blob.length) = head
  generalize hword : Bytes.le 4 json.length = word
  have hhlen : head.length = 4 := hhead ▸ Bytes.length_le 4 _
  have hwlen : word.length = 4 := hword ▸ Bytes.length_le 4 _
  have h1 : store (List.replicate (4 + (4 + (json.length + blob.length))) 0) 0 head =
      .ok (head ++ (List.replicate 4 0 ++
        (List.replicate json.length 0 ++ List.replicate blob.length 0))) :=
    store_ok [] _ _ hzeros rfl (by simp [hhlen])
  have h2 : store (head ++ (List.replicate 4 0 ++
      (List.replicate json.length 0 ++ List.replicate blob.length 0))) 4 word =
      .ok (head ++ (word ++ (List.replicate json.length 0 ++ List.replicate blob.length 0))) :=
    store_ok head _ _ rfl hhlen.symm (by simp [hwlen])
  have h3 : store (head ++ (word ++ (List.replicate json.length 0 ++
      List.replicate blob.length 0))) 8 json =
      .ok (head ++ word ++ (json ++ List.replicate blob.length 0)) :=
    store_ok (head ++ word) _ _ (List.append_assoc ..).symm (by simp [hhlen, hwlen]) (by simp)
  have h4 : store (head ++ word ++ (json ++ List.replicate blob.length 0)) (8 + json.length) blob =
      .ok (head ++ word ++ json ++ (blob ++ [])) :=
    store_ok (head ++ word ++ json) (List.replicate blob.length 0) [] (by simp [List.append_assoc])
      (by simp [hhlen, hwlen]; omega) (by simp)
  simp only [pack, hjson, htotal, hframe, htake, hhead, hword, h1, h2, h3, h4, bind, Except.bind,
    encode]
  by_cases hnil : blob.length = 0
  · rw [if_neg (by simpa using hnil), List.eq_nil_of_length_eq_zero hnil]
    simp [List.append_assoc]
  · rw [if_pos hnil]
    simp [List.append_assoc]

/-- A payload that was packed is unpacked again. -/
theorem unpack_payload {f : Bytes × Bytes} (h : Fits f) :
    unpack (4 + f.1.length + f.2.length) (Bytes.le 4 f.1.length ++ (f.1 ++ f.2)) = .ok f := by
  obtain ⟨json, blob⟩ := f
  have hcap : 4 + json.length + blob.length ≤ 67108864 := h
  have hlen : (Bytes.le 4 json.length ++ (json ++ blob)).length =
      4 + (json.length + blob.length) := by simp
  have hhead : read (Bytes.le 4 json.length ++ (json ++ blob)) 0 4 = .ok (Bytes.le 4 json.length) := by
    rw [read_ok (by omega)]
    exact congrArg _ (slice_mid (a := []) (List.append_assoc ..).symm rfl (Bytes.length_le 4 _).symm)
  have hword : rd32le (Bytes.le 4 json.length) = json.length := by
    simpa using rd32le_le (show json.length < 2 ^ 32 by omega) []
  have hjson : read (Bytes.le 4 json.length ++ (json ++ blob)) 4 json.length = .ok json := by
    rw [read_ok (by omega)]
    exact congrArg _ (slice_mid (List.append_assoc ..).symm (Bytes.length_le 4 _).symm rfl)
  have hblob : read (Bytes.le 4 json.length ++ (json ++ blob)) (4 + json.length)
      ((Bytes.le 4 json.length ++ (json ++ blob)).length - (4 + json.length)) = .ok blob := by
    rw [read_ok (by omega)]
    refine congrArg _ (slice_mid (c := []) (a := Bytes.le 4 json.length ++ json) ?_ ?_ ?_)
    · rw [List.append_nil, List.append_assoc]
    · rw [List.length_append, Bytes.length_le]
    · omega
  have hfits : ¬ 4 + json.length + blob.length - 4 < json.length := by omega
  simp only [unpack, hhead, hword, hjson, hblob, if_neg hfits, bind, Except.bind]

/-- One frame from the front of the stream. -/
theorem recvFrame_encode {cut : Nat → Nat} (hcut : ∀ k, 0 < cut k) {f : Bytes × Bytes}
    (h : Fits f) {c : Inbox} {rest : Bytes} (hs : c.stream = encode f ++ rest) :
    ∃ c', recvFrame cut c = (.ok f, c') ∧ c'.stream = rest := by
  have hcap : 4 + f.1.length + f.2.length ≤ 67108864 := h
  have hsplit : c.stream = Bytes.le 4 (4 + f.1.length + f.2.length) ++
      (Bytes.le 4 f.1.length ++ (f.1 ++ f.2) ++ rest) := by
    rw [hs, encode, List.append_assoc]
  have hplen : (Bytes.le 4 f.1.length ++ (f.1 ++ f.2)).length = 4 + f.1.length + f.2.length := by
    simp [Nat.add_assoc]
  obtain ⟨c₁, hhdr, hc₁⟩ := recvAll_ok hcut 4 (c := c) (by rw [hsplit]; simp)
  rw [hsplit, List.take_left' (Bytes.length_le 4 _)] at hhdr
  rw [hsplit, List.drop_left' (Bytes.length_le 4 _)] at hc₁
  obtain ⟨c₂, hpay, hc₂⟩ := recvAll_ok hcut (4 + f.1.length + f.2.length) (c := c₁) (by
    rw [hc₁, List.length_append, hplen]
    omega)
  rw [hc₁, List.take_left' hplen] at hpay
  rw [hc₁, List.drop_left' hplen] at hc₂
  have htotal : rd32le (Bytes.le 4 (4 + f.1.length + f.2.length)) = 4 + f.1.length + f.2.length := by
    simpa using rd32le_le (show 4 + f.1.length + f.2.length < 2 ^ 32 by omega) []
  have hsane : ¬ (4 + f.1.length + f.2.length < 4 ∨ maxTotal < 4 + f.1.length + f.2.length) := by
    simp only [maxTotal]
    omega
  exact ⟨c₂, by simp only [recvFrame, hhdr, htotal, if_neg hsane, hpay, unpack_payload h], hc₂⟩

/-- What `unpack` makes of a payload lies inside it and uses it up. -/
theorem unpack_sound {total : Nat} {payload : Bytes} (hlen : payload.length = total)
    (hmin : 4 ≤ total) :
    match unpack total payload with
    | .error e => e = .failed
    | .ok f => 4 + f.1.length + f.2.length = total := by
  have hhead : read payload 0 4 = .ok (slice payload 0 4) := read_ok (by omega)
  simp only [unpack, hhead, bind, Except.bind]
  by_cases hlong : total - 4 < rd32le (slice payload 0 4)
  · simp only [if_pos hlong]
  · generalize rd32le (slice payload 0 4) = jsonLen at hlong ⊢
    have hjson : 4 + jsonLen ≤ payload.length := by omega
    have hblob : 4 + jsonLen + (payload.length - (4 + jsonLen)) ≤ payload.length := by omega
    simp only [if_neg hlong, read_ok hjson, read_ok hblob, length_slice hjson, length_slice hblob]
    omega

/-- Whatever comes, a call fails or gives a frame of the announced length. -/
theorem recvFrame_sound (cut : Nat → Nat) (c : Inbox) :
    match (recvFrame cut c).1 with
    | .error e => e = .failed
    | .ok f => 4 + f.1.length + f.2.length = rd32le c.stream := by
  unfold recvFrame
  rcases hhdr : recvAll cut 4 c with ⟨hdr, c₁⟩
  rcases recvAll_spec cut 4 c with hfail | ⟨-, hok, -⟩
  · rw [hhdr] at hfail
    rw [show hdr = .error .failed from hfail]
  · rw [hhdr] at hok
    rw [show hdr = .ok (c.stream.take 4) from hok]
    have htake : rd32le (c.stream.take 4) = rd32le c.stream := by
      rw [rd32le, rd32le, List.take_take, Nat.min_self]
    simp only [htake]
    by_cases hbad : rd32le c.stream < 4 ∨ maxTotal < rd32le c.stream
    · simp only [if_pos hbad]
    · simp only [if_neg hbad]
      rcases hpay : recvAll cut (rd32le c.stream) c₁ with ⟨pay, c₂⟩
      rcases recvAll_spec cut (rd32le c.stream) c₁ with hfail | ⟨hroom, hok, -⟩
      · rw [hpay] at hfail
        rw [show pay = .error .failed from hfail]
      · rw [hpay] at hok
        rw [show pay = .ok (c₁.stream.take (rd32le c.stream)) from hok]
        apply unpack_sound
        · rw [List.length_take, Nat.min_eq_left hroom]
        · omega

/-! ## Section 4: Many frames -/

theorem sendFrames_wire {cut : Nat → Nat} (hcut : ∀ k, 0 < cut k) {fs : List (Bytes × Bytes)}
    (hfits : ∀ f ∈ fs, Fits f) (o : Outbox) :
    ∃ o', sendFrames cut fs o = .ok o' ∧ o'.wire = o.wire ++ fs.flatMap encode := by
  induction fs generalizing o with
  | nil => exact ⟨o, rfl, by simp⟩
  | cons f fs ih =>
    obtain ⟨o₁, hsend, hwire₁⟩ := sendLoop_spec hcut (encode f) o (Nat.le_refl _)
    obtain ⟨o₂, hrest, hwire₂⟩ := ih (fun g hg => hfits g (List.mem_cons_of_mem _ hg)) o₁
    refine ⟨o₂, ?_, ?_⟩
    · simp only [sendFrames, sendFrame, pack_eq (hfits f (List.mem_cons_self ..)), bind,
        Except.bind, sendAll, hsend, hrest]
    · rw [hwire₂, hwire₁, List.flatMap_cons, List.append_assoc]

/-- Past the end of the stream a call fails. -/
theorem recvFrame_nil (cut : Nat → Nat) {c : Inbox} (hs : c.stream = []) :
    (recvFrame cut c).1 = .error .failed := by
  unfold recvFrame
  rcases hhdr : recvAll cut 4 c with ⟨hdr, c₁⟩
  rcases recvAll_spec cut 4 c with hfail | ⟨hlen, -, -⟩
  · rw [hhdr] at hfail
    rw [show hdr = .error .failed from hfail]
  · rw [hs] at hlen
    exact absurd hlen (by decide)

/-- The frames come out as they went in, and then no more. -/
theorem recvFrames_encode {cut : Nat → Nat} (hcut : ∀ k, 0 < cut k) {fs : List (Bytes × Bytes)}
    (hfits : ∀ f ∈ fs, Fits f) {n : Nat} (hn : fs.length ≤ n) {c : Inbox}
    (hs : c.stream = fs.flatMap encode) : recvFrames cut n c = fs := by
  induction fs generalizing n c with
  | nil =>
    cases n with
    | zero => rfl
    | succ n =>
      have hnone := recvFrame_nil cut hs
      rcases hrecv : recvFrame cut c with ⟨r, c₁⟩
      rw [hrecv] at hnone
      rw [recvFrames, hrecv, show r = .error .failed from hnone]
  | cons f fs ih =>
    obtain ⟨m, rfl⟩ := Nat.exists_eq_add_one_of_ne_zero (Nat.ne_zero_of_lt hn)
    obtain ⟨c', hrecv, hc'⟩ := recvFrame_encode hcut (hfits f (List.mem_cons_self ..)) hs
    simp only [recvFrames, hrecv]
    rw [ih (fun g hg => hfits g (List.mem_cons_of_mem _ hg)) (Nat.le_of_succ_le_succ hn) hc']

/-- **Framing.** Frames that fit arrive as they were sent, whatever the pieces
    in which the bytes are sent and received. On any other stream a call fails,
    or it gives a text and a blob that make up what its header announces; no
    access is past the end of the payload. -/
theorem framing :
    (∀ (scut rcut : Nat → Nat) (fs : List (Bytes × Bytes)), (∀ k, 0 < scut k) → (∀ k, 0 < rcut k) →
      (∀ f ∈ fs, 4 + f.1.length + f.2.length ≤ 64 * 1024 * 1024) →
      ∃ o, sendFrames scut fs {} = .ok o ∧
        ∀ n, fs.length ≤ n → recvFrames rcut n { stream := o.wire } = fs) ∧
    ∀ (cut : Nat → Nat) (c : Inbox),
      match (recvFrame cut c).1 with
      | .error e => e = .failed
      | .ok (json, blob) => json.length + blob.length = rd32le c.stream - 4 ∧ 4 ≤ rd32le c.stream := by
  constructor
  · intro scut rcut fs hscut hrcut hfits
    obtain ⟨o, hsend, hwire⟩ := sendFrames_wire hscut hfits {}
    refine ⟨o, hsend, fun n hn => recvFrames_encode hrcut hfits hn ?_⟩
    rw [hwire]
    rfl
  · intro cut c
    have h := recvFrame_sound cut c
    revert h
    rcases (recvFrame cut c).1 with e | ⟨json, blob⟩
    · exact id
    · intro h
      have hsum : 4 + json.length + blob.length = rd32le c.stream := h
      show json.length + blob.length = rd32le c.stream - 4 ∧ 4 ≤ rd32le c.stream
      omega

/-- Two frames, sent three bytes at a time and received one by one. -/
theorem framing_two :
    ∃ o, sendFrames (fun _ => 3) [([123, 125], [7, 8, 9]), ([], [])] {} = .ok o ∧
      ∀ n, 2 ≤ n →
        recvFrames (fun _ => 1) n { stream := o.wire } = [([123, 125], [7, 8, 9]), ([], [])] :=
  framing.1 (fun _ => 3) (fun _ => 1) [([123, 125], [7, 8, 9]), ([], [])]
    (fun _ => by decide) (fun _ => by decide) (by decide)

end Net
