import Kestrel64.Movie.Tape

/-! # Movie: A Replay Is the Tape

    What a recording means is the logical tape: every sample is added at its
    end, and going back to sample `n` keeps the first `n`. A replay should
    answer the game from the logical tape and leave it to the host behind
    the last sample.

    The file of a recording is a header, the samples of the tape, and what
    earlier takes left behind them (`Recording`). In a replay the number in
    the header separates the last two, except for 0, which stands for a
    recording that was not closed. `replays_iff` says for which recordings
    the replay is the logical tape.
-/

namespace Movie

open Patch

/-! ## Section 1: The logical tape -/

/-- One answer of one controller, as the game gets it. -/
structure Sample where
  ch : Byte
  btn : BitVec 16
  sx : BitVec 8
  sy : BitVec 8
deriving DecidableEq, Repr

def Sample.of (ch : BitVec 32) (p : Pad) : Sample :=
  ⟨ch.setWidth 8, p.btn.setWidth 16, p.sx, p.sy⟩

def Sample.pad (s : Sample) : Pad := ⟨s.btn.setWidth 32, s.sx, s.sy⟩

/-- What happens to the logical tape. -/
def RecOp.tape (l : List Sample) : RecOp → List Sample
  | .sample _ ch p => l ++ [Sample.of ch p]
  | .seek n => l.take n.toNat

/-- The logical tape of a recording. -/
def logical (ops : List RecOp) : List Sample := ops.foldl RecOp.tape []

/-- No seek goes behind the end of the logical tape. -/
def SeeksWithin : List Sample → List RecOp → Prop
  | _, [] => True
  | l, op :: ops =>
    (match op with
      | .sample _ _ _ => True
      | .seek n => n.toNat ≤ l.length) ∧ SeeksWithin (op.tape l) ops

/-- The answers the tape `l` gives from position `k` on: its samples, and behind
    the last one those of the host. -/
def answers (l : List Sample) : Nat → List PlayOp → List Pad
  | _, [] => []
  | k, .read _ host :: ops =>
    match l[k]? with
    | some s => s.pad :: answers l (k + 1) ops
    | none => host :: answers l k ops
  | _, .seek n :: ops => answers l n.toNat ops

/-- The replay asks for the controllers that are on the tape, and no seek goes
    behind its end. -/
def Requests (l : List Sample) : Nat → List PlayOp → Prop
  | _, [] => True
  | k, .read ch _ :: ops =>
    match l[k]? with
    | some s => ch.setWidth 8 = s.ch ∧ Requests l (k + 1) ops
    | none => Requests l k ops
  | _, .seek n :: ops => n.toNat ≤ l.length ∧ Requests l n.toNat ops

/-- Every replay of `file` with the cartridge `c` answers from the tape `l`. -/
def Replays (c : Cart) (l : List Sample) (file : Bytes) : Prop :=
  ∀ c' : Cart, c'.crc1 = c.crc1 → c'.crc2 = c.crc2 →
    ∀ ops, Requests l 0 ops →
      playRun ops (init kHdrSize none (some (some file)) c' {}) = answers l 0 ops

/-! ## Section 2: Samples as bytes -/

def Sample.bytes (s : Sample) : Bytes :=
  [s.ch, (s.btn >>> 8).setWidth 8, s.btn.setWidth 8, s.sx, s.sy]

theorem record_eq (ch : BitVec 32) (p : Pad) : record ch p = (Sample.of ch p).bytes := by
  have hhi : (p.btn >>> 8).setWidth 8 = (p.btn.setWidth 16 >>> 8).setWidth 8 := by
    apply BitVec.eq_of_toNat_eq
    simp [Nat.shiftRight_eq_div_pow]
    omega
  have hlo : p.btn.setWidth 8 = (p.btn.setWidth 16).setWidth 8 := by
    apply BitVec.eq_of_toNat_eq
    simp
  simp only [record, Sample.bytes, Sample.of, hhi, hlo]

theorem replayed_bytes (s : Sample) : replayed s.bytes = s.pad := by
  have hbtn : ((s.btn >>> 8).setWidth 8).setWidth 32 <<< 8 ||| (s.btn.setWidth 8).setWidth 32 =
      s.btn.setWidth 32 := by
    apply BitVec.eq_of_toNat_eq
    have hlt := s.btn.isLt
    have hor := Nat.shiftLeft_add_eq_or_of_lt (b := s.btn.toNat % 256) (i := 8) (by omega)
      (s.btn.toNat / 256 % 256)
    rw [Nat.shiftLeft_eq] at hor
    simp only [BitVec.toNat_or, BitVec.toNat_shiftLeft, BitVec.toNat_setWidth,
      BitVec.toNat_ushiftRight, Nat.shiftRight_eq_div_pow, Nat.shiftLeft_eq]
    rw [show s.btn.toNat / 2 ^ 8 % 2 ^ 8 % 2 ^ 32 * 2 ^ 8 % 2 ^ 32 =
        s.btn.toNat / 256 % 256 * 2 ^ 8 by omega,
      show s.btn.toNat % 2 ^ 8 % 2 ^ 32 = s.btn.toNat % 256 by omega, ← hor]
    omega
  simp only [Sample.bytes, replayed, hbtn, Sample.pad]

/-- The samples one after another. -/
def tapeBytes (l : List Sample) : Bytes := l.flatMap Sample.bytes

@[simp] theorem length_tapeBytes (l : List Sample) : (tapeBytes l).length = l.length * 5 := by
  induction l with
  | nil => rfl
  | cons s l ih =>
    have hcons : tapeBytes (s :: l) = s.bytes ++ tapeBytes l := List.flatMap_cons
    rw [hcons, List.length_append, ih, List.length_cons]
    simp only [Sample.bytes, List.length_cons, List.length_nil]
    omega

theorem tapeBytes_append (a b : List Sample) : tapeBytes (a ++ b) = tapeBytes a ++ tapeBytes b :=
  List.flatMap_append

theorem length_headerStart (c : Cart) : c.headerStart.length = kOffPolls := by
  simp [Cart.headerStart, magic, kOffPolls]

theorem length_header (c : Cart) (n : BitVec 64) : (c.header n).length = kHdrSize := by
  simp [Cart.header, length_headerStart, Cart.headerEnd, kHdrSize, kOffPolls]
  omega

/-! ## Section 3: Recording -/

/-- `fwrite` inside the file, when it writes all of `src`. -/
theorem fwrite_all {room pos : Nat} {src disk : Bytes} (h : (fwrite room src pos disk).1 = src.length)
    (hpos : pos ≤ disk.length) : (fwrite room src pos disk).2 = overwrite disk pos src := by
  have hsrc : src.take (min room (maxOffset - pos)) = src := by
    apply List.take_of_length_le
    simp only [fwrite, List.length_take] at h
    omega
  have hgap : (if src = [] then 0 else pos - disk.length) = 0 := by
    split
    · rfl
    · omega
  simp only [fwrite, hsrc, hgap, List.replicate_zero, List.append_nil]

/-- The state of a recording with the tape `l`; behind it the file has `stale`
    from earlier takes. -/
structure Recording (c : Cart) (l : List Sample) (stale : Bytes) (t : Tape) : Prop where
  mode : t.mode = .record
  fp : t.fp = some (kHdrSize + l.length * 5)
  polls : t.polls = BitVec.ofNat 64 l.length
  disk : t.disk = c.header 0 ++ tapeBytes l ++ stale
  offset : kHdrSize + l.length * 5 ≤ maxOffset

theorem Recording.length_disk {c : Cart} {l : List Sample} {stale : Bytes} {t : Tape}
    (h : Recording c l stale t) : t.disk.length = kHdrSize + l.length * 5 + stale.length := by
  rw [h.disk, List.length_append, List.length_append, length_header, length_tapeBytes]

theorem recording_init (c : Cart) :
    Recording c [] [] (init kHdrSize (some true) none c {}) := by
  have hlen := length_header c 0
  have htake : (c.header 0).take (min kHdrSize (maxOffset - 0)) = c.header 0 := by
    apply List.take_of_length_le
    rw [hlen]
    decide
  constructor
  · rfl
  · simp only [init, initRec, if_true, fwrite, htake, hlen]
    rfl
  · rfl
  · simp only [init, initRec, if_true, fwrite, htake]
    simp [overwrite, tapeBytes]
  · decide

/-- A sample goes over what was behind the tape. -/
theorem Recording.sample {c : Cart} {l : List Sample} {stale : Bytes} {t : Tape}
    (h : Recording c l stale t) {room : Nat} {ch : BitVec 32} {p : Pad}
    (hwrite : (fwrite room (record ch p) (kHdrSize + l.length * 5) t.disk).1 = 5) :
    Recording c (l ++ [Sample.of ch p]) (stale.drop 5) (Movie.sample room ch p t).2 := by
  have hlen := h.length_disk
  have hdisk : (fwrite room (record ch p) (kHdrSize + l.length * 5) t.disk).2 =
      overwrite t.disk (kHdrSize + l.length * 5) (record ch p) := fwrite_all hwrite (by omega)
  have hfront : kHdrSize + l.length * 5 = (c.header 0 ++ tapeBytes l).length := by
    rw [List.length_append, length_header, length_tapeBytes]
  rw [overwrite_mid h.disk hfront, record_eq] at hdisk
  have hoffset : kHdrSize + l.length * 5 + 5 ≤ maxOffset := by
    simp only [fwrite, List.length_take] at hwrite
    omega
  have hsample : (Movie.sample room ch p t).2 =
      { t with
        disk := (fwrite room (record ch p) (kHdrSize + l.length * 5) t.disk).2
        fp := some (kHdrSize + l.length * 5 + 5)
        polls := t.polls + 1 } := by
    simp only [Movie.sample, h.mode, h.fp, hwrite, ne_eq, not_true, if_false]
  rw [hsample, record_eq, hdisk]
  constructor
  · exact h.mode
  · simp only [List.length_append, List.length_singleton]
    congr 1
    omega
  · simp only [h.polls, List.length_append, List.length_singleton]
    exact (BitVec.ofNat_add ..).symm
  · simp [tapeBytes, Sample.bytes]
  · simp only [List.length_append, List.length_singleton]
    omega

/-- Going back leaves the samples behind the new end in the file. -/
theorem Recording.seek {c : Cart} {l : List Sample} {stale : Bytes} {t : Tape}
    (h : Recording c l stale t) {n : BitVec 64} (hn : n.toNat ≤ l.length)
    (hmax : n.toNat ≤ maxSeek) :
    Recording c (l.take n.toNat) (tapeBytes (l.drop n.toNat) ++ stale) (Movie.seek n t) := by
  have hlen : (l.take n.toNat).length = n.toNat := by
    rw [List.length_take]
    omega
  have hseek : Movie.seek n t =
      { t with fp := some (kHdrSize + n.toNat * 5), polls := n, ended := false } := by
    simp [Movie.seek, h.mode, h.fp, Nat.not_lt.mpr hmax]
  have hoffset := h.offset
  rw [hseek]
  constructor
  · exact h.mode
  · simp only [hlen]
  · simp only [hlen, BitVec.ofNat_toNat, BitVec.setWidth_eq]
  · have hsplit : tapeBytes l = tapeBytes (l.take n.toNat) ++ tapeBytes (l.drop n.toNat) := by
      rw [← tapeBytes_append, List.take_append_drop]
    simp only [h.disk, hsplit, List.append_assoc]
  · rw [hlen]
    omega

theorem seek_far {n : BitVec 64} (h : maxSeek < n.toNat) (t : Tape) : seek n t = t := by
  unfold seek
  split
  · rfl
  · rfl
  · rw [if_pos h]

theorem seek_disk (n : BitVec 64) (t : Tape) : (seek n t).disk = t.disk := by
  unfold seek
  split
  · rfl
  · rfl
  · split <;> rfl

/-! ## Section 4: The logical tape and the one in the file -/

/-- The tape in the file beside the logical one. A seek behind `maxSeek` is
    refused, so the file may keep more; going back for good makes them equal. -/
structure Kept (l k : List Sample) : Prop where
  short : l.length ≤ maxSeek → k = l
  front : k.take maxSeek = l.take maxSeek
  le : l.length ≤ k.length

theorem Kept.refl (l : List Sample) : Kept l l := ⟨fun _ => rfl, rfl, le_refl _⟩

theorem Kept.sample {l k : List Sample} (h : Kept l k) (s : Sample) :
    Kept (l ++ [s]) (k ++ [s]) where
  short := by
    intro hshort
    rw [List.length_append] at hshort
    rw [h.short (by omega)]
  front := by
    have hle := h.le
    by_cases hshort : l.length ≤ maxSeek
    · rw [h.short hshort]
    · rw [List.take_append_of_le_length (by omega), List.take_append_of_le_length (by omega), h.front]
  le := by
    have hle := h.le
    simp only [List.length_append]
    omega

/-- A seek that is not refused. -/
theorem Kept.seek {l k : List Sample} (h : Kept l k) {n : Nat} (hmax : n ≤ maxSeek) :
    k.take n = l.take n := by
  have hfront := congrArg (List.take n) h.front
  rwa [List.take_take, List.take_take, Nat.min_eq_left hmax] at hfront

/-- A seek that is refused. -/
theorem Kept.seek_far {l k : List Sample} (h : Kept l k) {n : Nat} (hmax : maxSeek < n)
    (hn : n ≤ l.length) : Kept (l.take n) k where
  short := by
    intro hshort
    rw [List.length_take] at hshort
    omega
  front := by rw [h.front, List.take_take, Nat.min_eq_left (by omega)]
  le := by
    have hle := h.le
    rw [List.length_take]
    omega

/-- One event: the recording goes on, and the file does not shrink. -/
theorem Recording.step {c : Cart} {l k : List Sample} {stale : Bytes} {t : Tape}
    (h : Recording c k stale t) (op : RecOp) (hk : Kept l k) (hseek : SeeksWithin l [op])
    (hwrite : AllWritten t [op]) :
    ∃ k' stale', Recording c k' stale' (op.run t) ∧ Kept (op.tape l) k' ∧
      t.disk.length ≤ (op.run t).disk.length := by
  cases op with
  | sample room ch p =>
    simp only [AllWritten, h.fp, and_true] at hwrite
    have hnext := h.sample hwrite
    have hlen := h.length_disk
    have hlen' := hnext.length_disk
    refine ⟨_, _, hnext, hk.sample _, ?_⟩
    show t.disk.length ≤ (Movie.sample room ch p t).2.disk.length
    rw [hlen, hlen', List.length_append, List.length_singleton, List.length_drop]
    omega
  | seek n =>
    have hn := hseek.1
    have hle := hk.le
    have hdisk : t.disk.length ≤ ((RecOp.seek n).run t).disk.length := by
      rw [RecOp.run, seek_disk]
    by_cases hmax : n.toNat ≤ maxSeek
    · refine ⟨_, _, h.seek (Nat.le_trans hn hle) hmax, ?_, hdisk⟩
      rw [hk.seek hmax]
      exact Kept.refl _
    · have hfar := Nat.lt_of_not_le hmax
      refine ⟨k, stale, ?_, hk.seek_far hfar hn, hdisk⟩
      rw [RecOp.run, Movie.seek_far hfar]
      exact h

/-- A whole recording. -/
theorem Recording.run {c : Cart} (ops : List RecOp) {l k : List Sample} {stale : Bytes} {t : Tape}
    (h : Recording c k stale t) (hk : Kept l k) (hseek : SeeksWithin l ops)
    (hwrite : AllWritten t ops) :
    ∃ k' stale', Recording c k' stale' (ops.foldl RecOp.run t) ∧ Kept (ops.foldl RecOp.tape l) k' ∧
      t.disk.length ≤ (ops.foldl RecOp.run t).disk.length := by
  induction ops generalizing l k stale t with
  | nil => exact ⟨k, stale, h, hk, le_refl _⟩
  | cons op ops ih =>
    obtain ⟨k₁, stale₁, hstep, hk₁, hlen₁⟩ := h.step op hk ⟨hseek.1, trivial⟩
      ⟨hwrite.1, trivial⟩
    obtain ⟨k₂, stale₂, hrun, hk₂, hlen₂⟩ := ih hstep hk₁ hseek.2 hwrite.2
    exact ⟨k₂, stale₂, hrun, hk₂, le_trans hlen₁ hlen₂⟩

/-- Once something was recorded, there is a sample in the file. -/
theorem Recording.length_run {c : Cart} (ops : List RecOp) {l k : List Sample} {stale : Bytes}
    {t : Tape} (h : Recording c k stale t) (hk : Kept l k) (hseek : SeeksWithin l ops)
    (hwrite : AllWritten t ops) (hsome : ¬ ∀ op ∈ ops, ∃ n, op = .seek n) :
    kHdrSize + 5 ≤ (ops.foldl RecOp.run t).disk.length := by
  induction ops generalizing l k stale t with
  | nil => exact absurd (by simp) hsome
  | cons op ops ih =>
    obtain ⟨k₁, stale₁, hstep, hk₁, hlen₁⟩ := h.step op hk ⟨hseek.1, trivial⟩
      ⟨hwrite.1, trivial⟩
    cases op with
    | sample room ch p =>
      have hw := hwrite.1
      simp only [h.fp] at hw
      have hone := (h.sample hw).length_disk
      obtain ⟨_, _, -, -, hlen⟩ := hstep.run ops hk₁ hseek.2 hwrite.2
      rw [List.length_append, List.length_singleton] at hone
      apply Nat.le_trans _ hlen
      show kHdrSize + 5 ≤ (Movie.sample room ch p t).2.disk.length
      omega
    | seek n =>
      apply ih hstep hk₁ hseek.2 hwrite.2
      intro hall
      apply hsome
      intro op hop
      rcases List.mem_cons.mp hop with rfl | hop
      · exact ⟨n, rfl⟩
      · exact hall op hop

/-- Without samples the file stays as `init` wrote it. -/
theorem run_seeks (ops : List RecOp) (h : ∀ op ∈ ops, ∃ n, op = .seek n) (t : Tape) :
    (ops.foldl RecOp.run t).disk = t.disk := by
  induction ops generalizing t with
  | nil => rfl
  | cons op ops ih =>
    obtain ⟨n, rfl⟩ := h op (by simp)
    rw [List.foldl_cons, ih (fun op hop => h op (List.mem_cons_of_mem _ hop)), RecOp.run, seek_disk]

/-- `finish` puts the number of samples into the header. -/
theorem Recording.finish {c : Cart} {l : List Sample} {stale : Bytes} {t : Tape}
    (h : Recording c l stale t) :
    (Movie.finish 8 t).disk = c.header (BitVec.ofNat 64 l.length) ++ tapeBytes l ++ stale := by
  have hlen := h.length_disk
  have hcount : (fwrite 8 (Bytes.le 8 t.polls.toNat) kOffPolls t.disk).1 =
      (Bytes.le 8 t.polls.toNat).length := by
    simp only [fwrite, List.length_take, Bytes.length_le]
    decide
  have hwrite := fwrite_all hcount (by
    rw [hlen]
    simp only [kOffPolls, kHdrSize]
    omega)
  have hdisk : t.disk = c.headerStart ++
      (Bytes.le 8 0 ++ (c.headerEnd ++ tapeBytes l ++ stale)) := by
    simp only [h.disk, Cart.header, List.append_assoc]
    rfl
  have hdrop : (Bytes.le 8 0 ++ (c.headerEnd ++ tapeBytes l ++ stale)).drop 8 =
      c.headerEnd ++ tapeBytes l ++ stale := List.drop_left' (Bytes.length_le 8 0)
  rw [overwrite_mid hdisk (length_headerStart c).symm, Bytes.length_le, hdrop] at hwrite
  simp only [Movie.finish, h.fp, h.mode, if_true]
  rw [hwrite]
  simp [Cart.header, h.polls]

/-! ## Section 5: Replaying -/

theorem getLe_le {h a d : Bytes} {off w x : Nat} (hx : x < 256 ^ w)
    (heq : h = a ++ Bytes.le w x ++ d) (ha : off = a.length) : getLe h off w = x := by
  rw [getLe, slice_mid heq ha (Bytes.length_le w x).symm, Bytes.ofLe_le, Nat.mod_eq_of_lt hx]

/-- The movie of the same cartridge is opened. -/
theorem init_play {c c' : Cart} (h1 : c'.crc1 = c.crc1) (h2 : c'.crc2 = c.crc2) (n : BitVec 64)
    (rest : Bytes) :
    init kHdrSize none (some (some (c.header n ++ rest))) c' {} =
      { mode := .play, disk := c.header n ++ rest, fp := some kHdrSize, total := n } := by
  have hread : fread kHdrSize 0 (c.header n ++ rest) = c.header n :=
    slice_mid (a := []) rfl rfl (length_header c n).symm
  have hmagic : slice (c.header n) 0 8 = magic := by
    refine slice_mid (a := []) (c := (c.header n).drop 8) ?_ rfl rfl
    simp [Cart.header, Cart.headerStart, magic]
  have hversion : getLe (c.header n) 8 4 = 1 := by
    apply getLe_le (a := magic) (d := (c.header n).drop 12) (by decide) _ rfl
    simp [Cart.header, Cart.headerStart, magic, Bytes.le]
  have hcrc1 : getLe (c.header n) 0x10 4 = c.crc1.toNat := by
    apply getLe_le (a := magic ++ Bytes.le 4 1 ++ Bytes.le 4 1) (d := (c.header n).drop 20)
      c.crc1.isLt _ rfl
    simp [Cart.header, Cart.headerStart, magic, Bytes.le]
  have hcrc2 : getLe (c.header n) 0x14 4 = c.crc2.toNat := by
    apply getLe_le (a := magic ++ Bytes.le 4 1 ++ Bytes.le 4 1 ++ Bytes.le 4 c.crc1.toNat)
      (d := (c.header n).drop 24) c.crc2.isLt _ (by simp [magic])
    simp [Cart.header, Cart.headerStart, magic, Bytes.le]
  have htotal : getLe (c.header n) kOffPolls 8 = n.toNat :=
    getLe_le n.isLt rfl (length_headerStart c).symm
  simp [init, initPlay, hread, hmagic, hversion, hcrc1, hcrc2, htotal, h1, h2, length_header]

/-- A replay at sample `k` of the tape `l`. -/
structure Playing (c : Cart) (l : List Sample) (stale : Bytes) (k : Nat) (t : Tape) : Prop where
  mode : t.mode = .play
  fp : t.fp = some (kHdrSize + k * 5)
  disk : t.disk = c.header (BitVec.ofNat 64 l.length) ++ tapeBytes l ++ stale
  polls : t.polls = BitVec.ofNat 64 k
  total : t.total = BitVec.ofNat 64 l.length
  pos : k ≤ l.length
  ended : t.ended = true → k = l.length

theorem fread_sample {c : Cart} {n : BitVec 64} {l : List Sample} {stale : Bytes} {k : Nat}
    {s : Sample} (h : l[k]? = some s) :
    fread 5 (kHdrSize + k * 5) (c.header n ++ tapeBytes l ++ stale) = s.bytes := by
  obtain ⟨hk, hs⟩ := List.getElem?_eq_some_iff.mp h
  have hsplit : l = l.take k ++ [s] ++ l.drop (k + 1) := by
    rw [← hs, List.take_append_getElem, List.take_append_drop]
  have hone : tapeBytes [s] = s.bytes := by simp [tapeBytes]
  apply slice_mid (a := c.header n ++ tapeBytes (l.take k)) (b := s.bytes)
    (c := tapeBytes (l.drop (k + 1)) ++ stale)
  · conv_lhs => rw [hsplit]
    simp only [tapeBytes_append, hone, List.append_assoc]
  · rw [List.length_append, length_header, length_tapeBytes, List.length_take]
    omega
  · rfl

theorem ofNat_le_ofNat {m n : Nat} (hm : m ≤ maxSeek) (hn : n ≤ maxSeek) :
    BitVec.ofNat 64 m ≤ BitVec.ofNat 64 n ↔ m ≤ n := by
  have hmax : maxSeek < 2 ^ 64 := by decide
  rw [BitVec.le_def, BitVec.toNat_ofNat, BitVec.toNat_ofNat, Nat.mod_eq_of_lt (by omega),
    Nat.mod_eq_of_lt (by omega)]

theorem ofNat_eq_zero {n : Nat} (hn : n ≤ maxSeek) : BitVec.ofNat 64 n = 0 ↔ n = 0 := by
  have hmax : maxSeek < 2 ^ 64 := by decide
  constructor
  · intro h
    have hto := congrArg BitVec.toNat h
    rw [BitVec.toNat_ofNat, Nat.mod_eq_of_lt (by omega)] at hto
    exact hto
  · rintro rfl
    rfl

/-- On the tape, the next sample is the answer. -/
theorem Playing.read {c : Cart} {l : List Sample} {stale : Bytes} {k : Nat} {t : Tape}
    (h : Playing c l stale k t) (hmax : l.length ≤ maxSeek) {s : Sample} (hs : l[k]? = some s)
    (ch : BitVec 32) (host : Pad) :
    (sample 5 ch host t).1 = s.pad ∧ Playing c l stale (k + 1) (sample 5 ch host t).2 := by
  obtain ⟨hk, -⟩ := List.getElem?_eq_some_iff.mp hs
  have hended : t.ended = false := by
    cases hend : t.ended with
    | false => rfl
    | true =>
      have hlast := h.ended hend
      omega
  have hbefore : ¬ (t.total ≠ 0 ∧ t.total ≤ t.polls) := by
    rw [h.total, h.polls, ofNat_le_ofNat hmax (by omega)]
    omega
  have hr : fread 5 (kHdrSize + k * 5) t.disk = s.bytes := by
    rw [h.disk]
    exact fread_sample hs
  have hsample : sample 5 ch host t =
      (s.pad, { t with
        fp := some (kHdrSize + k * 5 + 5)
        polls := t.polls + 1
        warnedChan := t.warnedChan || s.bytes.head? ≠ some (ch.setWidth 8) }) := by
    simp only [sample, h.mode, h.fp, hended, Bool.false_eq_true, if_false, if_neg hbefore, hr,
      replayed_bytes]
    rfl
  rw [hsample]
  refine ⟨rfl, h.mode, ?_, h.disk, ?_, h.total, hk, ?_⟩
  · simp only
    congr 1
    omega
  · simp only [h.polls]
    exact (BitVec.ofNat_add ..).symm
  · intro hend
    rw [hended] at hend
    cases hend

/-- Behind the last sample the host answers. -/
theorem Playing.read_end {c : Cart} {l : List Sample} {stale : Bytes} {k : Nat} {t : Tape}
    (h : Playing c l stale k t) (hmax : l.length ≤ maxSeek) (hstale : l = [] → stale = [])
    (hk : l[k]? = none) (ch : BitVec 32) (host : Pad) :
    (sample 5 ch host t).1 = host ∧ Playing c l stale k (sample 5 ch host t).2 := by
  have hlast : k = l.length := Nat.le_antisymm h.pos (List.getElem?_eq_none_iff.mp hk)
  have hended : Playing c l stale k { t with ended := true } :=
    ⟨h.mode, h.fp, h.disk, h.polls, h.total, h.pos, fun _ => hlast⟩
  by_cases hend : t.ended = true
  · have hsample : sample 5 ch host t = (host, t) := by
      simp only [sample, h.mode, h.fp, if_pos hend]
    rw [hsample]
    exact ⟨rfl, h⟩
  by_cases htotal : t.total ≠ 0 ∧ t.total ≤ t.polls
  · have hsample : sample 5 ch host t = (host, { t with ended := true }) := by
      simp only [sample, h.mode, h.fp, if_neg hend, if_pos htotal]
    rw [hsample]
    exact ⟨rfl, hended⟩
  -- the count is 0: the file ends with the header
  have hnil : l = [] := by
    rw [h.total, h.polls, ofNat_le_ofNat hmax (by omega), hlast] at htotal
    simp only [le_refl, and_true, ne_eq, not_not] at htotal
    exact List.length_eq_zero_iff.mp ((ofNat_eq_zero hmax).mp htotal)
  have hr : fread 5 (kHdrSize + k * 5) t.disk = [] := by
    rw [h.disk, hlast, hnil, hstale hnil]
    simp [fread, slice, tapeBytes, length_header]
  have hsample : sample 5 ch host t = (host, { t with ended := true }) := by
    simp only [sample, h.mode, h.fp, if_neg hend, if_neg htotal, hr]
    simp
  rw [hsample]
  exact ⟨rfl, hended⟩

theorem Playing.seek {c : Cart} {l : List Sample} {stale : Bytes} {k : Nat} {t : Tape}
    (h : Playing c l stale k t) (hmax : l.length ≤ maxSeek) {n : BitVec 64}
    (hn : n.toNat ≤ l.length) : Playing c l stale n.toNat (Movie.seek n t) := by
  have hseek : Movie.seek n t =
      { t with
        fp := some (kHdrSize + n.toNat * 5)
        polls := n
        ended := t.total ≠ 0 ∧ t.total ≤ n } := by
    simp only [Movie.seek, h.mode, h.fp, if_neg (show ¬ maxSeek < n.toNat by omega), true_and]
  have hofNat : n = BitVec.ofNat 64 n.toNat := by
    rw [BitVec.ofNat_toNat, BitVec.setWidth_eq]
  rw [hseek]
  refine ⟨h.mode, rfl, h.disk, hofNat, h.total, hn, ?_⟩
  intro hend
  simp only [decide_eq_true_eq] at hend
  have hle := hend.2
  rw [h.total, hofNat, ofNat_le_ofNat hmax (by omega)] at hle
  omega

/-- A whole replay. -/
theorem Playing.run {c : Cart} {l : List Sample} {stale : Bytes} (hmax : l.length ≤ maxSeek)
    (hstale : l = [] → stale = []) (ops : List PlayOp) {k : Nat} {t : Tape}
    (h : Playing c l stale k t) (hops : Requests l k ops) : playRun ops t = answers l k ops := by
  induction ops generalizing k t with
  | nil => rfl
  | cons op ops ih =>
    cases op with
    | read ch host =>
      cases hs : l[k]? with
      | some s =>
        simp only [Requests, hs] at hops
        obtain ⟨hpad, hnext⟩ := h.read hmax hs ch host
        simp only [playRun, answers, hs, hpad, ih hnext hops.2]
      | none =>
        simp only [Requests, hs] at hops
        obtain ⟨hpad, hnext⟩ := h.read_end hmax hstale hs ch host
        simp only [playRun, answers, hs, hpad, ih hnext hops]
    | seek n => exact ih (h.seek hmax hops.1) hops.2

/-! ## Section 6: When the replay is the tape -/

/-- A file whose tape is at the end of the bytes or not empty. -/
theorem replays_of_kept {c : Cart} {l : List Sample} {stale : Bytes} (hmax : l.length ≤ maxSeek)
    (hstale : l = [] → stale = []) :
    Replays c l (c.header (BitVec.ofNat 64 l.length) ++ tapeBytes l ++ stale) := by
  intro c' h1 h2 ops hops
  have hplay : Playing c l stale 0 (init kHdrSize none
      (some (some (c.header (BitVec.ofNat 64 l.length) ++ tapeBytes l ++ stale))) c' {}) := by
    rw [List.append_assoc, init_play h1 h2]
    constructor <;> simp [kHdrSize]
  exact hplay.run hmax hstale ops hops

theorem exists_other (p : Pad) : ∃ host : Pad, p ≠ host := by
  refine ⟨{ p with btn := p.btn + 1 }, ?_⟩
  intro h
  have hbtn := congrArg Pad.btn h
  simp at hbtn

/-- The first read takes what follows the header, whatever its count is. -/
theorem first_read {c : Cart} (n : BitVec 64) {rest : Bytes} (h : 5 ≤ rest.length) (ch : BitVec 32)
    (host : Pad) :
    (sample 5 ch host (init kHdrSize none (some (some (c.header n ++ rest))) c {})).1 =
      replayed (rest.take 5) := by
  have hbegin : ¬ (n ≠ 0 ∧ n ≤ 0) := by
    rintro ⟨hne, hle⟩
    apply hne
    apply BitVec.eq_of_toNat_eq
    exact Nat.le_zero.mp hle
  have hr : fread 5 kHdrSize (c.header n ++ rest) = rest.take 5 := by
    rw [fread, slice, List.drop_left' (length_header c n)]
  have hlen : (rest.take 5).length = 5 := by
    rw [List.length_take]
    omega
  rw [init_play rfl rfl]
  simp only [sample, Bool.false_eq_true, if_false, if_neg hbegin, hr, hlen, ne_eq, not_true]

/-- An empty tape in front of an old take: the old take is played. -/
theorem not_replays_empty {c : Cart} {n : BitVec 64} {rest : Bytes} (h : 5 ≤ rest.length) :
    ¬ Replays c [] (c.header n ++ rest) := by
  intro hrep
  obtain ⟨host, hne⟩ := exists_other (replayed (rest.take 5))
  have hread := hrep c rfl rfl [.read 0 host] trivial
  simp only [playRun, answers, first_read n h, List.getElem?_nil, List.cons.injEq, and_true] at hread
  exact hne hread

/-- A tape that is too long for `seek`: it stays at the first sample. -/
theorem not_replays_long {c : Cart} {l : List Sample} {n : BitVec 64} {rest : Bytes}
    (hmax : maxSeek < l.length) (hlt : l.length < 2 ^ 64) (h : 5 ≤ rest.length) :
    ¬ Replays c l (c.header n ++ rest) := by
  intro hrep
  obtain ⟨host, hne⟩ := exists_other (replayed (rest.take 5))
  have hto : (BitVec.ofNat 64 l.length).toNat = l.length := by
    rw [BitVec.toNat_ofNat, Nat.mod_eq_of_lt hlt]
  have hend : l[l.length]? = none := List.getElem?_eq_none (le_refl _)
  have hread := hrep c rfl rfl [.seek (BitVec.ofNat 64 l.length), .read 0 host] (by
    simp only [Requests, hto, hend, and_true, le_refl])
  simp only [playRun, answers, hto, hend] at hread
  rw [seek_far (by rw [hto]; exact hmax), first_read n h] at hread
  exact hne (List.cons.inj hread).1

/-- A replay is the logical tape exactly when the tape is short enough for
    `seek` and not empty. An empty tape is well where nothing was recorded. -/
theorem replays_iff (c : Cart) (ops : List RecOp) (hseek : SeeksWithin [] ops)
    (hwrite : AllWritten (init kHdrSize (some true) none c {}) ops) :
    Replays c (logical ops) (recorded c ops) ↔
      (logical ops).length ≤ maxSeek ∧ (logical ops = [] → ∀ op ∈ ops, ∃ n, op = .seek n) := by
  obtain ⟨k, stale, hrec, hkept, -⟩ :=
    (recording_init c).run ops (Kept.refl []) hseek hwrite
  have hfile : recorded c ops = c.header (BitVec.ofNat 64 k.length) ++ (tapeBytes k ++ stale) := by
    rw [← List.append_assoc]
    exact hrec.finish
  have hlen := hrec.length_disk
  have hle : (logical ops).length ≤ k.length := hkept.le
  constructor
  · intro hrep
    rw [hfile] at hrep
    constructor
    · by_contra hlong
      have hoffset := hrec.offset
      have hmaxOffset : maxOffset < 2 ^ 64 := by decide
      refine not_replays_long (by omega) (by omega) ?_ hrep
      rw [List.length_append, length_tapeBytes]
      omega
    · intro hnil
      by_contra hsome
      have hk : k = [] := by
        have hshort := hkept.short
        rw [← logical, hnil] at hshort
        exact hshort (Nat.zero_le _)
      have hone := (recording_init c).length_run ops (Kept.refl []) hseek hwrite hsome
      rw [hnil] at hrep
      refine not_replays_empty ?_ hrep
      rw [hlen, hk, List.length_nil] at hone
      rw [List.length_append]
      omega
  · rintro ⟨hshort, hseeks⟩
    have hk : k = logical ops := hkept.short hshort
    rw [hfile, hk, ← List.append_assoc]
    apply replays_of_kept hshort
    intro hnil
    -- nothing was recorded, so the file is the header
    have hdisk := congrArg List.length (run_seeks ops (hseeks hnil) (init kHdrSize (some true) none c {}))
    rw [hlen, (recording_init c).length_disk, List.length_nil, List.length_nil] at hdisk
    apply List.eq_nil_of_length_eq_zero
    omega

/-- A cartridge for runs on fixed inputs. -/
def testCart : Cart := ⟨0x635a2bff, 0x8b022326, [0x4d], 1, 4, 1⟩

/-- Two samples, back to the first, another take. -/
theorem replays_retake :
    Replays testCart [⟨0, 0x8000, 1, 2⟩, ⟨1, 0x0010, 5, 6⟩] (recorded testCart
      [.sample 5 0 ⟨0x8000, 1, 2⟩, .sample 5 1 ⟨0x4000, 3, 4⟩, .seek 1,
        .sample 5 1 ⟨0x0010, 5, 6⟩]) := by
  apply (replays_iff testCart [.sample 5 0 ⟨0x8000, 1, 2⟩, .sample 5 1 ⟨0x4000, 3, 4⟩, .seek 1,
    .sample 5 1 ⟨0x0010, 5, 6⟩] ?_ ?_).mpr
  · refine ⟨by decide, ?_⟩
    intro hnil
    exact absurd hnil (by decide)
  · exact ⟨trivial, trivial, by decide, trivial, trivial⟩
  · exact ⟨rfl, rfl, trivial, rfl, trivial⟩

/-- One sample, back to the beginning, and the file is closed: the replay plays
    the sample that is no longer on the tape. -/
theorem replay_stale :
    SeeksWithin [] [.sample 5 0 ⟨0x8000, 1, 2⟩, .seek 0] ∧
    AllWritten (init kHdrSize (some true) none testCart {}) [.sample 5 0 ⟨0x8000, 1, 2⟩, .seek 0] ∧
    ¬ Replays testCart (logical [.sample 5 0 ⟨0x8000, 1, 2⟩, .seek 0])
      (recorded testCart [.sample 5 0 ⟨0x8000, 1, 2⟩, .seek 0]) := by
  refine ⟨⟨trivial, by decide, trivial⟩, ⟨rfl, trivial, trivial⟩, ?_⟩
  intro hrep
  have hread := hrep testCart rfl rfl [.read 0 ⟨0, 0, 0⟩] trivial
  revert hread
  decide

end Movie
