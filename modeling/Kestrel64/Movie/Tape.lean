import Kestrel64.Lib.Bytes
import Kestrel64.Lib.Patch

/-! # Movie: The Tape

    `core/movie.hpp`: recording and replaying what the game reads from the
    controllers. A movie is a file with a header of 64 bytes and samples of 5.

    The file is its bytes and the position of `fp`. How many bytes a `fwrite`
    puts on the disk is up to the system and is a parameter, `room`. `fseek`
    to a position from 0 on succeeds, as it does in a regular file.
    What is printed is left out, and `path`, which is only printed.
-/

namespace Movie

open Patch

/-! ## Section 1: The file -/

/-- The largest file offset. -/
def maxOffset : Nat := 2 ^ 63 - 1

/-- `fwrite` of `src` at `pos`: how many bytes were written, and the file. -/
def fwrite (room : Nat) (src : Bytes) (pos : Nat) (disk : Bytes) : Nat × Bytes :=
  let src := src.take (min room (maxOffset - pos))
  -- a gap behind the end reads as zeros
  let gap := if src = [] then 0 else pos - disk.length
  (src.length, overwrite (disk ++ List.replicate gap 0) pos src)

/-- `fread` of `n` bytes at `pos`. -/
def fread (n pos : Nat) (disk : Bytes) : Bytes := slice disk pos n

/-! ## Section 2: The header -/

def kHdrSize : Nat := 64
def kOffPolls : Nat := 0x1C

/-- `"K64MOVIE"`. -/
def magic : Bytes := [0x4b, 0x36, 0x34, 0x4d, 0x4f, 0x56, 0x49, 0x45]

/-- What `init` is told about the cartridge and the console. -/
structure Cart where
  crc1 : BitVec 32
  crc2 : BitVec 32
  name : Bytes
  tv : Byte
  ramMb : Byte
  ports : Byte

/-- The header up to the number of samples. -/
def Cart.headerStart (c : Cart) : Bytes :=
  magic ++ Bytes.le 4 1 ++ Bytes.le 4 1 ++ Bytes.le 4 c.crc1.toNat ++ Bytes.le 4 c.crc2.toNat ++
    [c.tv, c.ramMb, c.ports, 0]

/-- The header from behind the number of samples on. -/
def Cart.headerEnd (c : Cart) : Bytes :=
  c.name.take 20 ++ List.replicate (20 - c.name.length) 0 ++ List.replicate 8 0

/-- The header of a recording of `n` samples. -/
def Cart.header (c : Cart) (n : BitVec 64) : Bytes :=
  c.headerStart ++ Bytes.le 8 n.toNat ++ c.headerEnd

/-- The integer in the `w` bytes of `h` from `off` on. -/
def getLe (h : Bytes) (off w : Nat) : Nat := Bytes.ofLe (slice h off w)

/-! ## Section 3: The state and its functions -/

/-- `Rec` is `record`. -/
inductive Mode where
  | off
  | record
  | play
deriving DecidableEq, Repr

structure Tape where
  mode : Mode := .off
  /-- The bytes of the movie file. -/
  disk : Bytes := []
  /-- The position of `fp`, when it is open. -/
  fp : Option Nat := none
  polls : BitVec 64 := 0
  ended : Bool := false
  total : BitVec 64 := 0
  warnedChan : Bool := false
deriving DecidableEq

/-- What a controller answers. -/
structure Pad where
  btn : BitVec 32
  sx : BitVec 8
  sy : BitVec 8
deriving DecidableEq, Repr

/-- `init` with `KESTREL_MOVIE_PLAY`; `file` is what `fopen` found. -/
def initPlay (file : Option Bytes) (c : Cart) (t : Tape) : Tape :=
  match file with
  | none => t
  | some disk =>
    let h := fread kHdrSize 0 disk
    if h.length ≠ kHdrSize ∨ slice h 0 8 ≠ magic then { t with disk }
    else if getLe h 8 4 ≠ 1 then { t with disk }
    else if getLe h 0x10 4 ≠ c.crc1.toNat ∨ getLe h 0x14 4 ≠ c.crc2.toNat then { t with disk }
    else
      { t with
        mode := .play
        disk
        fp := some kHdrSize
        total := BitVec.ofNat 64 (getLe h kOffPolls 8) }

/-- `init` with `KESTREL_MOVIE_REC`; `created` says whether `fopen` succeeded. -/
def initRec (room : Nat) (created : Bool) (c : Cart) (t : Tape) : Tape :=
  if created then
    let (n, disk) := fwrite room (c.header 0) 0 []
    { t with mode := .record, disk, fp := some n }
  else t

/-- `init`: with both variables set, the movie is played. -/
def init (room : Nat) (record : Option Bool) (play : Option (Option Bytes)) (c : Cart) (t : Tape) :
    Tape :=
  match play, record with
  | some file, _ => initPlay file c t
  | none, some created => initRec room created c t
  | none, none => t

/-- The five bytes of a sample. -/
def record (ch : BitVec 32) (p : Pad) : Bytes :=
  [ch.setWidth 8, (p.btn >>> 8).setWidth 8, p.btn.setWidth 8, p.sx, p.sy]

/-- What the five bytes of a sample put in the place of the answer. -/
def replayed : Bytes → Pad
  | [_, hi, lo, sx, sy] => ⟨(hi.setWidth 32 <<< 8) ||| lo.setWidth 32, sx, sy⟩
  | _ => ⟨0, 0, 0⟩

/-- `sample`: what the controller `ch` answers instead of `host`. -/
def sample (room : Nat) (ch : BitVec 32) (host : Pad) (t : Tape) : Pad × Tape :=
  match t.mode, t.fp with
  | .record, some pos =>
    let (n, disk) := fwrite room (record ch host) pos t.disk
    -- a full disk ends the recording
    if n ≠ 5 then (host, { t with disk, fp := none, mode := .off })
    else (host, { t with disk, fp := some (pos + 5), polls := t.polls + 1 })
  | .play, some pos =>
    if t.ended then (host, t)
    else if t.total ≠ 0 ∧ t.total ≤ t.polls then (host, { t with ended := true })
    else
      let r := fread 5 pos t.disk
      if r.length ≠ 5 then (host, { t with fp := some (pos + r.length), ended := true })
      else
        (replayed r,
          { t with
            fp := some (pos + 5)
            polls := t.polls + 1
            warnedChan := t.warnedChan || r.head? ≠ some (ch.setWidth 8) })
  | _, _ => (host, t)

/-- The last sample `seek` goes to. -/
def maxSeek : Nat := (0x7fffffff - kHdrSize) / 5

/-- `seek`. -/
def seek (n : BitVec 64) (t : Tape) : Tape :=
  match t.mode, t.fp with
  | .off, _ => t
  | _, none => t
  | mode, some _ =>
    if maxSeek < n.toNat then t
    else
      { t with
        fp := some (kHdrSize + n.toNat * 5)
        polls := n
        ended := mode = .play ∧ t.total ≠ 0 ∧ t.total ≤ n }

/-- `finish`. -/
def finish (room : Nat) (t : Tape) : Tape :=
  match t.fp with
  | none => t
  | some _ =>
    let disk :=
      if t.mode = .record then (fwrite room (Bytes.le 8 t.polls.toNat) kOffPolls t.disk).2 else t.disk
    { t with disk, fp := none, mode := .off }

/-! ## Section 4: Sessions -/

/-- What happens to a recording. -/
inductive RecOp where
  /-- The game reads controller `ch`, which answers `p`. -/
  | sample (room : Nat) (ch : BitVec 32) (p : Pad)
  /-- A state is loaded. -/
  | seek (n : BitVec 64)

def RecOp.run (t : Tape) : RecOp → Tape
  | .sample room ch p => (Movie.sample room ch p t).2
  | .seek n => Movie.seek n t

/-- The file a recording leaves. -/
def recorded (c : Cart) (ops : List RecOp) : Bytes :=
  (finish 8 (ops.foldl RecOp.run (init kHdrSize (some true) none c {}))).disk

/-- What happens to a replay. -/
inductive PlayOp where
  /-- The game reads controller `ch`; the host would answer `host`. -/
  | read (ch : BitVec 32) (host : Pad)
  | seek (n : BitVec 64)

/-- What the game is answered in a replay. -/
def playRun : List PlayOp → Tape → List Pad
  | [], _ => []
  | .read ch host :: ops, t => (sample 5 ch host t).1 :: playRun ops (sample 5 ch host t).2
  | .seek n :: ops, t => playRun ops (seek n t)

/-- Every `fwrite` of the recording puts all five bytes on the disk. -/
def AllWritten : Tape → List RecOp → Prop
  | _, [] => True
  | t, op :: ops =>
    (match op, t.fp with
      | .sample room ch p, some pos => (fwrite room (record ch p) pos t.disk).1 = 5
      | _, _ => True) ∧ AllWritten (op.run t) ops

end Movie
