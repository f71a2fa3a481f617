import Kestrel64.Savestate.Order
import Kestrel64.Rewind.Engine

/-! # Save States: the Format

    `captureState` and `restoreState` of `core/savestate.cpp`: a header that
    says which machine the state is of, and the fields.

    * `restoreState_iff` — what a load accepts, in every version.
    * `restoreState_prefix` — what becomes of a state that is cut short.
    * `captureState_loaded_iff` — when a loaded state is saved as it was.

    What a load that fails leaves in the machine is not part of the model.
-/

namespace Savestate

open Visitor

/-! ## Section 1: The header -/

def kMagic : BitVec 32 := 0x4b535436
def kVersion : BitVec 32 := 22

/-- The versions that `restoreState` accepts. -/
def versions : List Nat := [22, 21, 20, 19, 18, 17, 16, 15, 14]

/-- Which machine a state is of. -/
structure Header where
  magic : BitVec 32
  version : BitVec 32
  crc1 : BitVec 32
  crc2 : BitVec 32
  romSizeKb : BitVec 32
  rdramSize : BitVec 32
  name : Raw 24
deriving DecidableEq

namespace Header

/-- `sizeof(Header)` -/
def size : Nat := 48

def words (h : Header) : List (BitVec 32) :=
  [h.magic, h.version, h.crc1, h.crc2, h.romSizeKb, h.rdramSize]

/-- The object in memory. -/
def bytes (h : Header) : Bytes := h.words.flatMap (fun x => Bytes.le 4 x.toNat) ++ h.name.1

def word (s : Bytes) (off : Nat) : BitVec 32 := BitVec.ofNat 32 (Bytes.field s off 4)

/-- `memcpy` of a header. -/
def ofBytes (s : Bytes) (h : size ≤ s.length) : Header where
  magic := word s 0
  version := word s 4
  crc1 := word s 8
  crc2 := word s 12
  romSizeKb := word s 16
  rdramSize := word s 20
  name := ⟨(s.drop 24).take 24, by
    rw [List.length_take, List.length_drop]
    unfold size at h
    omega⟩

@[simp] theorem length_bytes (h : Header) : h.bytes.length = size := by
  simp [bytes, words, h.name.2, size]

theorem word_bytes {h : Header} {r : Bytes} {i : Nat} {x : BitVec 32} (hi : h.words[i]? = some x) :
    word (h.bytes ++ r) (4 * i) = x := by
  have hparts : h.bytes ++ r =
      [] ++ (h.words.map fun x => Bytes.le 4 x.toNat).flatten ++ (h.name.1 ++ r) := by
    rw [bytes, List.flatMap_def, List.nil_append, List.append_assoc]
  have hget : (h.words.map fun x => Bytes.le 4 x.toNat)[i]? = some (Bytes.le 4 x.toNat) := by
    rw [List.getElem?_map, hi]
    rfl
  have hoff : ([] : Bytes).length +
      ((h.words.map fun x => Bytes.le 4 x.toNat).take i).flatten.length = 4 * i := by
    have hlen : (List.length ∘ fun x : BitVec 32 => Bytes.le 4 x.toNat) = fun _ => 4 := by
      funext x
      exact Bytes.length_le 4 _
    have hlt : i < h.words.length := (List.getElem?_eq_some_iff.mp hi).1
    rw [List.length_nil, Nat.zero_add, ← List.map_take, List.length_flatten, List.map_map, hlen,
      List.map_const', List.sum_replicate_nat, List.length_take, Nat.min_eq_left hlt.le,
      Nat.mul_comm]
  rw [word, Bytes.field_part hparts hget hoff x.isLt, BitVec.ofNat_toNat, BitVec.setWidth_eq]

theorem ofBytes_append (h : Header) (r : Bytes) (hlen : size ≤ (h.bytes ++ r).length) :
    ofBytes (h.bytes ++ r) hlen = h := by
  have hname : ((h.bytes ++ r).drop 24).take 24 = h.name.1 := by
    have hfront : (h.words.flatMap fun x => Bytes.le 4 x.toNat).length = 24 := by
      simp [words]
    rw [bytes, List.append_assoc, List.drop_left' hfront, List.take_left' h.name.2]
  obtain ⟨magic, version, crc1, crc2, romSizeKb, rdramSize, name⟩ := h
  simp only [ofBytes, mk.injEq]
  exact ⟨word_bytes (i := 0) rfl, word_bytes (i := 1) rfl, word_bytes (i := 2) rfl,
    word_bytes (i := 3) rfl, word_bytes (i := 4) rfl, word_bytes (i := 5) rfl, Subtype.ext hname⟩

end Header

/-! ## Section 2: Saving and loading -/

/-- The cartridge, and the fields that are saved. -/
structure Machine where
  crc1 : BitVec 32
  crc2 : BitVec 32
  romSize : Nat
  romName : Bytes
  val : Vals

/-- `snprintf` of a string into 24 bytes. -/
def nameField (name : Bytes) : Raw 24 :=
  ⟨((name.takeWhile (· ≠ 0)).take 23 ++ List.replicate 24 0).take 24, by
    rw [List.length_take, List.length_append, List.length_replicate]
    omega⟩

def makeHeader (m : Machine) : Header where
  magic := kMagic
  version := kVersion
  crc1 := m.crc1
  crc2 := m.crc2
  romSizeKb := BitVec.ofNat 32 (m.romSize >>> 10)
  rdramSize := BitVec.ofNat 32 (m.val (.ram .rdram)).1.length
  name := nameField m.romName

/-- What `captureState` puts out, piece by piece. -/
def pieces (m : Machine) : Rewind.Pieces :=
  (makeHeader m).bytes :: piecesAll slot (wires slot m.val) (visitAll kVersion.toNat)

def captureState (m : Machine) : Bytes := Rewind.captureState (pieces m)

/-- `afterLoad`, on the fields that are saved. -/
def afterLoad (m : Machine) : Machine :=
  { m with val := Function.update m.val (.cpu .memAbort) no }

/-- Why the header `h` is refused by a machine whose header is `want`. -/
def refusal (h want : Header) : Option String :=
  if h.magic ≠ kMagic then some "no es un estado de kestrel64"
  else if h.version.toNat ∉ versions then some "version de estado incompatible"
  else if h.crc1 ≠ want.crc1 ∨ h.crc2 ≠ want.crc2 then some "el estado es de otra ROM"
  else if h.rdramSize ≠ want.rdramSize then some "tamano de RDRAM distinto"
  else none

def restoreState (m : Machine) (data : Bytes) : Except String Machine :=
  if hlen : data.length < Header.size then .error "estado truncado"
  else
    let h := Header.ofBytes data (Nat.le_of_not_lt hlen)
    match refusal h (makeHeader m) with
    | some err => .error err
    | none =>
      match getAll slot m.val (data.drop Header.size) (visitAll h.version.toNat) with
      | none => .error "estado corrupto o incompleto"
      | some (val, _) => .ok (afterLoad { m with val })

/-! ## Section 3: What a load accepts -/

/-- A load of a header and what follows it. -/
theorem restoreState_header (m : Machine) (h : Header) (r : Bytes) :
    restoreState m (h.bytes ++ r) =
      match refusal h (makeHeader m) with
      | some err => .error err
      | none =>
        match getAll slot m.val r (visitAll h.version.toNat) with
        | none => .error "estado corrupto o incompleto"
        | some (val, _) => .ok (afterLoad { m with val }) := by
  have hlen : ¬ (h.bytes ++ r).length < Header.size := by
    rw [List.length_append, h.length_bytes]
    omega
  unfold restoreState
  rw [dif_neg hlen]
  dsimp only
  rw [Header.ofBytes_append, List.drop_left' h.length_bytes]

/-- The sizes of the memories whose size a load cannot change. -/
def sizes (m : Machine) : List Nat :=
  [(m.val (.ram .rdram)).1.length, (m.val (.ram .rdramHidden)).1.length,
    (m.val (.ram .dmem)).1.length, (m.val (.ram .imem)).1.length, (m.val (.ram .pifram)).1.length]

/-- Machine `m₀` after it has loaded the state of `m`. -/
def loaded (m₀ m : Machine) : Machine :=
  { m₀ with
    val :=
      Function.update
        (Function.update (fun f => (slot f).load (m₀.val f) (wires slot m.val f))
          (.rdp .tl) (m₀.val (.rdp .tl)))
        (.cpu .memAbort) no }

theorem loadAll_wires (m₀ m : Machine) :
    loadAll slot (wires slot m.val) m₀.val (visitAll 22) =
      Function.update (fun f => (slot f).load (m₀.val f) (wires slot m.val f))
        (.rdp .tl) (m₀.val (.rdp .tl)) := by
  have hderived : ∀ f, f ∉ derived (visitAll 22) := by
    intro f
    rw [derived_visitAll]
    exact List.not_mem_nil
  funext f
  by_cases hf : f = .rdp .tl
  · subst hf
    rw [Function.update_self]
    exact loadAll_of_notMem palette_not_mem (hderived _) _
  · rw [Function.update_of_ne hf]
    exact loadAll_of_mem (ordered_visitAll 22) (mem_visitAll.mpr hf) (hderived _) _

/-- A memory of fixed size is as large in `v` as in `v'`. -/
def Kind.SameSize : (κ : Kind) → κ.Val → κ.Val → Prop
  | .fixed, v, v' => v.1.length = v'.1.length
  | _, _, _ => True

/-- An array is not larger than its count can say. -/
def Kind.Small : Kind → Prop
  | .blob n => n < 2 ^ 64
  | _ => True

theorem Field.kind_small (f : Field) : f.kind.Small := by
  have hblob : ∀ {n}, n < 2 ^ 64 → (Kind.blob n).Small := fun h => h
  cases f with
  | sys f => trivial
  | cpu f => cases f <;> first | trivial | exact hblob (by decide)
  | rcp f => cases f <;> trivial
  | mem f => cases f <;> first | trivial | exact hblob (by decide)
  | rsp f => cases f <;> trivial
  | rdp f => cases f <;> first | trivial | exact hblob (by decide)
  | ram f => cases f <;> trivial
  | port p f => cases f <;> trivial
  | polls => trivial

/-- What is saved can be loaded, but for a memory of another size. -/
theorem Kind.fits_wire {κ : Kind} (hκ : κ.Small) (v₀ v : κ.Val) :
    κ.slot.frame.Fits v₀ (κ.slot.wire v) ↔ κ.SameSize v v₀ := by
  have hvec : ∀ v : Vec, v.1.length < 256 ^ 8 := fun v => lt_of_le_of_lt v.2 (by decide)
  cases κ with
  | raw n => exact iff_of_true v.2 trivial
  | blob n => exact iff_of_true ⟨v.2.trans_lt hκ, decide_eq_true v.2⟩ trivial
  | fixed =>
    have hlt : v.1.length < 256 ^ 8 := lt_trans v.2 (by decide)
    simp only [Kind.slot, Frame.Fits, Kind.SameSize, decide_eq_true_eq, hlt, true_and]
  | vec => exact iff_of_true ⟨hvec v, decide_eq_true v.2⟩ trivial
  | gbRam => exact iff_of_true ⟨hvec v, decide_eq_true v.2⟩ trivial
  | pend => exact iff_of_true (Bytes.length_le 4 _) trivial
  | polls => exact iff_of_true (Bytes.length_le 8 _) trivial

theorem fits_wires {m₀ m : Machine} :
    Fits slot m₀.val (wires slot m.val) (visitAll 22) ↔ sizes m = sizes m₀ := by
  have hall : Fits slot m₀.val (wires slot m.val) (visitAll 22) ↔
      ∀ f ∈ fields (visitAll 22), f.kind.SameSize (m.val f) (m₀.val f) :=
    forall₂_congr fun f _ => Kind.fits_wire f.kind_small _ _
  rw [hall]
  constructor
  · intro h
    have h₁ := h (.ram .rdram) (mem_visitAll.mpr nofun)
    have h₂ := h (.ram .rdramHidden) (mem_visitAll.mpr nofun)
    have h₃ := h (.ram .dmem) (mem_visitAll.mpr nofun)
    have h₄ := h (.ram .imem) (mem_visitAll.mpr nofun)
    have h₅ := h (.ram .pifram) (mem_visitAll.mpr nofun)
    simp only [Kind.SameSize] at h₁ h₂ h₃ h₄ h₅
    simp only [sizes, h₁, h₂, h₃, h₄, h₅]
  · intro h f _
    simp only [sizes, List.cons.injEq, and_true] at h
    obtain ⟨h₁, h₂, h₃, h₄, h₅⟩ := h
    cases f with
    | sys f => trivial
    | cpu f => cases f <;> trivial
    | rcp f => cases f <;> trivial
    | mem f => cases f <;> trivial
    | rsp f => cases f <;> trivial
    | rdp f => cases f <;> trivial
    | ram f => cases f <;> trivial
    | port p f => cases f <;> trivial
    | polls => trivial

theorem captureState_eq (m : Machine) :
    captureState m = (makeHeader m).bytes ++ putAll slot (wires slot m.val) (visitAll 22) := by
  rw [captureState, Rewind.captureState, pieces, List.flatten_cons, putAll,
    show kVersion.toNat = 22 from rfl]

theorem rdramSize_eq_iff {m₀ m : Machine} :
    (makeHeader m).rdramSize = (makeHeader m₀).rdramSize ↔
      (m.val (.ram .rdram)).1.length = (m₀.val (.ram .rdram)).1.length := by
  refine ⟨fun h => ?_, fun h => congrArg (BitVec.ofNat 32) h⟩
  have h := congrArg BitVec.toNat h
  simp only [makeHeader, BitVec.toNat_ofNat] at h
  rwa [Nat.mod_eq_of_lt (m.val (.ram .rdram)).2, Nat.mod_eq_of_lt (m₀.val (.ram .rdram)).2] at h

/-- What `StateIO` counts for a field. -/
def Kind.count : (κ : Kind) → κ.Val → Nat
  | .raw n, _ => n
  | .blob n, _ => 8 + n
  | .fixed, v => 8 + v.1.length
  | .vec, v => 8 + v.1.length
  | .gbRam, v => 8 + v.1.length
  | .pend, _ => 4
  | .polls, _ => 8

def visitCount (m : Vals) : Visit Field.Val → Nat
  | .tag mark => mark.length
  | .field f => f.kind.count (m f)
  | .derive _ _ => 0

theorem Kind.length_put (κ : Kind) (v : κ.Val) :
    (κ.slot.frame.put (κ.slot.wire v)).length = κ.count v := by
  cases κ with
  | raw n => simp [Kind.slot, Kind.count, v.2]
  | blob n => simp [Kind.slot, Kind.count, v.2]
  | fixed => simp [Kind.slot, Kind.count]
  | vec => simp [Kind.slot, Kind.count]
  | gbRam => simp [Kind.slot, Kind.count]
  | pend => simp [Kind.slot, Kind.count]
  | polls => simp [Kind.slot, Kind.count]

/-- The size of a saved state, as `captureDelta` counts it. -/
theorem length_captureState (m : Machine) :
    (captureState m).length =
      Header.size + ((visitAll 22).map (visitCount m.val)).sum := by
  have hput : ∀ vs : Visits, (putAll slot (wires slot m.val) vs).length =
      (vs.map (visitCount m.val)).sum := by
    intro vs
    induction vs with
    | nil => rfl
    | cons x vs ih =>
      cases x with
      | tag mark => simp [ih, visitCount]
      | field f =>
        rw [putAll_field, List.length_append, ih, List.map_cons, List.sum_cons]
        exact congrArg (· + _) (Kind.length_put f.kind (m.val f))
      | derive f g => simp [ih, visitCount]
  rw [captureState_eq, List.length_append, Header.length_bytes, hput]

/-- The header of a saved state. -/
theorem refusal_makeHeader (m₀ m : Machine) :
    refusal (makeHeader m) (makeHeader m₀) =
      if m.crc1 ≠ m₀.crc1 ∨ m.crc2 ≠ m₀.crc2 then some "el estado es de otra ROM"
      else if (m.val (.ram .rdram)).1.length ≠ (m₀.val (.ram .rdram)).1.length then
        some "tamano de RDRAM distinto"
      else none := by
  have hmagic : (makeHeader m).magic = kMagic := rfl
  have hversion : (makeHeader m).version.toNat ∈ versions := by
    show kVersion.toNat ∈ versions
    decide
  unfold refusal
  rw [if_neg (not_not.mpr hmagic), if_neg (not_not.mpr hversion)]
  simp only [ne_eq, rdramSize_eq_iff]
  rfl

/-- **A state that is cut short is refused.** Of a saved state only the whole
    can be loaded, into a machine with the same cartridge and memories; every
    other outcome is one of four errors. -/
theorem restoreState_take (m₀ m : Machine) (n : Nat) :
    restoreState m₀ ((captureState m).take n) =
      if n < Header.size then .error "estado truncado"
      else if m.crc1 ≠ m₀.crc1 ∨ m.crc2 ≠ m₀.crc2 then .error "el estado es de otra ROM"
      else if (m.val (.ram .rdram)).1.length ≠ (m₀.val (.ram .rdram)).1.length then
        .error "tamano de RDRAM distinto"
      else if (captureState m).length ≤ n ∧ sizes m = sizes m₀ then .ok (loaded m₀ m)
      else .error "estado corrupto o incompleto" := by
  have hhead : (makeHeader m).bytes.length = Header.size := Header.length_bytes _
  by_cases hn : n < Header.size
  · have hshort : ((captureState m).take n).length < Header.size := by
      rw [List.length_take]
      omega
    rw [if_pos hn, restoreState, dif_pos hshort]
  have hsplit : (captureState m).take n =
      (makeHeader m).bytes ++
        (putAll slot (wires slot m.val) (visitAll 22)).take (n - Header.size) := by
    rw [captureState_eq, List.take_append, List.take_of_length_le (by omega), hhead]
  rw [if_neg hn, hsplit, restoreState_header, refusal_makeHeader]
  -- what is left of the fields is read exactly if nothing was cut off
  have hread : ∀ val r, getAll slot m₀.val
      ((putAll slot (wires slot m.val) (visitAll 22)).take (n - Header.size)) (visitAll 22) =
        some (val, r) ↔
      ((captureState m).length ≤ n ∧ sizes m = sizes m₀) ∧
        val = loadAll slot (wires slot m.val) m₀.val (visitAll 22) ∧ r = [] := by
    intro val r
    rw [getAll_take_iff (ordered_visitAll 22) (fits_wires.mpr (rfl : sizes m = sizes m)), fits_wires,
      captureState_eq, List.length_append, hhead, and_assoc]
    refine and_congr ?_ Iff.rfl
    omega
  split_ifs with hcrc hsize hok
  · rfl
  · rfl
  · show (match getAll slot m₀.val _ (visitAll 22) with
      | none => Except.error _
      | some (val, _) => .ok (afterLoad { m₀ with val })) = _
    rw [(hread _ _).mpr ⟨hok, rfl, rfl⟩]
    dsimp only
    rw [loadAll_wires]
    rfl
  · have hnone : getAll slot m₀.val
        ((putAll slot (wires slot m.val) (visitAll 22)).take (n - Header.size)) (visitAll 22) =
          none :=
      Option.eq_none_iff_forall_ne_some.mpr fun x hx => hok ((hread x.1 x.2).mp hx).1
    show (match getAll slot m₀.val _ (visitAll 22) with
      | none => Except.error _
      | some (val, _) => .ok (afterLoad { m₀ with val })) = _
    rw [hnone]

/-! ## Section 5: Saving what was loaded -/

theorem loaded_of_ne {m₀ m : Machine} {f : Field} (hf : f ≠ .rdp .tl) (ha : f ≠ .cpu .memAbort) :
    (loaded m₀ m).val f = (slot f).load (m₀.val f) ((slot f).wire (m.val f)) := by
  show Function.update _ _ _ f = _
  rw [Function.update_of_ne ha, Function.update_of_ne hf]
  rfl

@[simp] theorem loaded_memAbort (m₀ m : Machine) : (loaded m₀ m).val (.cpu .memAbort) = no := by
  unfold loaded
  dsimp only
  rw [Function.update_self]

/-- A field that is copied. -/
def Kind.Copied : Kind → Prop
  | .gbRam | .pend | .polls => False
  | _ => True

theorem Kind.load_wire {κ : Kind} (hκ : κ.Copied) (v₀ v : κ.Val) :
    κ.slot.load v₀ (κ.slot.wire v) = v := by
  cases κ with
  | raw n => exact replace_of v₀ v
  | blob n => exact replace_of v₀ v
  | fixed => exact replace_of v₀ v
  | vec => exact replace_of v₀ v
  | gbRam => exact hκ.elim
  | pend => exact hκ.elim
  | polls => exact hκ.elim

/-- The fields that are not copied. -/
theorem Field.copied_or (f : Field) :
    f.kind.Copied ∨ f = .mem .rcpPend ∨ (∃ p, f = .port p .ram) ∨ f = .polls := by
  cases f with
  | sys f => exact .inl trivial
  | cpu f => cases f <;> exact .inl trivial
  | rcp f => cases f <;> exact .inl trivial
  | mem f => cases f <;> first | exact .inl trivial | exact .inr (.inl rfl)
  | rsp f => cases f <;> exact .inl trivial
  | rdp f => cases f <;> exact .inl trivial
  | ram f => cases f <;> exact .inl trivial
  | port p f => cases f <;> first | exact .inl trivial | exact .inr (.inr (.inl ⟨p, rfl⟩))
  | polls => exact .inr (.inr (.inr rfl))

/-- What a machine has become by loading the state of `m`. -/
structure Resumed (m₀ m m' : Machine) : Prop where
  copied : ∀ f, f.kind.Copied → f ≠ .rdp .tl → f ≠ .cpu .memAbort → m'.val f = m.val f
  /-- No access is being aborted. -/
  memAbort : m'.val (.cpu .memAbort) = no
  /-- The barriers and the journal are empty, only the two deadlines stay. -/
  rcpPend : m'.val (.mem .rcpPend) = m.val (.mem .rcpPend) &&& 3
  /-- The RAM of a Game Boy cartridge, if there is one like it. -/
  gbRam : ∀ p, m'.val (.port p .ram) =
    if (m.val (.port p .ram)).1.length = (m₀.val (.port p .ram)).1.length then m.val (.port p .ram)
    else m₀.val (.port p .ram)
  /-- The movie goes where the state was. -/
  polls : m'.val .polls = Movie.seek (m.val .polls).polls (m₀.val .polls)

theorem load_pend (v₀ v : BitVec 32) :
    Kind.pend.slot.load v₀ (Kind.pend.slot.wire v) = v &&& 3 := by
  show BitVec.ofNat 32 (Bytes.ofLe (Bytes.le 4 (v &&& 3).toNat)) = v &&& 3
  rw [Bytes.ofLe_le_of_lt (v &&& 3).isLt, BitVec.ofNat_toNat, BitVec.setWidth_eq]

theorem load_gbRam (v₀ v : Vec) :
    Kind.gbRam.slot.load v₀ (Kind.gbRam.slot.wire v) =
      if v.1.length = v₀.1.length then v else v₀ := by
  show (if v.1.length = v₀.1.length then replace v₀ v.1 else v₀) = _
  rw [replace_of]

theorem load_polls (t₀ t : Movie.Tape) :
    Kind.polls.slot.load t₀ (Kind.polls.slot.wire t) = Movie.seek t.polls t₀ := by
  show Movie.seek (BitVec.ofNat 64 (Bytes.ofLe (Bytes.le 8 t.polls.toNat))) t₀ = _
  rw [Bytes.ofLe_le_of_lt t.polls.isLt, BitVec.ofNat_toNat, BitVec.setWidth_eq]

theorem resumed_loaded (m₀ m : Machine) : Resumed m₀ m (loaded m₀ m) where
  copied f hcopied hf ha := by
    rw [loaded_of_ne hf ha]
    exact Kind.load_wire hcopied _ _
  memAbort := loaded_memAbort m₀ m
  rcpPend := by
    rw [loaded_of_ne (f := .mem .rcpPend) nofun nofun]
    exact load_pend _ _
  gbRam p := by
    rw [loaded_of_ne (f := .port p .ram) nofun nofun]
    exact load_gbRam _ _
  polls := by
    rw [loaded_of_ne (f := .polls) nofun nofun]
    exact load_polls _ _

/-- Two machines save the same state exactly if their headers and the contents
    of their fields are the same. -/
theorem captureState_inj {m m' : Machine} :
    captureState m = captureState m' ↔
      makeHeader m = makeHeader m' ∧ ∀ f, f ≠ .rdp .tl → wires slot m.val f = wires slot m'.val f := by
  rw [captureState_eq, captureState_eq]
  constructor
  · intro h
    obtain ⟨hhead, hrest⟩ := List.append_inj h (by rw [Header.length_bytes, Header.length_bytes])
    have hsize : Header.size ≤ ((makeHeader m).bytes ++ []).length := by simp
    have hsize' : Header.size ≤ ((makeHeader m').bytes ++ []).length := by simp
    have hfits : ∀ m : Machine, Fits slot m.val (wires slot m.val) (visitAll 22) :=
      fun m => fits_wires.mpr rfl
    refine ⟨?_, fun f hf => ?_⟩
    · rw [← Header.ofBytes_append (makeHeader m) [] hsize,
        ← Header.ofBytes_append (makeHeader m') [] hsize']
      simp only [hhead]
    · have hsame := @putAll_inj _ _ _ _ _ _ _ _ [] [] (hfits m) (hfits m') (by rw [hrest])
      exact hsame.1 f (mem_visitAll.mpr hf)
  · rintro ⟨hhead, hall⟩
    rw [hhead, putAll_congr fun f hf => hall f (mem_visitAll.mp hf)]

theorem wire_gbRam_iff {v₀ v : Vec} :
    Kind.gbRam.slot.wire (if v.1.length = v₀.1.length then v else v₀) = Kind.gbRam.slot.wire v ↔
      v.1.length = v₀.1.length := by
  by_cases h : v.1.length = v₀.1.length
  · rw [if_pos h]
    exact iff_of_true rfl h
  · rw [if_neg h]
    exact iff_of_false (fun he => h (congrArg List.length he).symm) h

theorem le_inj {w : Nat} {x y : BitVec (8 * w)} :
    Bytes.le w x.toNat = Bytes.le w y.toNat ↔ x = y := by
  have hlt : ∀ z : BitVec (8 * w), z.toNat < 256 ^ w := by
    intro z
    have := z.isLt
    rwa [Nat.pow_mul] at this
  refine ⟨fun h => ?_, fun h => by rw [h]⟩
  have h := congrArg Bytes.ofLe h
  rw [Bytes.ofLe_le_of_lt (hlt x), Bytes.ofLe_le_of_lt (hlt y)] at h
  exact BitVec.eq_of_toNat_eq h

/-- **Saving what was loaded.** The state of a machine that has just loaded the
    state of `m` is that state again, byte for byte, exactly if the two headers
    are the same, `m` was not aborting an access, its Game Boy cartridges are
    like those that are plugged in, and the movie could go where it was. -/
theorem captureState_loaded_iff (m₀ m : Machine) :
    captureState (loaded m₀ m) = captureState m ↔
      makeHeader (loaded m₀ m) = makeHeader m ∧ m.val (.cpu .memAbort) = no ∧
        (∀ p, (m.val (.port p .ram)).1.length = (m₀.val (.port p .ram)).1.length) ∧
        (Movie.seek (m.val .polls).polls (m₀.val .polls)).polls = (m.val .polls).polls := by
  have hres := resumed_loaded m₀ m
  rw [captureState_inj]
  refine and_congr Iff.rfl ?_
  constructor
  · intro h
    refine ⟨?_, fun p => ?_, ?_⟩
    · have hself := h (.cpu .memAbort) nofun
      simp only [wires, hres.memAbort] at hself
      exact (Subtype.ext hself).symm
    · have hself := h (.port p .ram) nofun
      simp only [wires, hres.gbRam] at hself
      exact wire_gbRam_iff.mp hself
    · have hself := h .polls nofun
      simp only [wires, hres.polls] at hself
      exact (le_inj (w := 8)).mp hself
  · rintro ⟨habort, hgb, hpolls⟩ f hf
    by_cases ha : f = .cpu .memAbort
    · subst ha
      simp only [wires, hres.memAbort, habort]
    rcases f.copied_or with hcopied | rfl | ⟨p, rfl⟩ | rfl
    · simp only [wires, hres.copied f hcopied hf ha]
    · simp only [wires, hres.rcpPend]
      show Bytes.le 4 (_ &&& 3 &&& 3 : BitVec 32).toNat = Bytes.le 4 (_ &&& 3 : BitVec 32).toNat
      rw [BitVec.and_assoc, BitVec.and_self]
    · simp only [wires, hres.gbRam]
      exact wire_gbRam_iff.mpr (hgb p)
    · simp only [wires, hres.polls]
      exact (le_inj (w := 8)).mpr hpolls

end Savestate
