import Mathlib.Data.Prod.Lex
import Kestrel64.Archive.UnwrapSafe
import Kestrel64.Archive.Zip

/-! # Unwrapping a Zip File

    From a zip file `unwrap` takes the entry it should: the end record is found
    in the window behind which it cannot be, the walk over the directory keeps
    the best entry so far (`Tracks`), and the content of this entry comes out of
    its data.
-/

namespace Archive.Indexed

open BitStream Checked Zip

/-! ## Section 1: The entry in the directory -/

/-- The parts of an entry in the directory. -/
def centralParts (e : Entry) : List Bytes :=
  [Bytes.le 4 centralSignature, e.version, Bytes.le 2 e.method, e.time,
    Bytes.le 4 (Crc.crc32 e.content).toNat, Bytes.le 4 e.packed.length,
    Bytes.le 4 e.content.length, Bytes.le 2 e.name.length, Bytes.le 2 e.extra.length,
    Bytes.le 2 e.comment.length, e.attributes, Bytes.le 4 e.offset, e.name, e.extra, e.comment]

theorem flatten_centralParts (e : Entry) : (centralParts e).flatten = e.central := by
  simp [centralParts, Entry.central, List.append_assoc]

theorem length_central {front : Bytes} {e : Entry} (h : e.Legal front) :
    e.central.length = 46 + e.name.length + e.extra.length + e.comment.length := by
  simp only [Entry.central, List.length_append, Bytes.length_le, h.version, h.time, h.attributes]

theorem method_lt (e : Entry) : e.method < 256 ^ 2 := by
  unfold Entry.method
  split <;> decide

/-- What is read of an entry in the directory at `cd`. -/
structure CentralAt (p : Bytes) (cd : Nat) (e : Entry) : Prop where
  room : cd + 46 + e.name.length ≤ p.length
  signature : Bytes.field p cd 4 = centralSignature
  method : Bytes.field p (cd + 10) 2 = e.method
  crc : Bytes.field p (cd + 16) 4 = (Crc.crc32 e.content).toNat
  packed : Bytes.field p (cd + 20) 4 = e.packed.length
  size : Bytes.field p (cd + 24) 4 = e.content.length
  nameLen : Bytes.field p (cd + 28) 2 = e.name.length
  extraLen : Bytes.field p (cd + 30) 2 = e.extra.length
  commentLen : Bytes.field p (cd + 32) 2 = e.comment.length
  offset : Bytes.field p (cd + 42) 4 = e.offset
  name : Patch.slice p (cd + 46) e.name.length = e.name

theorem centralAt {p a c front : Bytes} {cd : Nat} {e : Entry} (h : e.Legal front)
    (hp : p = a ++ e.central ++ c) (ha : a.length = cd) (hpacked : e.packed.length < 256 ^ 4)
    (hoffset : e.offset < 256 ^ 4) : CentralAt p cd e := by
  have hlen := length_central h
  have hparts : p = a ++ (centralParts e).flatten ++ c := by
    rw [flatten_centralParts]
    exact hp
  constructor
  case room =>
    rw [hp, List.length_append, List.length_append]
    omega
  case signature => exact Bytes.field_part (i := 0) hparts rfl (by simp [ha]) (by decide)
  case method =>
    exact Bytes.field_part (i := 2) hparts rfl (by simp [centralParts, h.version, ha]) (method_lt e)
  case crc =>
    exact Bytes.field_part (i := 4) hparts rfl (by simp [centralParts, h.version, h.time, ha])
      (BitVec.isLt _)
  case packed =>
    exact Bytes.field_part (i := 5) hparts rfl (by simp [centralParts, h.version, h.time, ha]) hpacked
  case size =>
    exact Bytes.field_part (i := 6) hparts rfl (by simp [centralParts, h.version, h.time, ha]) h.content
  case nameLen =>
    exact Bytes.field_part (i := 7) hparts rfl (by simp [centralParts, h.version, h.time, ha]) h.name
  case extraLen =>
    exact Bytes.field_part (i := 8) hparts rfl (by simp [centralParts, h.version, h.time, ha]) h.extra
  case commentLen =>
    exact Bytes.field_part (i := 9) hparts rfl (by simp [centralParts, h.version, h.time, ha]) h.comment
  case offset =>
    exact Bytes.field_part (i := 11) hparts rfl
      (by simp [centralParts, h.version, h.time, h.attributes, ha]) hoffset
  case name =>
    have hmid : p = (a ++ ((centralParts e).take 12).flatten) ++ e.name ++
        (e.extra ++ (e.comment ++ c)) := by
      rw [hparts]
      simp [centralParts, List.append_assoc]
    exact Patch.slice_mid hmid
      (by simp [centralParts, h.version, h.time, h.attributes, ha]) rfl

/-! ## Section 2: The end record -/

/-- The search finds the last signature there is. -/
theorem findEocd_eq {p : Bytes} {floor_ at_ k : Nat} (hroom : floor_ + k + 4 ≤ p.length)
    (hlow : floor_ ≤ at_) (hhigh : at_ ≤ floor_ + k) (hsig : Bytes.field p at_ 4 = endSignature)
    (hlast : ∀ i, at_ < i → i ≤ floor_ + k → Bytes.field p i 4 ≠ endSignature) :
    findEocd p floor_ k = .ok at_ := by
  unfold endSignature at hsig hlast
  induction k with
  | zero =>
    obtain rfl : at_ = floor_ := by omega
    rw [findEocd, rd32_ok (by omega), ok_bind, if_pos hsig]
  | succ k ih =>
    rw [findEocd, rd32_ok (by omega), ok_bind]
    by_cases hat : at_ = floor_ + (k + 1)
    · rw [← hat, if_pos hsig]
    · rw [if_neg (hlast (floor_ + (k + 1)) (by omega) (by omega))]
      exact ih (by omega) (by omega) fun i hi hle => hlast i hi (by omega)

/-- The parts of the end record. -/
def endParts (z : File) : List Bytes :=
  [Bytes.le 4 endSignature, Bytes.le 2 0, Bytes.le 2 0, Bytes.le 2 z.entries.length,
    Bytes.le 2 z.entries.length, Bytes.le 4 z.directory.length, Bytes.le 4 z.front.length,
    Bytes.le 2 z.comment.length]

theorem bytes_end (z : File) : z.bytes =
    (z.front ++ z.directory ++ z.gap) ++ (endParts z).flatten ++ z.comment := by
  simp [File.bytes, File.endRecord, endParts, List.append_assoc]

theorem length_bytes (z : File) : z.bytes.length = z.endAt + 22 + z.comment.length := by
  simp [bytes_end, endParts, File.endAt, Nat.add_assoc]
  omega

section Zip

variable {z : File}

theorem front_lt (h : z.Legal) : z.front.length < 256 ^ 4 := by
  have hsize := h.size
  rw [length_bytes, File.endAt, List.length_append, List.length_append] at hsize
  omega

theorem end_fields (h : z.Legal) : Bytes.field z.bytes z.endAt 4 = endSignature ∧
    Bytes.field z.bytes (z.endAt + 10) 2 = z.entries.length ∧
    Bytes.field z.bytes (z.endAt + 16) 4 = z.front.length := by
  have hcount : z.entries.length < 256 ^ 2 := Nat.lt_succ_of_le h.count
  refine ⟨?_, ?_, ?_⟩
  · exact Bytes.field_part (i := 0) (bytes_end z) rfl (by simp [File.endAt]) (by decide)
  · exact Bytes.field_part (i := 4) (bytes_end z) rfl (by simp [endParts, File.endAt]) hcount
  · exact Bytes.field_part (i := 6) (bytes_end z) rfl (by simp [endParts, File.endAt]) (front_lt h)

theorem findEocd_zip (h : z.Legal) :
    findEocd z.bytes (if 66000 < z.bytes.length then z.bytes.length - 66000 else 0)
      (z.bytes.length - 22 - if 66000 < z.bytes.length then z.bytes.length - 66000 else 0) =
      .ok z.endAt := by
  have hlen := length_bytes z
  have hcomment := h.comment
  have hfloor : (if 66000 < z.bytes.length then z.bytes.length - 66000 else 0) ≤ z.endAt := by
    split <;> omega
  generalize (if 66000 < z.bytes.length then z.bytes.length - 66000 else 0) = floor_ at hfloor ⊢
  exact findEocd_eq (by omega) hfloor (by omega) (end_fields h).1
    fun i hi hle => h.last i hi (by omega)

end Zip

/-! ## Section 3: The walk over the directory -/

theorem lower_eq (s : Bytes) : lower s = s.map small := by
  have hsmall : ∀ c : Byte, c - 0x41 + 0x61 = c + 0x20 := by decide
  unfold lower small
  simp only [hsmall]

theorem looksLikeRom_iff (e : Entry) : looksLikeRom e.name = true ↔ e.IsRom := by
  have hext : ext = romExtensions.map text := by decide
  have hsuffix : ∀ x n : Bytes, x <:+ n ↔ x.length ≤ n.length ∧ n.drop (n.length - x.length) = x := by
    intro x n
    constructor
    · intro h
      exact ⟨h.length_le, (List.suffix_iff_eq_drop.mp h).symm⟩
    · rintro ⟨-, h⟩
      exact List.suffix_iff_eq_drop.mpr h.symm
  simp only [looksLikeRom, hext, List.any_map, List.any_eq_true, Function.comp_apply,
    Bool.and_eq_true, decide_eq_true_eq, beq_iff_eq, lower_eq, Entry.IsRom, hsuffix]

/-- What the walk compares, in the order in which it does. -/
def key (e : Entry) : Bool ×ₗ Nat := toLex (looksLikeRom e.name, e.content.length)

theorem better_iff (e f : Entry) : Better e f ↔ key f < key e := by
  have he := looksLikeRom_iff e
  have hf := looksLikeRom_iff f
  unfold Better key
  rw [← he, ← hf, Prod.Lex.toLex_lt_toLex]
  cases looksLikeRom e.name <;> cases looksLikeRom f.name <;> simp

theorem better_of_not {e f g : Entry} (hfe : Better f e) (hge : ¬ Better g e) : Better f g := by
  rw [better_iff] at hfe hge ⊢
  exact lt_of_le_of_lt (not_lt.mp hge) hfe

theorem better_trans {e f g : Entry} (hfe : Better f e) (heg : Better e g) : Better f g := by
  rw [better_iff] at hfe heg ⊢
  exact lt_trans heg hfe

/-- The walk's record of an entry behind `before`. -/
def bestAt (start : Nat) (before : List Entry) (e : Entry) : Best where
  off := start + (before.flatMap Entry.central).length
  size := e.content.length
  isRom := looksLikeRom e.name
  name := e.name

/-- The walk holds the entry to choose among those it has seen. -/
def Tracks (start : Nat) (done : List Entry) (best : Best) : Prop :=
  (done = [] ∧ best = {}) ∨ ∃ before e after, done = before ++ e :: after ∧
    (∀ f ∈ before, Better e f) ∧ (∀ f ∈ after, ¬ Better f e) ∧ best = bestAt start before e

theorem tracks_step {start : Nat} {done : List Entry} {best : Best} (hstart : start ≠ 0)
    (h : Tracks start done best) (f : Entry) :
    Tracks start (done ++ [f]) (if best.improves (looksLikeRom f.name) f.content.length then
      bestAt start done f else best) := by
  rcases h with ⟨rfl, rfl⟩ | ⟨before, e, after, rfl, hbefore, hafter, rfl⟩
  · have hfirst : Best.improves {} (looksLikeRom f.name) f.content.length = true := by
      cases looksLikeRom f.name <;> rfl
    rw [if_pos hfirst]
    exact .inr ⟨[], f, [], rfl, by simp, by simp, rfl⟩
  · have hiff : (bestAt start before e).improves (looksLikeRom f.name) f.content.length = true ↔
        Better f e := by
      have hoff : ((bestAt start before e).off == 0) = false := by
        simp [bestAt, hstart]
      rw [better_iff, key, key, Prod.Lex.toLex_lt_toLex, Best.improves, hoff, Bool.false_or]
      show _ ↔ looksLikeRom e.name < looksLikeRom f.name ∨
        looksLikeRom e.name = looksLikeRom f.name ∧ e.content.length < f.content.length
      simp only [bestAt]
      by_cases hsize : e.content.length < f.content.length <;>
        cases looksLikeRom e.name <;> cases looksLikeRom f.name <;> simp [hsize]
    by_cases hbetter : Better f e
    · rw [if_pos (hiff.mpr hbetter)]
      refine .inr ⟨before ++ e :: after, f, [], rfl, ?_, by simp, rfl⟩
      intro g hg
      rcases List.mem_append.mp hg with hg | hg
      · exact better_trans hbetter (hbefore g hg)
      · rcases List.mem_cons.mp hg with rfl | hg
        · exact hbetter
        · exact better_of_not hbetter (hafter g hg)
    · rw [if_neg (fun himp => hbetter (hiff.mp himp))]
      refine .inr ⟨before, e, after ++ [f], by simp, hbefore, ?_, rfl⟩
      intro g hg
      rcases List.mem_append.mp hg with hg | hg
      · exact hafter g hg
      · rw [List.mem_singleton.mp hg]
        exact hbetter

section Zip

variable {z : File}

theorem packed_lt {front : Bytes} {e : Entry} (h : e.Legal front) (hfront : front.length < 256 ^ 4) :
    e.packed.length < 256 ^ 4 ∧ e.offset < 256 ^ 4 := by
  obtain ⟨a, c, hplaced, ha⟩ := h.placed
  have hlen := congrArg List.length hplaced
  simp only [Entry.localPart, List.length_append] at hlen
  constructor <;> omega

/-- The directory where the walk has come to. -/
theorem bytes_at (before : List Entry) (e : Entry) (after : List Entry)
    (h : z.entries = before ++ e :: after) :
    z.bytes = (z.front ++ before.flatMap Entry.central) ++ e.central ++
      (after.flatMap Entry.central ++ (z.gap ++ (z.endRecord ++ z.comment))) := by
  simp [File.bytes, File.directory, h, List.append_assoc]

theorem central_zip (hz : z.Legal) {before after : List Entry} {e : Entry}
    (h : z.entries = before ++ e :: after) :
    CentralAt z.bytes (z.front.length + (before.flatMap Entry.central).length) e := by
  have he : e.Legal z.front := hz.entries e (by rw [h]; simp)
  obtain ⟨hpacked, hoffset⟩ := packed_lt he (front_lt hz)
  exact centralAt he (bytes_at before e after h) (by simp) hpacked hoffset

/-- The walk goes through all entries and holds the one to choose. -/
theorem walkDir_eq (hz : z.Legal) (todo done : List Entry) (hall : z.entries = done ++ todo)
    {best : Best} (hbest : Tracks z.front.length done best) :
    ∃ best', walkDir z.bytes todo.length
        (z.front.length + (done.flatMap Entry.central).length) best = .ok best' ∧
      Tracks z.front.length z.entries best' := by
  induction todo generalizing done best with
  | nil =>
    rw [List.append_nil] at hall
    rw [hall]
    exact ⟨best, rfl, hbest⟩
  | cons f todo ih =>
    obtain ⟨rest, hbegins⟩ := hz.begins
    have hstart : z.front.length ≠ 0 := by
      rw [hbegins, List.length_append, Bytes.length_le]
      omega
    have hf : f.Legal z.front := hz.entries f (by rw [hall]; simp)
    have hat := central_zip hz hall
    have hroom := hat.room
    have hsig := hat.signature
    unfold centralSignature at hsig
    have hnext : z.front.length + ((done ++ [f]).flatMap Entry.central).length =
        z.front.length + (done.flatMap Entry.central).length +
          (46 + f.name.length + f.extra.length + f.comment.length) := by
      rw [List.flatMap_append, List.length_append, List.flatMap_singleton, length_central hf]
      omega
    have hsnoc : z.entries = done ++ [f] ++ todo := by rw [hall, List.append_assoc]; rfl
    obtain ⟨best', hwalk, htracks⟩ := ih (done ++ [f]) hsnoc (tracks_step hstart hbest f)
    refine ⟨best', ?_, htracks⟩
    rw [hnext] at hwalk
    rw [List.length_cons, walkDir, if_neg (by omega), rd32_ok (by omega), ok_bind,
      if_neg (not_not.mpr hsig), rd16_ok (by omega), ok_bind, rd16_ok (by omega), ok_bind,
      rd16_ok (by omega), ok_bind, rd32_ok (by omega), ok_bind, hat.nameLen, hat.extraLen,
      hat.commentLen, hat.size, if_neg (by omega), range_eq hat.room, ok_bind, hat.name]
    exact hwalk

/-- Only one entry is chosen, at one place. -/
theorem chosen_unique {es before before' after after' : List Entry} {e e' : Entry}
    (h : es = before ++ e :: after) (h' : es = before' ++ e' :: after')
    (hbefore : ∀ f ∈ before, Better e f) (hafter : ∀ f ∈ after, ¬ Better f e)
    (hbefore' : ∀ f ∈ before', Better e' f) (hafter' : ∀ f ∈ after', ¬ Better f e') :
    before = before' ∧ e = e' := by
  rcases List.append_eq_append_iff.mp (h.symm.trans h') with ⟨mid, hmid, hrest⟩ | ⟨mid, hmid, hrest⟩
  · rcases mid with _ | ⟨g, mid⟩
    · obtain ⟨rfl, -⟩ := List.cons.inj hrest
      exact ⟨by rw [hmid, List.append_nil], rfl⟩
    · -- `e` is before `e'`, so that each is better than the other.
      obtain ⟨rfl, htail⟩ := List.cons.inj hrest
      have hlate : e' ∈ after := by
        rw [htail]
        exact List.mem_append_right _ (List.mem_cons_self ..)
      have hearly : e ∈ before' := by
        rw [hmid]
        simp
      exact absurd (hbefore' e hearly) (hafter e' hlate)
  · rcases mid with _ | ⟨g, mid⟩
    · obtain ⟨rfl, -⟩ := List.cons.inj hrest
      exact ⟨by rw [hmid, List.append_nil], rfl⟩
    · obtain ⟨rfl, htail⟩ := List.cons.inj hrest
      have hlate : e ∈ after' := by
        rw [htail]
        exact List.mem_append_right _ (List.mem_cons_self ..)
      have hearly : e' ∈ before := by
        rw [hmid]
        simp
      exact absurd (hbefore e' hearly) (hafter' e hlate)

end Zip

/-! ## Section 4: The check sum -/

theorem crcRound_eq : crcRound = Crc.shift 0xEDB88320 := by
  funext c
  have hand : (c &&& 1).toNat = c.toNat % 2 := by
    rw [BitVec.toNat_and]
    exact Nat.and_one_is_mod _
  have hbit : c.getLsbD 0 = decide (c.toNat % 2 = 1) := by
    rw [BitVec.getLsbD, Nat.testBit_zero]
  unfold crcRound Crc.shift
  rw [hbit]
  rcases Nat.mod_two_eq_zero_or_one c.toNat with h | h
  · have hzero : c &&& 1 = 0 := BitVec.eq_of_toNat_eq (hand.trans h)
    rw [if_neg (not_not.mpr hzero), h]
    simp
  · have hone : c &&& 1 ≠ 0 := by
      intro hzero
      rw [hzero, h] at hand
      exact absurd hand (by decide)
    rw [if_pos hone, h, BitVec.xor_comm]
    rfl

theorem tab_eq {x : BitVec 32} (h : x.toNat < 256) :
    tab.getD x.toNat 0 = (Crc.shift 0xEDB88320)^[8] x := by
  rw [← crcRound_eq, tab, List.getD_eq_getElem?_getD, List.getElem?_map, List.getElem?_range h]
  simp

/-- The table gives the check sum bit by bit. -/
theorem tableCrc_eq (p : Bytes) : tableCrc p = Crc.crc32 p := by
  have hfold : ∀ c : BitVec 32,
      p.foldl (fun (c : BitVec 32) b =>
        tab.getD ((c ^^^ b.setWidth 32) &&& 0xff).toNat 0 ^^^ (c >>> 8)) c =
      Crc.feed 0xEDB88320 c (ofBytes p) := by
    induction p with
    | nil => exact fun _ => rfl
    | cons b p ih =>
      intro c
      have hbyte : ((c ^^^ b.setWidth 32) &&& 0xff).toNat < 256 := by
        rw [BitVec.toNat_and]
        exact Nat.lt_succ_of_le Nat.and_le_right
      rw [List.foldl_cons, ih, tab_eq hbyte]
      show _ = Crc.feed 0xEDB88320 c (lsb 8 b.toNat ++ ofBytes p)
      rw [Crc.feed_append, Crc.feed_byte _ (by omega)]
      rfl
  rw [tableCrc, hfold, Crc.crc32]

/-! ## Section 5: The data of the entry -/

/-- The parts of a local header and the data. -/
def localParts (e : Entry) : List Bytes :=
  [Bytes.le 4 localSignature, e.localFields, Bytes.le 2 e.name.length,
    Bytes.le 2 e.localExtra.length, e.name, e.localExtra, e.packed]

theorem flatten_localParts (e : Entry) : (localParts e).flatten = e.localPart := by
  simp [localParts, Entry.localPart, List.append_assoc]

/-- What is read at the local header of an entry. -/
structure LocalAt (p : Bytes) (e : Entry) : Prop where
  room : e.offset + 30 + e.name.length + e.localExtra.length + e.packed.length ≤ p.length
  signature : Bytes.field p e.offset 4 = localSignature
  nameLen : Bytes.field p (e.offset + 26) 2 = e.name.length
  extraLen : Bytes.field p (e.offset + 28) 2 = e.localExtra.length
  packed : Patch.slice p (e.offset + 30 + e.name.length + e.localExtra.length) e.packed.length =
    e.packed

theorem localAt {p front rest : Bytes} {e : Entry} (h : e.Legal front) (hp : p = front ++ rest) :
    LocalAt p e := by
  obtain ⟨a, c, hplaced, ha⟩ := h.placed
  have hparts : p = a ++ (localParts e).flatten ++ (c ++ rest) := by
    rw [hp, hplaced, flatten_localParts, List.append_assoc]
  have hlen := congrArg List.length hparts
  simp only [List.length_append, flatten_localParts, Entry.localPart, Bytes.length_le,
    h.localFields, ha] at hlen
  constructor
  case room => omega
  case signature => exact Bytes.field_part (i := 0) hparts rfl (by simp [ha]) (by decide)
  case nameLen =>
    exact Bytes.field_part (i := 2) hparts rfl (by simp [localParts, h.localFields, ha]) h.name
  case extraLen =>
    exact Bytes.field_part (i := 3) hparts rfl (by simp [localParts, h.localFields, ha]) h.localExtra
  case packed =>
    have hmid : p = (a ++ ((localParts e).take 6).flatten) ++ e.packed ++ (c ++ rest) := by
      rw [hparts]
      simp [localParts, List.append_assoc]
    refine Patch.slice_mid hmid ?_ rfl
    simp [localParts, h.localFields, ha]
    omega

/-- Out of the data comes the content. -/
theorem extract_eq {e : Entry} (h : e.Packs) : extract e.method e.packed =
    .ok (if e.Fits then .ok e.content else .error "deflate: cabecera dinamica invalida") := by
  cases hblocks : e.blocks with
  | none =>
    have hmethod : e.method = 0 := by simp [Entry.method, hblocks]
    have hfits : e.Fits := by simp [Entry.Fits, hblocks]
    have hpacked : e.packed = e.content := by simpa [Entry.Packs, hblocks] using h
    rw [extract, hmethod, if_pos rfl, if_pos hfits, hpacked]
  | some bs =>
    have hmethod : e.method = 8 := by simp [Entry.method, hblocks]
    have hfits : e.Fits ↔ ∀ blk ∈ bs, blk.distCodes ≤ 30 := by simp [Entry.Fits, hblocks]
    simp only [Entry.Packs, hblocks] at h
    obtain ⟨hne, hlegal, hcontent, pad, -, hbits⟩ := h
    have hdone := inflate_complete bs e.packed pad hne hlegal hbits
    rw [hcontent] at hdone
    rw [extract, hmethod, if_neg (by decide), if_pos rfl, inflate_eq, hdone]
    simp only [hfits]

section Zip

variable {z : File}

/-- The outcome for the chosen entry. -/
def outcome (s : State) (e : Entry) : Bool × State :=
  if e.Fits then (true, { s with what := .zip e.name e.content.length, data := e.content })
  else (false, { s with error := "deflate: cabecera dinamica invalida" })

theorem unwrapEntry_eq (hz : z.Legal) {before after : List Entry} {e : Entry}
    (h : z.entries = before ++ e :: after) {s : State} (hs : s.data = z.bytes) :
    unwrapEntry s (bestAt z.front.length before e) = .ok (outcome s e) := by
  have he : e.Legal z.front := hz.entries e (by rw [h]; simp)
  have hbytes : z.bytes = z.front ++ (z.directory ++ z.gap ++ z.endRecord ++ z.comment) := by
    simp [File.bytes, List.append_assoc]
  have hlocal : LocalAt z.bytes e := localAt he hbytes
  have hat := central_zip hz h
  have hcroom := hat.room
  have hlroom := hlocal.room
  have hcrc : tableCrc e.content = Crc.crc32 e.content := tableCrc_eq _
  have hsig := hlocal.signature
  unfold localSignature at hsig
  rw [unwrapEntry]
  dsimp only [bestAt]
  rw [hs, rd16_ok (by omega), ok_bind, rd32_ok (by omega), ok_bind, rd32_ok (by omega), ok_bind,
    rd32_ok (by omega), ok_bind, hat.method, hat.crc, hat.packed, hat.offset, if_neg (by omega),
    rd32_ok (by omega), ok_bind, if_neg (not_not.mpr hsig), rd16_ok (by omega), ok_bind,
    rd16_ok (by omega), ok_bind, hlocal.nameLen, hlocal.extraLen, if_neg (by omega),
    range_eq (by omega), ok_bind, hlocal.packed, extract_eq he.packs, ok_bind, outcome]
  by_cases hfits : e.Fits
  · rw [if_pos hfits, if_pos hfits]
    dsimp only
    rw [crc32_ok, ok_bind, hcrc, if_neg (fun hbad => hbad.2 rfl)]
  · rw [if_neg hfits, if_neg hfits]
    rfl

/-- **Extraction**: the content of the one chosen entry takes the place of the
    file, unless its data announce more than 30 distance codes. -/
theorem unwrap_zip (hz : z.Legal) (what : What) (error : String) :
    ∃ e, Chosen z.entries e ∧ (∀ f, Chosen z.entries f → f = e) ∧
      unwrap ⟨z.bytes, what, error⟩ = .ok (if e.Fits then
        (true, ⟨e.content, .zip e.name e.content.length, error⟩)
      else (false, ⟨z.bytes, .none, "deflate: cabecera dinamica invalida"⟩)) := by
  obtain ⟨best, hwalk, htracks⟩ := walkDir_eq hz z.entries [] rfl (.inl ⟨rfl, rfl⟩)
  rcases htracks with ⟨hempty, -⟩ | ⟨before, e, after, hall, hbefore, hafter, rfl⟩
  · exact absurd hempty hz.nonempty
  refine ⟨e, ⟨before, after, hall, hbefore, hafter⟩, ?_, ?_⟩
  · rintro f ⟨before', after', hall', hbefore', hafter'⟩
    exact (chosen_unique hall' hall hbefore' hafter' hbefore hafter).2
  obtain ⟨rest, hbegins⟩ := hz.begins
  have hfront : 4 ≤ z.front.length := by
    rw [hbegins, List.length_append, Bytes.length_le]
    omega
  have hend : z.endAt = z.front.length + z.directory.length + z.gap.length := by
    rw [File.endAt, List.length_append, List.length_append]
  have hlen := length_bytes z
  obtain ⟨-, hcount, hcd⟩ := end_fields hz
  have hmagic : range z.bytes 0 4 = .ok [0x50, 0x4b, 3, 4] := by
    rw [range_eq (by omega)]
    congr 1
    exact Patch.slice_mid (a := []) (by rw [File.bytes, hbegins]; simp; rfl) rfl rfl
  have hstart : (bestAt z.front.length before e).off ≠ 0 := by
    dsimp only [bestAt]
    omega
  have hzip : unwrapZip ⟨z.bytes, .none, error⟩ = .ok (outcome ⟨z.bytes, .none, error⟩ e) := by
    unfold unwrapZip
    dsimp only
    rw [if_neg (by omega), minus_eq (by omega), ok_bind, minus_eq (by split <;> omega), ok_bind,
      findEocd_zip hz, ok_bind, if_neg (by omega), rd16_ok (by omega), ok_bind,
      rd32_ok (by omega), ok_bind, hcount, hcd]
    rw [List.flatMap_nil, List.length_nil, Nat.add_zero] at hwalk
    rw [hwalk, ok_bind, if_neg hstart]
    exact unwrapEntry_eq hz hall rfl
  unfold unwrap
  dsimp only
  rw [if_neg (by omega), hmagic, ok_bind, if_pos rfl]
  exact hzip

end Zip

/-- A stored file, and a smaller deflated one with the name of a ROM. -/
def storedEntry : Entry where
  name := [0x62]
  extra := []
  comment := [0x21]
  content := List.replicate 12 7
  blocks := none
  packed := List.replicate 12 7
  offset := 0
  localExtra := []
  version := List.replicate 6 0
  time := List.replicate 4 0
  attributes := List.replicate 8 0
  localFields := List.replicate 22 0

def deflatedEntry (blocks : List Deflate.Block) (packed content : Bytes) (offset : Nat) : Entry where
  name := [0x41, 0x2e, 0x5a, 0x36, 0x34]
  extra := [1, 0, 0, 0]
  comment := []
  content := content
  blocks := some blocks
  packed := packed
  offset := offset
  localExtra := [0]
  version := List.replicate 6 0
  time := List.replicate 4 0
  attributes := List.replicate 8 0
  localFields := List.replicate 22 0

def threeEntry : Entry :=
  deflatedEntry threeBlocks (threeBlocksBytes.take 28) [1, 7, 1, 7, 1, 7, 1, 3, 4, 65] 43

def twoFiles : File where
  front := storedEntry.localPart ++ threeEntry.localPart
  entries := [storedEntry, threeEntry]
  gap := []
  comment := [0x50, 0x4b, 5]

theorem legal_threeEntry : threeEntry.Legal twoFiles.front where
  name := by decide
  extra := by decide
  comment := by decide
  localExtra := by decide
  content := by decide
  version := rfl
  time := rfl
  attributes := rfl
  localFields := rfl
  packs := by
    refine ⟨by simp [threeBlocks], by decide +kernel, by decide +kernel,
      (ofBytes (threeBlocksBytes.take 28)).drop (Deflate.encode threeBlocks).length, ?_, ?_⟩
    · decide +kernel
    · decide +kernel
  placed := ⟨storedEntry.localPart, [], (List.append_nil _).symm, by decide⟩

theorem legal_storedEntry : storedEntry.Legal twoFiles.front where
  name := by decide
  extra := by decide
  comment := by decide
  localExtra := by decide
  content := by decide
  version := rfl
  time := rfl
  attributes := rfl
  localFields := rfl
  packs := rfl
  placed := ⟨[], threeEntry.localPart, rfl, rfl⟩

theorem legal_twoFiles : twoFiles.Legal where
  nonempty := by simp [twoFiles]
  count := by decide
  entries := by
    intro e he
    rcases List.mem_cons.mp he with rfl | he
    · exact legal_storedEntry
    · rw [List.mem_singleton.mp he]
      exact legal_threeEntry
  comment := by decide
  size := by decide +kernel
  begins := ⟨_, rfl⟩
  last := by
    have hall : ∀ i < twoFiles.bytes.length, twoFiles.endAt < i → i + 4 ≤ twoFiles.bytes.length →
        Bytes.field twoFiles.bytes i 4 ≠ endSignature := by
      decide +kernel
    exact fun i hi hle => hall i (by omega) hi hle

theorem unwrap_zip_two : twoFiles.Legal ∧ ∃ e, Chosen twoFiles.entries e ∧
    (∀ f, Chosen twoFiles.entries f → f = e) ∧
      unwrap ⟨twoFiles.bytes, .none, ""⟩ = .ok (if e.Fits then
        (true, ⟨e.content, .zip e.name e.content.length, ""⟩)
      else (false, ⟨twoFiles.bytes, .none, "deflate: cabecera dinamica invalida"⟩)) :=
  ⟨legal_twoFiles, unwrap_zip legal_twoFiles .none ""⟩

/-- One file whose block announces 32 distance codes. -/
def allDistancesFile : File where
  front := (deflatedEntry allDistances allDistancesBytes [65] 0).localPart
  entries := [deflatedEntry allDistances allDistancesBytes [65] 0]
  gap := []
  comment := []

theorem legal_allDistancesFile : allDistancesFile.Legal where
  nonempty := by simp [allDistancesFile]
  count := by decide
  entries := by
    intro e he
    rw [List.mem_singleton.mp he]
    exact {
      name := by decide
      extra := by decide
      comment := by decide
      localExtra := by decide
      content := by decide
      version := rfl
      time := rfl
      attributes := rfl
      localFields := rfl
      packs := ⟨by simp [allDistances], by decide +kernel, by decide +kernel, [], by decide,
        by decide +kernel⟩
      placed := ⟨[], [], (List.append_nil _).symm, rfl⟩ }
  comment := by decide
  size := by decide +kernel
  begins := ⟨_, rfl⟩
  last := by
    have hall : ∀ i < allDistancesFile.bytes.length, allDistancesFile.endAt < i →
        i + 4 ≤ allDistancesFile.bytes.length →
        Bytes.field allDistancesFile.bytes i 4 ≠ endSignature := by
      decide +kernel
    exact fun i hi hle => hall i (by omega) hi hle

/-- The format lets a block of an entry announce 31 or 32 distance codes. -/
theorem unwrap_refuses_all_distances :
    ¬ ∀ (z : File) (what : What) (error : String), z.Legal → ∃ e, Chosen z.entries e ∧
      unwrap ⟨z.bytes, what, error⟩ =
        .ok (true, ⟨e.content, .zip e.name e.content.length, error⟩) := by
  intro hall
  obtain ⟨e, -, h⟩ := hall allDistancesFile .none "" legal_allDistancesFile
  have hrefused : (unwrap ⟨allDistancesFile.bytes, .none, ""⟩).map Prod.fst = .ok false := by
    decide +kernel
  rw [h] at hrefused
  exact Bool.noConfusion (Except.ok.inj hrefused)

end Archive.Indexed
