import Kestrel64.Lib.Bytes
import Mathlib.Data.List.Basic
import Mathlib.Logic.Function.Basic

/-! # Visitors

    One description of a state, walked in two directions: a list of visits
    writes the fields of a state into a stream, and reads them back.

    * `Frame` — how the content of a field stands in the stream.
    * `Slot` — what of a field is saved, and what a load makes of it.
    * `Visit` — a mark, a field, or a value that comes from fields read before.
    * `getAll_iff` — a list of visits reads a stream exactly if the stream begins
      with what the list writes for some contents that fit.
    * `putAll_inj` — and those contents, and the end of them, are determined.
-/

universe u v

namespace Visitor

/-! ## Section 1: Frames -/

/-- The first `n` bytes of a stream, and the rest. -/
def takeBytes (n : Nat) (s : Bytes) : Option (Bytes × Bytes) :=
  if n ≤ s.length then some (s.take n, s.drop n) else none

theorem takeBytes_iff {n : Nat} {s b r : Bytes} :
    takeBytes n s = some (b, r) ↔ b.length = n ∧ s = b ++ r := by
  unfold takeBytes
  constructor
  · intro h
    split_ifs at h with hn
    obtain ⟨rfl, rfl⟩ := Prod.mk.inj (Option.some.inj h)
    exact ⟨by rw [List.length_take, Nat.min_eq_left hn], (List.take_append_drop n s).symm⟩
  · rintro ⟨rfl, rfl⟩
    rw [if_pos (by rw [List.length_append]; omega), List.take_left, List.drop_left]

/-- How the content of a field stands in the stream: `n` bytes, or counted,
    with its number of bytes in front. The reader can refuse a number for the
    value that it is about to replace. -/
inductive Frame (V : Type u) where
  | plain (n : Nat)
  | counted (accepts : V → Nat → Bool)

namespace Frame

variable {V : Type u}

/-- What goes into the stream, call by call. -/
def pieces : Frame V → Bytes → List Bytes
  | plain _, b => [b]
  | counted _, b => [Bytes.le 8 b.length, b]

def put (f : Frame V) (b : Bytes) : Bytes := (f.pieces b).flatten

def get : Frame V → V → Bytes → Option (Bytes × Bytes)
  | plain n, _, s => takeBytes n s
  | counted accepts, v, s =>
    (takeBytes 8 s).bind fun r =>
      if accepts v (Bytes.ofLe r.1) then takeBytes (Bytes.ofLe r.1) r.2 else none

/-- The content can be read in the place of `v`. -/
def Fits : Frame V → V → Bytes → Prop
  | plain n, _, b => b.length = n
  | counted accepts, v, b => b.length < 256 ^ 8 ∧ accepts v b.length = true

@[simp] theorem put_plain (n : Nat) (b : Bytes) : (plain n : Frame V).put b = b := by
  simp [put, pieces]

@[simp] theorem put_counted (accepts : V → Nat → Bool) (b : Bytes) :
    (counted accepts).put b = Bytes.le 8 b.length ++ b := by
  simp [put, pieces]

/-- A frame reads exactly what it writes for a content that fits. -/
theorem get_iff {f : Frame V} {v : V} {s b r : Bytes} :
    f.get v s = some (b, r) ↔ f.Fits v b ∧ s = f.put b ++ r := by
  cases f with
  | plain n =>
    rw [put_plain]
    exact takeBytes_iff
  | counted accepts =>
    rw [put_counted, List.append_assoc]
    constructor
    · intro h
      obtain ⟨⟨size, rest⟩, hsize, hget⟩ := Option.bind_eq_some_iff.mp h
      obtain ⟨hlen, rfl⟩ := takeBytes_iff.mp hsize
      split_ifs at hget with hacc
      obtain ⟨hb, rfl⟩ := takeBytes_iff.mp hget
      have hlt : Bytes.ofLe size < 256 ^ 8 := hlen ▸ Bytes.ofLe_lt size
      refine ⟨⟨hb ▸ hlt, hb ▸ hacc⟩, ?_⟩
      rw [hb, ← hlen, Bytes.le_ofLe]
    · rintro ⟨⟨hlt, hacc⟩, rfl⟩
      have hsize : takeBytes 8 (Bytes.le 8 b.length ++ (b ++ r)) =
          some (Bytes.le 8 b.length, b ++ r) :=
        takeBytes_iff.mpr ⟨Bytes.length_le 8 _, rfl⟩
      have hof : Bytes.ofLe (Bytes.le 8 b.length) = b.length := Bytes.ofLe_le_of_lt hlt
      rw [get, hsize, Option.bind_some, hof, if_pos hacc]
      exact takeBytes_iff.mpr ⟨rfl, rfl⟩

/-- Two contents in front of the same stream are the same, whatever they replace. -/
theorem put_inj {f : Frame V} {v v' : V} {b b' r r' : Bytes} (hb : f.Fits v b)
    (hb' : f.Fits v' b') (h : f.put b ++ r = f.put b' ++ r') : b = b' ∧ r = r' := by
  cases f with
  | plain n =>
    rw [put_plain, put_plain] at h
    exact List.append_inj h (hb.trans hb'.symm)
  | counted accepts =>
    rw [put_counted, put_counted, List.append_assoc, List.append_assoc] at h
    obtain ⟨hsize, h⟩ := List.append_inj h (by rw [Bytes.length_le, Bytes.length_le])
    have hlen := congrArg Bytes.ofLe hsize
    rw [Bytes.ofLe_le_of_lt hb.1, Bytes.ofLe_le_of_lt hb'.1] at hlen
    exact List.append_inj h hlen

end Frame

/-! ## Section 2: Visits -/

/-- What of a value is saved, how it stands in the stream, and what a load
    makes of the old value and the content. -/
structure Slot (V : Type u) where
  frame : Frame V
  wire : V → Bytes
  load : V → Bytes → V

variable {K : Type u} {V : K → Type v}

/-- A visit to a state of which the field `k` is a `V k`. -/
inductive Visit (V : K → Type v) where
  /-- A mark in the stream. -/
  | tag (mark : Bytes)
  | field (k : K)
  /-- Not in the stream: the field comes from what was read before. -/
  | derive (k : K) (f : ((k : K) → V k) → V k)

/-- The fields that the visits read, in order. -/
def fields : List (Visit V) → List K
  | [] => []
  | .field k :: vs => k :: fields vs
  | _ :: vs => fields vs

/-- No field is read after it was set. -/
def Ordered : List (Visit V) → Prop
  | [] => True
  | .tag _ :: vs => Ordered vs
  | .field k :: vs => k ∉ fields vs ∧ Ordered vs
  | .derive k _ :: vs => k ∉ fields vs ∧ Ordered vs

/-- The fields that the visits set from others. -/
def derived : List (Visit V) → List K
  | [] => []
  | .derive k _ :: vs => k :: derived vs
  | _ :: vs => derived vs

instance decidableOrdered [DecidableEq K] : (vs : List (Visit V)) → Decidable (Ordered vs)
  | [] => isTrue trivial
  | .tag _ :: vs => decidableOrdered vs
  | .field k :: vs =>
    have := decidableOrdered vs
    inferInstanceAs (Decidable (k ∉ fields vs ∧ Ordered vs))
  | .derive k _ :: vs =>
    have := decidableOrdered vs
    inferInstanceAs (Decidable (k ∉ fields vs ∧ Ordered vs))

@[simp] theorem fields_append (vs ws : List (Visit V)) :
    fields (vs ++ ws) = fields vs ++ fields ws := by
  induction vs with
  | nil => rfl
  | cons x vs ih => cases x <;> simp [fields, ih]

@[simp] theorem derived_append (vs ws : List (Visit V)) :
    derived (vs ++ ws) = derived vs ++ derived ws := by
  induction vs with
  | nil => rfl
  | cons x vs ih => cases x <;> simp [derived, ih]

/-- Two parts of a description, of which the second does not read what the
    first has set. -/
theorem ordered_append {vs ws : List (Visit V)} (hvs : Ordered vs) (hws : Ordered ws)
    (hf : ∀ k ∈ fields vs, k ∉ fields ws) (hd : ∀ k ∈ derived vs, k ∉ fields ws) :
    Ordered (vs ++ ws) := by
  have hnot : ∀ {k} {us : List (Visit V)}, k ∉ fields us → k ∉ fields ws →
      k ∉ fields (us ++ ws) := by
    intro k us h h'
    rw [fields_append, List.mem_append]
    exact not_or.mpr ⟨h, h'⟩
  induction vs with
  | nil => exact hws
  | cons x vs ih =>
    cases x with
    | tag mark => exact ih hvs hf hd
    | field k =>
      obtain ⟨hk, hf⟩ := List.forall_mem_cons.mp hf
      exact ⟨hnot hvs.1 hk, ih hvs.2 hf hd⟩
    | derive k f =>
      obtain ⟨hk, hd⟩ := List.forall_mem_cons.mp hd
      exact ⟨hnot hvs.1 hk, ih hvs.2 hf hd⟩

variable (slot : (k : K) → Slot (V k))

def Visit.pieces (w : K → Bytes) : Visit V → List Bytes
  | .tag mark => [mark]
  | .field k => (slot k).frame.pieces (w k)
  | .derive _ _ => []

/-- The calls that the visits make on a stream, for the contents `w`. -/
def piecesAll (w : K → Bytes) (vs : List (Visit V)) : List Bytes := vs.flatMap (Visit.pieces slot w)

/-- What the visits write. -/
def putAll (w : K → Bytes) (vs : List (Visit V)) : Bytes := (piecesAll slot w vs).flatten

/-- The contents of a state. -/
def wires (m : (k : K) → V k) (k : K) : Bytes := (slot k).wire (m k)

@[simp] theorem putAll_nil (w : K → Bytes) : putAll slot w [] = [] := rfl

@[simp] theorem putAll_tag (w : K → Bytes) (mark : Bytes) (vs : List (Visit V)) :
    putAll slot w (.tag mark :: vs) = mark ++ putAll slot w vs := by
  simp [putAll, piecesAll, Visit.pieces]

@[simp] theorem putAll_field (w : K → Bytes) (k : K) (vs : List (Visit V)) :
    putAll slot w (.field k :: vs) = (slot k).frame.put (w k) ++ putAll slot w vs := by
  simp [putAll, piecesAll, Visit.pieces, Frame.put]

@[simp] theorem putAll_derive (w : K → Bytes) (k : K) (f : ((k : K) → V k) → V k)
    (vs : List (Visit V)) : putAll slot w (.derive k f :: vs) = putAll slot w vs := by
  simp [putAll, piecesAll, Visit.pieces]

/-- The contents fit the fields of the state they are loaded into. -/
def Fits (m : (k : K) → V k) (w : K → Bytes) (vs : List (Visit V)) : Prop :=
  ∀ k ∈ fields vs, (slot k).frame.Fits (m k) (w k)

section Contents

variable {slot}

/-- Only the contents of the fields that are visited matter. -/
theorem putAll_congr {w w' : K → Bytes} {vs : List (Visit V)} (h : ∀ k ∈ fields vs, w k = w' k) :
    putAll slot w vs = putAll slot w' vs := by
  induction vs with
  | nil => rfl
  | cons x vs ih =>
    cases x with
    | tag mark => rw [putAll_tag, putAll_tag, ih h]
    | field k =>
      rw [putAll_field, putAll_field, h k List.mem_cons_self,
        ih fun j hj => h j (List.mem_cons_of_mem _ hj)]
    | derive k f => rw [putAll_derive, putAll_derive, ih h]

theorem fits_field {m : (k : K) → V k} {w : K → Bytes} {vs : List (Visit V)} {k : K} :
    Fits slot m w (.field k :: vs) ↔ (slot k).frame.Fits (m k) (w k) ∧ Fits slot m w vs :=
  List.forall_mem_cons

/-- Contents in front of the same stream are the same, and so is what follows,
    whatever states they were read into. -/
theorem putAll_inj {vs : List (Visit V)} {m m' : (k : K) → V k} {w w' : K → Bytes} {r r' : Bytes}
    (hw : Fits slot m w vs) (hw' : Fits slot m' w' vs)
    (h : putAll slot w vs ++ r = putAll slot w' vs ++ r') :
    (∀ k ∈ fields vs, w k = w' k) ∧ r = r' := by
  induction vs with
  | nil => exact ⟨nofun, h⟩
  | cons x vs ih =>
    cases x with
    | tag mark =>
      rw [putAll_tag, putAll_tag, List.append_assoc, List.append_assoc] at h
      exact ih hw hw' (List.append_cancel_left h)
    | field k =>
      obtain ⟨hk, hw⟩ := fits_field.mp hw
      obtain ⟨hk', hw'⟩ := fits_field.mp hw'
      rw [putAll_field, putAll_field, List.append_assoc, List.append_assoc] at h
      obtain ⟨hb, h⟩ := Frame.put_inj hk hk' h
      obtain ⟨hrest, hr⟩ := ih hw hw' h
      exact ⟨List.forall_mem_cons.mpr ⟨hb, hrest⟩, hr⟩
    | derive k f =>
      rw [putAll_derive, putAll_derive] at h
      exact ih hw hw' h

end Contents

variable [DecidableEq K]

/-- One visit to a stream; it fails at the wrong mark and at the end. -/
def Visit.get (m : (k : K) → V k) (s : Bytes) : Visit V → Option (((k : K) → V k) × Bytes)
  | .tag mark => (takeBytes mark.length s).bind fun r => if r.1 = mark then some (m, r.2) else none
  | .field k =>
    ((slot k).frame.get (m k) s).map fun r => (Function.update m k ((slot k).load (m k) r.1), r.2)
  | .derive k f => some (Function.update m k (f m), s)

def getAll (m : (k : K) → V k) (s : Bytes) : List (Visit V) → Option (((k : K) → V k) × Bytes)
  | [] => some (m, s)
  | x :: vs => (x.get slot m s).bind fun r => getAll r.1 r.2 vs

/-- The state after a load of the contents `w`. -/
def loadAll (w : K → Bytes) (m : (k : K) → V k) : List (Visit V) → (k : K) → V k
  | [] => m
  | .tag _ :: vs => loadAll w m vs
  | .field k :: vs => loadAll w (Function.update m k ((slot k).load (m k) (w k))) vs
  | .derive k f :: vs => loadAll w (Function.update m k (f m)) vs

/-! ## Section 3: Reading is the inverse of writing -/

section Laws

variable {slot}

theorem tag_get_iff {m m' : (k : K) → V k} {s r mark : Bytes} :
    (Visit.tag mark : Visit V).get slot m s = some (m', r) ↔ m' = m ∧ s = mark ++ r := by
  constructor
  · intro h
    obtain ⟨⟨b, rest⟩, htake, hget⟩ := Option.bind_eq_some_iff.mp h
    obtain ⟨-, rfl⟩ := takeBytes_iff.mp htake
    split_ifs at hget with hb
    obtain ⟨rfl, rfl⟩ := Prod.mk.inj (Option.some.inj hget)
    exact ⟨rfl, by rw [← hb]⟩
  · rintro ⟨rfl, rfl⟩
    have htake : takeBytes mark.length (mark ++ r) = some (mark, r) := takeBytes_iff.mpr ⟨rfl, rfl⟩
    rw [Visit.get, htake, Option.bind_some, if_pos rfl]

theorem field_get_iff {m m' : (k : K) → V k} {s r : Bytes} {k : K} :
    (Visit.field k : Visit V).get slot m s = some (m', r) ↔
      ∃ b, (slot k).frame.Fits (m k) b ∧ s = (slot k).frame.put b ++ r ∧
        m' = Function.update m k ((slot k).load (m k) b) := by
  constructor
  · intro h
    obtain ⟨⟨b, rest⟩, hget, h⟩ := Option.map_eq_some_iff.mp h
    obtain ⟨rfl, rfl⟩ := Prod.mk.inj h
    obtain ⟨hfit, hs⟩ := Frame.get_iff.mp hget
    exact ⟨b, hfit, hs, rfl⟩
  · rintro ⟨b, hfit, hs, rfl⟩
    rw [Visit.get, Frame.get_iff.mpr ⟨hfit, hs⟩, Option.map_some]

theorem loadAll_congr {w w' : K → Bytes} {vs : List (Visit V)} (h : ∀ k ∈ fields vs, w k = w' k)
    (m : (k : K) → V k) : loadAll slot w m vs = loadAll slot w' m vs := by
  induction vs generalizing m with
  | nil => rfl
  | cons x vs ih =>
    cases x with
    | tag mark => exact ih h m
    | field k =>
      rw [loadAll, loadAll, h k List.mem_cons_self]
      exact ih (fun j hj => h j (List.mem_cons_of_mem _ hj)) _
    | derive k f => exact ih h _

/-- The fields still to be read do not see a change of another field. -/
theorem fits_update {m : (k : K) → V k} {w : K → Bytes} {vs : List (Visit V)} {k : K}
    (hk : k ∉ fields vs) (x : V k) :
    Fits slot (Function.update m k x) w vs ↔ Fits slot m w vs := by
  refine forall₂_congr fun j hj => ?_
  have hne : j ≠ k := fun he => hk (he ▸ hj)
  rw [Function.update_of_ne hne]

/-- **What is read is what was written.** The visits read a stream exactly if
    it begins with the contents of some state that fit, and they leave the
    loaded state and the rest of the stream. -/
theorem getAll_iff {vs : List (Visit V)} (hvs : Ordered vs) {m m' : (k : K) → V k} {s r : Bytes} :
    getAll slot m s vs = some (m', r) ↔
      ∃ w, Fits slot m w vs ∧ s = putAll slot w vs ++ r ∧ m' = loadAll slot w m vs := by
  induction vs generalizing m s with
  | nil =>
    constructor
    · intro h
      obtain ⟨rfl, rfl⟩ := Prod.mk.inj (Option.some.inj h)
      exact ⟨fun _ => [], nofun, rfl, rfl⟩
    · rintro ⟨w, -, rfl, rfl⟩
      rfl
  | cons x vs ih =>
    rw [getAll, Option.bind_eq_some_iff]
    cases x with
    | tag mark =>
      have ih := @ih hvs
      constructor
      · rintro ⟨⟨m₁, s₁⟩, hget, h⟩
        obtain ⟨rfl, rfl⟩ := tag_get_iff.mp hget
        obtain ⟨w, hfit, rfl, rfl⟩ := ih.mp h
        exact ⟨w, hfit, by rw [putAll_tag, List.append_assoc], rfl⟩
      · rintro ⟨w, hfit, rfl, rfl⟩
        refine ⟨(m, putAll slot w vs ++ r), tag_get_iff.mpr ⟨rfl, ?_⟩, ih.mpr ⟨w, hfit, rfl, rfl⟩⟩
        rw [putAll_tag, List.append_assoc]
    | field k =>
      obtain ⟨hk, hvs⟩ := hvs
      have ih := @ih hvs
      constructor
      · rintro ⟨⟨m₁, s₁⟩, hget, h⟩
        obtain ⟨b, hb, rfl, rfl⟩ := field_get_iff.mp hget
        obtain ⟨w, hfit, rfl, rfl⟩ := ih.mp h
        have hother : ∀ j ∈ fields vs, w j = Function.update w k b j :=
          fun j hj => (Function.update_of_ne (fun he : j = k => hk (he ▸ hj)) b w).symm
        have hself : Function.update w k b k = b := Function.update_self k b w
        refine ⟨Function.update w k b, fits_field.mpr ⟨hself.symm ▸ hb, fun j hj => ?_⟩, ?_, ?_⟩
        · rw [← hother j hj]
          exact (fits_update hk _).mp hfit j hj
        · rw [putAll_field, hself, ← putAll_congr hother, List.append_assoc]
        · rw [loadAll, hself]
          exact loadAll_congr hother _
      · rintro ⟨w, hfit, rfl, rfl⟩
        obtain ⟨hb, hfit⟩ := fits_field.mp hfit
        refine ⟨(_, putAll slot w vs ++ r), field_get_iff.mpr ⟨w k, hb, ?_, rfl⟩,
          ih.mpr ⟨w, (fits_update hk _).mpr hfit, rfl, rfl⟩⟩
        rw [putAll_field, List.append_assoc]
    | derive k f =>
      obtain ⟨hk, hvs⟩ := hvs
      have ih := @ih hvs
      constructor
      · rintro ⟨⟨m₁, s₁⟩, hget, h⟩
        obtain ⟨rfl, rfl⟩ := Prod.mk.inj (Option.some.inj hget)
        obtain ⟨w, hfit, rfl, rfl⟩ := ih.mp h
        exact ⟨w, (fits_update hk _).mp hfit, by rw [putAll_derive], rfl⟩
      · rintro ⟨w, hfit, rfl, rfl⟩
        refine ⟨(_, putAll slot w vs ++ r), ?_, ih.mpr ⟨w, (fits_update hk _).mpr hfit, rfl, rfl⟩⟩
        rw [putAll_derive]
        rfl

/-- **Cut short, refused.** Of what the visits write for the contents of a state
    they read only the whole, and only into a state that the contents fit. -/
theorem getAll_take_iff {vs : List (Visit V)} (hvs : Ordered vs) {m₁ m m' : (k : K) → V k}
    {w : K → Bytes} (hw : Fits slot m₁ w vs) {n : Nat} {r : Bytes} :
    getAll slot m ((putAll slot w vs).take n) vs = some (m', r) ↔
      (putAll slot w vs).length ≤ n ∧ Fits slot m w vs ∧ m' = loadAll slot w m vs ∧ r = [] := by
  rw [getAll_iff hvs]
  constructor
  · rintro ⟨w', hfit, hs, rfl⟩
    have hwhole : putAll slot w vs ++ [] = putAll slot w' vs ++ (r ++ (putAll slot w vs).drop n) := by
      rw [← List.append_assoc, ← hs, List.take_append_drop, List.append_nil]
    obtain ⟨heq, hrest⟩ := putAll_inj hw hfit hwhole
    obtain ⟨hr, hdrop⟩ := List.append_eq_nil_iff.mp hrest.symm
    refine ⟨List.drop_eq_nil_iff.mp hdrop, fun k hk => ?_, (loadAll_congr heq m).symm, hr⟩
    rw [heq k hk]
    exact hfit k hk
  · rintro ⟨hn, hfit, rfl, rfl⟩
    exact ⟨w, hfit, by rw [List.take_of_length_le hn, List.append_nil], rfl⟩

/-! ## Section 4: The loaded state -/

/-- A load leaves the fields alone that no visit sets. -/
theorem loadAll_of_notMem {w : K → Bytes} {vs : List (Visit V)} {k : K} (hf : k ∉ fields vs)
    (hd : k ∉ derived vs) (m : (k : K) → V k) : loadAll slot w m vs k = m k := by
  induction vs generalizing m with
  | nil => rfl
  | cons x vs ih =>
    cases x with
    | tag mark => exact ih hf hd m
    | field j =>
      have hne : k ≠ j := fun he => hf (he ▸ List.mem_cons_self)
      rw [loadAll, ih (fun hm => hf (List.mem_cons_of_mem _ hm)) hd, Function.update_of_ne hne]
    | derive j f =>
      have hne : k ≠ j := fun he => hd (he ▸ List.mem_cons_self)
      rw [loadAll, ih hf (fun hm => hd (List.mem_cons_of_mem _ hm)), Function.update_of_ne hne]

/-- A field that is read, and not set otherwise, is loaded from its content. -/
theorem loadAll_of_mem {w : K → Bytes} {vs : List (Visit V)} (hvs : Ordered vs) {k : K}
    (hf : k ∈ fields vs) (hd : k ∉ derived vs) (m : (k : K) → V k) :
    loadAll slot w m vs k = (slot k).load (m k) (w k) := by
  induction vs generalizing m with
  | nil => exact absurd hf List.not_mem_nil
  | cons x vs ih =>
    cases x with
    | tag mark => exact ih hvs hf hd m
    | field j =>
      by_cases hkj : k = j
      · subst hkj
        rw [loadAll, loadAll_of_notMem hvs.1 hd, Function.update_self]
      · have hf : k ∈ fields vs := (List.mem_cons.mp hf).resolve_left hkj
        rw [loadAll, ih hvs.2 hf hd, Function.update_of_ne hkj]
    | derive j f =>
      have hne : k ≠ j := fun he => hd (he ▸ List.mem_cons_self)
      rw [loadAll, ih hvs.2 hf (fun hm => hd (List.mem_cons_of_mem _ hm)),
        Function.update_of_ne hne]

end Laws

end Visitor
