import Mathlib.Data.List.Rotate
import Kestrel64.Lib.Patch

/-! # Ring Buffers

    A queue in an array that is read and written in blocks. A block that runs
    over the end is copied in two parts.

    The cells, rotated to the read position, begin with what is in the queue
    (`Ring.contents`). `contents_put` and `contents_discard` say what the
    operations do to the queue, and `copyOut_eq` what is read from its front.
-/

namespace RingBuffer

open Patch

universe u

variable {α : Type u}

structure Ring (α : Type u) where
  cells : List α
  rd : Nat
  wr : Nat
  count : Nat
  deriving DecidableEq, Repr

namespace Ring

def cap (r : Ring α) : Nat := r.cells.length

/-- Both positions are in the array, and `count` cells apart. -/
structure Ok (r : Ring α) : Prop where
  rd : r.rd < r.cap
  count : r.count ≤ r.cap
  wr : r.wr = (r.rd + r.count) % r.cap

def contents (r : Ring α) : List α := (r.cells.rotate r.rd).take r.count

end Ring

/-! ### Copies in two parts -/

def copyOut (cells : List α) (pos n : Nat) : List α :=
  let first := min n (cells.length - pos)
  slice cells pos first ++ slice cells 0 (n - first)

def copyIn (cells : List α) (pos : Nat) (xs : List α) : List α :=
  let first := min xs.length (cells.length - pos)
  overwrite (overwrite cells pos (xs.take first)) 0 (xs.drop first)

/-- The array divided at the position. -/
theorem copyOut_append {a b : List α} {n : Nat} (hn : n ≤ (a ++ b).length) :
    copyOut (a ++ b) a.length n = (b ++ a).take n := by
  rw [List.length_append] at hn
  have hroom : (a ++ b).length - a.length = b.length := by
    rw [List.length_append, Nat.add_sub_cancel_left]
  unfold copyOut slice
  dsimp only
  rw [hroom, List.drop_left, List.drop_zero]
  rcases Nat.le_total n b.length with hfit | hover
  · rw [Nat.min_eq_left hfit, Nat.sub_self, List.take_zero, List.append_nil,
      List.take_append_of_le_length hfit]
  · rw [Nat.min_eq_right hover, List.take_length, List.take_append_of_le_length (by omega),
      List.take_append, List.take_of_length_le hover]

theorem copyOut_eq_take {cells : List α} {pos n : Nat} (hpos : pos ≤ cells.length)
    (hn : n ≤ cells.length) : copyOut cells pos n = (cells.rotate pos).take n := by
  have hsplit := List.take_append_drop pos cells
  have hlen : (cells.take pos).length = pos := by
    rw [List.length_take, Nat.min_eq_left hpos]
  have h := copyOut_append (a := cells.take pos) (b := cells.drop pos) (n := n)
    (by rw [hsplit]; exact hn)
  rw [hsplit, hlen] at h
  rw [h, List.rotate_eq_drop_append_take hpos]

theorem copyIn_append {a b xs : List α} (hxs : xs.length ≤ (a ++ b).length) :
    ∃ a' b', copyIn (a ++ b) a.length xs = a' ++ b' ∧ a'.length = a.length ∧
      b' ++ a' = xs ++ (b ++ a).drop xs.length := by
  rw [List.length_append] at hxs
  have hroom : (a ++ b).length - a.length = b.length := by
    rw [List.length_append, Nat.add_sub_cancel_left]
  unfold copyIn
  dsimp only
  rw [hroom]
  rcases Nat.le_total xs.length b.length with hfit | hover
  · refine ⟨a, xs ++ b.drop xs.length, ?_, rfl, ?_⟩
    · rw [Nat.min_eq_left hfit, List.take_length, List.drop_length, overwrite_mid rfl rfl]
      unfold overwrite
      rw [List.take_zero, List.nil_append, List.length_nil, List.nil_append, List.drop_zero,
        List.append_assoc]
    · rw [List.drop_append_of_le_length hfit, List.append_assoc]
  · -- the front part fills the array to its end, the rest goes to its start
    have hfront : (xs.take b.length).length = b.length := by
      rw [List.length_take, Nat.min_eq_left hover]
    have hrest : (xs.drop b.length).length = xs.length - b.length := List.length_drop
    refine ⟨xs.drop b.length ++ a.drop (xs.length - b.length), xs.take b.length, ?_, ?_, ?_⟩
    · rw [Nat.min_eq_right hover, overwrite_mid rfl rfl, hfront, List.drop_length, List.append_nil]
      unfold overwrite
      rw [List.take_zero, List.nil_append, Nat.zero_add, hrest,
        List.drop_append_of_le_length (by omega), List.append_assoc]
    · rw [List.length_append, hrest, List.length_drop]
      omega
    · rw [← List.append_assoc, List.take_append_drop, List.drop_append,
        List.drop_eq_nil_of_le hover, List.nil_append]

theorem rotate_copyIn {cells xs : List α} {pos : Nat} (hpos : pos ≤ cells.length)
    (hxs : xs.length ≤ cells.length) :
    (copyIn cells pos xs).length = cells.length ∧
      (copyIn cells pos xs).rotate pos = xs ++ (cells.rotate pos).drop xs.length := by
  have hsplit := List.take_append_drop pos cells
  have hlen : (cells.take pos).length = pos := by
    rw [List.length_take, Nat.min_eq_left hpos]
  obtain ⟨a, b, hcopy, ha, hrot⟩ := @copyIn_append _ (cells.take pos) (cells.drop pos) xs
    (by rw [hsplit]; exact hxs)
  rw [hsplit, hlen] at hcopy
  rw [← List.rotate_eq_drop_append_take hpos] at hrot
  have htotal : (a ++ b).length = cells.length := by
    have h := congrArg List.length hrot
    simp only [List.length_append, List.length_drop, List.length_rotate] at h ⊢
    omega
  refine ⟨hcopy ▸ htotal, ?_⟩
  rw [hcopy, ← hlen, ← ha, List.rotate_append_length_eq, hrot, ha, hlen]

/-! ### Operations -/

namespace Ring

/-- The first `n` elements leave the queue. -/
def discard (r : Ring α) (n : Nat) : Ring α :=
  { r with rd := (r.rd + n) % r.cap, count := r.count - n }

/-- `xs` enters it. -/
def put (r : Ring α) (xs : List α) : Ring α :=
  { r with
    cells := copyIn r.cells r.wr xs
    wr := (r.wr + xs.length) % r.cap
    count := r.count + xs.length }

variable {r : Ring α} {n : Nat} {xs : List α}

theorem Ok.cap_pos (h : r.Ok) : 0 < r.cap := Nat.zero_lt_of_lt h.rd

theorem Ok.wr_lt (h : r.Ok) : r.wr < r.cap := h.wr ▸ Nat.mod_lt _ h.cap_pos

theorem Ok.length_contents (h : r.Ok) : r.contents.length = r.count := by
  unfold contents
  rw [List.length_take, List.length_rotate]
  exact Nat.min_eq_left h.count

/-- What is read from the front. -/
theorem Ok.copyOut_eq (h : r.Ok) (hn : n ≤ r.count) :
    copyOut r.cells r.rd n = r.contents.take n := by
  unfold contents
  rw [copyOut_eq_take h.rd.le (hn.trans h.count), List.take_take, Nat.min_eq_left hn]

theorem Ok.discard (h : r.Ok) (hn : n ≤ r.count) : (r.discard n).Ok where
  rd := Nat.mod_lt _ h.cap_pos
  count := (Nat.sub_le _ _).trans h.count
  wr := by
    have hsum : r.rd + n + (r.count - n) = r.rd + r.count := by omega
    change r.wr = ((r.rd + n) % r.cap + (r.count - n)) % r.cap
    rw [Nat.mod_add_mod, hsum]
    exact h.wr

theorem Ok.contents_discard (h : r.Ok) (hn : n ≤ r.count) :
    (r.discard n).contents = r.contents.drop n := by
  have hcount := h.count
  change (r.cells.rotate ((r.rd + n) % r.cells.length)).take (r.count - n) =
    ((r.cells.rotate r.rd).take r.count).drop n
  rw [List.rotate_mod, ← List.rotate_rotate, List.drop_take,
    List.rotate_eq_drop_append_take (l := r.cells.rotate r.rd) (by
      rw [List.length_rotate]
      exact hn.trans hcount),
    List.take_append_of_le_length]
  rw [List.length_drop, List.length_rotate]
  exact Nat.sub_le_sub_right hcount n

theorem Ok.put (h : r.Ok) (hxs : r.count + xs.length ≤ r.cap) :
    (r.put xs).Ok ∧ (r.put xs).contents = r.contents ++ xs ∧ (r.put xs).cap = r.cap := by
  have hcap : xs.length ≤ r.cells.length := (Nat.le_add_left _ _).trans hxs
  obtain ⟨hlen, hrot⟩ := @rotate_copyIn _ _ xs _ h.wr_lt.le hcap
  have hsize : (r.put xs).cap = r.cap := hlen
  refine ⟨⟨hsize ▸ h.rd, hsize ▸ hxs, ?_⟩, ?_, hsize⟩
  · rw [hsize]
    change (r.wr + xs.length) % r.cap = (r.rd + (r.count + xs.length)) % r.cap
    rw [h.wr, Nat.mod_add_mod, Nat.add_assoc]
  · -- both arrays from the read position on
    change ((copyIn r.cells r.wr xs).rotate r.rd).take (r.count + xs.length) =
      (r.cells.rotate r.rd).take r.count ++ xs
    have hwr (cells : List α) (hc : cells.length = r.cap) :
        cells.rotate r.wr = (cells.rotate r.rd).drop r.count ++ (cells.rotate r.rd).take r.count := by
      rw [h.wr, ← hc, List.rotate_mod, ← List.rotate_rotate,
        List.rotate_eq_drop_append_take (by rw [List.length_rotate, hc]; exact h.count)]
    rw [hwr _ rfl, hwr _ hlen] at hrot
    have hl : (r.cells.rotate r.rd).length = r.cap := List.length_rotate ..
    have hl' : ((copyIn r.cells r.wr xs).rotate r.rd).length = r.cap :=
      (List.length_rotate ..).trans hlen
    generalize r.cells.rotate r.rd = l at hrot hl ⊢
    generalize (copyIn r.cells r.wr xs).rotate r.rd = l' at hrot hl' ⊢
    rw [List.drop_append_of_le_length (by rw [List.length_drop, hl]; omega), ← List.append_assoc]
      at hrot
    obtain ⟨hnew, hold⟩ := List.append_inj' hrot (by rw [List.length_take, List.length_take, hl, hl'])
    rw [List.take_add, hold, hnew, List.take_left]

/-- Room is made for `xs` first. -/
theorem Ok.replace (h : r.Ok) (hn : n ≤ r.count) (hxs : r.count - n + xs.length ≤ r.cap) :
    ((r.discard n).put xs).Ok ∧ ((r.discard n).put xs).contents = r.contents.drop n ++ xs ∧
      ((r.discard n).put xs).cap = r.cap := by
  obtain ⟨hok, hcontents, hcap⟩ := (h.discard hn).put hxs
  exact ⟨hok, by rw [hcontents, h.contents_discard hn], hcap⟩

end Ring

end RingBuffer
