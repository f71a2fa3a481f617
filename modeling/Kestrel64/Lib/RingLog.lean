import Mathlib.Data.List.Basic
import Mathlib.Data.List.Pairwise
import Mathlib.Data.Nat.ModEq
import Mathlib.Logic.Function.Basic

/-! # Rings that Remember the End of a Log

    A ring of `n` slots into which the entries of a log are written in turn,
    each at its number modulo `n`, holds the last `n` of them (`Holds`).

    A predicate that no entry has unless all those before it do
    (`Downward`) divides the log in two: `countP_eq_of_split` says where,
    and `Downward.take_of_count` that few entries without it are all among
    the last.
-/

namespace RingLog

variable {α : Type}

/-- The ring holds the last `n` entries of the log. -/
def Holds (n : Nat) (slot : Nat → α) (log : List α) : Prop :=
  ∀ j (h : j < log.length), log.length ≤ j + n → slot (j % n) = log[j]

theorem Holds.nil (n : Nat) (slot : Nat → α) : Holds n slot [] := nofun

/-- Writing the next entry. -/
theorem Holds.push {n : Nat} {slot : Nat → α} {log : List α} (h : Holds n slot log) (x : α) :
    Holds n (Function.update slot (log.length % n) x) (log ++ [x]) := by
  intro j hj hlast
  rw [List.length_append, List.length_singleton] at hj hlast
  obtain hj | rfl := Nat.lt_or_eq_of_le (Nat.le_of_lt_succ hj)
  · -- two entries less than `n` apart are in different slots
    have hne : j % n ≠ log.length % n := by
      intro heq
      have hdvd : n ∣ log.length - j := (Nat.modEq_iff_dvd' hj.le).mp heq
      have := Nat.le_of_dvd (by omega) hdvd
      omega
    rw [Function.update_of_ne hne, List.getElem_append_left hj]
    exact h j hj (by omega)
  · rw [Function.update_self, List.getElem_concat_length rfl]

/-- No entry has `p` unless all those before it do. -/
def Downward (p : α → Bool) (log : List α) : Prop := log.Pairwise fun a b => p b = true → p a = true

variable {p : α → Bool} {log : List α}

/-- From the first entry without `p` on, none has it. -/
theorem Downward.drop (h : Downward p log) {r : Nat} (hr : r < log.length)
    (hp : p log[r] = false) : ∀ x ∈ log.drop r, p x = false := by
  intro x hx
  rw [List.drop_eq_getElem_cons hr] at hx
  obtain rfl | hx := List.mem_cons.mp hx
  · exact hp
  · have hall := (List.pairwise_append.mp ((List.take_append_drop (r + 1) log).symm ▸ h)).2.2
    have hmem : log[r] ∈ log.take (r + 1) := by
      rw [List.take_succ_eq_append_getElem hr]
      exact List.mem_append_right _ (List.mem_singleton_self _)
    by_contra hpx
    rw [Bool.not_eq_false] at hpx
    exact absurd (hall _ hmem x hx hpx) (by rw [hp]; decide)

theorem countP_eq_of_split {r : Nat} (hr : r ≤ log.length) (htake : ∀ x ∈ log.take r, p x = true)
    (hdrop : ∀ x ∈ log.drop r, p x = false) : log.countP p = r := by
  have h := congrArg (List.countP p) (List.take_append_drop r log)
  rw [List.countP_append, List.countP_eq_length.mpr htake,
    List.countP_eq_zero.mpr fun x hx => by rw [hdrop x hx]; decide, List.length_take,
    Nat.min_eq_left hr, Nat.add_zero] at h
  exact h.symm

/-- As many entries as have `p` come first. -/
theorem Downward.split (h : Downward p log) :
    (∀ x ∈ log.take (log.countP p), p x = true) ∧
      ∀ x ∈ log.drop (log.countP p), p x = false := by
  induction log with
  | nil => exact ⟨nofun, nofun⟩
  | cons a log ih =>
    obtain ⟨ha, hlog⟩ := List.pairwise_cons.mp h
    cases hp : p a with
    | true =>
      obtain ⟨htake, hdrop⟩ := ih hlog
      rw [List.countP_cons_of_pos hp, List.take_succ_cons, List.drop_succ_cons]
      refine ⟨fun x hx => ?_, hdrop⟩
      obtain rfl | hx := List.mem_cons.mp hx
      · exact hp
      · exact htake x hx
    | false =>
      have hnone : ∀ x ∈ a :: log, p x = false := by
        intro x hx
        obtain rfl | hx := List.mem_cons.mp hx
        · exact hp
        · exact Bool.eq_false_iff.mpr fun hpx => absurd (ha x hx hpx) (by rw [hp]; decide)
      rw [List.countP_eq_zero.mpr fun x hx => by rw [hnone x hx]; decide]
      exact ⟨nofun, hnone⟩

/-- The entries with `p` are the ones in front. -/
theorem Downward.filter_eq_takeWhile (h : Downward p log) : log.filter p = log.takeWhile p := by
  induction log with
  | nil => rfl
  | cons a log ih =>
    obtain ⟨ha, hlog⟩ := List.pairwise_cons.mp h
    cases hp : p a with
    | true => rw [List.filter_cons_of_pos hp, List.takeWhile_cons_of_pos hp, ih hlog]
    | false =>
      have hnone : ∀ x ∈ log, ¬ p x = true := by
        intro x hx hpx
        have := ha x hx hpx
        simp [hp] at this
      rw [List.filter_cons_of_neg (by simp [hp]), List.takeWhile_cons_of_neg (by simp [hp]),
        List.filter_eq_nil_iff.mpr hnone]

/-- At most `n` entries without `p`: they are among the last `n`. -/
theorem Downward.take_of_count (h : Downward p log) {n : Nat}
    (hn : log.countP (fun x => !p x) ≤ n) : ∀ x ∈ log.take (log.length - n), p x = true := by
  intro x hx
  obtain ⟨j, hj, rfl⟩ := List.mem_take_iff_getElem.mp hx
  have hlt : j < log.length := by omega
  by_contra hp
  have hdrop := h.drop hlt (Bool.eq_false_iff.mpr hp)
  have hcount : (log.drop j).countP (fun x => !p x) = log.length - j := by
    rw [List.countP_eq_length.mpr fun x hx => by rw [hdrop x hx]; rfl, List.length_drop]
  have hle := (List.drop_sublist j log).countP_le (p := fun x => !p x)
  omega

/-- An entry with `p` is among the first that have it. -/
theorem Downward.lt_countP (h : Downward p log) {i : Nat} (hi : i < log.length)
    (hp : p log[i] = true) : i < log.countP p := by
  have hall : ∀ x ∈ log.take (i + 1), p x = true := by
    intro x hx
    rw [List.take_succ_eq_append_getElem hi] at hx
    have hpair := (List.pairwise_append.mp ((List.take_append_drop i log).symm ▸ h)).2.2
    obtain hx | hx := List.mem_append.mp hx
    · refine hpair x hx log[i] ?_ hp
      rw [List.drop_eq_getElem_cons hi]
      exact List.mem_cons_self
    · rw [List.mem_singleton.mp hx]
      exact hp
  have hle := (List.take_sublist (i + 1) log).countP_le (p := p)
  rw [List.countP_eq_length.mpr hall, List.length_take] at hle
  omega

end RingLog
