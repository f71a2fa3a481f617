import Mathlib.Logic.Basic

/-! # Write-Back Buffers

    Data in memory with a file behind it and a flag that says that the two may
    differ. The data is loaded from the file at power-on, and stored at
    power-off if the flag is set.

    * `Buffer.Next` — what every access has to keep to: it sets the flag, or
      it leaves data and flag alone.
    * `Synced` — the invariant, `Synced.next` its step.
    * `Synced.reload` — power-off and power-on lose nothing.
-/

namespace WriteBack

universe u v

variable {α : Type u} {φ : Type v}

structure Buffer (α : Type u) where
  data : α
  dirty : Bool
  deriving DecidableEq, Repr

def Buffer.Next (b b' : Buffer α) : Prop :=
  b'.dirty = false → b'.data = b.data ∧ b.dirty = false

theorem Buffer.Next.refl (b : Buffer α) : b.Next b := fun h => ⟨rfl, h⟩

theorem Buffer.Next.of_dirty {b b' : Buffer α} (h : b'.dirty = true) : b.Next b' := by
  intro hclean
  rw [h] at hclean
  cases hclean

theorem Buffer.Next.trans {b b' b'' : Buffer α} (h₁ : b.Next b') (h₂ : b'.Next b'') :
    b.Next b'' := by
  intro hclean
  obtain ⟨hdata, hclean'⟩ := h₂ hclean
  obtain ⟨hdata', hfirst⟩ := h₁ hclean'
  exact ⟨hdata.trans hdata', hfirst⟩

section File

variable (load : Option φ → α) (store : α → φ)

/-- Power-off, with the file as it was and as it is afterwards. -/
def flush (file : Option φ) (b : Buffer α) : Option φ :=
  if b.dirty then some (store b.data) else file

/-- Power-on. -/
def attach (file : Option φ) : Buffer α := ⟨load file, false⟩

/-- Where the flag is clear the data is what the file holds. -/
def Synced (file : Option φ) (b : Buffer α) : Prop := b.dirty = false → b.data = load file

variable {load store} {file : Option φ} {b b' : Buffer α}

theorem synced_attach : Synced load file (attach load file) := fun _ => rfl

theorem Synced.next (h : Synced load file b) (hnext : b.Next b') : Synced load file b' := by
  intro hclean
  obtain ⟨hdata, hfirst⟩ := hnext hclean
  exact hdata.trans (h hfirst)

theorem Synced.reload (h : Synced load file b) (hfile : load (some (store b.data)) = b.data) :
    load (flush store file b) = b.data := by
  unfold flush
  split
  · exact hfile
  · next hclean => exact (h (eq_false_of_ne_true hclean)).symm

end File

end WriteBack
