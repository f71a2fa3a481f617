import Mathlib.Algebra.GroupWithZero.Nat

/-! # Index Types

    The tables of the development are not empty. Each size has that fact under
    a name, for the literals of its `Fin`.
-/

instance (priority := 2000) neZero_1 : NeZero 1 := ⟨by decide⟩
instance (priority := 2000) neZero_2 : NeZero 2 := ⟨by decide⟩
instance (priority := 2000) neZero_4 : NeZero 4 := ⟨by decide⟩
instance (priority := 2000) neZero_8 : NeZero 8 := ⟨by decide⟩
instance (priority := 2000) neZero_16 : NeZero 16 := ⟨by decide⟩
instance (priority := 2000) neZero_32 : NeZero 32 := ⟨by decide⟩
instance (priority := 2000) neZero_512 : NeZero 512 := ⟨by decide⟩
instance (priority := 2000) neZero_1024 : NeZero 1024 := ⟨by decide⟩
