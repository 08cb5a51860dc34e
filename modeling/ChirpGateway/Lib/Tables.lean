import Mathlib.Algebra.GroupWithZero.Nat

/-!
# Tables of a fixed size

A literal of an index type needs a size that is not zero. The sizes of the tables have their
instances here, under one name each.
-/

namespace Tables

instance (priority := high) neZero_two : NeZero 2 := ⟨by decide⟩

instance (priority := high) neZero_six : NeZero 6 := ⟨by decide⟩

instance (priority := high) neZero_eight : NeZero 8 := ⟨by decide⟩

instance (priority := high) neZero_thirtyTwo : NeZero 32 := ⟨by decide⟩

instance (priority := high) neZero_byte : NeZero 256 := ⟨by decide⟩

end Tables
