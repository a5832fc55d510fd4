import Mathlib.Data.List.AList

/-!
# Filtering an association list by its values

Removing the entries whose value fails a test keeps the keys distinct, and a
lookup in the remainder is the old lookup followed by the same test.
-/

namespace KeyedFilter

universe u v

variable {Key : Type u} {Value : Type v}

def keep (test : Value → Bool) (m : AList fun _ : Key => Value) : AList fun _ : Key => Value where
  entries := m.entries.filter fun e => test e.2
  nodupKeys := m.nodupKeys.sublist List.filter_sublist

theorem lookup_keep [DecidableEq Key] (test : Value → Bool) (m : AList fun _ : Key => Value)
    (k : Key) : (keep test m).lookup k = (m.lookup k).filter test := by
  apply Option.ext
  intro v
  have kept : v ∈ (keep test m).lookup k ↔ (⟨k, v⟩ : Sigma fun _ => Value) ∈ m.entries ∧
      test v = true := by
    rw [AList.mem_lookup_iff]
    exact List.mem_filter
  have old := AList.mem_lookup_iff (a := k) (b := v) (s := m)
  rw [← Option.mem_def, kept, ← old, Option.mem_def, Option.filter_eq_some_iff]

end KeyedFilter
