import Mathlib.Data.List.Count

/-!
# A growable vector seen through its storage

The live elements are a prefix of the storage. Appending overwrites the slot
behind the prefix and removing shifts the kept elements to the front, so the
slots from `size` on keep stale values that an old end position still covers.
-/

universe u

structure SlotVector (α : Type u) where
  slots : List α
  size : Nat
  size_le : size ≤ slots.length

namespace SlotVector

variable {α : Type u}

def empty : SlotVector α := ⟨[], 0, Nat.le_refl 0⟩

/-- The elements of the vector. -/
def live (v : SlotVector α) : List α := v.slots.take v.size

/-- `push_back` without reallocation. -/
def pushBack (v : SlotVector α) (x : α) : SlotVector α where
  slots := v.live ++ x :: v.slots.drop (v.size + 1)
  size := v.size + 1
  size_le := by
    have := v.size_le
    simp [live]
    omega

/-- `clear` keeps the storage. -/
def clear (v : SlotVector α) : SlotVector α := ⟨v.slots, 0, Nat.zero_le _⟩

/-- The slots from position `cursor` up to position `stop`, stale ones included. -/
def window (v : SlotVector α) (cursor stop : Nat) : List α := (v.slots.take stop).drop cursor

@[simp] theorem length_live (v : SlotVector α) : v.live.length = v.size := by
  rw [live, List.length_take, Nat.min_eq_left v.size_le]

@[simp] theorem live_pushBack (v : SlotVector α) (x : α) :
    (v.pushBack x).live = v.live ++ [x] := by
  have length : (v.live ++ [x]).length = v.size + 1 := by simp
  change (v.live ++ x :: v.slots.drop (v.size + 1)).take (v.size + 1) = v.live ++ [x]
  rw [List.append_cons]
  exact List.take_left' length

/-- The storage never shrinks. -/
theorem length_slots_pushBack (v : SlotVector α) (x : α) :
    v.slots.length ≤ (v.pushBack x).slots.length := by
  have length := v.length_live
  simp only [pushBack, List.length_append, List.length_cons, List.length_drop, length]
  omega

theorem length_slots_pushBack_le (v : SlotVector α) (x : α) :
    (v.pushBack x).slots.length ≤ v.slots.length + 1 := by
  have length := v.length_live
  have := v.size_le
  simp only [pushBack, List.length_append, List.length_cons, List.length_drop, length]
  omega

/-- A whole traversal starts with all live elements ahead. -/
theorem window_zero_size (v : SlotVector α) : v.window 0 v.size = v.live := rfl

theorem window_eq_nil {v : SlotVector α} {cursor stop : Nat} (finished : stop ≤ cursor) :
    v.window cursor stop = [] := by
  rw [window, List.drop_eq_nil_iff, List.length_take]
  omega

/-- The position at the cursor is the head of the window. -/
theorem window_cons {v : SlotVector α} {cursor stop : Nat} {x : α} (ahead : cursor < stop)
    (slot : v.slots[cursor]? = some x) :
    v.window cursor stop = x :: v.window (cursor + 1) stop := by
  obtain ⟨bound, rfl⟩ := List.getElem?_eq_some_iff.mp slot
  have inside : cursor < (v.slots.take stop).length := by
    rw [List.length_take]
    omega
  rw [window, List.drop_eq_getElem_cons inside, List.getElem_take, window]

/-- Appending writes behind the live elements, out of sight of an end position among them. -/
theorem window_pushBack {v : SlotVector α} (x : α) {cursor stop : Nat} (inside : stop ≤ v.size) :
    (v.pushBack x).window cursor stop = v.window cursor stop := by
  have length := v.length_live
  have kept : (v.live ++ x :: v.slots.drop (v.size + 1)).take stop = v.slots.take stop := by
    rw [List.take_append_of_le_length (by omega), live, List.take_take, Nat.min_eq_left inside]
  rw [window, window, ← kept]
  rfl

variable [DecidableEq α]

/-- `erase(remove(begin, end, x), end)`: the kept elements move to the front. -/
def eraseRemove (v : SlotVector α) (x : α) : SlotVector α where
  slots := v.live.filter (fun y => y ≠ x) ++
    v.slots.drop (v.live.filter fun y => y ≠ x).length
  size := (v.live.filter fun y => y ≠ x).length
  size_le := by simp

@[simp] theorem live_eraseRemove (v : SlotVector α) (x : α) :
    (v.eraseRemove x).live = v.live.filter fun y => y ≠ x := by
  rw [live, eraseRemove]
  exact List.take_left

theorem size_eraseRemove_le (v : SlotVector α) (x : α) : (v.eraseRemove x).size ≤ v.size := by
  have kept := List.length_filter_le (fun y => decide (y ≠ x)) v.live
  rwa [length_live] at kept

theorem length_slots_eraseRemove (v : SlotVector α) (x : α) :
    (v.eraseRemove x).slots.length = v.slots.length := by
  have kept := List.length_filter_le (fun y => decide (y ≠ x)) v.live
  have := v.size_le
  rw [length_live] at kept
  simp only [eraseRemove, List.length_append, List.length_drop]
  omega

end SlotVector
