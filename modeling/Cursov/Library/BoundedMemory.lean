import Mathlib.Logic.Function.Basic

/-!
# Buffers with checked accesses

A load or store outside the buffer fails, and with it the computation it is part of.
The rules below compute the weakest precondition of a computation, so that a program
over buffers turns into the conditions under which no access fails.
-/

namespace BoundedMemory

universe u v

structure Buffer (α : Type u) where
  bytes : Nat → α
  size : Nat

/-- The computation succeeds, with a result that satisfies `P`. -/
def Holds {β : Type v} (x : Option β) (P : β → Prop) : Prop := ∃ b, x = some b ∧ P b

section Rules

variable {β : Type v} {γ : Type v}

theorem holds_some {b : β} {P : β → Prop} : Holds (some b) P ↔ P b := by
  constructor
  · rintro ⟨_, ⟨⟩, h⟩
    exact h
  · exact fun h => ⟨b, rfl, h⟩

/-- An access and its bound. -/
theorem holds_guard {c : Prop} [Decidable c] {b : β} {P : β → Prop} :
    Holds (if c then some b else none) P ↔ c ∧ P b := by
  by_cases h : c
  · rw [if_pos h, holds_some]
    simp [h]
  · rw [if_neg h]
    refine iff_of_false ?_ fun both => h both.1
    rintro ⟨_, ⟨⟩, _⟩

theorem holds_bind {x : Option β} {k : β → Option γ} {P : γ → Prop} :
    Holds (x >>= k) P ↔ Holds x fun b => Holds (k b) P := by
  cases x with
  | none =>
    constructor
    · rintro ⟨_, h, _⟩
      cases h
    · rintro ⟨_, h, _⟩
      cases h
  | some b => exact (holds_some (P := fun b => Holds (k b) P)).symm

theorem holds_ite {c : Prop} [Decidable c] {x y : Option β} {P : β → Prop} :
    Holds (if c then x else y) P ↔ (c → Holds x P) ∧ (¬ c → Holds y P) := by
  by_cases h : c
  · simp [h]
  · simp [h]

theorem isSome_iff_holds {x : Option β} : x.isSome = true ↔ Holds x fun _ => True := by
  rw [Option.isSome_iff_exists]
  exact ⟨fun ⟨b, h⟩ => ⟨b, h, trivial⟩, fun ⟨b, h, _⟩ => ⟨b, h⟩⟩

/-- Conjunction that evaluates its second operand only if the first is true. -/
def both (x y : Option Bool) : Option Bool := x >>= fun a => if a = true then y else some false

theorem holds_both {x y : Option Bool} {c d : Prop} {a e : Bool}
    (first : ∀ P, Holds x P ↔ c ∧ P a) (second : ∀ P, Holds y P ↔ d ∧ P e) (P : Bool → Prop) :
    Holds (both x y) P ↔ (c ∧ (a = true → d)) ∧ P (a && e) := by
  rw [both, holds_bind, first, holds_ite, second, holds_some]
  cases a with
  | false => simp
  | true => simp [and_assoc]

end Rules

namespace Buffer

variable {α : Type u}

def load (b : Buffer α) (i : Nat) : Option α := if i < b.size then some (b.bytes i) else none

def store (b : Buffer α) (i : Nat) (value : α) : Option (Buffer α) :=
  if i < b.size then some { b with bytes := Function.update b.bytes i value } else none

/-- `count` loads one after another. -/
def loads (b : Buffer α) : (count addr : Nat) → Option (List α)
  | 0, _ => some []
  | count + 1, addr => do
    let first ← b.load addr
    let rest ← b.loads count (addr + 1)
    some (first :: rest)

end Buffer

variable {α : Type u} {b : Buffer α}

theorem holds_load {i : Nat} {P : α → Prop} : Holds (b.load i) P ↔ i < b.size ∧ P (b.bytes i) :=
  holds_guard

theorem holds_store {i : Nat} {value : α} {P : Buffer α → Prop} :
    Holds (b.store i value) P ↔
      i < b.size ∧ P { b with bytes := Function.update b.bytes i value } :=
  holds_guard

theorem holds_loads {count addr : Nat} {P : List α → Prop} :
    Holds (b.loads count addr) P ↔
      (count = 0 ∨ addr + count ≤ b.size) ∧ P ((List.range' addr count).map b.bytes) := by
  induction count generalizing addr P with
  | zero => simp [Buffer.loads, holds_some]
  | succ count ih =>
    simp only [Buffer.loads, holds_bind, holds_load, holds_some, ih, List.range'_succ,
      List.map_cons]
    constructor
    · rintro ⟨first, rest, result⟩
      exact ⟨by omega, result⟩
    · rintro ⟨inside, result⟩
      exact ⟨by omega, by omega, result⟩

end BoundedMemory
