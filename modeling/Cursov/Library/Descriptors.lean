import Mathlib.Logic.Function.Basic

/-!
# Numbers for objects that are opened and closed

A table of numbers, each free or denoting an object. The objects of one owner are
numbered in the order they are created; those of all others are not told apart.
A close is counted for the object the number denotes, or denoted last.
-/

namespace Descriptors

universe u

inductive Slot where
  | free
  | foreign
  | own (k : Nat)
  deriving DecidableEq

structure Table (Number : Type u) where
  slot : Number → Slot
  last : Number → Slot
  created : Nat
  closes : Nat → Nat

variable {Number : Type u} [DecidableEq Number]

namespace Table

def empty : Table Number where
  slot := fun _ => .free
  last := fun _ => .free
  created := 0
  closes := fun _ => 0

def create (t : Table Number) (n : Number) : Table Number where
  slot := Function.update t.slot n (.own t.created)
  last := Function.update t.last n (.own t.created)
  created := t.created + 1
  closes := t.closes

/-- Another owner gets the number. -/
def occupy (t : Table Number) (n : Number) : Table Number :=
  { t with
    slot := Function.update t.slot n .foreign
    last := Function.update t.last n .foreign }

def close (t : Table Number) (n : Number) : Table Number :=
  { t with
    slot := Function.update t.slot n .free
    closes := match t.last n with
      | .own k => Function.update t.closes k (t.closes k + 1)
      | _ => t.closes }

def Open (t : Table Number) (k : Nat) : Prop := ∃ n, t.slot n = .own k

theorem update_own {f : Number → Slot} {n m : Number} {s : Slot} {k : Nat} :
    Function.update f n s m = .own k ↔ m = n ∧ s = .own k ∨ m ≠ n ∧ f m = .own k := by
  by_cases same : m = n
  · subst m
    simp
  · simp [same]

theorem slot_create_self (t : Table Number) (n : Number) :
    (t.create n).slot n = .own t.created := Function.update_self ..

theorem open_create {t : Table Number} {n : Number} (free : t.slot n = .free) (k : Nat) :
    (t.create n).Open k ↔ k = t.created ∨ t.Open k := by
  constructor
  · rintro ⟨m, hm⟩
    rcases update_own.mp hm with ⟨_, new⟩ | ⟨_, old⟩
    · exact Or.inl (Slot.own.inj new).symm
    · exact Or.inr ⟨m, old⟩
  · rintro (rfl | ⟨m, hm⟩)
    · exact ⟨n, update_own.mpr (Or.inl ⟨rfl, rfl⟩)⟩
    · refine ⟨m, update_own.mpr (Or.inr ⟨?_, hm⟩)⟩
      rintro rfl
      rw [free] at hm
      cases hm

theorem open_occupy {t : Table Number} {n : Number} (free : t.slot n = .free) (k : Nat) :
    (t.occupy n).Open k ↔ t.Open k := by
  constructor
  · rintro ⟨m, hm⟩
    rcases update_own.mp hm with ⟨_, new⟩ | ⟨_, old⟩
    · cases new
    · exact ⟨m, old⟩
  · rintro ⟨m, hm⟩
    refine ⟨m, update_own.mpr (Or.inr ⟨?_, hm⟩)⟩
    rintro rfl
    rw [free] at hm
    cases hm

/-- A close leaves open what was open under another number. -/
theorem open_close_iff {t : Table Number} {n : Number} {j : Nat} :
    (t.close n).Open j ↔ ∃ m, m ≠ n ∧ t.slot m = .own j := by
  constructor
  · rintro ⟨m, hm⟩
    rcases update_own.mp hm with ⟨_, new⟩ | old
    · cases new
    · exact ⟨m, old⟩
  · rintro ⟨m, old⟩
    exact ⟨m, update_own.mpr (Or.inr old)⟩

end Table

open Table

/-- Every object has one number, and is open and never closed, or closed once. -/
structure Accounts (t : Table Number) : Prop where
  recent : ∀ n k, t.slot n = .own k → t.last n = .own k
  unique : ∀ n m k, t.last n = .own k → t.last m = .own k → n = m
  numbered : ∀ n k, t.last n = .own k → k < t.created
  unclosed : ∀ k, t.Open k → t.closes k = 0
  closed : ∀ k, k < t.created → ¬ t.Open k → t.closes k = 1
  unborn : ∀ k, t.created ≤ k → t.closes k = 0

namespace Accounts

variable {t : Table Number}

omit [DecidableEq Number] in
theorem initially : Accounts (Table.empty : Table Number) := by
  constructor <;> simp [Table.empty, Table.Open]

/-- The close of the number it has ends an object, and no other. -/
theorem open_close (h : Accounts t) {n : Number} {k : Nat} (held : t.slot n = .own k) (j : Nat) :
    (t.close n).Open j ↔ t.Open j ∧ j ≠ k := by
  rw [open_close_iff]
  constructor
  · rintro ⟨m, other, hm⟩
    refine ⟨⟨m, hm⟩, ?_⟩
    rintro rfl
    exact other (h.unique m n j (h.recent m j hm) (h.recent n j held))
  · rintro ⟨⟨m, hm⟩, different⟩
    refine ⟨m, ?_, hm⟩
    rintro rfl
    rw [held, Slot.own.injEq] at hm
    exact different hm.symm

/-- The close of a number that last denoted another owner's object. -/
theorem open_close_foreign (h : Accounts t) {n : Number} (foreign : t.last n = .foreign) (j : Nat) :
    (t.close n).Open j ↔ t.Open j := by
  rw [open_close_iff]
  constructor
  · rintro ⟨m, _, hm⟩
    exact ⟨m, hm⟩
  · rintro ⟨m, hm⟩
    refine ⟨m, ?_, hm⟩
    rintro rfl
    rw [h.recent m j hm] at foreign
    cases foreign

theorem recent_close (h : Accounts t) (n m : Number) (k : Nat) (hm : (t.close n).slot m = .own k) :
    (t.close n).last m = .own k := by
  rcases update_own.mp hm with ⟨_, new⟩ | ⟨_, old⟩
  · cases new
  · exact h.recent m k old

theorem create (h : Accounts t) {n : Number} (free : t.slot n = .free) : Accounts (t.create n) where
  recent := by
    intro m k hm
    rcases update_own.mp hm with new | ⟨other, old⟩
    · exact update_own.mpr (Or.inl new)
    · exact update_own.mpr (Or.inr ⟨other, h.recent m k old⟩)
  unique := by
    intro m l k hm hl
    rcases update_own.mp hm with ⟨rfl, first⟩ | ⟨_, first⟩
    · rcases update_own.mp hl with ⟨rfl, _⟩ | ⟨_, second⟩
      · rfl
      · have early := h.numbered l k second
        rw [Slot.own.injEq] at first
        omega
    · rcases update_own.mp hl with ⟨rfl, second⟩ | ⟨_, second⟩
      · have early := h.numbered m k first
        rw [Slot.own.injEq] at second
        omega
      · exact h.unique m l k first second
  numbered := by
    intro m k hm
    change k < t.created + 1
    rcases update_own.mp hm with ⟨_, new⟩ | ⟨_, old⟩
    · rw [Slot.own.injEq] at new
      omega
    · have early := h.numbered m k old
      omega
  unclosed := by
    intro k hk
    rcases (open_create free k).mp hk with rfl | older
    · exact h.unborn t.created (Nat.le_refl _)
    · exact h.unclosed k older
  closed := by
    intro k hk gone
    rw [open_create free, not_or] at gone
    exact h.closed k (by have bound : k < t.created + 1 := hk; omega) gone.2
  unborn := fun k hk => h.unborn k (Nat.le_of_succ_le hk)

theorem occupy (h : Accounts t) {n : Number} (free : t.slot n = .free) : Accounts (t.occupy n) := by
  have kept : ∀ m k, (t.occupy n).last m = .own k → t.last m = .own k := by
    intro m k hm
    rcases update_own.mp hm with ⟨_, new⟩ | ⟨_, old⟩
    · cases new
    · exact old
  exact {
    recent := by
      intro m k hm
      rcases update_own.mp hm with ⟨_, new⟩ | ⟨other, old⟩
      · cases new
      · exact update_own.mpr (Or.inr ⟨other, h.recent m k old⟩)
    unique := fun m l k hm hl => h.unique m l k (kept m k hm) (kept l k hl)
    numbered := fun m k hm => h.numbered m k (kept m k hm)
    unclosed := fun k hk => h.unclosed k ((open_occupy free k).mp hk)
    closed := fun k hk gone => h.closed k hk fun still => gone ((open_occupy free k).mpr still)
    unborn := h.unborn }

theorem close (h : Accounts t) {n : Number} {k : Nat} (held : t.slot n = .own k) :
    Accounts (t.close n) := by
  have counted : (t.close n).closes = Function.update t.closes k (t.closes k + 1) := by
    simp only [Table.close, h.recent n k held]
  exact {
    recent := h.recent_close n
    unique := h.unique
    numbered := h.numbered
    unclosed := by
      intro j hj
      obtain ⟨before, different⟩ := (h.open_close held j).mp hj
      rw [counted, Function.update_of_ne different]
      exact h.unclosed j before
    closed := by
      intro j hj gone
      rw [counted]
      by_cases same : j = k
      · subst j
        rw [Function.update_self, h.unclosed k ⟨n, held⟩]
      · rw [Function.update_of_ne same]
        exact h.closed j hj fun still => gone ((h.open_close held j).mpr ⟨still, same⟩)
    unborn := by
      intro j hj
      have old := h.numbered n k (h.recent n k held)
      have bound : t.created ≤ j := hj
      rw [counted, Function.update_of_ne (by omega)]
      exact h.unborn j hj }

theorem close_foreign (h : Accounts t) {n : Number} (foreign : t.last n = .foreign) :
    Accounts (t.close n) := by
  have counted : (t.close n).closes = t.closes := by
    simp only [Table.close, foreign]
  exact {
    recent := h.recent_close n
    unique := h.unique
    numbered := h.numbered
    unclosed := fun j hj => by
      rw [counted]
      exact h.unclosed j ((h.open_close_foreign foreign j).mp hj)
    closed := fun j hj gone => by
      rw [counted]
      exact h.closed j hj fun still => gone ((h.open_close_foreign foreign j).mpr still)
    unborn := fun j hj => by
      rw [counted]
      exact h.unborn j hj }

/-- Closing one by one numbers that last denoted other owners' objects. -/
theorem close_all (h : Accounts t) {numbers : List Number}
    (foreign : ∀ n ∈ numbers, t.last n = .foreign) :
    Accounts (numbers.foldl Table.close t) ∧
      ∀ k, (numbers.foldl Table.close t).Open k ↔ t.Open k := by
  induction numbers generalizing t with
  | nil => exact ⟨h, fun _ => Iff.rfl⟩
  | cons n rest ih =>
    obtain ⟨here, later⟩ := List.forall_mem_cons.mp foreign
    obtain ⟨accounts, kept⟩ := ih (h.close_foreign here) later
    exact ⟨accounts, fun k => (kept k).trans (h.open_close_foreign here k)⟩

end Accounts

end Descriptors
