import Cursov.Library.Resumption
import Mathlib.Algebra.BigOperators.Group.List.Basic
import Mathlib.Order.Lattice.Nat

/-!
# Runs that come to an end

A potential that every step pays its price from bounds what a run costs, and a
system that can lower its potential wherever it is not finished can be run to its
end. For programs of atomic operations the potential is the number of operations
that are left at most.
-/

namespace Progress

open Transition Resumption

universe u v

section Potential

variable {State : Type u} {Action : Type v} {step : State → Action → Option State}

def cost (price : Action → Nat) (actions : List Action) : Nat := (actions.map price).sum

theorem cost_cons (price : Action → Nat) (a : Action) (rest : List Action) :
    cost price (a :: rest) = price a + cost price rest := rfl

/-- At the price of one a step, a run costs its length. -/
theorem cost_one (actions : List Action) : cost (fun _ => 1) actions = actions.length := by
  simp [cost]

/-- What a run costs where the price of an action depends on the state it is performed in. -/
def costAlong (step : State → Action → Option State) (price : State → Action → Nat) :
    State → List Action → Nat
  | _, [] => 0
  | s, a :: rest => price s a + match step s a with
    | none => 0
    | some t => costAlong step price t rest

theorem costAlong_eq_cost (price : Action → Nat) {s t : State} {actions : List Action}
    (path : run step s actions = some t) :
    costAlong step (fun _ => price) s actions = cost price actions := by
  induction actions generalizing s with
  | nil => rfl
  | cons a rest ih =>
    obtain ⟨mid, moved, later⟩ := run_cons_iff.mp path
    rw [costAlong, moved, cost_cons, ← ih later]

variable {Inv : State → Prop} {potential : State → Nat}

/-- What a run costs is paid from the potential. -/
theorem run_costAlong_le {price : State → Action → Nat}
    (preserved : ∀ s a t, Inv s → step s a = some t → Inv t)
    (pays : ∀ s a t, Inv s → step s a = some t → potential t + price s a ≤ potential s)
    {s t : State} {actions : List Action} (start : Inv s) (path : run step s actions = some t) :
    potential t + costAlong step price s actions ≤ potential s := by
  induction actions generalizing s with
  | nil =>
    cases path
    exact le_rfl
  | cons a rest ih =>
    obtain ⟨mid, moved, later⟩ := run_cons_iff.mp path
    have first := pays s a mid start moved
    have others := ih (preserved s a mid start moved) later
    rw [costAlong, moved]
    dsimp only
    omega

theorem run_cost_le {price : Action → Nat}
    (preserved : ∀ s a t, Inv s → step s a = some t → Inv t)
    (pays : ∀ s a t, Inv s → step s a = some t → potential t + price a ≤ potential s)
    {s t : State} {actions : List Action} (start : Inv s) (path : run step s actions = some t) :
    potential t + cost price actions ≤ potential s := by
  rw [← costAlong_eq_cost price path]
  exact run_costAlong_le preserved pays start path

/-- Where every unfinished state has a step to a smaller potential, the end can be reached. -/
theorem exists_run_to_end {Final : State → Prop}
    (preserved : ∀ s a t, Inv s → step s a = some t → Inv t)
    (closer : ∀ s, Inv s → ¬ Final s → ∃ a t, step s a = some t ∧ potential t < potential s)
    {s : State} (start : Inv s) : ∃ actions t, run step s actions = some t ∧ Final t := by
  induction least : potential s using Nat.strong_induction_on generalizing s with
  | _ n ih =>
    by_cases final : Final s
    · exact ⟨[], s, rfl, final⟩
    · obtain ⟨a, mid, moved, less⟩ := closer s start final
      obtain ⟨actions, t, path, ended⟩ :=
        ih (potential mid) (least ▸ less) (preserved s a mid start moved) rfl
      exact ⟨a :: actions, t, run_cons_iff.mpr ⟨mid, moved, path⟩, ended⟩

end Potential

section Programs

variable {Op : Type u} {Answer : Op → Type u}

/-- The program returns after at most so many operations, whatever it is answered. -/
inductive Within : Program Op Answer → Nat → Prop where
  | ret (n : Nat) : Within .ret n
  | call {op : Op} {next : Answer op → Program Op Answer} {n : Nat}
      (later : ∀ answer, Within (next answer) n) : Within (.call op next) (n + 1)

theorem Within.mono {c : Program Op Answer} {n m : Nat} (within : Within c n) (le : n ≤ m) :
    Within c m := by
  induction within generalizing m with
  | ret n => exact .ret m
  | call _ ih =>
    obtain ⟨k, rfl⟩ : ∃ k, m = k + 1 := ⟨m - 1, by omega⟩
    exact .call fun answer => ih answer (by omega)

theorem Within.next {op : Op} {next : Answer op → Program Op Answer} {n : Nat}
    (within : Within (.call op next) n) (answer : Answer op) : Within (next answer) n := by
  cases within with
  | call later => exact (later answer).mono (Nat.le_succ _)

/-- How many operations are left at most. -/
noncomputable def left (c : Program Op Answer) : Nat := sInf {n | Within c n}

theorem left_le {c : Program Op Answer} {n : Nat} (within : Within c n) : left c ≤ n :=
  Nat.sInf_le within

theorem left_next_lt {op : Op} {next : Answer op → Program Op Answer} {n : Nat}
    (within : Within (.call op next) n) (answer : Answer op) :
    left (next answer) < left (.call op next) := by
  have least : Within (.call op next) (left (.call op next)) := Nat.sInf_mem ⟨n, within⟩
  generalize left (.call op next) = m at least ⊢
  cases least with
  | call later => exact Nat.lt_succ_of_le (left_le (later answer))

end Programs

end Progress
