import Mathlib.Data.Option.Basic
import Mathlib.Data.List.Induction

/-!
# Runs of a partial labelled step function

A system is a state type with a partial step function: an action that is not
enabled in a state has no successor. A run performs a list of actions in order.
Nondeterminism is carried by the actions, so a fixed action list has at most
one run and can be evaluated.
-/

namespace Transition

universe u v

variable {State : Type u} {Action : Type v}

/-- Perform the actions in order; an action that is not enabled ends the attempt. -/
def run (step : State → Action → Option State) : State → List Action → Option State
  | s, [] => some s
  | s, a :: rest => (step s a).bind fun t => run step t rest

def Reachable (step : State → Action → Option State) (init s : State) : Prop :=
  ∃ actions, run step init actions = some s

/-- Every action of the list is performed in a state where `good` holds of it. -/
def Along (step : State → Action → Option State) (good : State → Action → Prop) :
    State → List Action → Prop
  | _, [] => True
  | s, a :: rest => good s a ∧
    match step s a with
    | none => True
    | some t => Along step good t rest

variable {step : State → Action → Option State}

@[simp] theorem run_nil (s : State) : run step s [] = some s := rfl

@[simp] theorem run_cons (s : State) (a : Action) (rest : List Action) :
    run step s (a :: rest) = (step s a).bind fun t => run step t rest := rfl

theorem run_append (s : State) (before after : List Action) :
    run step s (before ++ after) = (run step s before).bind fun t => run step t after := by
  induction before generalizing s with
  | nil => rfl
  | cons a rest ih =>
    simp only [List.cons_append, run_cons, Option.bind_assoc]
    exact congrArg (step s a).bind (funext fun t => ih t)

/-- The last action of a run starts where the earlier actions end. -/
theorem run_snoc_iff {s t : State} {before : List Action} {a : Action} :
    run step s (before ++ [a]) = some t ↔
      ∃ mid, run step s before = some mid ∧ step mid a = some t := by
  rw [run_append, Option.bind_eq_some_iff]
  simp only [run_cons, run_nil, Option.bind_fun_some]

theorem run_cons_iff {s t : State} {a : Action} {rest : List Action} :
    run step s (a :: rest) = some t ↔
      ∃ mid, step s a = some mid ∧ run step mid rest = some t :=
  Option.bind_eq_some_iff

theorem run_append_iff {s t : State} {before after : List Action} :
    run step s (before ++ after) = some t ↔
      ∃ mid, run step s before = some mid ∧ run step mid after = some t := by
  rw [run_append, Option.bind_eq_some_iff]

theorem along_cons_iff {good : State → Action → Prop} {s : State} {a : Action}
    {rest : List Action} :
    Along step good s (a :: rest) ↔
      good s a ∧ ∀ t, step s a = some t → Along step good t rest := by
  rw [Along]
  cases h : step s a with
  | none => simp
  | some t => simp

instance alongDecidable (good : State → Action → Prop) [∀ s a, Decidable (good s a)]
    (s : State) (actions : List Action) : Decidable (Along step good s actions) :=
  match actions with
  | [] => .isTrue trivial
  | a :: rest =>
    have : Decidable (match step s a with
        | none => True
        | some t => Along step good t rest) :=
      match step s a with
      | none => .isTrue trivial
      | some t => alongDecidable good t rest
    inferInstanceAs (Decidable (_ ∧ _))

/-- What one step preserves under `good`, a run that stays `good` preserves. -/
theorem run_invariant_along {good : State → Action → Prop} {Inv : State → Prop}
    (preserved : ∀ s a t, Inv s → good s a → step s a = some t → Inv t)
    {s t : State} {actions : List Action} (start : Inv s)
    (along : Along step good s actions) (path : run step s actions = some t) : Inv t := by
  induction actions generalizing s with
  | nil => exact Option.some.inj path ▸ start
  | cons a rest ih =>
    obtain ⟨mid, hstep, hrest⟩ := run_cons_iff.mp path
    obtain ⟨hgood, htail⟩ := along_cons_iff.mp along
    exact ih (preserved s a mid start hgood hstep) (htail mid hstep) hrest

/-- Two step conditions that agree on the steps of invariant states agree along a run. -/
theorem along_congr {good fine : State → Action → Prop} (Inv : State → Prop)
    (preserved : ∀ s a t, Inv s → step s a = some t → Inv t)
    (agree : ∀ s a t, Inv s → step s a = some t → (good s a ↔ fine s a))
    {s t : State} {actions : List Action} (start : Inv s)
    (path : run step s actions = some t) :
    Along step good s actions ↔ Along step fine s actions := by
  induction actions generalizing s with
  | nil => exact Iff.rfl
  | cons a rest ih =>
    obtain ⟨mid, hstep, hrest⟩ := run_cons_iff.mp path
    simp only [Along, hstep]
    exact and_congr (agree s a mid start hstep) (ih (preserved s a mid start hstep) hrest)

/-- A run that stays `good` stays `fine` if invariant states make the one imply the other. -/
theorem along_imp {good fine : State → Action → Prop} (Inv : State → Prop)
    (preserved : ∀ s a t, Inv s → good s a → step s a = some t → Inv t)
    (implies : ∀ s a t, Inv s → good s a → step s a = some t → fine s a)
    {s t : State} {actions : List Action} (start : Inv s)
    (path : run step s actions = some t) (along : Along step good s actions) :
    Along step fine s actions := by
  induction actions generalizing s with
  | nil => trivial
  | cons a rest ih =>
    obtain ⟨mid, hstep, hrest⟩ := run_cons_iff.mp path
    obtain ⟨hgood, htail⟩ := along_cons_iff.mp along
    refine along_cons_iff.mpr ⟨implies s a mid start hgood hstep, fun u hu => ?_⟩
    obtain rfl : mid = u := Option.some.inj (hstep.symm.trans hu)
    exact ih (preserved s a mid start hgood hstep) hrest (htail mid hstep)

/-- If a step that is not `fine` falls into a trap that `good` steps do not leave, then a
`good` run that ends outside the trap was `fine` all along. -/
theorem along_of_escape {good fine : State → Action → Prop} (Inv Trap : State → Prop)
    (preserved : ∀ s a t, Inv s → fine s a → step s a = some t → Inv t)
    (falls : ∀ s a t, Inv s → good s a → ¬ fine s a → step s a = some t → Trap t)
    (stays : ∀ s a t, Trap s → good s a → step s a = some t → Trap t)
    {s t : State} {actions : List Action} (start : Inv s)
    (path : run step s actions = some t) (along : Along step good s actions)
    (escaped : ¬ Trap t) : Along step fine s actions := by
  induction actions generalizing s with
  | nil => trivial
  | cons a rest ih =>
    obtain ⟨mid, hstep, hrest⟩ := run_cons_iff.mp path
    obtain ⟨hgood, htail⟩ := along_cons_iff.mp along
    by_cases hfine : fine s a
    · refine along_cons_iff.mpr ⟨hfine, fun u hu => ?_⟩
      obtain rfl : mid = u := Option.some.inj (hstep.symm.trans hu)
      exact ih (preserved s a mid start hfine hstep) hrest (htail mid hstep)
    · exact absurd (run_invariant_along stays (falls s a mid start hgood hfine hstep)
        (htail mid hstep) hrest) escaped

theorem along_and_mem {good : State → Action → Prop} {allowed : Action → Prop} {s : State}
    {actions : List Action} (mem : ∀ a ∈ actions, allowed a) (along : Along step good s actions) :
    Along step (fun s a => allowed a ∧ good s a) s actions := by
  induction actions generalizing s with
  | nil => trivial
  | cons a rest ih =>
    obtain ⟨hgood, htail⟩ := along_cons_iff.mp along
    exact along_cons_iff.mpr ⟨⟨mem a List.mem_cons_self, hgood⟩, fun t ht =>
      ih (fun b hb => mem b (List.mem_cons_of_mem a hb)) (htail t ht)⟩

theorem along_true (s : State) (actions : List Action) :
    Along step (fun _ _ => True) s actions := by
  induction actions generalizing s with
  | nil => trivial
  | cons a rest ih => exact along_cons_iff.mpr ⟨trivial, fun t _ => ih t⟩

theorem run_invariant {Inv : State → Prop}
    (preserved : ∀ s a t, Inv s → step s a = some t → Inv t)
    {s t : State} {actions : List Action} (start : Inv s)
    (path : run step s actions = some t) : Inv t :=
  run_invariant_along (fun s a t hs _ h => preserved s a t hs h) start
    (along_true s actions) path

theorem reachable_invariant {Inv : State → Prop} {init s : State}
    (preserved : ∀ s a t, Inv s → step s a = some t → Inv t) (start : Inv init)
    (reachable : Reachable step init s) : Inv s := by
  obtain ⟨actions, path⟩ := reachable
  exact run_invariant preserved start path

/-- What is reached in a system is reached, seen through `view`, in one that follows it. -/
theorem Reachable.followed {State' : Type*} {Action' : Type*}
    {step' : State' → Action' → Option State'} (view : State → State')
    (follows : ∀ s a t, step s a = some t →
      view t = view s ∨ ∃ b, step' (view s) b = some (view t))
    {init s : State} (reachable : Reachable step init s) :
    Reachable step' (view init) (view s) := by
  let seen (u : State) : Prop := Reachable step' (view init) (view u)
  refine @reachable_invariant _ _ _ seen _ _ ?_ ⟨[], rfl⟩ reachable
  rintro u a t ⟨actions, path⟩ moved
  rcases follows u a t moved with same | ⟨b, moved'⟩
  · exact ⟨actions, same ▸ path⟩
  · exact ⟨actions ++ [b], run_snoc_iff.mpr ⟨view u, path, moved'⟩⟩

theorem Reachable.step_to {init s t : State} {a : Action} (reachable : Reachable step init s)
    (h : step s a = some t) : Reachable step init t := by
  obtain ⟨actions, path⟩ := reachable
  exact ⟨actions ++ [a], run_snoc_iff.mpr ⟨s, path, h⟩⟩

end Transition
