import Cursov.Library.Transition
import Mathlib.Algebra.BigOperators.Group.Finset.Basic
import Mathlib.Logic.Function.Basic
import Mathlib.Tactic.Abel

/-!
# Programs of atomic operations and their interleavings

A resumption program performs atomic operations on a shared world and continues
with the answer it gets. The same program has two readings: `exec` runs it
without interruption, and a `Pool` interleaves one program per thread, one
operation at a time. `solo_run` relates the two.
-/

namespace Resumption

open Transition

universe u

inductive Program (Op : Type u) (Answer : Op → Type u) : Type u where
  | ret
  | call (op : Op) (next : Answer op → Program Op Answer)

variable {Op : Type u} {Answer : Op → Type u} {World Reading : Type u}

/-- `perform i w op e` is the atomic effect of `op` when thread `i` performs it in
world `w`; `e` is what the environment contributes, such as a measured duration. -/
abbrev Perform (Op : Type u) (Answer : Op → Type u) (World Reading : Type u) :=
  Nat → World → (op : Op) → Reading → World × Answer op

/-- Run a program to its end with no other thread in between. -/
def exec (perform : Perform Op Answer World Reading) (i : Nat) (e : Reading) :
    Program Op Answer → World → World
  | .ret, w => w
  | .call op next, w => exec perform i e (next (perform i w op e).2) (perform i w op e).1

/-- Threads that have returned hold `ret`. -/
structure Pool (World : Type u) (Op : Type u) (Answer : Op → Type u) where
  world : World
  thread : Nat → Program Op Answer

/-- One atomic operation of thread `i`; a returned thread has none. -/
def advance (perform : Perform Op Answer World Reading) (p : Pool World Op Answer)
    (i : Nat) (e : Reading) : Option (Pool World Op Answer) :=
  match p.thread i with
  | .ret => none
  | .call op next => some
      { world := (perform i p.world op e).1
        thread := Function.update p.thread i (next (perform i p.world op e).2) }

/-- Every operation the program can come to is `allowed`. -/
def Program.Only (allowed : Op → Prop) : Program Op Answer → Prop
  | .ret => True
  | .call op next => allowed op ∧ ∀ answer, (next answer).Only allowed

variable {perform : Perform Op Answer World Reading}

/-- What the allowed operations preserve, an uninterrupted execution preserves. -/
theorem exec_invariant (allowed : Op → Prop) (Inv : World → Prop) (i : Nat) (e : Reading)
    (preserved : ∀ w op, allowed op → Inv w → Inv (perform i w op e).1)
    {c : Program Op Answer} (only : c.Only allowed) {w : World} (start : Inv w) :
    Inv (exec perform i e c w) := by
  induction c generalizing w with
  | ret => exact start
  | call op next ih => exact ih _ (only.2 _) (preserved w op only.1 start)

theorem advance_some_iff {p q : Pool World Op Answer} {i : Nat} {e : Reading} :
    advance perform p i e = some q ↔ ∃ op next, p.thread i = .call op next ∧
      q.world = (perform i p.world op e).1 ∧
      q.thread = Function.update p.thread i (next (perform i p.world op e).2) := by
  cases h : p.thread i with
  | ret => simp [advance, h]
  | call op next =>
    simp only [advance, h, Option.some.injEq, Program.call.injEq]
    constructor
    · rintro rfl
      exact ⟨op, next, ⟨rfl, HEq.rfl⟩, rfl, rfl⟩
    · rintro ⟨_, _, ⟨rfl, hnext⟩, hworld, hthread⟩
      cases eq_of_heq hnext
      cases q
      simp_all

/-- An uninterrupted execution is the run in which only this thread is scheduled, in
every system whose action `turn` is the thread's next operation. -/
theorem solo_run {Action : Type*}
    (step : Pool World Op Answer → Action → Option (Pool World Op Answer))
    (turn : Action) (i : Nat) (e : Reading)
    (scheduled : ∀ p, step p turn = advance perform p i e)
    (c : Program Op Answer) (w : World) (thread : Nat → Program Op Answer) (at_i : thread i = c) :
    ∃ k, run step ⟨w, thread⟩ (List.replicate k turn) =
      some ⟨exec perform i e c w, Function.update thread i .ret⟩ := by
  induction c generalizing w thread with
  | ret => exact ⟨0, by simp [exec, ← at_i]⟩
  | call op next ih =>
    obtain ⟨k, hk⟩ := ih (perform i w op e).2 (perform i w op e).1
      (Function.update thread i (next (perform i w op e).2)) (Function.update_self _ _ _)
    have first : step ⟨w, thread⟩ turn = some
        ⟨(perform i w op e).1, Function.update thread i (next (perform i w op e).2)⟩ :=
      (scheduled _).trans (advance_some_iff.mpr ⟨op, next, at_i, rfl, rfl⟩)
    rw [Function.update_idem] at hk
    exact ⟨k + 1, by rw [List.replicate_succ, run_cons, first]; exact hk⟩

theorem threads_sum_update {Share : Type*} [AddCommMonoid Share]
    (share : Program Op Answer → Share) (thread : Nat → Program Op Answer) {i n : Nat}
    (counted : i < n) (c : Program Op Answer) :
    ∑ j ∈ Finset.range n, share (Function.update thread i c j) + share (thread i) =
      ∑ j ∈ Finset.range n, share (thread j) + share c := by
  have hi : i ∈ Finset.range n := Finset.mem_range.mpr counted
  have rest : ∑ j ∈ (Finset.range n).erase i, share (Function.update thread i c j) =
      ∑ j ∈ (Finset.range n).erase i, share (thread j) := by
    refine Finset.sum_congr rfl fun j hj => ?_
    rw [Function.update_of_ne (Finset.ne_of_mem_erase hj)]
  rw [← Finset.add_sum_erase _ _ hi, ← Finset.add_sum_erase _ (fun j => share (thread j)) hi,
    rest, Function.update_self]
  abel

/-- When one thread moves, a balance of what is paid and what the threads still hold
against what is due is kept if that thread's own part of it is. -/
theorem balance_update {Share : Type*} [AddCancelCommMonoid Share]
    {share : Program Op Answer → Share} {thread : Nat → Program Op Answer} {i n : Nat}
    (counted : i < n) {c : Program Op Answer} {paid paid' due due' : Share}
    (before : paid + ∑ j ∈ Finset.range n, share (thread j) = due)
    (moved : paid' + share c + due = paid + share (thread i) + due') :
    paid' + ∑ j ∈ Finset.range n, share (Function.update thread i c j) = due' := by
  have total := threads_sum_update share thread counted c
  apply add_right_cancel (b := share (thread i) + due)
  calc paid' + ∑ j ∈ Finset.range n, share (Function.update thread i c j) +
          (share (thread i) + due)
      = paid' + (∑ j ∈ Finset.range n, share (Function.update thread i c j) +
          share (thread i)) + due := by abel
    _ = paid' + share c + due + ∑ j ∈ Finset.range n, share (thread j) := by
        rw [total]
        abel
    _ = paid + ∑ j ∈ Finset.range n, share (thread j) + (share (thread i) + due') := by
        rw [moved]
        abel
    _ = due' + (share (thread i) + due) := by
        rw [before]
        abel

end Resumption
