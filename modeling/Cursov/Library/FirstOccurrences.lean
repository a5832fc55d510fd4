import Mathlib.Data.List.Basic
import Mathlib.Data.List.Induction
import Mathlib.Data.List.Nodup

/-!
# Recording what is new

A list that grows by an element only when its key is not there yet. It holds every
key that was offered, once, in the order of the first offers.
-/

namespace FirstOccurrences

universe u v

variable {α : Type u} {Key : Type v} [DecidableEq Key]

/-- What a list of recorded keys says about the keys that were offered. -/
structure Records (offered recorded : List Key) : Prop where
  nodup : recorded.Nodup
  mem_iff : ∀ k, k ∈ recorded ↔ k ∈ offered
  order : recorded.Pairwise fun a b => offered.idxOf a < offered.idxOf b

/-- Append an element unless one with its key is there. -/
def offer (key : α → Key) (known : List α) (x : α) : List α :=
  if key x ∈ known.map key then known else known ++ [x]

theorem Records.nil : Records ([] : List Key) [] where
  nodup := List.nodup_nil
  mem_iff _ := Iff.rfl
  order := List.Pairwise.nil

/-- Keys that were offered earlier keep their places. -/
theorem Records.order_concat {offered recorded : List Key} (records : Records offered recorded)
    (k : Key) :
    recorded.Pairwise fun a b => (offered ++ [k]).idxOf a < (offered ++ [k]).idxOf b := by
  refine records.order.imp_of_mem fun {a b} ha hb before => ?_
  rw [List.idxOf_append_of_mem ((records.mem_iff a).mp ha),
    List.idxOf_append_of_mem ((records.mem_iff b).mp hb)]
  exact before

theorem Records.offer_known {offered recorded : List Key} (records : Records offered recorded)
    {k : Key} (known : k ∈ recorded) : Records (offered ++ [k]) recorded where
  nodup := records.nodup
  mem_iff other := by
    rw [List.mem_append, List.mem_singleton, records.mem_iff]
    constructor
    · exact Or.inl
    · rintro (offered | rfl)
      · exact offered
      · exact (records.mem_iff other).mp known
  order := records.order_concat k

theorem Records.offer_new {offered recorded : List Key} (records : Records offered recorded)
    {k : Key} (new : k ∉ recorded) : Records (offered ++ [k]) (recorded ++ [k]) where
  nodup := by
    rw [← List.concat_eq_append]
    exact List.Nodup.concat new records.nodup
  mem_iff other := by rw [List.mem_append, List.mem_append, records.mem_iff]
  order := by
    have unseen : k ∉ offered := fun mem => new ((records.mem_iff k).mpr mem)
    rw [List.pairwise_append]
    refine ⟨records.order_concat k, List.pairwise_singleton _ _, fun a ha b hb => ?_⟩
    obtain rfl := List.mem_singleton.mp hb
    have seen := (records.mem_iff a).mp ha
    rw [List.idxOf_append_of_mem seen, List.idxOf_append_of_notMem unseen]
    exact Nat.lt_add_right _ (List.idxOf_lt_length_of_mem seen)

theorem Records.offer {offered : List Key} {known : List α} {key : α → Key}
    (records : Records offered (known.map key)) (x : α) :
    Records (offered ++ [key x]) ((FirstOccurrences.offer key known x).map key) := by
  rw [FirstOccurrences.offer]
  by_cases there : key x ∈ known.map key
  · rw [if_pos there]
    exact records.offer_known there
  · rw [if_neg there, List.map_append]
    exact records.offer_new there

/-- After any offers the keys that were offered are recorded. -/
theorem records_foldl_offer (key : α → Key) (xs : List α) :
    Records (xs.map key) ((xs.foldl (offer key) []).map key) := by
  induction xs using List.reverseRecOn with
  | nil => exact .nil
  | append_singleton earlier x ih =>
    rw [List.foldl_append, List.map_append]
    exact ih.offer x

end FirstOccurrences
