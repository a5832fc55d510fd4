import Mathlib.Data.List.Basic

/-!
# Merged streams

Several sources write to one stream, each piece tagged with its source. What one
source has written is read back from the merged stream.
-/

namespace Tagged

universe u v w

variable {Tag : Type u} {Piece : Type v} [DecidableEq Tag]

/-- The pieces of one source, in the order of the stream. -/
def ofTag (tag : Tag) (stream : List (Tag × Piece)) : List Piece :=
  (stream.filter fun p => p.1 = tag).map Prod.snd

@[simp] theorem ofTag_nil (tag : Tag) : ofTag tag ([] : List (Tag × Piece)) = [] := rfl

@[simp] theorem ofTag_append (tag : Tag) (before after : List (Tag × Piece)) :
    ofTag tag (before ++ after) = ofTag tag before ++ ofTag tag after := by
  rw [ofTag, List.filter_append, List.map_append, ofTag, ofTag]

theorem ofTag_cons (tag : Tag) (p : Tag × Piece) (rest : List (Tag × Piece)) :
    ofTag tag (p :: rest) = if p.1 = tag then p.2 :: ofTag tag rest else ofTag tag rest := by
  by_cases own : p.1 = tag
  · simp [ofTag, own]
  · simp [ofTag, own]

/-- Rewriting the pieces does not move them between the sources. -/
theorem ofTag_map {Piece' : Type w} (f : Piece → Piece') (tag : Tag) (stream : List (Tag × Piece)) :
    ofTag tag (stream.map fun p => (p.1, f p.2)) = (ofTag tag stream).map f := by
  induction stream with
  | nil => rfl
  | cons p rest ih =>
    rw [List.map_cons, ofTag_cons, ofTag_cons, ih]
    by_cases own : p.1 = tag
    · rw [if_pos own, if_pos own, List.map_cons]
    · rw [if_neg own, if_neg own]

/-- A source with no piece in the stream. -/
theorem ofTag_eq_nil_iff (tag : Tag) (stream : List (Tag × Piece)) :
    ofTag tag stream = [] ↔ ∀ p ∈ stream, p.1 ≠ tag := by
  simp [ofTag, List.filter_eq_nil_iff]

end Tagged
