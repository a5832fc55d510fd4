import Mathlib.Data.List.DropRight

/-!
# Cutting and trimming sequences

Reading a sequence up to a delimiter, reading all of it that way, and removing
unwanted elements from both ends. A last piece that is empty and not followed
by a delimiter is not delivered.
-/

namespace Text

universe u v

variable {α : Type u} [DecidableEq α]

/-- Split at the first delimiter. -/
def cut (d : α) : List α → Option (List α × List α)
  | [] => none
  | c :: rest => if c = d then some ([], rest) else (cut d rest).map fun p => (c :: p.1, p.2)

/-- Read up to the first delimiter or to the end; fails when nothing is left. -/
def getline (d : α) (s : List α) : Option (List α × List α) :=
  if s = [] then none else some ((cut d s).getD (s, []))

/-- The pieces that repeated reads deliver. -/
def lines (d : α) : List α → List (List α)
  | [] => []
  | c :: rest =>
    if c = d then [] :: lines d rest
    else match lines d rest with
      | [] => [[c]]
      | piece :: pieces => (c :: piece) :: pieces

/-- The pieces that a delimiter has ended. -/
def closed (d : α) : List α → List (List α)
  | [] => []
  | c :: rest =>
    if c = d then [] :: closed d rest
    else match closed d rest with
      | [] => []
      | piece :: pieces => (c :: piece) :: pieces

/-- The pieces, each followed by the delimiter. -/
def terminated (d : α) (pieces : List (List α)) : List α :=
  pieces.flatMap fun piece => piece ++ [d]

theorem cut_eq_none_iff {d : α} {s : List α} : cut d s = none ↔ d ∉ s := by
  induction s with
  | nil => simp [cut]
  | cons c rest ih =>
    by_cases here : c = d
    · simp [cut, here]
    · simp [cut, here, ih, Ne.symm here]

theorem cut_append {d : α} {piece : List α} (free : d ∉ piece) (rest : List α) :
    cut d (piece ++ d :: rest) = some (piece, rest) := by
  induction piece with
  | nil => simp [cut]
  | cons c tail ih =>
    obtain ⟨other, later⟩ := not_or.mp fun h => free (List.mem_cons.mpr h)
    simp [cut, Ne.symm other, ih later]

theorem cut_eq_some_iff {d : α} {s piece rest : List α} :
    cut d s = some (piece, rest) ↔ d ∉ piece ∧ s = piece ++ d :: rest := by
  constructor
  · intro split
    by_cases present : d ∈ s
    · obtain ⟨before, after, rfl, free⟩ := List.eq_append_cons_of_mem present
      rw [cut_append free] at split
      cases split
      exact ⟨free, rfl⟩
    · rw [cut_eq_none_iff.mpr present] at split
      cases split
  · rintro ⟨free, rfl⟩
    exact cut_append free rest

/-- What comes after any delimiter comes after the first. -/
theorem suffix_of_cut {d : α} {before after piece rest : List α}
    (split : cut d (before ++ d :: after) = some (piece, rest)) : after <:+ rest := by
  by_cases earlier : d ∈ before
  · obtain ⟨start, between, rfl, free⟩ := List.eq_append_cons_of_mem earlier
    rw [List.append_assoc, List.cons_append, cut_append free] at split
    cases split
    exact (List.suffix_cons d after).trans (List.suffix_append between (d :: after))
  · rw [cut_append earlier] at split
    cases split
    exact List.suffix_rfl

theorem getline_append {d : α} {piece : List α} (free : d ∉ piece) (rest : List α) :
    getline d (piece ++ d :: rest) = some (piece, rest) := by
  rw [getline, if_neg (by simp), cut_append free rest]
  rfl

theorem getline_of_free {d : α} {s : List α} (free : d ∉ s) (nonempty : s ≠ []) :
    getline d s = some (s, []) := by
  rw [getline, if_neg nonempty, cut_eq_none_iff.mpr free]
  rfl

theorem lines_append {d : α} {piece : List α} (free : d ∉ piece) (rest : List α) :
    lines d (piece ++ d :: rest) = piece :: lines d rest := by
  induction piece with
  | nil => simp [lines]
  | cons c tail ih =>
    obtain ⟨other, later⟩ := not_or.mp fun h => free (List.mem_cons.mpr h)
    simp [lines, Ne.symm other, ih later]

theorem lines_of_free {d : α} {s : List α} (free : d ∉ s) (nonempty : s ≠ []) :
    lines d s = [s] := by
  induction s with
  | nil => exact absurd rfl nonempty
  | cons c rest ih =>
    obtain ⟨other, later⟩ := not_or.mp fun h => free (List.mem_cons.mpr h)
    by_cases last : rest = []
    · simp [lines, last, Ne.symm other]
    · simp [lines, ih later last, Ne.symm other]

/-- `while (getline(...))`, one iteration unrolled. -/
theorem lines_eq_loop (d : α) (s : List α) :
    lines d s = match getline d s with
      | none => []
      | some (piece, rest) => piece :: lines d rest := by
  by_cases present : d ∈ s
  · obtain ⟨piece, rest, rfl, free⟩ := List.eq_append_cons_of_mem present
    rw [getline_append free, lines_append free]
  · by_cases empty : s = []
    · subst s
      rfl
    · rw [getline_of_free present empty, lines_of_free present empty]
      rfl

theorem free_of_mem_lines {d : α} {s piece : List α} (mem : piece ∈ lines d s) : d ∉ piece := by
  induction s generalizing piece with
  | nil => cases mem
  | cons c rest ih =>
    by_cases here : c = d
    · rw [lines, if_pos here] at mem
      rcases List.mem_cons.mp mem with rfl | later
      · exact List.not_mem_nil
      · exact ih later
    · rw [lines, if_neg here] at mem
      cases after : lines d rest with
      | nil =>
        rw [after] at mem
        obtain rfl := List.mem_singleton.mp mem
        simpa using Ne.symm here
      | cons first others =>
        rw [after] at mem ih
        rcases List.mem_cons.mp mem with rfl | later
        · have free := ih List.mem_cons_self
          simp [Ne.symm here, free]
        · exact ih (List.mem_cons_of_mem first later)

theorem lines_terminated {d : α} {pieces : List (List α)} (free : ∀ piece ∈ pieces, d ∉ piece) :
    lines d (terminated d pieces) = pieces := by
  induction pieces with
  | nil => rfl
  | cons piece later ih =>
    obtain ⟨first, others⟩ := List.forall_mem_cons.mp free
    have text : terminated d (piece :: later) = piece ++ d :: terminated d later := by
      simp [terminated]
    rw [text, lines_append first, ih others]

omit [DecidableEq α] in
theorem terminated_snoc (d : α) (pieces : List (List α)) (piece : List α) :
    terminated d (pieces ++ [piece]) = terminated d pieces ++ (piece ++ [d]) := by
  rw [terminated, List.flatMap_append, List.flatMap_singleton, terminated]

theorem lines_terminated_append {d : α} {pieces : List (List α)}
    (free : ∀ piece ∈ pieces, d ∉ piece) (rest : List α) :
    lines d (terminated d pieces ++ rest) = pieces ++ lines d rest := by
  induction pieces with
  | nil => rfl
  | cons piece later ih =>
    obtain ⟨first, others⟩ := List.forall_mem_cons.mp free
    have text : terminated d (piece :: later) ++ rest =
        piece ++ d :: (terminated d later ++ rest) := by
      simp [terminated]
    rw [text, lines_append first, ih others, List.cons_append]

theorem closed_append {d : α} {piece : List α} (free : d ∉ piece) (rest : List α) :
    closed d (piece ++ d :: rest) = piece :: closed d rest := by
  induction piece with
  | nil => simp [closed]
  | cons c tail ih =>
    obtain ⟨other, later⟩ := not_or.mp fun h => free (List.mem_cons.mpr h)
    simp [closed, Ne.symm other, ih later]

theorem closed_of_free {d : α} {s : List α} (free : d ∉ s) : closed d s = [] := by
  induction s with
  | nil => rfl
  | cons c rest ih =>
    obtain ⟨other, later⟩ := not_or.mp fun h => free (List.mem_cons.mpr h)
    simp [closed, Ne.symm other, ih later]

/-- What follows the last delimiter is behind the pieces that have been ended. -/
theorem exists_closed (d : α) (s : List α) : ∃ last, d ∉ last ∧
    (∀ piece ∈ closed d s, d ∉ piece) ∧ s = terminated d (closed d s) ++ last := by
  induction h : s.length using Nat.strong_induction_on generalizing s with
  | _ n ih =>
    by_cases present : d ∈ s
    · obtain ⟨piece, rest, rfl, free⟩ := List.eq_append_cons_of_mem present
      have shorter : rest.length < n := by
        rw [← h, List.length_append, List.length_cons]
        omega
      obtain ⟨last, behind, others, split⟩ := ih rest.length shorter rest rfl
      rw [closed_append free]
      refine ⟨last, behind, List.forall_mem_cons.mpr ⟨free, others⟩, ?_⟩
      conv_lhs => rw [split]
      simp [terminated]
    · refine ⟨s, present, ?_, ?_⟩
      · rw [closed_of_free present]
        exact List.forall_mem_nil _
      · rw [closed_of_free present]
        rfl

/-- A delimiter at the very end adds at most an empty piece. -/
theorem lines_snoc (d : α) (s : List α) :
    lines d (s ++ [d]) = lines d s ∨ lines d (s ++ [d]) = lines d s ++ [[]] := by
  induction s with
  | nil => right; simp [lines]
  | cons c rest ih =>
    by_cases here : c = d
    · simp only [List.cons_append, lines, if_pos here]
      rcases ih with same | more
      · exact Or.inl (congrArg _ same)
      · exact Or.inr (congrArg _ more)
    · simp only [List.cons_append, lines, if_neg here]
      by_cases last : rest = []
      · subst last
        left
        simp [lines]
      · cases after : lines d rest with
        | nil =>
          rw [lines_eq_loop] at after
          simp only [getline, if_neg last] at after
          cases after
        | cons first others =>
          rcases ih with same | more
          · left
            rw [same, after]
          · right
            rw [more, after]
            rfl

/-- A loop that passes over empty pieces does not see a delimiter at the very end. -/
theorem foldl_lines_snoc {β : Type v} {f : β → List α → β} (skips : ∀ b, f b [] = b) (d : α)
    (s : List α) (b : β) : (lines d (s ++ [d])).foldl f b = (lines d s).foldl f b := by
  rcases lines_snoc d s with same | more
  · rw [same]
  · rw [more, List.foldl_append]
    exact skips _

/-- Remove the elements that satisfy `p` from both ends. -/
def trim {α : Type u} (p : α → Bool) (s : List α) : List α :=
  (s.dropWhile p).rdropWhile p

/-- Neither end satisfies `p`. -/
def Trimmed {α : Type u} (p : α → Bool) (s : List α) : Prop :=
  (∀ b ∈ s.head?, p b = false) ∧ ∀ b ∈ s.getLast?, p b = false

section Trim

variable {α : Type u} {p : α → Bool}

instance (s : List α) : Decidable (Trimmed p s) :=
  inferInstanceAs (Decidable (_ ∧ _))

theorem trim_of_trimmed {s : List α} (trimmed : Trimmed p s) : trim p s = s := by
  have front : s.dropWhile p = s := by
    cases s with
    | nil => rfl
    | cons b rest => rw [List.dropWhile_cons, trimmed.1 b rfl, if_neg Bool.false_ne_true]
  rw [trim, front, List.rdropWhile_eq_self_iff]
  intro nonempty
  rw [trimmed.2 _ (List.getLast?_eq_some_getLast nonempty)]
  exact Bool.false_ne_true

theorem trim_eq_nil {s : List α} (all : ∀ b ∈ s, p b = true) : trim p s = [] := by
  rw [trim, List.dropWhile_eq_nil_iff.mpr all, List.rdropWhile_nil]

/-- Padding goes, and what stands between is trimmed in its turn. -/
theorem trim_pad {before after s : List α} (front : ∀ b ∈ before, p b = true)
    (back : ∀ b ∈ after, p b = true) (trimmed : Trimmed p s) :
    trim p (before ++ (s ++ after)) = s := by
  by_cases empty : s = []
  · subst s
    apply trim_eq_nil
    intro b hb
    rcases List.mem_append.mp hb with h | h
    · exact front b h
    · exact back b h
  · have first : (s ++ after).dropWhile p = s ++ after := by
      obtain ⟨b, rest, rfl⟩ := List.exists_cons_of_ne_nil empty
      rw [List.cons_append, List.dropWhile_cons, trimmed.1 b rfl, if_neg Bool.false_ne_true]
    have last := trim_of_trimmed trimmed
    have kept : s.dropWhile p = s := by
      obtain ⟨b, rest, rfl⟩ := List.exists_cons_of_ne_nil empty
      rw [List.dropWhile_cons, trimmed.1 b rfl, if_neg Bool.false_ne_true]
    rw [trim, kept] at last
    rw [trim, List.dropWhile_append_of_pos front, first]
    clear first
    induction after using List.reverseRecOn with
    | nil => rw [List.append_nil, last]
    | append_singleton earlier b ih =>
      rw [← List.append_assoc, List.rdropWhile_concat_pos p _ b
        (back b (List.mem_append_right _ List.mem_cons_self))]
      exact ih fun c hc => back c (List.mem_append_left _ hc)

theorem mem_of_mem_trim {s : List α} {b : α} (mem : b ∈ trim p s) : b ∈ s :=
  (List.dropWhile_suffix p).mem ((List.rdropWhile_prefix p _).mem mem)

/-- What trimming takes off is padding. -/
theorem exists_trim (p : α → Bool) (s : List α) :
    ∃ before after, s = before ++ (trim p s ++ after) ∧ (∀ b ∈ before, p b = true) ∧
      ∀ b ∈ after, p b = true := by
  refine ⟨s.takeWhile p, (s.dropWhile p).rtakeWhile p, ?_, ?_, ?_⟩
  · rw [trim, List.rdropWhile_append_rtakeWhile, List.takeWhile_append_dropWhile]
  · exact fun b hb => List.mem_takeWhile_imp hb
  · exact fun b hb => List.mem_rtakeWhile_imp hb

/-- The first element that stays is the first that is not trimmed. -/
theorem head_trim {before rest : List α} {b : α} (front : ∀ a ∈ before, p a = true)
    (kept : p b = false) : (trim p (before ++ b :: rest)).head? = some b := by
  have start : (before ++ b :: rest).dropWhile p = b :: rest := by
    rw [List.dropWhile_append_of_pos front, List.dropWhile_cons, kept, if_neg Bool.false_ne_true]
  have stays : (b :: rest).rdropWhile p ≠ [] := by
    rw [ne_eq, List.rdropWhile_eq_nil_iff]
    intro all
    rw [all b List.mem_cons_self] at kept
    cases kept
  obtain ⟨tail, split⟩ := List.rdropWhile_prefix p (b :: rest)
  rw [trim, start]
  cases left : (b :: rest).rdropWhile p with
  | nil => exact absurd left stays
  | cons c more =>
    rw [left, List.cons_append, List.cons.injEq] at split
    rw [split.1]
    rfl

end Trim

end Text
