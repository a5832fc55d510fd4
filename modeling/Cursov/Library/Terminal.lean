import Cursov.Library.Transition
import Mathlib.Data.List.TakeWhile

/-!
# Reading what is being typed

A source holds the symbols that have arrived and are not read yet. A read that needs
more waits until more arrives or the input has ended. A read is steady when nothing
that arrives later changes an answer it has given, and prompt when it answers at the
end of the input; both survive composition, so what a program has read of a terminal
at any time is what it would read of the whole text at once.
-/

namespace Terminal

open Transition

universe u v

/-- A stream that is no longer good answers every read without touching the input. -/
structure Source (α : Type u) where
  pending : List α
  ended : Bool
  good : Bool

/-- More symbols arrive, and the end of the input with them or not. -/
def Source.later {α : Type u} (s : Source α) (typed : List α) (ended : Bool) : Source α :=
  { s with pending := s.pending ++ typed, ended := ended }

/-- A text before anything is read of it. -/
def Source.text {α : Type u} (typed : List α) (ended : Bool) : Source α := ⟨typed, ended, true⟩

/-- A blocking read; it waits where there is no result. -/
abbrev Read (α : Type u) := StateT (Source α) Option

variable {α β γ : Type u}

@[simp] theorem text_later (typed more : List α) (ended : Bool) :
    (Source.text typed false).later more ended = Source.text (typed ++ more) ended := rfl

def Steady (r : Read α β) : Prop :=
  ∀ s b t, r.run s = some (b, t) → t.ended = s.ended ∧
    (s.ended = false → ∀ typed ended, r.run (s.later typed ended) = some (b, t.later typed ended))

def Prompt (r : Read α β) : Prop := ∀ s : Source α, s.ended = true → ∃ p, r.run s = some p

theorem run_bind_iff {r : Read α β} {f : β → Read α γ} {s t : Source α} {c : γ} :
    (r >>= f).run s = some (c, t) ↔
      ∃ b mid, r.run s = some (b, mid) ∧ (f b).run mid = some (c, t) := by
  rw [StateT.run_bind]
  constructor
  · intro path
    obtain ⟨⟨b, mid⟩, first, second⟩ := Option.bind_eq_some_iff.mp path
    exact ⟨b, mid, first, second⟩
  · rintro ⟨b, mid, first, second⟩
    exact Option.bind_eq_some_iff.mpr ⟨(b, mid), first, second⟩

theorem Steady.pure (b : β) : Steady (pure b : Read α β) := by
  rintro s _ _ ⟨⟩
  exact ⟨rfl, fun _ _ _ => rfl⟩

theorem Steady.bind {r : Read α β} {f : β → Read α γ} (first : Steady r)
    (second : ∀ b, Steady (f b)) : Steady (r >>= f) := by
  intro s c t path
  obtain ⟨b, mid, reads, goes_on⟩ := run_bind_iff.mp path
  obtain ⟨kept, stays⟩ := first s b mid reads
  obtain ⟨kept', stays'⟩ := second b mid c t goes_on
  refine ⟨kept'.trans kept, fun open_end typed ended => run_bind_iff.mpr ?_⟩
  exact ⟨b, mid.later typed ended, stays open_end typed ended,
    stays' (kept.trans open_end) typed ended⟩

theorem Prompt.pure (b : β) : Prompt (pure b : Read α β) := fun s _ => ⟨(b, s), rfl⟩

theorem Prompt.bind {r : Read α β} {f : β → Read α γ} (first : Prompt r) (steady : Steady r)
    (second : ∀ b, Prompt (f b)) : Prompt (r >>= f) := by
  intro s ended
  obtain ⟨⟨b, mid⟩, reads⟩ := first s ended
  obtain ⟨⟨c, t⟩, goes_on⟩ := second b mid ((steady s b mid reads).1.trans ended)
  exact ⟨(c, t), run_bind_iff.mpr ⟨b, mid, reads, goes_on⟩⟩

/-- What has been read of a beginning is read of the whole text. -/
theorem Steady.reads_text {r : Read α β} (steady : Steady r) {typed : List α} {b : β}
    {s : Source α} (reads : r.run (Source.text typed false) = some (b, s)) (more : List α)
    (ended : Bool) : r.run (Source.text (typed ++ more) ended) = some (b, s.later more ended) :=
  (steady _ _ _ reads).2 rfl more ended

/-- The next symbol, left in place; none at the end of the input. -/
def peek : Read α (Option α) := fun s =>
  match s.pending with
  | a :: _ => some (some a, s)
  | [] => if s.ended then some (none, s) else none

/-- The next symbol, taken. -/
def next : Read α (Option α) := fun s =>
  match s.pending with
  | a :: rest => some (some a, { s with pending := rest })
  | [] => if s.ended then some (none, s) else none

/-- The symbols up to the first that fails the test, or to the end of the input. -/
def span (p : α → Bool) : Read α (List α) := fun s =>
  if s.pending.dropWhile p = [] ∧ s.ended = false then none
  else some (s.pending.takeWhile p, { s with pending := s.pending.dropWhile p })

/-- The stream is not good from here on. -/
def spoil : Read α PUnit := fun s => some (⟨⟩, { s with good := false })

/-- What every read does first: on a stream that is not good it gives `b` at once. -/
def ifGood (r : Read α β) (b : β) : Read α β := fun s =>
  if s.good then r.run s else some (b, s)

/-- What is left behind a run of symbols. -/
structure Stops (p : α → Bool) (ended : Bool) (rest : List α) : Prop where
  head : ∀ a ∈ rest.head?, p a = false
  ends : rest = [] → ended = true

theorem span_run_iff {p : α → Bool} {s t : Source α} {piece : List α} :
    (span p).run s = some (piece, t) ↔ ∃ rest, s.pending = piece ++ rest ∧
      (∀ a ∈ piece, p a = true) ∧ Stops p s.ended rest ∧ t = { s with pending := rest } := by
  change (if s.pending.dropWhile p = [] ∧ s.ended = false then none
    else some (s.pending.takeWhile p, { s with pending := s.pending.dropWhile p })) = _ ↔ _
  rw [Option.ite_none_left_eq_some, Option.some.injEq, Prod.mk.injEq]
  constructor
  · rintro ⟨answers, rfl, rfl⟩
    refine ⟨s.pending.dropWhile p, List.takeWhile_append_dropWhile.symm,
      fun a mem => List.mem_takeWhile_imp mem, ⟨fun a head => ?_, fun empty => ?_⟩, rfl⟩
    · have nonempty : s.pending.dropWhile p ≠ [] := by
        rintro empty
        rw [empty] at head
        cases head
      have first := List.head_dropWhile_not p nonempty
      rw [List.head?_eq_some_head nonempty, Option.mem_some_iff] at head
      rwa [← head]
    · by_contra waits
      exact answers ⟨empty, Bool.not_eq_true _ ▸ waits⟩
  · rintro ⟨rest, split, passes, ⟨stops, ended⟩, rfl⟩
    have dropped : rest.dropWhile p = rest := by
      cases rest with
      | nil => rfl
      | cons a more => rw [List.dropWhile_cons_of_neg (by simp [stops a rfl])]
    have taken : rest.takeWhile p = [] := by
      cases rest with
      | nil => rfl
      | cons a more => rw [List.takeWhile_cons_of_neg (by simp [stops a rfl])]
    rw [split, List.dropWhile_append_of_pos passes, List.takeWhile_append_of_pos passes, dropped,
      taken, List.append_nil]
    refine ⟨?_, rfl, rfl⟩
    rintro ⟨empty, waits⟩
    rw [ended empty] at waits
    cases waits

theorem peek_run_iff {s t : Source α} {b : Option α} :
    peek.run s = some (b, t) ↔ b = s.pending.head? ∧ t = s ∧ (b = none → s.ended = true) := by
  obtain ⟨pending, ended, good⟩ := s
  cases pending with
  | nil =>
    cases ended with
    | false =>
      constructor
      · rintro ⟨⟩
      · rintro ⟨rfl, -, ends⟩
        cases ends rfl
    | true =>
      constructor
      · rintro ⟨⟩
        exact ⟨rfl, rfl, fun _ => rfl⟩
      · rintro ⟨rfl, rfl, -⟩
        rfl
  | cons a rest =>
    constructor
    · rintro ⟨⟩
      exact ⟨rfl, rfl, nofun⟩
    · rintro ⟨rfl, rfl, -⟩
      rfl

theorem next_run_iff {s t : Source α} {b : Option α} :
    next.run s = some (b, t) ↔ b = s.pending.head? ∧ t = { s with pending := s.pending.tail } ∧
      (b = none → s.ended = true) := by
  obtain ⟨pending, ended, good⟩ := s
  cases pending with
  | nil =>
    cases ended with
    | false =>
      constructor
      · rintro ⟨⟩
      · rintro ⟨rfl, -, ends⟩
        cases ends rfl
    | true =>
      constructor
      · rintro ⟨⟩
        exact ⟨rfl, rfl, fun _ => rfl⟩
      · rintro ⟨rfl, rfl, -⟩
        rfl
  | cons a rest =>
    constructor
    · rintro ⟨⟩
      exact ⟨rfl, rfl, nofun⟩
    · rintro ⟨rfl, rfl, -⟩
      rfl

theorem head?_append_of_head {rest : List α} (nonempty : rest ≠ []) (typed : List α) :
    (rest ++ typed).head? = rest.head? := by
  obtain ⟨a, more, rfl⟩ := List.exists_cons_of_ne_nil nonempty
  rfl

theorem steady_span (p : α → Bool) : Steady (span p) := by
  intro s piece t reads
  obtain ⟨rest, split, passes, ⟨stops, ends⟩, rfl⟩ := span_run_iff.mp reads
  refine ⟨rfl, fun open_end typed ended => span_run_iff.mpr ?_⟩
  have nonempty : rest ≠ [] := by
    intro empty
    rw [ends empty] at open_end
    cases open_end
  refine ⟨rest ++ typed, ?_, passes, ⟨?_, ?_⟩, rfl⟩
  · rw [Source.later, split, List.append_assoc]
  · rwa [head?_append_of_head nonempty]
  · intro empty
    exact absurd (List.append_eq_nil_iff.mp empty).1 nonempty

theorem steady_peek : Steady (peek : Read α (Option α)) := by
  intro s b t reads
  obtain ⟨rfl, rfl, ends⟩ := peek_run_iff.mp reads
  refine ⟨rfl, fun open_end typed ended => peek_run_iff.mpr ⟨?_, rfl, ?_⟩⟩
  · refine (head?_append_of_head (fun empty => ?_) typed).symm
    rw [empty] at ends
    rw [ends rfl] at open_end
    cases open_end
  · intro none
    rw [ends none] at open_end
    cases open_end

theorem steady_next : Steady (next : Read α (Option α)) := by
  intro s b t reads
  obtain ⟨rfl, rfl, ends⟩ := next_run_iff.mp reads
  refine ⟨rfl, fun open_end typed ended => next_run_iff.mpr ?_⟩
  have nonempty : s.pending ≠ [] := by
    intro empty
    rw [empty] at ends
    rw [ends rfl] at open_end
    cases open_end
  refine ⟨(head?_append_of_head nonempty typed).symm, ?_, fun none => ?_⟩
  · rw [Source.later, Source.later, List.tail_append_of_ne_nil nonempty]
  · exact absurd (List.head?_eq_none_iff.mp none) nonempty

theorem prompt_next : Prompt (next : Read α (Option α)) := fun s ended =>
  ⟨(s.pending.head?, { s with pending := s.pending.tail }),
    next_run_iff.mpr ⟨rfl, rfl, fun _ => ended⟩⟩

theorem steady_spoil : Steady (spoil : Read α PUnit) := by
  rintro s _ _ ⟨⟩
  exact ⟨rfl, fun _ _ _ => rfl⟩

theorem prompt_spoil : Prompt (spoil : Read α PUnit) := fun _ _ => ⟨_, rfl⟩

theorem ifGood_run_good {r : Read α β} {b : β} {s : Source α} (good : s.good = true) :
    (ifGood r b).run s = r.run s := if_pos good

theorem ifGood_run_spoilt {r : Read α β} {b : β} {s : Source α} (spoilt : s.good = false) :
    (ifGood r b).run s = some (b, s) := if_neg (Bool.eq_false_iff.mp spoilt)

theorem Steady.ifGood {r : Read α β} (steady : Steady r) (b : β) : Steady (ifGood r b) := by
  intro s c t reads
  cases good : s.good with
  | true =>
    rw [ifGood_run_good good] at reads
    obtain ⟨kept, stays⟩ := steady s c t reads
    refine ⟨kept, fun open_end typed ended => ?_⟩
    rw [ifGood_run_good (show (s.later typed ended).good = true from good)]
    exact stays open_end typed ended
  | false =>
    rw [ifGood_run_spoilt good] at reads
    cases reads
    exact ⟨rfl, fun _ _ _ => ifGood_run_spoilt good⟩

theorem Prompt.ifGood {r : Read α β} (prompt : Prompt r) (b : β) : Prompt (ifGood r b) := by
  intro s ended
  cases good : s.good with
  | true => exact (ifGood_run_good good).symm ▸ prompt s ended
  | false => exact ⟨(b, s), ifGood_run_spoilt good⟩

/-- Everything that has been typed, what of it the program has not read, and where it stands. -/
structure Program (α : Type u) (Pc : Type v) where
  typed : List α
  source : Source α
  pc : Pc

inductive Key (α : Type u) where
  | key (a : α)
  | endOfInput

namespace Program

variable {Pc : Type v}

/-- A program that has read nothing yet. -/
def fresh (pc : Pc) : Program α Pc := ⟨[], Source.text [] false, pc⟩

def later (s : Program α Pc) (typed : List α) (ended : Bool) : Program α Pc :=
  { s with typed := s.typed ++ typed, source := s.source.later typed ended }

/-- Nothing is typed behind the end of the input. -/
def press (s : Program α Pc) (k : Key α) : Option (Program α Pc) :=
  if s.source.ended then none else match k with
    | .key a => some (s.later [a] false)
    | .endOfInput => some (s.later [] true)

/-- The text as it is at this time. -/
def text (s : Program α Pc) : Source α := Source.text s.typed s.source.ended

theorem press_some {s t : Program α Pc} {k : Key α} (pressed : s.press k = some t) :
    s.source.ended = false ∧ ∃ typed ended, t = s.later typed ended := by
  unfold press at pressed
  rw [Option.ite_none_left_eq_some] at pressed
  obtain ⟨open_end, pressed⟩ := pressed
  refine ⟨Bool.eq_false_iff.mpr open_end, ?_⟩
  cases k with
  | key a =>
    cases pressed
    exact ⟨[a], false, rfl⟩
  | endOfInput =>
    cases pressed
    exact ⟨[], true, rfl⟩

theorem text_later_eq {s : Program α Pc} (open_end : s.source.ended = false) (typed : List α)
    (ended : Bool) : (s.later typed ended).text = s.text.later typed ended := by
  rw [text, text, open_end]
  rfl

/-- What reading the whole text gives is what reading more of it gives. -/
theorem reads_later {r : Read α β} (steady : Steady r) {s : Program α Pc} {b : β} {t : Source α}
    (read : r.run s.text = some (b, t)) (open_end : s.source.ended = false) (typed : List α)
    (ended : Bool) : r.run (s.later typed ended).text = some (b, t.later typed ended) := by
  rw [text_later_eq open_end]
  exact (steady _ _ _ read).2 open_end typed ended

theorem text_eq {s t : Program α Pc} (typed : t.typed = s.typed)
    (ended : t.source.ended = s.source.ended) : t.text = s.text := by
  rw [text, text, typed, ended]

/-- The whole text can be typed before the program reads any of it. -/
theorem reachable_fresh {Action : Type*} (step : Program α Pc → Action → Option (Program α Pc))
    (action : Key α → Action) (presses : ∀ s k, step s (action k) = press s k) (pc : Pc)
    (typed : List α) (ended : Bool) :
    Reachable step (fresh pc) ⟨typed, Source.text typed ended, pc⟩ := by
  have keys : Reachable step (fresh pc) ⟨typed, Source.text typed false, pc⟩ := by
    induction typed using List.reverseRecOn with
    | nil => exact ⟨[], rfl⟩
    | append_singleton earlier a ih =>
      exact ih.step_to (a := action (.key a)) (presses _ _)
  cases ended with
  | false => exact keys
  | true =>
    refine keys.step_to (a := action .endOfInput) ((presses _ _).trans ?_)
    simp [press, later, Source.later, Source.text]

end Program

end Terminal
