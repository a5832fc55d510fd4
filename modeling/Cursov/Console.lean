import Cursov.CommandLoop
import Cursov.PortNumber
import Cursov.Library.Terminal

/-!
# What the programs read of their console

The extractors of `std::cin` that the three `main` functions use. A number ends at the
first byte that is no digit, so it is not read before that byte has been typed; a line
ends with Enter. Once a read has failed or met the end of the input, all later ones fail.
-/

namespace Console

open Bytes Text Utilities Terminal

/-- `eofbit`, if the end of the input is next. -/
def markEnd : Read UInt8 Unit := do
  match ← peek with
  | none => spoil
  | some _ => pure ()

/-- `std::ws`. -/
def ws : Read UInt8 Unit := ifGood (do
  let _ ← span isSpace
  markEnd) ()

/-- `std::getline`, with what its stream says in a condition. -/
def getline (str : ByteString) : Read UInt8 (ByteString × Bool) := ifGood (do
  let line ← span (· != newline)
  match ← next with
  | some _ => pure (line, true)
  | none => do
    spoil
    pure (line, decide (line ≠ []))) (str, false)

/-- `std::cin.ignore()`. -/
def ignore : Read UInt8 Unit := ifGood (do
  match ← next with
  | some _ => pure ()
  | none => spoil) ()

/-- `std::cin.get()`. -/
def get : Read UInt8 (Option UInt8) := ifGood (do
  match ← next with
  | some b => pure (some b)
  | none => do
    spoil
    pure none) none

def sign (b : UInt8) : Read UInt8 Int :=
  if b = 45 then do
    let _ ← next
    pure (-1)
  else if b = 43 then do
    let _ ← next
    pure 1
  else pure 1

/-- A value outside the range of `int` is replaced by the end of the range and fails. -/
def store (n : Int) : Read UInt8 Int :=
  if n < -2147483648 then do
    spoil
    pure (-2147483648)
  else if 2147483647 < n then do
    spoil
    pure 2147483647
  else pure n

/-- Behind the sign: the digits, and what is made of them. -/
def digitsOf (factor : Int) : Read UInt8 Int := do
  let digits ← span isDigit
  if digits = [] then do
    spoil
    pure 0
  else do
    markEnd
    store (factor * digitsValue digits)

/-- `std::cin >> value` for an `int`, in base 10. At the end of the input the variable keeps
its value; where no number stands it becomes 0. -/
def extractInt (value : Int) : Read UInt8 Int := ifGood (do
  let _ ← span isSpace
  match ← peek with
  | none => do
    spoil
    pure value
  | some b => do
    let factor ← sign b
    digitsOf factor) value

theorem steady_markEnd : Steady markEnd :=
  steady_peek.bind fun b => match b with
    | none => steady_spoil
    | some _ => .pure ()

theorem steady_ws : Steady ws := ((steady_span _).bind fun _ => steady_markEnd).ifGood _

theorem steady_getline (str : ByteString) : Steady (getline str) :=
  ((steady_span _).bind fun line => steady_next.bind fun b => match b with
    | some _ => .pure (line, true)
    | none => steady_spoil.bind fun _ => .pure _).ifGood _

theorem steady_ignore : Steady ignore :=
  (steady_next.bind fun b => match b with
    | some _ => .pure ()
    | none => steady_spoil).ifGood _

theorem steady_get : Steady get :=
  (steady_next.bind fun b => match b with
    | some b => .pure (some b)
    | none => steady_spoil.bind fun _ => .pure none).ifGood _

theorem steady_sign (b : UInt8) : Steady (sign b) := by
  rw [sign]
  split
  · exact steady_next.bind fun _ => .pure _
  · split
    · exact steady_next.bind fun _ => .pure _
    · exact .pure _

theorem steady_store (n : Int) : Steady (store n) := by
  rw [store]
  split
  · exact steady_spoil.bind fun _ => .pure _
  · split
    · exact steady_spoil.bind fun _ => .pure _
    · exact .pure _

theorem steady_digitsOf (factor : Int) : Steady (digitsOf factor) := by
  refine (steady_span _).bind fun digits => ?_
  split
  · exact steady_spoil.bind fun _ => .pure 0
  · exact steady_markEnd.bind fun _ => steady_store _

theorem steady_extractInt (value : Int) : Steady (extractInt value) :=
  ((steady_span _).bind fun _ => steady_peek.bind fun b => match b with
    | none => steady_spoil.bind fun _ => .pure value
    | some b => (steady_sign b).bind steady_digitsOf).ifGood _

theorem prompt_ignore : Prompt ignore :=
  (prompt_next.bind steady_next fun b => match b with
    | some _ => .pure ()
    | none => prompt_spoil).ifGood _

theorem prompt_get : Prompt get :=
  (prompt_next.bind steady_next fun b => match b with
    | some b => .pure (some b)
    | none => prompt_spoil.bind steady_spoil fun _ => .pure none).ifGood _

/-- A stream that is good behind `ignore` has lost one byte to it. -/
theorem ignore_good {s t : Source UInt8} (ignores : ignore.run s = some ((), t))
    (good : t.good = true) : s.good = true ∧ ∃ b, s.pending = b :: t.pending := by
  cases before : s.good with
  | false =>
    rw [ignore, ifGood_run_spoilt before] at ignores
    cases ignores
    rw [before] at good
    cases good
  | true =>
    rw [ignore, ifGood_run_good before] at ignores
    obtain ⟨b, mid, takes, ignores⟩ := run_bind_iff.mp ignores
    obtain ⟨rfl, rfl, -⟩ := next_run_iff.mp takes
    cases pending : s.pending with
    | nil =>
      rw [pending] at ignores
      cases ignores
      cases good
    | cons b rest =>
      rw [pending] at ignores
      cases ignores
      exact ⟨rfl, b, rfl⟩

theorem getline_run_iff {str line : ByteString} {delivered : Bool} {s t : Source UInt8}
    (good : s.good = true) : (getline str).run s = some ((line, delivered), t) ↔
      newline ∉ line ∧
        ((∃ rest, s.pending = line ++ newline :: rest ∧ delivered = true ∧
            t = { s with pending := rest }) ∨
          s.pending = line ∧ s.ended = true ∧ delivered = decide (line ≠ []) ∧
            t = { s with pending := [], good := false }) := by
  have free : ∀ piece : ByteString, (∀ b ∈ piece, (b != newline) = true) ↔ newline ∉ piece := by
    intro piece
    simp only [bne_iff_ne, ne_eq]
    exact ⟨fun h mem => h newline mem rfl, fun h b mem same => h (same ▸ mem)⟩
  rw [getline, ifGood_run_good good]
  constructor
  · intro reads
    obtain ⟨piece, mid, spans, reads⟩ := run_bind_iff.mp reads
    obtain ⟨rest, split, passes, ⟨stops, ends⟩, rfl⟩ := span_run_iff.mp spans
    obtain ⟨b, mid, takes, reads⟩ := run_bind_iff.mp reads
    obtain ⟨rfl, rfl, _⟩ := next_run_iff.mp takes
    cases rest with
    | nil =>
      cases reads
      rw [List.append_nil] at split
      exact ⟨(free _).mp passes, Or.inr ⟨split, ends rfl, rfl, rfl⟩⟩
    | cons b rest =>
      cases reads
      have last : b = newline := by simpa using stops b rfl
      exact ⟨(free _).mp passes, Or.inl ⟨rest, last ▸ split, rfl, rfl⟩⟩
  · rintro ⟨one_line, ⟨rest, split, rfl, rfl⟩ | ⟨split, ended, rfl, rfl⟩⟩
    · have spans : (span (· != newline)).run s =
          some (line, { s with pending := newline :: rest }) :=
        span_run_iff.mpr ⟨_, split, (free line).mpr one_line, ⟨by simp, nofun⟩, rfl⟩
      exact run_bind_iff.mpr ⟨line, _, spans, rfl⟩
    · have spans : (span (· != newline)).run s = some (line, { s with pending := [] }) := by
        refine span_run_iff.mpr ⟨[], ?_, (free line).mpr one_line, ⟨nofun, fun _ => ended⟩, rfl⟩
        rw [split, List.append_nil]
      have takes : next.run { s with pending := ([] : ByteString) } =
          some (none, { s with pending := [] }) :=
        next_run_iff.mpr ⟨rfl, rfl, fun _ => ended⟩
      exact run_bind_iff.mpr ⟨line, _, spans, run_bind_iff.mpr ⟨none, _, takes, rfl⟩⟩

/-- The interactive `getline` on an input that has ended is that of the command loops. -/
theorem getline_ended (cin : CommandLoop.Stdin) (str : ByteString) :
    (getline str).run ⟨cin.rest, true, cin.good⟩ =
      some ((CommandLoop.getline cin str).2,
        ⟨(CommandLoop.getline cin str).1.rest, true, (CommandLoop.getline cin str).1.good⟩) := by
  obtain ⟨rest, good⟩ := cin
  cases good with
  | false => rfl
  | true =>
    by_cases present : newline ∈ rest
    · obtain ⟨line, later, rfl, free⟩ := List.eq_append_cons_of_mem present
      simp only [CommandLoop.getline, cut_append free, if_true]
      exact (getline_run_iff rfl).mpr ⟨free, Or.inl ⟨later, rfl, rfl, rfl⟩⟩
    · simp only [CommandLoop.getline, cut_eq_none_iff.mpr present, if_true]
      exact (getline_run_iff rfl).mpr ⟨present, Or.inr ⟨rfl, rfl, rfl, rfl⟩⟩

/-- The range of `int`. -/
def Fits (n : Int) : Prop := -2147483648 ≤ n ∧ n ≤ 2147483647

instance : DecidablePred Fits := fun n => inferInstanceAs (Decidable (_ ≤ n ∧ n ≤ _))

def nearestInt (n : Int) : Int :=
  if n < -2147483648 then -2147483648 else if 2147483647 < n then 2147483647 else n

theorem nearestInt_eq {n : Int} (fits : Fits n) : nearestInt n = n := by
  rw [nearestInt, if_neg (Int.not_lt.mpr fits.1), if_neg (Int.not_lt.mpr fits.2)]

theorem store_run (n : Int) (s : Source UInt8) :
    (store n).run s = some (nearestInt n, { s with good := s.good && decide (Fits n) }) := by
  have spoilt : ∀ m : Int, ¬ Fits n → (do spoil; pure m : Read UInt8 Int).run s =
      some (m, { s with good := s.good && decide (Fits n) }) := by
    intro m outside
    rw [decide_eq_false outside, Bool.and_false]
    rfl
  rw [store, nearestInt]
  split
  case isTrue small => exact spoilt _ fun fits => absurd fits.1 (Int.not_le.mpr small)
  case isFalse large =>
    split
    case isTrue beyond => exact spoilt _ fun fits => absurd fits.2 (Int.not_le.mpr beyond)
    case isFalse inside =>
      rw [decide_eq_true (show Fits n from ⟨Int.not_lt.mp large, Int.not_lt.mp inside⟩),
        Bool.and_true]
      rfl

theorem markEnd_run_iff {s t : Source UInt8} : markEnd.run s = some ((), t) ↔
    (s.pending = [] → s.ended = true) ∧
      t = { s with good := s.good && decide (s.pending ≠ []) } := by
  obtain ⟨pending, ended, good⟩ := s
  cases pending with
  | nil =>
    cases ended with
    | false =>
      constructor
      · rintro ⟨⟩
      · rintro ⟨ends, -⟩
        cases ends rfl
    | true =>
      rw [decide_eq_false (by simp), Bool.and_false]
      constructor
      · rintro ⟨⟩
        exact ⟨fun _ => rfl, rfl⟩
      · rintro ⟨-, rfl⟩
        rfl
  | cons b rest =>
    rw [decide_eq_true (List.cons_ne_nil b rest), Bool.and_true]
    constructor
    · rintro ⟨⟩
      exact ⟨nofun, rfl⟩
    · rintro ⟨-, rfl⟩
      rfl

/-- What stands before the digits, and the factor it stands for. -/
inductive Signed (body : ByteString) : ByteString → Int → Prop where
  | minus : Signed body [45] (-1)
  | plus : Signed body [43] 1
  | bare (b : UInt8) (first : body.head? = some b) (visible : isSpace b = false)
      (not_minus : b ≠ 45) (not_plus : b ≠ 43) : Signed body [] 1

/-- What an extraction leaves in the variable, what it leaves of the text, and whether the
stream is still good: only behind a number that fits and is followed by something. -/
inductive Extracts (value : Int) (ended : Bool) : ByteString → Int → ByteString → Bool → Prop where
  | exhausted (blanks : ByteString) (blank : ∀ b ∈ blanks, isSpace b = true)
      (at_end : ended = true) : Extracts value ended blanks value [] false
  | reads (blanks lead digits rest : ByteString) (factor : Int)
      (blank : ∀ b ∈ blanks, isSpace b = true) (signed : Signed (digits ++ rest) lead factor)
      (all_digits : ∀ b ∈ digits, isDigit b = true) (stops : Stops isDigit ended rest) :
      Extracts value ended (blanks ++ (lead ++ (digits ++ rest)))
        (if digits = [] then 0 else nearestInt (factor * digitsValue digits)) rest
        (decide (digits ≠ [] ∧ rest ≠ [] ∧ Fits (factor * digitsValue digits)))

theorem digitsOf_run_iff {factor n : Int} {s t : Source UInt8} (good : s.good = true) :
    (digitsOf factor).run s = some (n, t) ↔ ∃ digits rest, s.pending = digits ++ rest ∧
      (∀ b ∈ digits, isDigit b = true) ∧ Stops isDigit s.ended rest ∧
      n = (if digits = [] then 0 else nearestInt (factor * digitsValue digits)) ∧
      t = ⟨rest, s.ended,
        decide (digits ≠ [] ∧ rest ≠ [] ∧ Fits (factor * digitsValue digits))⟩ := by
  have behind : ∀ digits rest : ByteString, digits ≠ [] → Stops isDigit s.ended rest →
      (do markEnd; store (factor * digitsValue digits) : Read UInt8 Int).run
          { s with pending := rest } =
        some (nearestInt (factor * digitsValue digits), ⟨rest, s.ended,
          decide (digits ≠ [] ∧ rest ≠ [] ∧ Fits (factor * digitsValue digits))⟩) := by
    intro digits rest nonempty stops
    refine run_bind_iff.mpr ⟨(), _, markEnd_run_iff.mpr ⟨stops.ends, rfl⟩, ?_⟩
    rw [store_run]
    simp [good, nonempty]
  rw [digitsOf]
  constructor
  · intro reads
    obtain ⟨digits, mid, spans, reads⟩ := run_bind_iff.mp reads
    obtain ⟨rest, split, all_digits, stops, rfl⟩ := span_run_iff.mp spans
    refine ⟨digits, rest, split, all_digits, stops, ?_⟩
    by_cases empty : digits = []
    · subst empty
      cases reads
      exact ⟨rfl, by simp⟩
    · rw [if_neg empty, behind digits rest empty stops] at reads
      cases reads
      exact ⟨(if_neg empty).symm, rfl⟩
  · rintro ⟨digits, rest, split, all_digits, stops, rfl, rfl⟩
    refine run_bind_iff.mpr ⟨digits, _, span_run_iff.mpr ⟨rest, split, all_digits, stops, rfl⟩, ?_⟩
    by_cases empty : digits = []
    · subst empty
      rw [if_pos rfl, if_pos rfl, decide_eq_false fun sound => sound.1 rfl]
      rfl
    · rw [if_neg empty, if_neg empty]
      exact behind digits rest empty stops

theorem sign_run {b : UInt8} {body : ByteString} {s : Source UInt8}
    (pending : s.pending = b :: body) (visible : isSpace b = false) :
    ∃ lead factor rest, (sign b).run s = some (factor, { s with pending := rest }) ∧
      s.pending = lead ++ rest ∧ Signed rest lead factor := by
  obtain ⟨typed, ended, good⟩ := s
  subst pending
  by_cases minus : b = 45
  · subst minus
    exact ⟨[45], -1, body, rfl, rfl, .minus⟩
  · by_cases plus : b = 43
    · subst plus
      exact ⟨[43], 1, body, rfl, rfl, .plus⟩
    · refine ⟨[], 1, b :: body, ?_, rfl, .bare b rfl visible minus plus⟩
      rw [sign, if_neg minus, if_neg plus]
      rfl

/-- The sign and what follows it can be read off the text. -/
theorem Signed.unique {lead lead' body body' : ByteString} {factor factor' : Int}
    (first : Signed body lead factor) (second : Signed body' lead' factor')
    (same : lead ++ body = lead' ++ body') : lead = lead' ∧ body = body' ∧ factor = factor' := by
  have clash : ∀ {sign b : UInt8} {more rest : ByteString}, rest.head? = some b → b ≠ sign →
      [sign] ++ more ≠ [] ++ rest := by
    rintro sign b more rest head other equal
    rw [List.nil_append] at equal
    rw [← equal] at head
    exact other (Option.some.inj head).symm
  cases first with
  | minus =>
    cases second with
    | minus => exact ⟨rfl, List.append_cancel_left same, rfl⟩
    | plus => cases same
    | bare b head _ not_minus _ => exact absurd same (clash head not_minus)
  | plus =>
    cases second with
    | minus => cases same
    | plus => exact ⟨rfl, List.append_cancel_left same, rfl⟩
    | bare b head _ _ not_plus => exact absurd same (clash head not_plus)
  | bare b head _ not_minus not_plus =>
    cases second with
    | minus => exact absurd same.symm (clash head not_minus)
    | plus => exact absurd same.symm (clash head not_plus)
    | bare _ _ _ _ _ => exact ⟨rfl, same, rfl⟩

theorem Signed.head {lead body : ByteString} {factor : Int} (signed : Signed body lead factor) :
    ∃ b more, lead ++ body = b :: more ∧ isSpace b = false := by
  cases signed with
  | minus => exact ⟨45, body, rfl, by decide⟩
  | plus => exact ⟨43, body, rfl, by decide⟩
  | bare b head visible _ _ =>
    obtain ⟨more, shape⟩ := List.head?_eq_some_iff.mp head
    exact ⟨b, more, shape, visible⟩

theorem Extracts.run {value n : Int} {ended sound : Bool} {typed rest : ByteString}
    (extracts : Extracts value ended typed n rest sound) :
    (extractInt value).run (Source.text typed ended) = some (n, ⟨rest, ended, sound⟩) := by
  rw [extractInt, ifGood_run_good rfl]
  cases extracts with
  | exhausted _ blank at_end =>
    have spans : (span isSpace).run (Source.text typed ended) =
        some (typed, Source.text [] ended) :=
      span_run_iff.mpr ⟨[], (List.append_nil _).symm, blank, ⟨nofun, fun _ => at_end⟩, rfl⟩
    have sees : peek.run (Source.text ([] : ByteString) ended) =
        some (none, Source.text [] ended) := peek_run_iff.mpr ⟨rfl, rfl, fun _ => at_end⟩
    exact run_bind_iff.mpr ⟨typed, _, spans, run_bind_iff.mpr ⟨none, _, sees, rfl⟩⟩
  | reads blanks lead digits rest factor blank signed all_digits stops =>
    obtain ⟨b, more, shape, visible⟩ := signed.head
    have spans : (span isSpace).run (Source.text (blanks ++ (lead ++ (digits ++ rest))) ended) =
        some (blanks, Source.text (lead ++ (digits ++ rest)) ended) := by
      refine span_run_iff.mpr ⟨_, rfl, blank, ⟨?_, ?_⟩, rfl⟩
      · rw [shape]
        rintro _ ⟨⟩
        exact visible
      · rw [shape]
        nofun
    have sees : peek.run (Source.text (lead ++ (digits ++ rest)) ended) =
        some (some b, Source.text (lead ++ (digits ++ rest)) ended) :=
      peek_run_iff.mpr ⟨by rw [Source.text, shape]; rfl, rfl, nofun⟩
    obtain ⟨lead', factor', after, signs, shape', signed'⟩ :=
      @sign_run b more (Source.text (lead ++ (digits ++ rest)) ended) shape visible
    obtain ⟨rfl, rfl, rfl⟩ := signed.unique signed' shape'
    refine run_bind_iff.mpr ⟨blanks, _, spans, run_bind_iff.mpr ⟨some b, _, sees, ?_⟩⟩
    refine run_bind_iff.mpr ⟨factor, _, signs, (digitsOf_run_iff rfl).mpr ?_⟩
    exact ⟨digits, rest, rfl, all_digits, stops, rfl, rfl⟩

/-- A text is extracted in one way only. -/
theorem Extracts.unique {value n n' : Int} {ended sound sound' : Bool}
    {typed rest rest' : ByteString} (first : Extracts value ended typed n rest sound)
    (second : Extracts value ended typed n' rest' sound') :
    n = n' ∧ rest = rest' ∧ sound = sound' := by
  cases first.run.symm.trans second.run
  exact ⟨rfl, rfl, rfl⟩

/-- The extraction, read off the text it is applied to. -/
theorem extractInt_run_iff {value n : Int} {s t : Source UInt8} (good : s.good = true) :
    (extractInt value).run s = some (n, t) ↔ ∃ rest sound,
      Extracts value s.ended s.pending n rest sound ∧ t = ⟨rest, s.ended, sound⟩ := by
  constructor
  · intro reads
    rw [extractInt, ifGood_run_good good] at reads
    obtain ⟨blanks, mid, spans, reads⟩ := run_bind_iff.mp reads
    obtain ⟨body, split, blank, stops, rfl⟩ := span_run_iff.mp spans
    obtain ⟨b, mid, sees, reads⟩ := run_bind_iff.mp reads
    obtain ⟨rfl, rfl, _⟩ := peek_run_iff.mp sees
    cases body with
    | nil =>
      cases reads
      rw [List.append_nil] at split
      exact ⟨[], false, split ▸ .exhausted blanks blank (stops.ends rfl), rfl⟩
    | cons b body =>
      obtain ⟨factor, mid, signs, reads⟩ := run_bind_iff.mp reads
      obtain ⟨lead, factor', after, signs', shape, signed⟩ :=
        @sign_run b body { s with pending := b :: body } rfl (stops.head b rfl)
      cases signs.symm.trans signs'
      obtain ⟨digits, rest, split', all_digits, stops', rfl, rfl⟩ :=
        (digitsOf_run_iff (s := { s with pending := after }) good).mp reads
      change after = digits ++ rest at split'
      subst split'
      change b :: body = lead ++ (digits ++ rest) at shape
      refine ⟨rest, _, ?_, rfl⟩
      rw [split, shape]
      exact .reads blanks lead digits rest factor blank signed all_digits stops'
  · rintro ⟨rest, sound, extracts, rfl⟩
    obtain ⟨typed, ended, _⟩ := s
    dsimp only at good extracts ⊢
    subst good
    exact extracts.run

/-- A text of an integer that fits: a numeral, perhaps behind a sign. -/
inductive IntegerText : ByteString → Int → Prop where
  | mk {lead digits : ByteString} {factor : Int} (signed : Signed digits lead factor)
      (numeral : PortNumber.Numeral digits) (fits : Fits (factor * digitsValue digits)) :
      IntegerText (lead ++ digits) (factor * digitsValue digits)

/-- An integer, after blanks, and the first byte of what follows it. -/
structure NumberTyped (typed : ByteString) (n : Int) (rest : ByteString) : Prop where
  split : ∃ blanks text, typed = blanks ++ (text ++ rest) ∧ (∀ b ∈ blanks, isSpace b = true) ∧
    IntegerText text n
  delimited : ∃ b ∈ rest.head?, isDigit b = false

theorem signed_append_iff {digits lead : ByteString} {factor : Int} (nonempty : digits ≠ [])
    (rest : ByteString) : Signed (digits ++ rest) lead factor ↔ Signed digits lead factor := by
  constructor
  · rintro (_ | _ | ⟨b, first, visible, not_minus, not_plus⟩)
    · exact .minus
    · exact .plus
    · exact .bare b (head?_append_of_head nonempty rest ▸ first) visible not_minus not_plus
  · rintro (_ | _ | ⟨b, first, visible, not_minus, not_plus⟩)
    · exact .minus
    · exact .plus
    · exact .bare b ((head?_append_of_head nonempty rest).trans first) visible not_minus not_plus

/-- The stream is good behind an extraction exactly when a number has been typed. -/
theorem extractInt_good_iff {value n : Int} {s t : Source UInt8} (good : s.good = true) :
    ((extractInt value).run s = some (n, t) ∧ t.good = true) ↔
      NumberTyped s.pending n t.pending ∧ t.ended = s.ended ∧ t.good = true := by
  rw [extractInt_run_iff good]
  constructor
  · rintro ⟨⟨rest, sound, extracts, rfl⟩, fine⟩
    refine ⟨?_, rfl, fine⟩
    change sound = true at fine
    subst fine
    generalize shape : s.pending = typed at extracts
    generalize flag : true = fine at extracts
    cases extracts with
    | exhausted => cases flag
    | reads blanks lead digits rest factor blank signed all_digits stops =>
      obtain ⟨nonempty, more, fits⟩ := of_decide_eq_true flag.symm
      obtain ⟨b, later, rfl⟩ := List.exists_cons_of_ne_nil more
      rw [if_neg nonempty, nearestInt_eq fits]
      refine ⟨⟨blanks, lead ++ digits, by rw [List.append_assoc], blank, ?_⟩, b, rfl,
        stops.head b rfl⟩
      exact .mk ((signed_append_iff nonempty _).mp signed) ⟨nonempty, all_digits⟩ fits
  · rintro ⟨⟨⟨blanks, text, split, blank, integer⟩, b, first, delimited⟩, ended, fine⟩
    refine ⟨⟨t.pending, true, ?_, ?_⟩, fine⟩
    · cases integer with
      | mk signed numeral fits =>
        rename_i lead digits factor
        have more : t.pending ≠ [] := by
          intro empty
          rw [empty] at first
          cases first
        have stops : Stops isDigit s.ended t.pending := by
          refine ⟨fun c head => ?_, fun empty => absurd empty more⟩
          rw [Option.mem_def.mp first, Option.mem_some_iff] at head
          exact head ▸ delimited
        have extracts : Extracts value s.ended _ _ _ _ := .reads blanks lead digits t.pending factor
          blank ((signed_append_iff numeral.1 _).mpr signed) numeral.2 stops
        rw [if_neg numeral.1, nearestInt_eq fits,
          decide_eq_true (show _ ∧ _ ∧ _ from ⟨numeral.1, more, fits⟩)] at extracts
        rwa [split, List.append_assoc]
    · rw [← ended, ← fine]

/-- `std::getline(std::cin >> std::ws, line)` into an empty string. -/
def nextLine : Read UInt8 ByteString := do
  ws
  let (line, _) ← getline []
  pure line

theorem steady_nextLine : Steady nextLine :=
  steady_ws.bind fun _ => (steady_getline []).bind fun _ => .pure _

theorem nextLine_spoilt {s : Source UInt8} (spoilt : s.good = false) :
    nextLine.run s = some ([], s) :=
  run_bind_iff.mpr ⟨(), s, ifGood_run_spoilt spoilt,
    run_bind_iff.mpr ⟨([], false), s, ifGood_run_spoilt spoilt, rfl⟩⟩

/-- A line that is not blank, with the blanks before it: ended by Enter, or by the end of the
input, behind which nothing can be read. -/
inductive LineTyped (ended : Bool) : ByteString → ByteString → ByteString → Bool → Prop where
  | entered (gap line rest : ByteString) (blank : ∀ b ∈ gap, isSpace b = true)
      (one_line : newline ∉ line) (nonempty : line ≠ [])
      (visible : ∀ b ∈ line.head?, isSpace b = false) :
      LineTyped ended (gap ++ (line ++ newline :: rest)) line rest true
  | last (gap line : ByteString) (blank : ∀ b ∈ gap, isSpace b = true) (at_end : ended = true)
      (one_line : newline ∉ line) (nonempty : line ≠ [])
      (visible : ∀ b ∈ line.head?, isSpace b = false) :
      LineTyped ended (gap ++ line) line [] false

theorem ws_run_iff {s t : Source UInt8} (good : s.good = true) : ws.run s = some ((), t) ↔
    ∃ gap rest, s.pending = gap ++ rest ∧ (∀ b ∈ gap, isSpace b = true) ∧
      Stops isSpace s.ended rest ∧ t = ⟨rest, s.ended, decide (rest ≠ [])⟩ := by
  rw [ws, ifGood_run_good good]
  constructor
  · intro reads
    obtain ⟨gap, mid, spans, marks⟩ := run_bind_iff.mp reads
    obtain ⟨rest, split, blank, stops, rfl⟩ := span_run_iff.mp spans
    obtain ⟨-, rfl⟩ := markEnd_run_iff.mp marks
    exact ⟨gap, rest, split, blank, stops, by simp [good]⟩
  · rintro ⟨gap, rest, split, blank, stops, rfl⟩
    refine run_bind_iff.mpr ⟨gap, _, span_run_iff.mpr ⟨rest, split, blank, stops, rfl⟩, ?_⟩
    exact markEnd_run_iff.mpr ⟨stops.ends, by simp [good]⟩

theorem LineTyped.run {typed line rest : ByteString} {ended sound : Bool}
    (line_typed : LineTyped ended typed line rest sound) :
    nextLine.run (Source.text typed ended) = some (line, ⟨rest, ended, sound⟩) := by
  have nonempty : line ≠ [] := by
    cases line_typed with
    | entered _ _ _ _ _ nonempty => exact nonempty
    | last _ _ _ _ _ nonempty => exact nonempty
  have stops : ∀ more : ByteString, (∀ b ∈ line.head?, isSpace b = false) →
      Stops isSpace ended (line ++ more) := by
    intro more visible
    refine ⟨fun b head => visible b (head?_append_of_head nonempty more ▸ head), fun empty => ?_⟩
    exact absurd (List.append_eq_nil_iff.mp empty).1 nonempty
  cases line_typed with
  | entered gap _ _ blank one_line _ visible =>
    have skips : ws.run (Source.text (gap ++ (line ++ newline :: rest)) ended) =
        some ((), Source.text (line ++ newline :: rest) ended) :=
      (ws_run_iff rfl).mpr ⟨gap, _, rfl, blank, stops _ visible, by simp [Source.text]⟩
    refine run_bind_iff.mpr ⟨(), _, skips, run_bind_iff.mpr ⟨(line, true), _, ?_, rfl⟩⟩
    exact (getline_run_iff rfl).mpr ⟨one_line, Or.inl ⟨rest, rfl, rfl, rfl⟩⟩
  | last gap _ blank at_end one_line _ visible =>
    have visible_line := stops [] visible
    rw [List.append_nil] at visible_line
    have skips : ws.run (Source.text (gap ++ line) ended) =
        some ((), Source.text line ended) :=
      (ws_run_iff rfl).mpr ⟨gap, _, rfl, blank, visible_line, by simp [Source.text, nonempty]⟩
    refine run_bind_iff.mpr ⟨(), _, skips, run_bind_iff.mpr ⟨(line, true), _, ?_, rfl⟩⟩
    exact (getline_run_iff rfl).mpr ⟨one_line, Or.inr ⟨rfl, at_end, by simp [nonempty], rfl⟩⟩

theorem nextLine_run_iff {line : ByteString} {s t : Source UInt8} (good : s.good = true)
    (nonempty : line ≠ []) : nextLine.run s = some (line, t) ↔
      ∃ rest sound, LineTyped s.ended s.pending line rest sound ∧ t = ⟨rest, s.ended, sound⟩ := by
  constructor
  · intro reads
    obtain ⟨_, mid, skips, reads⟩ := run_bind_iff.mp reads
    obtain ⟨gap, body, split, blank, stops, rfl⟩ := (ws_run_iff good).mp skips
    obtain ⟨⟨piece, delivered⟩, mid, gets, reads⟩ := run_bind_iff.mp reads
    cases reads
    by_cases empty : body = []
    · subst empty
      rw [getline, ifGood_run_spoilt (by simp)] at gets
      cases gets
      exact absurd rfl nonempty
    · have visible : ∀ rest, body = line ++ rest → ∀ b ∈ line.head?, isSpace b = false := by
        rintro rest rfl b head
        exact stops.head b ((head?_append_of_head nonempty rest).symm ▸ head)
      obtain ⟨one_line, ⟨rest, shape, -, rfl⟩ | ⟨shape, at_end, -, rfl⟩⟩ :=
        (getline_run_iff (decide_eq_true empty)).mp gets
      · change body = line ++ newline :: rest at shape
        refine ⟨rest, true, ?_, by simp [empty]⟩
        rw [split, shape]
        exact .entered gap line rest blank one_line nonempty (visible _ shape)
      · change body = line at shape
        refine ⟨[], false, ?_, rfl⟩
        rw [split, shape]
        exact .last gap line blank at_end one_line nonempty
          (visible [] (shape.trans (List.append_nil _).symm))
  · rintro ⟨rest, sound, typed, rfl⟩
    obtain ⟨pending, ended, _⟩ := s
    dsimp only at good typed ⊢
    subst good
    exact typed.run

end Console
