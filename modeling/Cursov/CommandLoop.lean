import Cursov.Utilities

/-!
# The command loop of the server

`main` reads commands with `getline` and leaves the loop at `stop` or `quit`. It
never asks the stream whether a line was read, so behind the last line it goes
round with the string that the failing read leaves in place. The client's loop
over its messages asks.
-/

namespace CommandLoop

open Bytes Text Utilities

/-- `std::cin`: what can still be read, and whether no read has met the end yet. -/
structure Stdin where
  rest : ByteString
  good : Bool
  deriving DecidableEq

/-- The stream and the string after `std::getline`, and whether it delivered a line. A stream
that is not good leaves the string alone. -/
def getline (cin : Stdin) (str : ByteString) : Stdin × ByteString × Bool :=
  if cin.good then
    match cut newline cin.rest with
    | some (line, rest) => (⟨rest, true⟩, line, true)
    | none => (⟨[], false⟩, cin.rest, cin.rest ≠ [])
  else (cin, str, false)

/-- A command at which the loop is left, once it is in lower case. -/
def Stops (command : ByteString) : Prop :=
  command = literal "stop" ∨ command = literal "quit"

instance : DecidablePred Stops := fun _ => inferInstanceAs (Decidable (_ ∨ _))

def unknownCommand (command : ByteString) : ByteString :=
  utf8 "Неизвестная команда: " ++ command ++ utf8 ". Используйте 'stop' или 'quit'.\n"

/-- The loop of `main`, at most so many rounds of it: what is left of the input when it is
left, and what it has printed. -/
def commandLoop : Nat → Stdin → ByteString → Option (Stdin × ByteString)
  | 0, _, _ => none
  | rounds + 1, cin, command =>
    let (next, read, _) := getline cin command
    let lowered := read.map toLower
    if Stops lowered then some (next, [])
    else (commandLoop rounds next lowered).map fun (left, printed) =>
      (left, unknownCommand lowered ++ printed)

/-- The client's loop over what is typed; `exit` ends it, and every other line is sent. -/
def messageLoop : Nat → Stdin → ByteString → Option (Stdin × List ByteString)
  | 0, _, _ => none
  | rounds + 1, cin, msg =>
    let (next, read, delivered) := getline cin msg
    if delivered = false ∨ read = literal "exit" then some (next, [])
    else (messageLoop rounds next read).map fun (left, sent) => (left, read :: sent)

/-- The lines that are still to be read. -/
def Stdin.remaining (cin : Stdin) : List ByteString :=
  if cin.good then lines newline cin.rest else []

theorem getline_cons {cin : Stdin} {line : ByteString} {more : List ByteString}
    (left : cin.remaining = line :: more) (str : ByteString) :
    ∃ next, getline cin str = (next, line, true) ∧ next.remaining = more := by
  obtain ⟨rest, good⟩ := cin
  cases good with
  | false => cases left
  | true =>
    change lines newline rest = line :: more at left
    by_cases present : newline ∈ rest
    · obtain ⟨piece, later, rfl, free⟩ := List.eq_append_cons_of_mem present
      rw [lines_append free, List.cons.injEq] at left
      obtain ⟨rfl, rfl⟩ := left
      refine ⟨⟨later, true⟩, ?_, rfl⟩
      simp only [getline, cut_append free, if_true]
    · have nonempty : rest ≠ [] := by
        rintro rfl
        cases left
      rw [lines_of_free present nonempty, List.cons.injEq] at left
      obtain ⟨rfl, rfl⟩ := left
      refine ⟨⟨[], false⟩, ?_, rfl⟩
      simp only [getline, cut_eq_none_iff.mpr present, if_true, decide_eq_true nonempty]

/-- Without a line left nothing is delivered; the string is emptied at most. -/
theorem getline_nil {cin : Stdin} (left : cin.remaining = []) (str : ByteString) :
    ∃ next read, getline cin str = (next, read, false) ∧ next.remaining = [] ∧
      (read = [] ∨ read = str) := by
  obtain ⟨rest, good⟩ := cin
  cases good with
  | false => exact ⟨⟨rest, false⟩, str, rfl, rfl, Or.inr rfl⟩
  | true =>
    have nothing : rest = [] := by
      change lines newline rest = [] at left
      rw [lines_eq_loop] at left
      by_contra nonempty
      simp only [Text.getline, if_neg nonempty] at left
      cases left
    subst nothing
    exact ⟨⟨[], false⟩, [], rfl, rfl, Or.inl rfl⟩

/-- The client's loop ends for every input, and has sent what was typed before `exit`. -/
theorem messageLoop_ends (cin : Stdin) (msg : ByteString) :
    ∃ left, messageLoop (cin.remaining.length + 1) cin msg =
      some (left, cin.remaining.takeWhile fun line => line ≠ literal "exit") := by
  generalize typed : cin.remaining = all
  induction all generalizing cin msg with
  | nil =>
    obtain ⟨next, read, reads, _, _⟩ := getline_nil typed msg
    exact ⟨next, by simp [messageLoop, reads]⟩
  | cons line more ih =>
    obtain ⟨next, reads, onward⟩ := getline_cons typed msg
    by_cases leaves : line = literal "exit"
    · exact ⟨next, by simp [messageLoop, reads, leaves]⟩
    · obtain ⟨left, rest⟩ := ih next line onward
      refine ⟨left, ?_⟩
      rw [List.length_cons, messageLoop, reads]
      simp [leaves, rest]

theorem lowered_lowered (command : ByteString) :
    (command.map toLower).map toLower = command.map toLower := by
  rw [List.map_map]
  exact List.map_congr_left fun b _ => toLower_toLower b

/-- While neither a line nor the string in place is a command, the loop goes round. -/
theorem commandLoop_goes_on {cin : Stdin} {command : ByteString}
    (none_typed : ∀ line ∈ cin.remaining, ¬ Stops (line.map toLower))
    (none_stale : ¬ Stops (command.map toLower)) (rounds : Nat) :
    commandLoop rounds cin command = none := by
  induction rounds generalizing cin command with
  | zero => rfl
  | succ rounds ih =>
    cases left : cin.remaining with
    | nil =>
      obtain ⟨next, read, reads, onward, stale⟩ := getline_nil left command
      have unknown : ¬ Stops (read.map toLower) := by
        rcases stale with rfl | rfl
        · decide
        · exact none_stale
      have later : commandLoop rounds next (read.map toLower) = none :=
        ih (by simp [onward]) (by rwa [lowered_lowered])
      simp only [commandLoop, reads, if_neg unknown, later, Option.map_none]
    | cons line more =>
      rw [left] at none_typed
      obtain ⟨here, others⟩ := List.forall_mem_cons.mp none_typed
      obtain ⟨next, reads, onward⟩ := getline_cons left command
      have later : commandLoop rounds next (line.map toLower) = none :=
        ih (onward ▸ others) (by rwa [lowered_lowered])
      simp only [commandLoop, reads, if_neg here, later, Option.map_none]

/-- The loop is left in its round `k`, and `left` has not been read then. -/
def LeftIn (input : ByteString) (k : Nat) (left : List ByteString) : Prop :=
  ∃ cin printed, cin.remaining = left ∧
    ∀ rounds, commandLoop rounds ⟨input, true⟩ [] = if k ≤ rounds then some (cin, printed) else none

/-- At the first command among the lines the loop is left. -/
theorem commandLoop_leaves {before after : List ByteString} {line : ByteString} {cin : Stdin}
    (command : ByteString) (typed : cin.remaining = before ++ line :: after)
    (first : ∀ earlier ∈ before, ¬ Stops (earlier.map toLower)) (stops : Stops (line.map toLower)) :
    ∃ left printed, left.remaining = after ∧ ∀ rounds, commandLoop rounds cin command =
      if before.length + 1 ≤ rounds then some (left, printed) else none := by
  induction before generalizing cin command with
  | nil =>
    obtain ⟨next, reads, onward⟩ := getline_cons typed command
    refine ⟨next, [], onward, fun rounds => ?_⟩
    cases rounds with
    | zero => rfl
    | succ rounds => simp [commandLoop, reads, stops]
  | cons earlier others ih =>
    obtain ⟨here, later⟩ := List.forall_mem_cons.mp first
    obtain ⟨next, reads, onward⟩ := getline_cons typed command
    obtain ⟨left, printed, unread, runs⟩ := ih (earlier.map toLower) onward later
    refine ⟨left, unknownCommand (earlier.map toLower) ++ printed, unread, fun rounds => ?_⟩
    cases rounds with
    | zero => rfl
    | succ rounds =>
      simp only [commandLoop, reads, if_neg here, runs, List.length_cons, Nat.add_le_add_iff_right]
      split <;> rfl

/-- The loop is left after at most all lines and one read that finds none, and at the first
command when there is one. -/
def EndsWithInput (input : ByteString) : Prop :=
  (∃ k left, k ≤ (lines newline input).length + 1 ∧ LeftIn input k left) ∧
    ∀ before line after, lines newline input = before ++ line :: after →
      (∀ earlier ∈ before, ¬ Stops (earlier.map toLower)) → Stops (line.map toLower) →
        LeftIn input (before.length + 1) after

theorem not_leftIn {input : ByteString}
    (none_typed : ∀ line ∈ lines newline input, ¬ Stops (line.map toLower)) (k : Nat)
    (left : List ByteString) : ¬ LeftIn input k left := by
  rintro ⟨cin, printed, _, runs⟩
  have unread : ∀ line ∈ (⟨input, true⟩ : Stdin).remaining, ¬ Stops (line.map toLower) :=
    none_typed
  have goes_on := commandLoop_goes_on unread (show ¬ Stops (List.map toLower []) by decide) k
  have here := runs k
  rw [goes_on, if_pos (Nat.le_refl k)] at here
  cases here

/-- The command loop ends with its input exactly when a line of the input is `stop` or `quit`
in some letter case. -/
theorem endsWithInput_iff (input : ByteString) :
    EndsWithInput input ↔ ∃ line ∈ lines newline input, Stops (line.map toLower) := by
  constructor
  · rintro ⟨⟨k, left, _, leaves⟩, _⟩
    by_contra none_typed
    exact not_leftIn (fun line mem stops => none_typed ⟨line, mem, stops⟩) k left leaves
  · rintro ⟨line, mem, stops⟩
    have leaves : ∀ before line after, lines newline input = before ++ line :: after →
        (∀ earlier ∈ before, ¬ Stops (earlier.map toLower)) → Stops (line.map toLower) →
          LeftIn input (before.length + 1) after :=
      fun _ _ _ typed first stops => commandLoop_leaves [] typed first stops
    refine ⟨?_, leaves⟩
    have found : ((lines newline input).find? fun l => Stops (l.map toLower)).isSome := by
      rw [List.find?_isSome]
      exact ⟨line, mem, decide_eq_true stops⟩
    obtain ⟨first, here⟩ := Option.isSome_iff_exists.mp found
    obtain ⟨stops, before, after, typed, earlier⟩ := List.find?_eq_some_iff_append.mp here
    refine ⟨before.length + 1, after, ?_, leaves before first after typed (fun l hl => ?_)
      (of_decide_eq_true stops)⟩
    · rw [typed, List.length_append, List.length_cons]
      omega
    · simpa using earlier l hl

/-- One unknown command and the end of the input. -/
theorem endless_after_input :
    ¬ EndsWithInput (literal "status\n") ∧
      commandLoop 4 ⟨literal "status\n", true⟩ [] = none := by
  have none_typed : ∀ line ∈ lines newline (literal "status\n"), ¬ Stops (line.map toLower) := by
    have typed : lines newline (literal "status\n") = [literal "status"] := by decide
    rw [typed, List.forall_mem_singleton]
    decide
  refine ⟨?_, by decide⟩
  rintro ⟨⟨k, left, _, leaves⟩, _⟩
  exact not_leftIn none_typed k left leaves

end CommandLoop
