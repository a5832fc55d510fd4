import Cursov.Console
import Cursov.ServerShutdown

/-!
# The server at its terminal

Behind a `start` over TCP `main` reads commands while the listener and the handlers run.
A command that it does not know is answered with one line; `stop` and `quit`, in any letter
case, call `stop` of the server, and when that returns so does `main`. The destructor finds
the flag cleared then.
-/

namespace ServerProgram

open Bytes Text Transition Progress Terminal
open Console (getline_run_iff)
open CommandLoop (Stops unknownCommand lowered_lowered)
open Server (Fd controlStep)
open ServerShutdown (Steady Released workLeft)

/-- `main` in its loop with the string that it reads into, inside `stop`, or behind it. -/
inductive MainPc where
  | reading (command : ByteString)
  | stopping
  | returned
  deriving DecidableEq

/-- `screen` is what the loop has printed. -/
structure Process where
  main : MainPc
  server : Server.State
  screen : ByteString

abbrev State := Program UInt8 Process

/-- `start` has opened the listening socket under this number. -/
def initial (fd : Fd) : State := .fresh ⟨.reading [], Server.initial.launch fd, []⟩

inductive Action where
  | press (k : Key UInt8)
  | main
  | server (a : Server.Action)

/-- One round of the loop, with what its `getline` has left in the string. -/
def Process.round (p : Process) (read : ByteString) : Option Process :=
  if Stops (read.map toLower) then (controlStep p.server .stop).map fun server =>
    { p with main := .stopping, server := server }
  else some { p with
    main := .reading (read.map toLower)
    screen := p.screen ++ unknownCommand (read.map toLower) }

def mainStep (s : State) : Option State :=
  match s.pc.main with
  | .reading command => ((Console.getline command).run s.source).bind fun ((read, _), source) =>
      (s.pc.round read).map fun pc => { s with source := source, pc := pc }
  | .stopping =>
    if s.pc.server.control = .idle then some { s with pc := { s.pc with main := .returned } }
    else none
  | .returned => none

/-- The calls that only `main` makes. -/
def calls : Server.Action → Bool
  | .control (.start _) => true
  | .control .stop => true
  | _ => false

/-- The threads, and `main` inside `stop`; they are gone when `main` has returned. -/
def serverStep (s : State) (a : Server.Action) : Option State :=
  if s.pc.main = .returned ∨ calls a = true then none
  else (Server.step s.pc.server a).map fun server => { s with pc := { s.pc with server := server } }

def step (s : State) : Action → Option State
  | .press k => s.press k
  | .main => mainStep s
  | .server a => serverStep s a

/-- The lines that can be read by now: those behind which Enter was typed, and what follows
them when the input has ended. -/
def ready (typed : ByteString) (ended : Bool) : List ByteString :=
  if ended then lines newline typed else closed newline typed

theorem ready_append {line : ByteString} (free : newline ∉ line) (rest : ByteString)
    (ended : Bool) : ready (line ++ newline :: rest) ended = line :: ready rest ended := by
  cases ended with
  | true => exact lines_append free rest
  | false => exact closed_append free rest

theorem ready_terminated {taken : List ByteString} (free : ∀ line ∈ taken, newline ∉ line)
    (rest : ByteString) (ended : Bool) :
    ready (terminated newline taken ++ rest) ended = taken ++ ready rest ended := by
  induction taken with
  | nil => rfl
  | cons line later ih =>
    obtain ⟨first, others⟩ := List.forall_mem_cons.mp free
    have text : terminated newline (line :: later) ++ rest =
        line ++ newline :: (terminated newline later ++ rest) := by
      simp [terminated]
    rw [text, ready_append first, ih others, List.cons_append]

theorem ready_of_free {line : ByteString} (free : newline ∉ line) (ended : Bool) :
    ready line ended = if ended = true ∧ line ≠ [] then [line] else [] := by
  cases ended with
  | false => exact closed_of_free free
  | true =>
    by_cases empty : line = []
    · subst empty
      rfl
    · rw [if_pos ⟨rfl, empty⟩]
      exact lines_of_free free empty

def Unknown (line : ByteString) : Prop := ¬ Stops (line.map toLower)

/-- A line that can be read by now calls `stop`. -/
def Commanded (typed : ByteString) (ended : Bool) : Prop :=
  ∃ line ∈ ready typed ended, Stops (line.map toLower)

theorem commanded_terminated {taken : List ByteString} (free : ∀ line ∈ taken, newline ∉ line)
    (unknown : ∀ line ∈ taken, Unknown line) (rest : ByteString) (ended : Bool) :
    Commanded (terminated newline taken ++ rest) ended ↔ Commanded rest ended := by
  rw [Commanded, ready_terminated free]
  constructor
  · rintro ⟨line, mem, stops⟩
    rcases List.mem_append.mp mem with read | unread
    · exact absurd stops (unknown line read)
    · exact ⟨line, unread, stops⟩
  · rintro ⟨line, mem, stops⟩
    exact ⟨line, List.mem_append_right _ mem, stops⟩

/-- A command that has been typed stays one, whatever is typed behind it. -/
theorem Commanded.later {typed : ByteString} (commanded : Commanded typed false)
    (more : ByteString) (ended : Bool) : Commanded (typed ++ more) ended := by
  obtain ⟨line, mem, stops⟩ := commanded
  obtain ⟨last, -, free, split⟩ := exists_closed newline typed
  refine ⟨line, ?_, stops⟩
  rw [split, List.append_assoc, ready_terminated free]
  exact List.mem_append_left _ mem

theorem nonempty_of_stops {line : ByteString} (stops : Stops (line.map toLower)) : line ≠ [] := by
  rintro rfl
  revert stops
  decide

/-- Without Enter behind it a line is read at the end of the input. -/
theorem commanded_of_free {line : ByteString} (free : newline ∉ line) {ended : Bool} :
    Commanded line ended ↔ ended = true ∧ Stops (line.map toLower) := by
  rw [Commanded, ready_of_free free]
  constructor
  · rintro ⟨other, mem, stops⟩
    split at mem
    case isTrue here =>
      rw [List.mem_singleton.mp mem] at stops
      exact ⟨here.1, stops⟩
    case isFalse => cases mem
  · rintro ⟨at_end, stops⟩
    rw [if_pos ⟨at_end, nonempty_of_stops stops⟩]
    exact ⟨line, List.mem_singleton_self line, stops⟩

def answer (line : ByteString) : ByteString := unknownCommand (line.map toLower)

/-- The loop has answered every line that it has read; behind the end of the input it answers
what stands behind the last Enter again and again. -/
inductive Answered (s : State) : Prop where
  | lines (taken : List ByteString) (good : s.source.good = true)
      (free : ∀ line ∈ taken, newline ∉ line) (unknown : ∀ line ∈ taken, Unknown line)
      (split : s.typed = terminated newline taken ++ s.source.pending)
      (shows : s.pc.screen = taken.flatMap answer)
  | again (taken : List ByteString) (last : ByteString) (times : Nat)
      (bad : s.source.good = false) (at_end : s.source.ended = true)
      (free : ∀ line ∈ taken, newline ∉ line) (unknown : ∀ line ∈ taken, Unknown line)
      (one_line : newline ∉ last) (last_unknown : Unknown last)
      (split : s.typed = terminated newline taken ++ last)
      (stale : s.pc.main = .reading (last.map toLower))
      (shows : s.pc.screen = taken.flatMap answer ++
        (List.replicate (times + 1) (answer last)).flatten)

/-- Where `main` stands is what it makes of the lines that it has read. -/
inductive Follows (s : State) : Prop where
  | serves (command : ByteString) (place : s.pc.main = .reading command) (answered : Answered s)
      (running : s.pc.server.isRunning = true)
  | leaves (place : ∀ command, s.pc.main ≠ .reading command)
      (commanded : Commanded s.typed s.source.ended) (stopped : s.pc.server.isRunning = false)
      (idle : s.pc.main = .returned → s.pc.server.control = .idle)

theorem initial_follows (fd : Fd) : Follows (initial fd) :=
  .serves [] rfl (.lines [] rfl (List.forall_mem_nil _) (List.forall_mem_nil _) rfl rfl) rfl

theorem Follows.later {s : State} (h : Follows s) (open_end : s.source.ended = false)
    (typed : ByteString) (ended : Bool) : Follows (s.later typed ended) := by
  cases h with
  | serves command place answered running =>
    refine .serves command place ?_ running
    cases answered with
    | lines taken good free unknown split shows =>
      refine .lines taken good free unknown ?_ shows
      rw [Program.later, Source.later, split, List.append_assoc]
    | again _ _ _ _ at_end =>
      rw [open_end] at at_end
      cases at_end
  | leaves place commanded stopped idle =>
    rw [open_end] at commanded
    exact .leaves place (commanded.later typed ended) stopped idle

/-- The server when `stop` has cleared the flag. -/
def halted (s : Server.State) : Server.State :=
  { s with isRunning := false, control := .closingListener }

theorem controlStop_some_iff {s t : Server.State} : controlStep s .stop = some t ↔
    (s.control = .idle ∧ s.isRunning = true) ∧ t = halted s := by
  rw [controlStep, Option.ite_none_right_eq_some, Option.some.injEq, eq_comm (b := t)]
  rfl

/-- A line calls `stop`, or it is answered. -/
theorem round_some {p q : Process} {read : ByteString} (moved : p.round read = some q) :
    Stops (read.map toLower) ∧ q.main = .stopping ∧ q.screen = p.screen ∧
        controlStep p.server .stop = some q.server ∨
      Unknown read ∧ q = { p with
        main := .reading (read.map toLower)
        screen := p.screen ++ answer read } := by
  rw [Process.round] at moved
  split at moved
  case isTrue stops =>
    obtain ⟨server, stopped, rfl⟩ := Option.map_eq_some_iff.mp moved
    exact Or.inl ⟨stops, rfl, rfl, stopped⟩
  case isFalse unknown =>
    cases moved
    exact Or.inr ⟨unknown, rfl⟩

/-- What `main` can do: a round of its loop, or the return from `stop`. -/
inductive MainEffect (s : State) : State → Prop where
  | rounds (command read : ByteString) (delivered : Bool) (source : Source UInt8) (q : Process)
      (place : s.pc.main = .reading command)
      (reads : (Console.getline command).run s.source = some ((read, delivered), source))
      (moved : s.pc.round read = some q) : MainEffect s { s with source := source, pc := q }
  | returns (place : s.pc.main = .stopping) (idle : s.pc.server.control = .idle) :
      MainEffect s { s with pc := { s.pc with main := .returned } }

theorem mainStep_effect {s t : State} (moved : mainStep s = some t) : MainEffect s t := by
  rw [mainStep] at moved
  cases place : s.pc.main with
  | reading command =>
    rw [place] at moved
    obtain ⟨⟨⟨read, delivered⟩, source⟩, reads, moved⟩ := Option.bind_eq_some_iff.mp moved
    obtain ⟨q, rounds, rfl⟩ := Option.map_eq_some_iff.mp moved
    exact .rounds command read delivered source q place reads rounds
  | stopping =>
    rw [place] at moved
    dsimp only at moved
    rw [Option.ite_none_right_eq_some, Option.some.injEq] at moved
    obtain ⟨idle, rfl⟩ := moved
    exact .returns place idle
  | returned =>
    rw [place] at moved
    cases moved

theorem reading_follows {s : State} {command : ByteString} (answered : Answered s)
    {read : ByteString} {delivered : Bool} {source : Source UInt8} {q : Process}
    (place : s.pc.main = .reading command) (running : s.pc.server.isRunning = true)
    (reads : (Console.getline command).run s.source = some ((read, delivered), source))
    (rounds : s.pc.round read = some q) : Follows { s with source := source, pc := q } := by
  have leaves : ∀ {source : Source UInt8}, Commanded s.typed source.ended → q.main = .stopping →
      controlStep s.pc.server .stop = some q.server →
      Follows { s with source := source, pc := q } := by
    intro source commanded stopping stopped
    refine .leaves (fun _ reading => ?_) commanded ?_ fun returned => ?_
    · rw [show q.main = _ from reading] at stopping
      cases stopping
    · exact (controlStop_some_iff.mp stopped).2 ▸ rfl
    · rw [show q.main = _ from returned] at stopping
      cases stopping
  cases answered with
  | lines taken good free unknown split shows =>
    obtain ⟨one_line, ⟨rest, shape, -, rfl⟩ | ⟨shape, at_end, -, rfl⟩⟩ :=
      (getline_run_iff good).mp reads
    · rcases round_some rounds with ⟨stops, stopping, -, stopped⟩ | ⟨other, rfl⟩
      · refine leaves ?_ stopping stopped
        rw [split, shape, commanded_terminated free unknown, Commanded, ready_append one_line]
        exact ⟨read, List.mem_cons_self, stops⟩
      · refine .serves _ rfl (.lines (taken ++ [read]) good ?_ ?_ ?_ ?_) running
        · simpa [or_imp, forall_and] using ⟨free, one_line⟩
        · simpa [or_imp, forall_and] using ⟨unknown, other⟩
        · rw [terminated_snoc, split, shape]
          simp
        · simp [shows]
    · rcases round_some rounds with ⟨stops, stopping, -, stopped⟩ | ⟨other, rfl⟩
      · refine leaves ?_ stopping stopped
        rw [split, shape, commanded_terminated free unknown, commanded_of_free one_line]
        exact ⟨at_end, stops⟩
      · refine .serves _ rfl (.again taken read 0 rfl at_end free unknown one_line other ?_ rfl ?_)
          running
        · rw [split, shape]
        · simp [shows]
  | again taken last times bad at_end free unknown one_line last_unknown split stale shows =>
    rw [place, MainPc.reading.injEq] at stale
    subst stale
    rw [Console.getline, ifGood_run_spoilt bad] at reads
    cases reads
    rcases round_some rounds with ⟨stops, -⟩ | ⟨-, rfl⟩
    · rw [lowered_lowered] at stops
      exact absurd stops last_unknown
    · refine .serves _ rfl (.again taken last (times + 1) bad at_end free unknown one_line
        last_unknown split (by rw [lowered_lowered]) ?_) running
      rw [List.replicate_succ', List.flatten_append, List.flatten_singleton, ← List.append_assoc,
        ← shows, answer, lowered_lowered]
      rfl

/-- Nothing but `stop` clears the flag. -/
theorem running_kept {s t : Server.State} {a : Server.Action} (other : calls a = false)
    (moved : Server.step s a = some t) : t.isRunning = s.isRunning := by
  cases a with
  | control a =>
    cases Server.controlStep_effect moved with
    | start | stop => cases other
    | _ => rfl
  | listener a => cases Server.listenerStep_effect moved <;> rfl
  | handler c a =>
    obtain ⟨k, _, effect⟩ := Server.handlerStep_effect moved
    cases effect <;> rfl

theorem serverStep_some {s t : State} {a : Server.Action} (moved : serverStep s a = some t) :
    s.pc.main ≠ .returned ∧ calls a = false ∧ ∃ server, Server.step s.pc.server a = some server ∧
      t = { s with pc := { s.pc with server := server } } := by
  rw [serverStep, Option.ite_none_left_eq_some, not_or, Bool.not_eq_true] at moved
  obtain ⟨⟨alive, other⟩, moved⟩ := moved
  obtain ⟨server, steps, rfl⟩ := Option.map_eq_some_iff.mp moved
  exact ⟨alive, other, server, steps, rfl⟩

theorem server_follows {s t : State} {a : Server.Action} (h : Follows s)
    (moved : serverStep s a = some t) : Follows t := by
  obtain ⟨alive, other, server, steps, rfl⟩ := serverStep_some moved
  have kept := running_kept other steps
  cases h with
  | serves command place answered running =>
    refine .serves command place ?_ (kept.trans running)
    cases answered with
    | lines taken good free unknown split shows => exact .lines taken good free unknown split shows
    | again taken last times bad at_end free unknown one_line last_unknown split stale shows =>
      exact .again taken last times bad at_end free unknown one_line last_unknown split stale shows
  | leaves place commanded stopped idle =>
    exact .leaves place commanded (kept.trans stopped) fun returned => absurd returned alive

theorem main_follows {s t : State} (h : Follows s) (moved : mainStep s = some t) : Follows t := by
  cases mainStep_effect moved with
  | rounds command read delivered source q place reads rounds =>
    cases h with
    | serves _ _ answered running => exact reading_follows answered place running reads rounds
    | leaves elsewhere => exact absurd place (elsewhere command)
  | returns place idle =>
    cases h with
    | serves command reading => cases place.symm.trans reading
    | leaves _ commanded stopped _ => exact .leaves (fun _ => nofun) commanded stopped fun _ => idle

theorem step_follows (s : State) (a : Action) (t : State) (h : Follows s)
    (moved : step s a = some t) : Follows t := by
  cases a with
  | press k =>
    obtain ⟨open_end, typed, ended, rfl⟩ := Program.press_some moved
    exact h.later open_end typed ended
  | main => exact main_follows h moved
  | server a => exact server_follows h moved

theorem reachable_follows {fd : Fd} {s : State} (reachable : Reachable step (initial fd) s) :
    Follows s := reachable_invariant step_follows (initial_follows fd) reachable

theorem step_server (s : State) (a : Action) (t : State) (moved : step s a = some t) :
    t.pc.server = s.pc.server ∨ ∃ b, Server.step s.pc.server b = some t.pc.server := by
  cases a with
  | press k =>
    obtain ⟨_, typed, ended, rfl⟩ := Program.press_some moved
    exact Or.inl rfl
  | server a =>
    obtain ⟨_, _, server, steps, rfl⟩ := serverStep_some moved
    exact Or.inr ⟨a, steps⟩
  | main =>
    cases mainStep_effect moved with
    | rounds _ _ _ _ q _ _ rounds =>
      rcases round_some rounds with ⟨-, -, -, stopped⟩ | ⟨-, rfl⟩
      · exact Or.inr ⟨.control .stop, stopped⟩
      · exact Or.inl rfl
    | returns => exact Or.inl rfl

theorem reachable_server {fd : Fd} {s : State} (reachable : Reachable step (initial fd) s) :
    Reachable Server.step Server.initial s.pc.server := by
  obtain ⟨actions, path⟩ := reachable.followed (fun s => s.pc.server) step_server
  exact ⟨.control (.start fd) :: actions, run_cons_iff.mpr ⟨_, rfl, path⟩⟩

/-- The program as long as nothing is typed. -/
def withoutKeys (s : State) : Action → Option State
  | .press _ => none
  | a => step s a

theorem withoutKeys_some {s t : State} {a : Action} (moved : withoutKeys s a = some t) :
    step s a = some t ∧ ∀ k, a ≠ .press k := by
  unfold withoutKeys at moved
  split at moved
  · cases moved
  · rename_i other
    exact ⟨moved, other⟩

theorem text_kept {s t : State} {a : Action} (moved : withoutKeys s a = some t) :
    t.typed = s.typed ∧ t.source.ended = s.source.ended := by
  obtain ⟨moved, other⟩ := withoutKeys_some moved
  cases a with
  | press k => exact absurd rfl (other k)
  | server a =>
    obtain ⟨_, _, server, steps, rfl⟩ := serverStep_some moved
    exact ⟨rfl, rfl⟩
  | main =>
    cases mainStep_effect moved with
    | rounds command _ _ _ _ _ reads => exact ⟨rfl, (Console.steady_getline command _ _ _ reads).1⟩
    | returns => exact ⟨rfl, rfl⟩

/-- A command can be read that has not been read, or `main` has left the loop at one. -/
structure Leaving (s : State) : Prop where
  steady : Steady s.pc.server
  follows : Follows s
  commanded : Commanded s.typed s.source.ended

theorem step_leaving (s : State) (a : Action) (t : State) (h : Leaving s)
    (moved : withoutKeys s a = some t) : Leaving t := by
  obtain ⟨typed, ended⟩ := text_kept moved
  obtain ⟨steps, -⟩ := withoutKeys_some moved
  refine ⟨?_, step_follows s a t h.follows steps, by rw [typed, ended]; exact h.commanded⟩
  rcases step_server s a t steps with same | ⟨b, steps⟩
  · rw [same]
    exact h.steady
  · exact ServerShutdown.step_steady _ b _ h.steady steps

/-- The rounds of the loop that are left, and the return. -/
def roundsLeft (s : State) : Nat :=
  match s.pc.main with
  | .reading _ => (ready s.source.pending s.source.ended).length + 1
  | .stopping => 1
  | .returned => 0

def mainPrice : Action → Nat
  | .main => 1
  | _ => 0

/-- While a command is there to be read, the loop reads line by line and can always go on. -/
theorem Leaving.unread {s : State} (h : Leaving s) {command : ByteString}
    (place : s.pc.main = .reading command) : s.source.good = true ∧
      Commanded s.source.pending s.source.ended ∧ s.pc.server.isRunning = true := by
  have commanded := h.commanded
  cases h.follows with
  | leaves elsewhere => exact absurd place (elsewhere command)
  | serves _ _ answered running =>
    cases answered with
    | lines taken good free unknown split shows =>
      rw [split, commanded_terminated free unknown] at commanded
      exact ⟨good, commanded, running⟩
    | again taken last times bad at_end free unknown one_line last_unknown split =>
      rw [split, commanded_terminated free unknown, commanded_of_free one_line] at commanded
      exact absurd commanded.2 last_unknown

theorem main_left {s t : State} (h : Leaving s) (moved : mainStep s = some t) :
    roundsLeft t + 1 ≤ roundsLeft s := by
  cases mainStep_effect moved with
  | returns place => simp only [roundsLeft, place, le_refl]
  | rounds command read delivered source q place reads rounds =>
    obtain ⟨good, commanded, -⟩ := h.unread place
    obtain ⟨one_line, ⟨rest, shape, -, rfl⟩ | ⟨shape, at_end, -, rfl⟩⟩ :=
      (getline_run_iff good).mp reads
    · have shorter : (ready s.source.pending s.source.ended).length =
          (ready rest s.source.ended).length + 1 := by
        rw [shape, ready_append one_line, List.length_cons]
      rcases round_some rounds with ⟨-, stopping, -⟩ | ⟨-, rfl⟩
      · simp only [roundsLeft, place, stopping]
        omega
      · simp only [roundsLeft, place]
        omega
    · rw [shape, commanded_of_free one_line] at commanded
      rcases round_some rounds with ⟨-, stopping, -⟩ | ⟨unknown, -⟩
      · have last : (ready s.source.pending s.source.ended).length ≠ 0 := by
          rw [shape, ready_of_free one_line, if_pos ⟨at_end, nonempty_of_stops commanded.2⟩]
          exact Nat.one_ne_zero
        simp only [roundsLeft, place, stopping]
        omega
      · exact absurd commanded.2 unknown

theorem step_rounds (s : State) (a : Action) (t : State) (h : Leaving s)
    (moved : withoutKeys s a = some t) : roundsLeft t + mainPrice a ≤ roundsLeft s := by
  obtain ⟨moved, other⟩ := withoutKeys_some moved
  cases a with
  | press k => exact absurd rfl (other k)
  | main => exact main_left h moved
  | server a =>
    obtain ⟨_, _, server, steps, rfl⟩ := serverStep_some moved
    exact le_rfl

/-- The steps to the return if nobody but `main` moves until `stop` is called. -/
def stepsLeft (s : State) : Nat :=
  match s.pc.main with
  | .reading _ => roundsLeft s + 1 + workLeft (halted s.pc.server)
  | .stopping => 1 + workLeft s.pc.server
  | .returned => 0

theorem reading_goes_on {s : State} (h : Leaving s) {command : ByteString}
    (place : s.pc.main = .reading command) :
    ∃ t, mainStep s = some t ∧ stepsLeft t < stepsLeft s := by
  obtain ⟨good, commanded, running⟩ := h.unread place
  have idle := h.steady.staged.running running
  obtain ⟨read, delivered, source, reads⟩ : ∃ read delivered source,
      (Console.getline command).run s.source = some ((read, delivered), source) := by
    by_cases present : newline ∈ s.source.pending
    · obtain ⟨line, rest, shape, free⟩ := List.eq_append_cons_of_mem present
      exact ⟨line, true, _, (getline_run_iff good).mpr ⟨free, Or.inl ⟨rest, shape, rfl, rfl⟩⟩⟩
    · have at_end := ((commanded_of_free present).mp commanded).1
      exact ⟨s.source.pending, _, _,
        (getline_run_iff good).mpr ⟨present, Or.inr ⟨rfl, at_end, rfl, rfl⟩⟩⟩
  have stops : controlStep s.pc.server .stop = some (halted s.pc.server) :=
    controlStop_some_iff.mpr ⟨⟨idle, running⟩, rfl⟩
  have moved : ∃ q, s.pc.round read = some q := by
    rw [Process.round]
    split
    · exact ⟨_, by rw [stops]; rfl⟩
    · exact ⟨_, rfl⟩
  obtain ⟨q, rounds⟩ := moved
  have moved : mainStep s = some { s with source := source, pc := q } := by
    simp only [mainStep, place, reads, Option.bind_some, rounds, Option.map_some]
  refine ⟨_, moved, ?_⟩
  have fewer := main_left h moved
  rcases round_some rounds with ⟨-, stopping, -, stopped⟩ | ⟨-, rfl⟩
  · rw [stops, Option.some.injEq] at stopped
    simp only [stepsLeft, stopping, place, ← stopped]
    omega
  · simp only [stepsLeft, place]
    omega

theorem stopping_goes_on {s : State} (h : Leaving s) (place : s.pc.main = .stopping) :
    ∃ a t, withoutKeys s a = some t ∧ stepsLeft t < stepsLeft s := by
  have stopped : s.pc.server.isRunning = false := by
    cases h.follows with
    | serves command reading =>
      rw [place] at reading
      cases reading
    | leaves _ _ stopped => exact stopped
  by_cases idle : s.pc.server.control = .idle
  · refine ⟨.main, { s with pc := { s.pc with main := .returned } }, ?_, ?_⟩
    · simp only [withoutKeys, step, mainStep, place, if_pos idle]
    · simp only [stepsLeft, place]
      omega
  · obtain ⟨a, moves⟩ := ServerShutdown.control_moves h.steady idle
    obtain ⟨server, moved⟩ := Option.isSome_iff_exists.mp moves
    obtain ⟨steps, other⟩ := ServerShutdown.withoutStart_some moved
    have silent : calls a = false := by
      cases a with
      | control a =>
        cases a with
        | start fd => exact absurd rfl (other fd)
        | stop => exact absurd (controlStop_some_iff.mp steps).1.1 idle
        | _ => rfl
      | _ => rfl
    have closer := ServerShutdown.step_left _ a _ ⟨h.steady, stopped⟩ moved
    refine ⟨.server a, { s with pc := { s.pc with server := server } }, ?_, ?_⟩
    · change serverStep s a = _
      rw [serverStep, place, silent, if_neg (by simp), steps]
      rfl
    · simp only [stepsLeft, place]
      omega

theorem leaving_returns {s : State} (h : Leaving s) :
    ∃ actions t, run withoutKeys s actions = some t ∧ t.pc.main = .returned := by
  refine @exists_run_to_end _ _ _ Leaving stepsLeft (fun s => s.pc.main = .returned)
    step_leaving (fun s leaving unfinished => ?_) s h
  cases place : s.pc.main with
  | returned => exact absurd place unfinished
  | stopping => exact stopping_goes_on leaving place
  | reading command =>
    obtain ⟨t, moved, closer⟩ := reading_goes_on leaving place
    exact ⟨.main, t, moved, closer⟩

/-- What `main` does with what has been typed, at any time. -/
structure Obeys (s : State) : Prop where
  serves : s.pc.server.isRunning = true ∨ Commanded s.typed s.source.ended
  answered : s.pc.server.isRunning = true → Answered s
  returns : (∃ actions t, run withoutKeys s actions = some t ∧ t.pc.main = .returned) ↔
    Commanded s.typed s.source.ended
  prompt : Commanded s.typed s.source.ended → ∀ actions t, run withoutKeys s actions = some t →
    cost mainPrice actions ≤ (ready s.source.pending s.source.ended).length + 1
  released : s.pc.main = .returned → Released s.pc.server

theorem roundsLeft_le (s : State) :
    roundsLeft s ≤ (ready s.source.pending s.source.ended).length + 1 := by
  rw [roundsLeft]
  split <;> omega

/-- Nothing that has not been typed makes `main` return. -/
theorem commanded_of_returned {s t : State} {actions : List Action} (h : Follows s)
    (path : run withoutKeys s actions = some t) (returned : t.pc.main = .returned) :
    Commanded s.typed s.source.ended := by
  let Kept (u : State) : Prop :=
    (u.typed = s.typed ∧ u.source.ended = s.source.ended) ∧ Follows u
  have step_kept : ∀ u a v, Kept u → withoutKeys u a = some v → Kept v := by
    rintro u a v ⟨⟨typed, ended⟩, follows⟩ moved
    obtain ⟨typed', ended'⟩ := text_kept moved
    exact ⟨⟨typed'.trans typed, ended'.trans ended⟩,
      step_follows u a v follows (withoutKeys_some moved).1⟩
  obtain ⟨⟨typed, ended⟩, follows⟩ := run_invariant step_kept ⟨⟨rfl, rfl⟩, h⟩ path
  cases follows with
  | serves command reading =>
    rw [returned] at reading
    cases reading
  | leaves _ commanded =>
    rw [typed, ended] at commanded
    exact commanded

/-- However the typing and the threads fall between its rounds: without a command the server
runs and every line is answered; with one `main` can return, and in every schedule it comes
there in a round for each line. -/
theorem obeys_what_is_typed {fd : Fd} {s : State} (reachable : Reachable step (initial fd) s) :
    Obeys s := by
  have steady := ServerShutdown.reachable_steady (reachable_server reachable)
  have follows := reachable_follows reachable
  have returns : (∃ actions t, run withoutKeys s actions = some t ∧ t.pc.main = .returned) ↔
      Commanded s.typed s.source.ended := by
    constructor
    · rintro ⟨actions, t, path, returned⟩
      exact commanded_of_returned follows path returned
    · exact fun commanded => leaving_returns ⟨steady, follows, commanded⟩
  have prompt : Commanded s.typed s.source.ended → ∀ actions t,
      run withoutKeys s actions = some t →
        cost mainPrice actions ≤ (ready s.source.pending s.source.ended).length + 1 := by
    intro commanded actions t path
    have paid := @run_cost_le _ _ _ Leaving roundsLeft mainPrice step_leaving step_rounds _ _ _
      ⟨steady, follows, commanded⟩ path
    have limit := roundsLeft_le s
    omega
  cases follows with
  | serves command reading answered running =>
    refine ⟨Or.inl running, fun _ => answered, returns, prompt, fun returned => ?_⟩
    rw [returned] at reading
    cases reading
  | leaves _ commanded stopped idle =>
    refine ⟨Or.inr commanded, fun running => ?_, returns, prompt, fun returned =>
      steady.released stopped (idle returned)⟩
    rw [stopped] at running
    cases running

/-- One command that is not known and one in capitals, typed in advance. -/
def typedAhead : ByteString := literal "help\nQUIT\n"

def quitting : List Action :=
  [.main, .main, .server (.control .closeListener), .server (.listener .test),
    .server (.control .join), .server (.control .clearClients), .main]

theorem obeys_what_is_typed_quitting :
    ∃ s, Reachable step (initial 3) s ∧ s.pc.main = .returned ∧
      s.pc.screen = unknownCommand (literal "help") ∧ Obeys s := by
  have typed := Program.reachable_fresh step .press (fun _ _ => rfl)
    ⟨.reading [], Server.initial.launch 3, []⟩ typedAhead false
  obtain ⟨s, path, returned, shown⟩ :
      ∃ s, run step ⟨typedAhead, Source.text typedAhead false,
          ⟨.reading [], Server.initial.launch 3, []⟩⟩ quitting = some s ∧
        s.pc.main = .returned ∧ s.pc.screen = unknownCommand (literal "help") :=
    ⟨_, rfl, rfl, rfl⟩
  have reached : Reachable step (initial 3) s := by
    obtain ⟨before, path'⟩ := typed
    exact ⟨_, run_append_iff.mpr ⟨_, path', path⟩⟩
  exact ⟨s, reached, returned, shown, obeys_what_is_typed reached⟩

end ServerProgram
