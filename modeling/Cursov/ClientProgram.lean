import Cursov.ClientSession
import Cursov.ClientStartup
import Cursov.Console

/-!
# The client at its terminal

`main` asks for a choice, skips one byte behind the number, reads one line for the
configuration and calls `run`; what is typed from there on are messages. Every read takes
what has been typed by then, and the receiver thread runs beside the message loop.
-/

namespace ClientProgram

open Bytes Text Transition Terminal Console
open ClientConfig (Client)

/-- What `main` finds: the files that can be read, the outcomes of the calls in `run`, what
the constructor leaves in the fields, and what is in variables without an initialiser. The
protocol that the constructor leaves is taken to be one of the two. -/
structure Machine where
  files : ByteString → Option ByteString
  attempt : ClientLifecycle.Attempt
  fresh : Client
  uninitialised : Int
  buffer : ByteString

/-- `main` at its questions, in the message loop and behind it, or out of it early. `msg` is
the string that the loop reads into. -/
inductive Pc where
  | choosing
  | ignoring (choice : Int)
  | configuring (choice : Int)
  | session (client : Client) (s : ClientSession.Session) (msg : ByteString)
  | left (startup : ClientStartup.Startup)

abbrev State := Program UInt8 Pc

def initial : State := .fresh .choosing

inductive Action where
  | press (k : Key UInt8)
  | main
  | other (a : ClientSession.Action)

/-- Behind the configuration `run` is called, or nothing catches an exception. -/
def startUp (m : Machine) (choice : Int) (line : ByteString) : Pc :=
  match ClientStartup.main m.fresh choice line m.files with
  | .ran client => .session client (ClientSession.start client.protocol m.attempt m.buffer) []
  | startup => .left startup

/-- What the condition of the message loop makes of a `getline`. -/
def lineAction (line : ByteString) (delivered : Bool) : ClientSession.Action :=
  if delivered then .line line else .endOfInput

def mainStep (m : Machine) (s : State) : Option State :=
  match s.pc with
  | .choosing => ((extractInt m.uninitialised).run s.source).map fun (choice, source) =>
      { s with source := source, pc := .ignoring choice }
  | .ignoring choice => (ignore.run s.source).map fun (_, source) =>
      { s with
        source := source
        pc := if choice = 1 ∨ choice = 2 then .configuring choice
          else .left (ClientStartup.main m.fresh choice [] m.files) }
  | .configuring choice => ((Console.getline []).run s.source).map fun ((line, _), source) =>
      { s with source := source, pc := startUp m choice line }
  | .session client session msg =>
    if session.main = .reading then
      ((Console.getline msg).run s.source).bind fun ((line, delivered), source) =>
        (ClientSession.step session (lineAction line delivered)).map fun session =>
          { s with source := source, pc := .session client session line }
    else (ClientSession.step session .main).map fun session =>
      { s with pc := .session client session msg }
  | .left _ => none

def otherStep (s : State) (a : ClientSession.Action) : Option State :=
  match s.pc with
  | .session client session msg =>
    match a with
    | .line _ | .endOfInput | .main => none
    | a => (ClientSession.step session a).map fun session =>
      { s with pc := .session client session msg }
  | _ => none

def step (m : Machine) (s : State) : Action → Option State
  | .press k => s.press k
  | .main => mainStep m s
  | .other a => otherStep s a

def exitMessage : ByteString := literal "exit"

/-- The lines of a text up to the one that ends the loop. -/
def messages (text : ByteString) : List ByteString :=
  (lines newline text).takeWhile fun line => line ≠ exitMessage

/-- The lines in the record are those in the text behind the configuration: all so far, or
all before `exit`, or all before the end of the input. A stream that was not good by then
delivers none. -/
inductive Taken (answered source : Source UInt8) (taken : List ByteString) (serving : Bool) :
    Prop where
  | spoilt (bad : answered.good = false) (unread : source = answered) (none : taken = [])
  | serving (sound : answered.good = true) (good : source.good = true) (serves : serving = true)
      (free : ∀ line ∈ taken, newline ∉ line) (stays : ∀ line ∈ taken, line ≠ exitMessage)
      (split : answered.pending = terminated newline taken ++ source.pending)
  | exited (sound : answered.good = true) (stopped : serving = false) (after : ByteString)
      (free : ∀ line ∈ taken, newline ∉ line) (stays : ∀ line ∈ taken, line ≠ exitMessage)
      (split : answered.pending = terminated newline taken ++ (exitMessage ++ newline :: after))
  | finished (sound : answered.good = true) (at_end : answered.ended = true)
      (bad : source.good = false) (all : taken = messages answered.pending)

theorem messages_terminated {taken : List ByteString} (free : ∀ line ∈ taken, newline ∉ line)
    (stays : ∀ line ∈ taken, line ≠ exitMessage) (rest : ByteString) :
    messages (terminated newline taken ++ rest) = taken ++ messages rest := by
  rw [messages, messages, lines_terminated_append free]
  exact List.takeWhile_append_of_pos fun line mem => decide_eq_true (stays line mem)

theorem messages_exit (after : ByteString) : messages (exitMessage ++ newline :: after) = [] := by
  have free : newline ∉ exitMessage := by decide
  rw [messages, lines_append free]
  exact List.takeWhile_cons_of_neg (by simp)

theorem Taken.prefix_messages {answered source : Source UInt8} {taken : List ByteString}
    {serving : Bool} (h : Taken answered source taken serving) :
    taken <+: messages answered.pending := by
  cases h with
  | spoilt _ _ none => exact none ▸ List.nil_prefix
  | serving _ _ _ free stays split =>
    rw [split, messages_terminated free stays]
    exact List.prefix_append _ _
  | exited _ _ after free stays split =>
    rw [split, messages_terminated free stays]
    exact List.prefix_append _ _
  | finished _ _ _ all => exact all ▸ List.prefix_rfl

/-- Once the loop has been left, everything it was to send has been taken. -/
theorem Taken.eq_messages {answered source : Source UInt8} {taken : List ByteString}
    (h : Taken answered source taken false) (sound : answered.good = true) :
    taken = messages answered.pending := by
  cases h with
  | spoilt bad => rw [sound] at bad; cases bad
  | serving _ _ serves => cases serves
  | exited _ _ after free stays split =>
    rw [split, messages_terminated free stays, messages_exit, List.append_nil]
  | finished _ _ _ all => exact all

theorem Taken.later {answered source : Source UInt8} {taken : List ByteString} {serving : Bool}
    (h : Taken answered source taken serving) (open_end : answered.ended = false)
    (typed : ByteString) (ended : Bool) :
    Taken (answered.later typed ended) (source.later typed ended) taken serving := by
  cases h with
  | spoilt bad unread none => exact .spoilt bad (unread ▸ rfl) none
  | serving sound good serves free stays split =>
    refine .serving sound good serves free stays ?_
    rw [Source.later, split, List.append_assoc]
    rfl
  | exited sound stopped after free stays split =>
    refine .exited sound stopped (after ++ typed) free stays ?_
    rw [Source.later, split]
    simp
  | finished _ at_end => rw [open_end] at at_end; cases at_end

theorem receive_kept (s : ClientSession.Session) (r : ClientSession.Received) :
    (s.receive r).typed = s.typed ∧ (s.receive r).main = s.main := by
  rw [ClientSession.Session.receive]
  cases s.protocol with
  | tcp =>
    rcases r with chunk | errno | errno
    · exact ⟨rfl, rfl⟩
    · exact ⟨rfl, rfl⟩
    · cases errno <;> exact ⟨rfl, rfl⟩
  | udp =>
    rcases r with chunk | errno | errno
    · exact ⟨rfl, rfl⟩
    · cases errno <;> exact ⟨rfl, rfl⟩
    · cases errno <;> exact ⟨rfl, rfl⟩

/-- Between two lines neither the record nor the loop changes. -/
theorem session_other {s t : ClientSession.Session} {a : ClientSession.Action}
    (moved : ClientSession.step s a = some t)
    (other : (∀ line, a ≠ .line line) ∧ a ≠ .endOfInput) :
    t.typed = s.typed ∧ t.main.serving = s.main.serving := by
  cases a with
  | line message => exact absurd rfl (other.1 message)
  | endOfInput => exact absurd rfl other.2
  | send taken =>
    rw [ClientSession.step, ClientSession.Session.sendStep] at moved
    cases place : s.main <;> rw [place] at moved <;> cases moved
    exact ⟨rfl, rfl⟩
  | brokenPipe =>
    rw [ClientSession.step] at moved
    cases place : s.main <;> rw [place] at moved
    case sending message =>
      rw [Option.ite_none_right_eq_some] at moved
      cases moved.2
      exact ⟨rfl, rfl⟩
    all_goals cases moved
  | main =>
    rw [ClientSession.step, ClientSession.Session.mainStep] at moved
    cases place : s.main <;> rw [place] at moved
    case joining =>
      rw [Option.ite_none_right_eq_some] at moved
      cases moved.2
      exact ⟨rfl, rfl⟩
    case closing =>
      cases moved
      exact ⟨rfl, rfl⟩
    all_goals cases moved
  | receiver =>
    rw [ClientSession.step, Option.ite_none_right_eq_some] at moved
    obtain ⟨-, moved⟩ := moved
    rw [ClientSession.Session.receiverStep] at moved
    cases place : s.receiver <;> rw [place] at moved <;> cases moved <;> exact ⟨rfl, rfl⟩
  | receive r =>
    rw [ClientSession.step, Option.ite_none_right_eq_some] at moved
    obtain ⟨-, moved⟩ := moved
    cases moved
    obtain ⟨typed, main⟩ := receive_kept s r
    exact ⟨typed, by rw [main]⟩

theorem session_line {s t : ClientSession.Session} {line : ByteString}
    (moved : ClientSession.step s (.line line) = some t) :
    line = exitMessage ∧ t.typed = s.typed ∧ t.main.serving = false ∨
      line ≠ exitMessage ∧ t.typed = s.typed ++ [line] ∧ t.main.serving = true := by
  rw [ClientSession.step, Option.ite_none_right_eq_some, Option.some.injEq] at moved
  obtain ⟨reading, rfl⟩ := moved
  rw [ClientSession.Session.readLine]
  by_cases leaves : line = literal "exit"
  · rw [if_pos leaves]
    exact Or.inl ⟨leaves, rfl, rfl⟩
  · rw [if_neg leaves]
    refine Or.inr ⟨leaves, ?_⟩
    split
    · exact ⟨rfl, rfl⟩
    · exact ⟨rfl, by rw [reading]; rfl⟩

theorem session_endOfInput {s t : ClientSession.Session}
    (moved : ClientSession.step s .endOfInput = some t) :
    t.typed = s.typed ∧ t.main.serving = false := by
  rw [ClientSession.step, Option.ite_none_right_eq_some, Option.some.injEq] at moved
  obtain ⟨_, rfl⟩ := moved
  exact ⟨rfl, rfl⟩

/-- One round of the message loop. -/
theorem Taken.round {answered source next : Source UInt8} {s t : ClientSession.Session}
    {msg line : ByteString} {delivered : Bool}
    (h : Taken answered source s.typed s.main.serving)
    (ended : source.ended = answered.ended) (reading : s.main = .reading)
    (read : (Console.getline msg).run source = some ((line, delivered), next))
    (moved : ClientSession.step s (lineAction line delivered) = some t) :
    Taken answered next t.typed t.main.serving := by
  have undelivered : source.good = false → next = source ∧ t.typed = s.typed ∧
      t.main.serving = false := by
    intro bad
    rw [Console.getline, ifGood_run_spoilt bad] at read
    cases read
    exact ⟨rfl, session_endOfInput moved⟩
  cases h with
  | spoilt bad unread none =>
    obtain ⟨rfl, typed, -⟩ := undelivered (unread ▸ bad)
    exact .spoilt bad unread (typed.trans none)
  | exited _ stopped =>
    rw [reading] at stopped
    cases stopped
  | finished sound at_end bad all =>
    obtain ⟨rfl, typed, -⟩ := undelivered bad
    exact .finished sound at_end bad (typed.trans all)
  | serving sound good serves free stays split =>
    obtain ⟨one_line, ⟨rest, shape, rfl, rfl⟩ | ⟨shape, at_end, rfl, rfl⟩⟩ :=
      (getline_run_iff good).mp read
    · rcases session_line moved with ⟨rfl, typed, stops⟩ | ⟨other, typed, goes_on⟩
      · rw [typed, stops]
        exact .exited sound rfl rest free stays (split.trans (by rw [shape]))
      · rw [typed, goes_on]
        refine .serving sound good rfl ?_ ?_ ?_
        · simpa [or_imp, forall_and] using ⟨free, one_line⟩
        · simpa [or_imp, forall_and] using ⟨stays, other⟩
        · rw [terminated_snoc, split, shape]
          simp
    · refine .finished sound (ended ▸ at_end) rfl ?_
      rw [split, shape, messages_terminated free stays]
      by_cases empty : line = []
      · subst empty
        rw [(session_endOfInput moved).1]
        exact (List.append_nil _).symm
      · rw [lineAction, decide_eq_true empty, if_pos rfl] at moved
        rw [messages, lines_of_free one_line empty]
        rcases session_line moved with ⟨rfl, typed, _⟩ | ⟨other, typed, _⟩
        · rw [typed, List.takeWhile_cons_of_neg (by simp), List.append_nil]
        · rw [typed, List.takeWhile_cons_of_pos (by simpa using other), List.takeWhile_nil]

/-- The reads before the message loop, as they would be answered by the whole text at once. -/
def chooses (m : Machine) : Read UInt8 Int := do
  let choice ← extractInt m.uninitialised
  ignore
  pure choice

def configures (m : Machine) : Read UInt8 (Int × ByteString) := do
  let choice ← chooses m
  let (line, _) ← Console.getline []
  pure (choice, line)

theorem steady_chooses (m : Machine) : Steady (chooses m) :=
  (steady_extractInt _).bind fun choice => steady_ignore.bind fun _ => .pure choice

theorem steady_configures (m : Machine) : Steady (configures m) :=
  (steady_chooses m).bind fun _ => (steady_getline []).bind fun _ => .pure _

/-- Where `main` stands is what it makes of the text typed so far. -/
inductive Follows (m : Machine) (s : State) : Prop where
  | choosing (place : s.pc = .choosing) (unread : s.source = s.text)
  | ignoring (choice : Int) (place : s.pc = .ignoring choice)
      (read : (extractInt m.uninitialised).run s.text = some (choice, s.source))
  | configuring (choice : Int) (place : s.pc = .configuring choice)
      (offered : choice = 1 ∨ choice = 2) (read : (chooses m).run s.text = some (choice, s.source))
  | session (choice : Int) (line : ByteString) (client : Client) (session : ClientSession.Session)
      (msg : ByteString) (answered : Source UInt8) (place : s.pc = .session client session msg)
      (offered : choice = 1 ∨ choice = 2)
      (read : (configures m).run s.text = some ((choice, line), answered))
      (starts : ClientStartup.main m.fresh choice line m.files = .ran client)
      (reachable : Reachable ClientSession.step
        (ClientSession.start client.protocol m.attempt m.buffer) session)
      (taken : Taken answered s.source session.typed session.main.serving)
  | left (startup : ClientStartup.Startup) (place : s.pc = .left startup)

/-- In the message loop and behind it the configuration has been read and `run` begun. -/
theorem Follows.of_session {m : Machine} {s : State} {client : Client}
    {session : ClientSession.Session} {msg : ByteString} (h : Follows m s)
    (place : s.pc = .session client session msg) : ∃ choice line answered,
      (choice = 1 ∨ choice = 2) ∧
        (configures m).run s.text = some ((choice, line), answered) ∧
        ClientStartup.main m.fresh choice line m.files = .ran client ∧
        Reachable ClientSession.step (ClientSession.start client.protocol m.attempt m.buffer)
          session ∧ Taken answered s.source session.typed session.main.serving := by
  cases h with
  | choosing place' => cases place.symm.trans place'
  | ignoring _ place' => cases place.symm.trans place'
  | configuring _ place' => cases place.symm.trans place'
  | left _ place' => cases place.symm.trans place'
  | session choice line client session msg answered place' offered read starts reachable taken =>
    cases place.symm.trans place'
    exact ⟨choice, line, answered, offered, read, starts, reachable, taken⟩

theorem Follows.later {m : Machine} {s : State} (h : Follows m s)
    (open_end : s.source.ended = false) (typed : ByteString) (ended : Bool) :
    Follows m (s.later typed ended) := by
  cases h with
  | choosing place unread =>
    refine .choosing place ?_
    rw [Program.text_later_eq open_end, ← unread]
    rfl
  | ignoring choice place read =>
    exact .ignoring choice place
      (Program.reads_later (steady_extractInt _) read open_end typed ended)
  | configuring choice place offered read =>
    exact .configuring choice place offered
      (Program.reads_later (steady_chooses m) read open_end typed ended)
  | session choice line client session msg answered place offered read starts reachable taken =>
    exact .session choice line client session msg _ place offered
      (Program.reads_later (steady_configures m) read open_end typed ended) starts reachable
      (taken.later ((steady_configures m _ _ _ read).1.trans open_end) typed ended)
  | left startup place => exact .left startup place

theorem start_taken (answered : Source UInt8) (protocol : Utilities.Protocol)
    (attempt : ClientLifecycle.Attempt) (buffer : ByteString) :
    Taken answered answered (ClientSession.start protocol attempt buffer).typed
      (ClientSession.start protocol attempt buffer).main.serving := by
  cases good : answered.good with
  | false => exact .spoilt good rfl rfl
  | true => exact .serving good good rfl nofun nofun rfl

/-- A step of the session, with what it read before. -/
theorem session_follows {m : Machine} {s t : State} {choice : Int} {line msg : ByteString}
    {client : Client} {old new : ClientSession.Session} {answered : Source UInt8}
    {a : ClientSession.Action} (offered : choice = 1 ∨ choice = 2)
    (read : (configures m).run s.text = some ((choice, line), answered))
    (starts : ClientStartup.main m.fresh choice line m.files = .ran client)
    (reachable : Reachable ClientSession.step
      (ClientSession.start client.protocol m.attempt m.buffer) old)
    (moved : ClientSession.step old a = some new) (typed : t.typed = s.typed)
    (ended : t.source.ended = s.source.ended) (place : t.pc = .session client new msg)
    (taken : Taken answered t.source new.typed new.main.serving) : Follows m t := by
  refine .session choice line client new msg answered place offered ?_ starts
    (reachable.step_to moved) taken
  rwa [Program.text_eq typed ended]

theorem configuring_follows {m : Machine} {s : State} {source : Source UInt8} {choice : Int}
    {line : ByteString} {delivered : Bool} (offered : choice = 1 ∨ choice = 2)
    (chosen : (chooses m).run s.text = some (choice, s.source))
    (gets : (Console.getline []).run s.source = some ((line, delivered), source)) :
    Follows m { s with source := source, pc := startUp m choice line } := by
  have kept := (steady_getline _ _ _ _ gets).1
  have read : (configures m).run s.text = some ((choice, line), source) :=
    run_bind_iff.mpr ⟨choice, _, chosen, run_bind_iff.mpr ⟨(line, delivered), source, gets, rfl⟩⟩
  generalize next_pc : startUp m choice line = pc
  rw [startUp] at next_pc
  cases outcome : ClientStartup.main m.fresh choice line m.files with
  | ran client =>
    rw [outcome] at next_pc
    refine .session choice line client _ [] source next_pc.symm offered ?_ outcome ⟨[], rfl⟩
      (start_taken source _ _ _)
    have text : (⟨s.typed, source, pc⟩ : State).text = s.text := Program.text_eq rfl kept
    rw [text]
    exact read
  | _ =>
    rw [outcome] at next_pc
    exact .left _ next_pc.symm

theorem mainStep_follows {m : Machine} {s t : State} (h : Follows m s)
    (moved : mainStep m s = some t) : Follows m t := by
  rw [mainStep] at moved
  have kept_text : ∀ {source : Source UInt8} {pc : Pc}, source.ended = s.source.ended →
      (⟨s.typed, source, pc⟩ : State).text = s.text := fun kept => Program.text_eq rfl kept
  cases h with
  | choosing place unread =>
    rw [place] at moved
    obtain ⟨⟨choice, source⟩, read, rfl⟩ := Option.map_eq_some_iff.mp moved
    refine .ignoring choice rfl ?_
    rw [kept_text (steady_extractInt _ _ _ _ read).1, ← unread]
    exact read
  | ignoring choice place extracts =>
    rw [place] at moved
    obtain ⟨⟨_, source⟩, ignores, rfl⟩ := Option.map_eq_some_iff.mp moved
    have read : (chooses m).run s.text = some (choice, source) :=
      run_bind_iff.mpr ⟨choice, _, extracts, run_bind_iff.mpr ⟨(), source, ignores, rfl⟩⟩
    by_cases offered : choice = 1 ∨ choice = 2
    · refine .configuring choice (if_pos offered) offered ?_
      rw [kept_text (steady_ignore _ _ _ ignores).1]
      exact read
    · exact .left _ (if_neg offered)
  | configuring choice place offered chosen =>
    rw [place] at moved
    obtain ⟨⟨⟨line, delivered⟩, source⟩, gets, rfl⟩ := Option.map_eq_some_iff.mp moved
    exact configuring_follows offered chosen gets
  | left startup place =>
    rw [place] at moved
    cases moved
  | session choice line client session msg answered place offered read starts reachable taken =>
    rw [place] at moved
    dsimp only at moved
    split at moved
    case isTrue reading =>
      obtain ⟨⟨⟨next, delivered⟩, source⟩, gets, moved⟩ := Option.bind_eq_some_iff.mp moved
      obtain ⟨new, stepped, rfl⟩ := Option.map_eq_some_iff.mp moved
      have ended : s.source.ended = answered.ended := (steady_configures m _ _ _ read).1.symm
      exact session_follows offered read starts reachable stepped rfl
        (steady_getline _ _ _ _ gets).1 rfl (taken.round ended reading gets stepped)
    case isFalse elsewhere =>
      obtain ⟨new, stepped, rfl⟩ := Option.map_eq_some_iff.mp moved
      obtain ⟨typed, serving⟩ := session_other stepped ⟨nofun, nofun⟩
      refine session_follows offered read starts reachable stepped rfl rfl rfl ?_
      rw [typed, serving]
      exact taken

theorem otherStep_some {s t : State} {a : ClientSession.Action} (moved : otherStep s a = some t) :
    ∃ client session msg new, s.pc = .session client session msg ∧
      ((∀ line, a ≠ .line line) ∧ a ≠ .endOfInput) ∧ ClientSession.step session a = some new ∧
        t = { s with pc := .session client new msg } := by
  rw [otherStep] at moved
  split at moved
  · rename_i client session msg place
    split at moved
    · cases moved
    · cases moved
    · cases moved
    · rename_i not_line not_end _
      obtain ⟨new, stepped, rfl⟩ := Option.map_eq_some_iff.mp moved
      exact ⟨client, session, msg, new, place, ⟨not_line, not_end⟩, stepped, rfl⟩
  · cases moved

theorem otherStep_follows {m : Machine} {s t : State} {a : ClientSession.Action}
    (h : Follows m s) (moved : otherStep s a = some t) : Follows m t := by
  obtain ⟨client, session, msg, new, place, other, stepped, rfl⟩ := otherStep_some moved
  obtain ⟨choice, line, answered, offered, read, starts, reachable, taken⟩ := h.of_session place
  obtain ⟨typed, serving⟩ := session_other stepped other
  refine session_follows offered read starts reachable stepped rfl rfl rfl ?_
  rw [typed, serving]
  exact taken

theorem step_follows {m : Machine} (s : State) (a : Action) (t : State) (h : Follows m s)
    (moved : step m s a = some t) : Follows m t := by
  cases a with
  | press k =>
    obtain ⟨open_end, typed, ended, rfl⟩ := Program.press_some moved
    exact h.later open_end typed ended
  | main => exact mainStep_follows h moved
  | other a => exact otherStep_follows h moved

theorem reachable_follows {m : Machine} {s : State} (reachable : Reachable (step m) initial s) :
    Follows m s :=
  reachable_invariant step_follows (.choosing rfl rfl) reachable

/-- A configuration that leaves the stream good has been typed as a number, one more byte and
a line ended with Enter. -/
theorem configures_good {m : Machine} {typed line : ByteString} {ended : Bool} {choice : Int}
    {answered : Source UInt8}
    (read : (configures m).run (Source.text typed ended) = some ((choice, line), answered))
    (good : answered.good = true) : newline ∉ line ∧
      ∃ b, NumberTyped typed choice (b :: (line ++ newline :: answered.pending)) := by
  obtain ⟨_, behind, chosen, gets⟩ := run_bind_iff.mp read
  obtain ⟨⟨piece, delivered⟩, _, gets, last⟩ := run_bind_iff.mp gets
  cases last
  obtain ⟨_, mid, extracts, ignores⟩ := run_bind_iff.mp chosen
  obtain ⟨_, _, ignores, last⟩ := run_bind_iff.mp ignores
  cases last
  have behind_good : behind.good = true := by
    by_contra bad
    rw [Bool.not_eq_true] at bad
    rw [Console.getline, ifGood_run_spoilt bad] at gets
    cases gets
    rw [bad] at good
    cases good
  obtain ⟨mid_good, b, skipped⟩ := ignore_good ignores behind_good
  obtain ⟨number, -, -⟩ :=
    (extractInt_good_iff (s := Source.text typed ended) rfl).mp ⟨extracts, mid_good⟩
  obtain ⟨one_line, ⟨rest, shape, -, rfl⟩ | ⟨-, -, -, rfl⟩⟩ :=
    (getline_run_iff behind_good).mp gets
  · rw [skipped, shape] at number
    exact ⟨one_line, b, number⟩
  · cases good

/-- The client was started by a number, one more byte and a whole line; it takes the lines
behind them, and all before `exit` or the end of the input once it has left its loop. -/
def AsTyped (m : Machine) (typed : ByteString) (client : Client)
    (session : ClientSession.Session) : Prop :=
  ∃ choice b line rest, NumberTyped typed choice (b :: (line ++ newline :: rest)) ∧
    (choice = 1 ∨ choice = 2) ∧ newline ∉ line ∧
    ClientStartup.main m.fresh choice line m.files = .ran client ∧
    session.typed <+: messages rest ∧
    (session.main.serving = false → session.typed = messages rest)

/-- However the user's typing falls between the steps of the threads, the session is one that
`run` begins, and what it takes is what has been typed behind its configuration; where the
input failed or ended before, it takes nothing. -/
theorem session_as_typed {m : Machine} {s : State} {client : Client}
    {session : ClientSession.Session} {msg : ByteString}
    (reachable : Reachable (step m) initial s) (place : s.pc = .session client session msg) :
    Reachable ClientSession.step (ClientSession.start client.protocol m.attempt m.buffer) session ∧
      (session.typed = [] ∧ s.source.good = false ∨ AsTyped m s.typed client session) := by
  obtain ⟨choice, line, answered, offered, read, starts, begun, taken⟩ :=
    (reachable_follows reachable).of_session place
  refine ⟨begun, ?_⟩
  cases good : answered.good with
  | false =>
    cases taken with
    | spoilt _ unread none => exact Or.inl ⟨none, unread ▸ good⟩
    | serving sound => rw [good] at sound; cases sound
    | exited sound => rw [good] at sound; cases sound
    | finished sound => rw [good] at sound; cases sound
  | true =>
    obtain ⟨one_line, b, number⟩ := configures_good read good
    exact Or.inr ⟨choice, b, line, answered.pending, number, offered, one_line, starts,
      taken.prefix_messages, fun stopped => (stopped ▸ taken).eq_messages good⟩

def overUdp : Machine where
  files := fun _ => some (literal
    "server_ip=127.0.0.1\nserver_port=8080\nclient_port=3000\nprotocol=udp\n")
  attempt := ⟨some 3, true, true⟩
  fresh := ⟨[], 0, 0, .tcp⟩
  uninitialised := 0
  buffer := []

def conversation : ByteString := literal "2\nudp.cfg\nhello\nexit\nbye\n"

/-- Everything is typed in advance; `bye` is behind the end of the loop. -/
theorem session_as_typed_conversation :
    ∃ s client session msg, Reachable (step overUdp) initial s ∧
      s.pc = .session client session msg ∧ session.main.serving = false ∧
      session.typed = [literal "hello"] ∧
      (session.typed = [] ∧ s.source.good = false ∨ AsTyped overUdp s.typed client session) := by
  have typed := Program.reachable_fresh (step overUdp) .press (fun _ _ => rfl) .choosing
    conversation false
  obtain ⟨s, path, session, msg, place, stopped, taken⟩ :
      ∃ s, run (step overUdp) ⟨conversation, Source.text conversation false, .choosing⟩
        [.main, .main, .main, .main, .other (.send (some 5)), .main] = some s ∧
      ∃ session msg, s.pc = .session ⟨literal "127.0.0.1", 8080, 3000, .udp⟩ session msg ∧
        session.main.serving = false ∧ session.typed = [literal "hello"] :=
    ⟨_, rfl, _, _, rfl, rfl, rfl⟩
  have reached : Reachable (step overUdp) initial s := by
    obtain ⟨before, path'⟩ := typed
    exact ⟨_, run_append_iff.mpr ⟨_, path', path⟩⟩
  exact ⟨s, _, session, msg, reached, place, stopped, taken, (session_as_typed reached place).2⟩

end ClientProgram
