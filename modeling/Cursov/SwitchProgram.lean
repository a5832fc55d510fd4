import Cursov.Console
import Cursov.SwitchLife
import Cursov.SwitchStartup

/-!
# The switch at its terminal

`main` asks for the lifetime of the entries and for the interfaces, starts the threads and
waits for input. The user types while the program runs, so every read of `std::cin` may
find a part of an answer, or the next answer as well.
-/

namespace SwitchProgram

open Bytes Text Frame Transition Terminal Console
open SwitchStartup hiding main

/-- What `main` finds on its machine. The variable `lifetime` is not initialised. -/
structure Machine where
  ifaddr : Option (List Ifaddr)
  opens : Nat → Bool
  configFile : Option ByteString
  uninitialised : Int

/-- `main` at its questions, from the start of the threads on, or out of it. While it runs,
`ignored` says that `std::cin.ignore()` has returned. -/
inductive Pc where
  | askingLifetime
  | askingInterfaces (lifetime : Int)
  | running (lifetime : Int) (handles : List PcapHandle) (cfg : TtlSubstitutionCfg)
      (process : SwitchLife.Process) (ignored : Bool)
  | left (startup : Startup)

abbrev State := Program UInt8 Pc

def initial : State := .fresh .askingLifetime

inductive Action where
  | press (k : Key UInt8)
  | main (clock : Int)
  | other (a : SwitchLife.Action)

/-- The answer to the second question decides whether the switch runs. -/
def startUp (m : Machine) (lifetime clock : Int) (line : ByteString) : Pc :=
  match SwitchStartup.main m.ifaddr line m.opens m.configFile with
  | .running handles cfg => .running lifetime handles cfg (SwitchLife.initial lifetime clock) false
  | startup => .left startup

/-- While the process waits, `main` is in `ignore` and then in `get`. -/
def mainStep (m : Machine) (s : State) (clock : Int) : Option State :=
  match s.pc with
  | .askingLifetime => ((extractInt m.uninitialised).run s.source).map fun (lifetime, source) =>
      { s with
        source := source
        pc := if getAvailableInterfaces m.ifaddr = [] then
            .left (.exited 1 (literal "No network interfaces found!\n"))
          else .askingInterfaces lifetime }
  | .askingInterfaces lifetime => (nextLine.run s.source).map fun (line, source) =>
      { s with source := source, pc := startUp m lifetime clock line }
  | .running lifetime handles cfg p ignored =>
    if p.main = .waiting ∧ ignored = false then
      (ignore.run s.source).map fun (_, source) =>
        { s with source := source, pc := .running lifetime handles cfg p true }
    else if p.main = .waiting then
      (get.run s.source).bind fun (_, source) => (p.mainStep handles.length).map fun p =>
        { s with source := source, pc := .running lifetime handles cfg p ignored }
    else (p.mainStep handles.length).map fun p =>
      { s with pc := .running lifetime handles cfg p ignored }
  | .left _ => none

def otherStep (s : State) (a : SwitchLife.Action) : Option State :=
  match s.pc with
  | .running lifetime handles cfg p ignored =>
    match a with
    | .main => none
    | a => (SwitchLife.step handles.length cfg p a).map fun p =>
      { s with pc := .running lifetime handles cfg p ignored }
  | _ => none

def step (m : Machine) (s : State) : Action → Option State
  | .press k => s.press k
  | .main clock => mainStep m s clock
  | .other a => otherStep s a

/-- Both questions, as they would be answered by the whole text at once. -/
def questions (m : Machine) : Read UInt8 (Int × ByteString) := do
  let lifetime ← extractInt m.uninitialised
  let line ← nextLine
  pure (lifetime, line)

theorem steady_questions (m : Machine) : Steady (questions m) :=
  (steady_extractInt _).bind fun lifetime => steady_nextLine.bind fun line => .pure (lifetime, line)

/-- What `main` reads once the threads have been started. -/
def waits : Read UInt8 (Option UInt8) := do
  ignore
  get

theorem steady_waits : Steady waits := steady_ignore.bind fun _ => steady_get

theorem prompt_waits : Prompt waits := prompt_ignore.bind steady_ignore fun _ => prompt_get

/-- Where the process stands with its wait, and what has been read for it. -/
inductive Waiting (answered : Source UInt8) (s : State) : SwitchLife.Process → Bool → Prop where
  | untouched {p : SwitchLife.Process} (runs : p.running = true) (unread : s.source = answered) :
      Waiting answered s p false
  | ignored {p : SwitchLife.Process} (runs : p.running = true) (at_get : p.main = .waiting)
      (read : ignore.run answered = some ((), s.source)) : Waiting answered s p true
  | woken {p : SwitchLife.Process} (stops : p.running = false) (b : Option UInt8)
      (read : waits.run answered = some (b, s.source)) : Waiting answered s p true

/-- Where `main` stands is what it makes of the text typed so far. -/
inductive Follows (m : Machine) (s : State) : Prop where
  | lifetime (place : s.pc = .askingLifetime) (unread : s.source = s.text)
  | interfaces (lifetime : Int) (place : s.pc = .askingInterfaces lifetime)
      (read : (extractInt m.uninitialised).run s.text = some (lifetime, s.source))
  | running (lifetime clock : Int) (line : ByteString) (handles : List PcapHandle)
      (cfg : TtlSubstitutionCfg) (p : SwitchLife.Process) (ignored : Bool)
      (answered : Source UInt8) (place : s.pc = .running lifetime handles cfg p ignored)
      (read : (questions m).run s.text = some ((lifetime, line), answered))
      (starts : SwitchStartup.main m.ifaddr line m.opens m.configFile = .running handles cfg)
      (reachable : Reachable (SwitchLife.step handles.length cfg)
        (SwitchLife.initial lifetime clock) p)
      (waiting : Waiting answered s p ignored)
  | left (startup : Startup) (place : s.pc = .left startup)
      (cannot : getAvailableInterfaces m.ifaddr = [] ∨ ∃ lifetime line answered,
        (questions m).run s.text = some ((lifetime, line), answered) ∧ ∀ handles cfg,
          SwitchStartup.main m.ifaddr line m.opens m.configFile ≠ .running handles cfg)

theorem initial_follows (m : Machine) : Follows m initial := .lifetime rfl rfl

/-- Once it runs, the switch has been answered both questions. -/
theorem Follows.of_running {m : Machine} {s : State} {lifetime : Int} {handles : List PcapHandle}
    {cfg : TtlSubstitutionCfg} {p : SwitchLife.Process} {ignored : Bool} (h : Follows m s)
    (place : s.pc = .running lifetime handles cfg p ignored) : ∃ clock line answered,
      (questions m).run s.text = some ((lifetime, line), answered) ∧
        SwitchStartup.main m.ifaddr line m.opens m.configFile = .running handles cfg ∧
        Reachable (SwitchLife.step handles.length cfg) (SwitchLife.initial lifetime clock) p ∧
        Waiting answered s p ignored := by
  cases h with
  | lifetime place' => cases place.symm.trans place'
  | interfaces _ place' => cases place.symm.trans place'
  | left _ place' => cases place.symm.trans place'
  | running lifetime clock line handles cfg p ignored answered place' read starts reachable
      waiting =>
    cases place.symm.trans place'
    exact ⟨clock, line, answered, read, starts, reachable, waiting⟩

theorem Waiting.later {answered : Source UInt8} {s : State} {p : SwitchLife.Process}
    {ignored : Bool} (h : Waiting answered s p ignored) (open_end : answered.ended = false)
    (typed : ByteString) (ended : Bool) :
    Waiting (answered.later typed ended) (s.later typed ended) p ignored := by
  cases h with
  | untouched runs unread => exact .untouched runs (unread ▸ rfl)
  | ignored runs at_get read =>
    exact .ignored runs at_get ((steady_ignore _ _ _ read).2 open_end typed ended)
  | woken stops b read => exact .woken stops b ((steady_waits _ _ _ read).2 open_end typed ended)

theorem Follows.later {m : Machine} {s : State} (h : Follows m s)
    (open_end : s.source.ended = false) (typed : ByteString) (ended : Bool) :
    Follows m (s.later typed ended) := by
  cases h with
  | lifetime place unread =>
    refine .lifetime place ?_
    rw [Program.text_later_eq open_end, ← unread]
    rfl
  | interfaces lifetime place read =>
    exact .interfaces lifetime place
      (Program.reads_later (steady_extractInt _) read open_end typed ended)
  | running lifetime clock line handles cfg p ignored answered place read starts reachable
      waiting =>
    exact .running lifetime clock line handles cfg p ignored _ place
      (Program.reads_later (steady_questions m) read open_end typed ended) starts reachable
      (waiting.later ((steady_questions m _ _ _ read).1.trans open_end) typed ended)
  | left startup place cannot =>
    refine .left startup place (cannot.imp_right ?_)
    rintro ⟨lifetime, line, answered, read, never⟩
    exact ⟨lifetime, line, answered.later typed ended,
      Program.reads_later (steady_questions m) read open_end typed ended, never⟩

/-- Only `main` clears the flag, and only when its wait is over. -/
theorem process_mainStep {handles : Nat} {p q : SwitchLife.Process}
    (moved : p.mainStep handles = some q) (waits : p.main ≠ .waiting) :
    q.running = p.running := by
  rw [SwitchLife.Process.mainStep] at moved
  cases place : p.main <;> rw [place] at moved
  case waiting => exact absurd place waits
  case startingTable | returned => cases moved <;> rfl
  case starting | closing =>
    dsimp only at moved
    split at moved <;> cases moved <;> rfl
  case joining =>
    dsimp only at moved
    split at moved
    · split at moved <;> cases moved
      rfl
    · cases moved
      rfl
  case joiningTable =>
    dsimp only at moved
    split at moved <;> cases moved
    rfl

theorem process_other {handles : Nat} {cfg : TtlSubstitutionCfg} {p q : SwitchLife.Process}
    {a : SwitchLife.Action} (moved : SwitchLife.step handles cfg p a = some q)
    (other : a ≠ .main) : q.main = p.main ∧ q.running = p.running := by
  cases SwitchLife.step_effect moved with
  | keeps _ _ _ _ _ main running => exact ⟨main, running⟩
  | ticks | turns | works => exact ⟨rfl, rfl⟩
  | _ => exact absurd rfl other

theorem askingLifetime_follows {m : Machine} {s t : State} {clock : Int}
    (place : s.pc = .askingLifetime) (unread : s.source = s.text)
    (moved : mainStep m s clock = some t) : Follows m t := by
  rw [mainStep, place] at moved
  obtain ⟨⟨lifetime, source⟩, read, rfl⟩ := Option.map_eq_some_iff.mp moved
  obtain ⟨kept, _⟩ := steady_extractInt _ _ _ _ read
  dsimp only
  by_cases found : getAvailableInterfaces m.ifaddr = []
  · exact .left _ (if_pos found) (Or.inl found)
  · have text : ∀ pc, (⟨s.typed, source, pc⟩ : State).text = s.text :=
      fun pc => Program.text_eq rfl kept
    refine .interfaces lifetime (if_neg found) ?_
    rw [text, ← unread]
    exact read

theorem askingInterfaces_follows {m : Machine} {s t : State} {clock lifetime : Int}
    (place : s.pc = .askingInterfaces lifetime)
    (read : (extractInt m.uninitialised).run s.text = some (lifetime, s.source))
    (moved : mainStep m s clock = some t) : Follows m t := by
  rw [mainStep, place] at moved
  obtain ⟨⟨line, source⟩, reads_line, rfl⟩ := Option.map_eq_some_iff.mp moved
  obtain ⟨kept, _⟩ := steady_nextLine _ _ _ reads_line
  have answers : (questions m).run s.text = some ((lifetime, line), source) :=
    run_bind_iff.mpr ⟨lifetime, s.source, read, run_bind_iff.mpr ⟨line, source, reads_line, rfl⟩⟩
  dsimp only
  generalize next_pc : startUp m lifetime clock line = pc
  rw [startUp] at next_pc
  have text : (⟨s.typed, source, pc⟩ : State).text = s.text := Program.text_eq rfl kept
  rw [← text] at answers
  cases outcome : SwitchStartup.main m.ifaddr line m.opens m.configFile with
  | running handles cfg =>
    rw [outcome] at next_pc
    exact .running lifetime clock line handles cfg _ false source next_pc.symm answers outcome
      ⟨[], rfl⟩ (.untouched rfl rfl)
  | _ =>
    rw [outcome] at next_pc
    refine .left _ next_pc.symm (Or.inr ⟨lifetime, line, source, answers, fun handles cfg => ?_⟩)
    rw [outcome]
    nofun

/-- A step of `main` while the process runs: one of `ignore`, of `get` or of the process. -/
inductive RunningStep (s : State) (lifetime : Int) (handles : List PcapHandle)
    (cfg : TtlSubstitutionCfg) (p : SwitchLife.Process) : Bool → State → Prop where
  | ignores (source : Source UInt8) (at_wait : p.main = .waiting)
      (read : ignore.run s.source = some ((), source)) :
      RunningStep s lifetime handles cfg p false
        { s with source := source, pc := .running lifetime handles cfg p true }
  | gets (b : Option UInt8) (source : Source UInt8) (q : SwitchLife.Process)
      (at_wait : p.main = .waiting) (read : get.run s.source = some (b, source))
      (moved : p.mainStep handles.length = some q) :
      RunningStep s lifetime handles cfg p true
        { s with source := source, pc := .running lifetime handles cfg q true }
  | goes (ignored : Bool) (q : SwitchLife.Process) (elsewhere : p.main ≠ .waiting)
      (moved : p.mainStep handles.length = some q) :
      RunningStep s lifetime handles cfg p ignored
        { s with pc := .running lifetime handles cfg q ignored }

theorem mainStep_running {m : Machine} {s t : State} {clock lifetime : Int}
    {handles : List PcapHandle} {cfg : TtlSubstitutionCfg} {p : SwitchLife.Process}
    {ignored : Bool} (place : s.pc = .running lifetime handles cfg p ignored)
    (moved : mainStep m s clock = some t) : RunningStep s lifetime handles cfg p ignored t := by
  rw [mainStep, place] at moved
  dsimp only at moved
  split at moved
  case isTrue at_ignore =>
    obtain ⟨at_wait, rfl⟩ := at_ignore
    obtain ⟨⟨_, source⟩, read, rfl⟩ := Option.map_eq_some_iff.mp moved
    exact .ignores source at_wait read
  case isFalse past =>
    split at moved
    case isTrue at_wait =>
      have at_get : ignored = true := by simpa [at_wait] using past
      subst at_get
      obtain ⟨⟨b, source⟩, read, moved⟩ := Option.bind_eq_some_iff.mp moved
      obtain ⟨q, process, rfl⟩ := Option.map_eq_some_iff.mp moved
      exact .gets b source q at_wait read process
    case isFalse elsewhere =>
      obtain ⟨q, process, rfl⟩ := Option.map_eq_some_iff.mp moved
      exact .goes ignored q elsewhere process

theorem running_follows {m : Machine} {s t : State} {lifetime clock : Int} {line : ByteString}
    {handles : List PcapHandle} {cfg : TtlSubstitutionCfg} {p : SwitchLife.Process} {ignored : Bool}
    {answered : Source UInt8}
    (read : (questions m).run s.text = some ((lifetime, line), answered))
    (starts : SwitchStartup.main m.ifaddr line m.opens m.configFile = .running handles cfg)
    (reachable : Reachable (SwitchLife.step handles.length cfg)
      (SwitchLife.initial lifetime clock) p)
    (waiting : Waiting answered s p ignored)
    (moved : RunningStep s lifetime handles cfg p ignored t) : Follows m t := by
  have goes_on : ∀ u q ignored, u.typed = s.typed → u.source.ended = s.source.ended →
      u.pc = .running lifetime handles cfg q ignored →
      (p = q ∨ p.mainStep handles.length = some q) → Waiting answered u q ignored →
      Follows m u := by
    intro u q ignored typed ended place stepped waiting
    refine .running lifetime clock line handles cfg q ignored answered place ?_ starts ?_ waiting
    · rwa [Program.text_eq typed ended]
    · rcases stepped with rfl | moved
      · exact reachable
      · exact reachable.step_to (a := SwitchLife.Action.main) moved
  cases moved with
  | ignores source at_wait reads =>
    cases waiting with
    | untouched runs unread =>
      exact goes_on _ p true rfl (steady_ignore _ _ _ reads).1 rfl (Or.inl rfl)
        (.ignored runs at_wait (unread ▸ reads))
  | gets b source q at_wait reads moved =>
    have stops : q.running = false := by
      rw [SwitchLife.Process.mainStep, at_wait] at moved
      cases moved
      rfl
    cases waiting with
    | ignored runs _ ignores =>
      exact goes_on _ q true rfl (steady_get _ _ _ reads).1 rfl (Or.inr moved)
        (.woken stops b (run_bind_iff.mpr ⟨(), s.source, ignores, reads⟩))
    | woken stopped b' reads' =>
      have accepting := (SwitchLife.reachable_sound reachable).orderly.running_eq
      rw [stopped, at_wait] at accepting
      cases accepting
  | goes _ q elsewhere moved =>
    have running := process_mainStep moved elsewhere
    refine goes_on _ q ignored rfl rfl rfl (Or.inr moved) ?_
    cases waiting with
    | untouched runs unread => exact .untouched (running.trans runs) unread
    | ignored runs at_get => exact absurd at_get elsewhere
    | woken stops b reads => exact .woken (running.trans stops) b reads

theorem otherStep_some {s t : State} {a : SwitchLife.Action} (moved : otherStep s a = some t) :
    ∃ lifetime handles cfg p ignored q, s.pc = .running lifetime handles cfg p ignored ∧
      a ≠ .main ∧ SwitchLife.step handles.length cfg p a = some q ∧
        t = { s with pc := .running lifetime handles cfg q ignored } := by
  rw [otherStep] at moved
  split at moved
  · rename_i lifetime handles cfg p ignored place
    split at moved
    · cases moved
    · rename_i other
      obtain ⟨q, process, rfl⟩ := Option.map_eq_some_iff.mp moved
      exact ⟨lifetime, handles, cfg, p, ignored, q, place, other, process, rfl⟩
  · cases moved

theorem other_follows {m : Machine} {s t : State} {a : SwitchLife.Action} (h : Follows m s)
    (moved : otherStep s a = some t) : Follows m t := by
  obtain ⟨lifetime, handles, cfg, p, ignored, q, place, other, process, rfl⟩ :=
    otherStep_some moved
  obtain ⟨clock, line, answered, read, starts, reachable, waiting⟩ := h.of_running place
  obtain ⟨main, running⟩ := process_other process other
  refine .running lifetime clock line handles cfg q ignored answered rfl read starts
    (reachable.step_to process) ?_
  cases waiting with
  | untouched runs unread => exact .untouched (running.trans runs) unread
  | ignored runs at_get reads => exact .ignored (running.trans runs) (main.trans at_get) reads
  | woken stops b reads => exact .woken (running.trans stops) b reads

theorem step_follows {m : Machine} (s : State) (a : Action) (t : State) (h : Follows m s)
    (moved : step m s a = some t) : Follows m t := by
  cases a with
  | press k =>
    obtain ⟨open_end, typed, ended, rfl⟩ := Program.press_some moved
    exact h.later open_end typed ended
  | main clock =>
    cases h with
    | lifetime place unread => exact askingLifetime_follows place unread moved
    | interfaces lifetime place read => exact askingInterfaces_follows place read moved
    | running lifetime clock line handles cfg p ignored answered place read starts reachable
        waiting =>
      exact running_follows read starts reachable waiting (mainStep_running place moved)
    | left startup place =>
      rw [step, mainStep, place] at moved
      cases moved
  | other a => exact other_follows h moved

theorem reachable_follows {m : Machine} {s : State} (reachable : Reachable (step m) initial s) :
    Follows m s :=
  reachable_invariant step_follows (initial_follows m) reachable

/-- A number, then a line that is not blank, then what is typed behind them. -/
def Dialogue (typed : ByteString) (ended : Bool) (lifetime : Int) (line rest : ByteString) : Prop :=
  ∃ between sound, NumberTyped typed lifetime between ∧ LineTyped ended between line rest sound

theorem questions_run_iff {m : Machine} {typed line : ByteString} {ended : Bool} {lifetime : Int}
    {t : Source UInt8} (nonempty : line ≠ []) :
    (questions m).run (Source.text typed ended) = some ((lifetime, line), t) ↔
      ∃ between rest sound, NumberTyped typed lifetime between ∧
        LineTyped ended between line rest sound ∧ t = ⟨rest, ended, sound⟩ := by
  constructor
  · intro reads
    obtain ⟨n, mid, extracts, reads⟩ := run_bind_iff.mp reads
    obtain ⟨l, mid', reads_line, reads⟩ := run_bind_iff.mp reads
    cases reads
    cases good : mid.good with
    | false =>
      rw [nextLine_spoilt good] at reads_line
      cases reads_line
      exact absurd rfl nonempty
    | true =>
      obtain ⟨number, kept, -⟩ :=
        (extractInt_good_iff (s := Source.text typed ended) rfl).mp ⟨extracts, good⟩
      obtain ⟨rest, sound, line_typed, rfl⟩ := (nextLine_run_iff good nonempty).mp reads_line
      change mid.ended = ended at kept
      rw [kept] at line_typed ⊢
      exact ⟨mid.pending, rest, sound, number, line_typed, rfl⟩
  · rintro ⟨between, rest, sound, number, line_typed, rfl⟩
    have extracts := (@extractInt_good_iff m.uninitialised lifetime (Source.text typed ended)
      (Source.text between ended) rfl).mpr ⟨number, rfl, rfl⟩
    refine run_bind_iff.mpr ⟨lifetime, _, extracts.1, run_bind_iff.mpr ⟨line, _, ?_, rfl⟩⟩
    exact (nextLine_run_iff rfl nonempty).mpr ⟨rest, sound, line_typed, rfl⟩

theorem Dialogue.read {m : Machine} {typed line rest : ByteString} {ended : Bool} {lifetime : Int}
    (dialogue : Dialogue typed ended lifetime line rest) (nonempty : line ≠ []) :
    ∃ sound, (questions m).run (Source.text typed ended) =
      some ((lifetime, line), ⟨rest, ended, sound⟩) := by
  obtain ⟨between, sound, number, line_typed⟩ := dialogue
  exact ⟨sound, (questions_run_iff nonempty).mpr ⟨between, rest, sound, number, line_typed, rfl⟩⟩

/-- Without a word in the line there is no interface to listen on. -/
theorem line_ne_nil {m : Machine} {line : ByteString} {handles : List PcapHandle}
    {cfg : TtlSubstitutionCfg}
    (starts : SwitchStartup.main m.ifaddr line m.opens m.configFile = .running handles cfg) :
    line ≠ [] := by
  rintro rfl
  obtain ⟨opened, nonempty, -⟩ := main_running_iff.mp starts
  exact nonempty opened.symm

theorem interfaces_found {m : Machine} {line : ByteString} {handles : List PcapHandle}
    {cfg : TtlSubstitutionCfg}
    (starts : SwitchStartup.main m.ifaddr line m.opens m.configFile = .running handles cfg) :
    getAvailableInterfaces m.ifaddr ≠ [] := by
  intro empty
  rw [SwitchStartup.main, if_pos empty] at starts
  cases starts

/-- Both questions answered, the switch is about to start its threads. -/
theorem reachable_running {m : Machine} {typed line : ByteString} {ended : Bool} {lifetime : Int}
    {handles : List PcapHandle} {cfg : TtlSubstitutionCfg} {answered : Source UInt8}
    (read : (questions m).run (Source.text typed ended) = some ((lifetime, line), answered))
    (starts : SwitchStartup.main m.ifaddr line m.opens m.configFile = .running handles cfg) :
    Reachable (step m) initial ⟨typed, answered, .running lifetime handles cfg
      (SwitchLife.initial lifetime 0) false⟩ := by
  obtain ⟨n, mid, extracts, reads⟩ := run_bind_iff.mp read
  obtain ⟨l, mid', reads_line, reads⟩ := run_bind_iff.mp reads
  cases reads
  have found := interfaces_found starts
  have first : Reachable (step m) initial ⟨typed, mid, .askingInterfaces lifetime⟩ := by
    have fresh :=
      Program.reachable_fresh (step m) .press (fun _ _ => rfl) .askingLifetime typed ended
    refine fresh.step_to (a := .main 0) ?_
    simp only [step, mainStep, extracts, Option.map_some, if_neg found]
  refine first.step_to (a := .main 0) ?_
  simp only [step, mainStep, reads_line, Option.map_some, startUp, starts]

/-- With both questions answered in the text, `main` comes to run in its next two steps at most,
wherever it stands. -/
theorem comes_to_run {m : Machine} {s : State} {lifetime : Int} {line : ByteString}
    {handles : List PcapHandle} {cfg : TtlSubstitutionCfg} {answered : Source UInt8}
    (h : Follows m s) (read : (questions m).run s.text = some ((lifetime, line), answered))
    (starts : SwitchStartup.main m.ifaddr line m.opens m.configFile = .running handles cfg)
    (clock : Int) : ∃ k ≤ 2, ∃ t p ignored,
      run (step m) s (List.replicate k (.main clock)) = some t ∧
        t.pc = .running lifetime handles cfg p ignored := by
  obtain ⟨n, mid, extracts, reads⟩ := run_bind_iff.mp read
  obtain ⟨l, mid', reads_line, reads⟩ := run_bind_iff.mp reads
  cases reads
  have found := interfaces_found starts
  have second : ∀ u : State, u.pc = .askingInterfaces lifetime → u.source = mid →
      step m u (.main clock) = some { u with
        source := answered
        pc := .running lifetime handles cfg (SwitchLife.initial lifetime clock) false } := by
    intro u place source
    simp only [step, mainStep, place, source, reads_line, Option.map_some, startUp, starts]
  cases h with
  | lifetime place unread =>
    refine ⟨2, le_rfl, _, _, _, run_cons_iff.mpr ⟨{ s with
      source := mid
      pc := .askingInterfaces lifetime }, ?_, run_cons_iff.mpr ⟨_, second _ rfl rfl, rfl⟩⟩, rfl⟩
    simp only [step, mainStep, place, unread, extracts, Option.map_some, if_neg found]
  | interfaces lifetime' place reads' =>
    cases extracts.symm.trans reads'
    exact ⟨1, by decide, _, _, _, run_cons_iff.mpr ⟨_, second s place rfl, rfl⟩, rfl⟩
  | running lifetime' clock' line' handles' cfg' p ignored answered' place reads' starts' =>
    cases read.symm.trans reads'
    cases starts.symm.trans starts'
    exact ⟨0, by decide, s, p, ignored, rfl, place⟩
  | left startup place cannot =>
    rcases cannot with empty | ⟨lifetime', line', answered', reads', never⟩
    · exact absurd empty found
    · cases read.symm.trans reads'
      exact absurd starts (never handles cfg)

/-- The switch runs with a lifetime, on handles and with a config exactly when the text that
has been typed is a number that is the lifetime and a line that selects the handles. With such
a text nothing keeps `main` from it: two steps from any state are enough. -/
theorem runs_iff_typed {m : Machine} {typed : ByteString} {ended : Bool} {lifetime : Int}
    {handles : List PcapHandle} {cfg : TtlSubstitutionCfg} :
    ((∃ s p ignored, Reachable (step m) initial s ∧ s.typed = typed ∧ s.source.ended = ended ∧
        s.pc = .running lifetime handles cfg p ignored) ↔
      ∃ line rest, Dialogue typed ended lifetime line rest ∧
        SwitchStartup.main m.ifaddr line m.opens m.configFile = .running handles cfg) ∧
    ∀ s line rest clock, Reachable (step m) initial s →
      Dialogue s.typed s.source.ended lifetime line rest →
      SwitchStartup.main m.ifaddr line m.opens m.configFile = .running handles cfg →
      ∃ k ≤ 2, ∃ t p ignored, run (step m) s (List.replicate k (.main clock)) = some t ∧
        t.pc = .running lifetime handles cfg p ignored := by
  refine ⟨⟨?_, ?_⟩, ?_⟩
  · rintro ⟨s, p, ignored, reachable, rfl, rfl, place⟩
    obtain ⟨_, line, _, read, starts, -⟩ := (reachable_follows reachable).of_running place
    obtain ⟨between, rest, sound, number, line_typed, _⟩ :=
      (questions_run_iff (line_ne_nil starts)).mp read
    exact ⟨line, rest, ⟨between, sound, number, line_typed⟩, starts⟩
  · rintro ⟨line, rest, dialogue, starts⟩
    obtain ⟨_, read⟩ := dialogue.read (line_ne_nil starts)
    exact ⟨_, _, _, reachable_running read starts, rfl, rfl, rfl⟩
  · intro s line rest clock reachable dialogue starts
    obtain ⟨_, read⟩ := dialogue.read (line_ne_nil starts)
    exact comes_to_run (reachable_follows reachable) read starts clock

/-- One interface, and Enter pressed once behind its name. -/
def oneInterface : Machine where
  ifaddr := some [⟨literal "eth0", some afPacket⟩]
  opens := fun _ => true
  configFile := some (TtlConfig.file configEntries)
  uninitialised := 0

def repositoryCfg : TtlSubstitutionCfg := ⟨true, ![192, 168, 3, 9], ![192, 168, 3, 27]⟩

theorem oneInterface_dialogue :
    Dialogue (literal "300\neth0\n\n") false 300 (literal "eth0") [newline] := by
  have numeral : PortNumber.Numeral (literal "300") := ⟨by decide, List.all_eq_true.mp rfl⟩
  refine ⟨literal "\neth0\n\n", true, ⟨⟨[], literal "300", rfl, List.forall_mem_nil _,
    .mk (.bare 51 rfl rfl (by decide) (by decide)) numeral (by decide)⟩, 10, rfl, rfl⟩, ?_⟩
  exact .entered [newline] (literal "eth0") [newline] (List.all_eq_true.mp rfl) (by decide)
    (by decide) (by rintro b ⟨⟩; rfl)

theorem oneInterface_starts : SwitchStartup.main oneInterface.ifaddr (literal "eth0")
    oneInterface.opens oneInterface.configFile = .running [⟨literal "eth0", 0⟩] repositoryCfg :=
  main_running_iff.mpr ⟨by decide, List.cons_ne_nil _ _, loadConfig_entries⟩

theorem runs_iff_typed_one_interface :
    ∃ s p ignored, Reachable (step oneInterface) initial s ∧
      s.typed = literal "300\neth0\n\n" ∧ s.source.ended = false ∧
      s.pc = .running 300 [⟨literal "eth0", 0⟩] repositoryCfg p ignored :=
  runs_iff_typed.1.mpr ⟨_, _, oneInterface_dialogue, oneInterface_starts⟩

/-- The wait is over once two bytes can be read, or none can be any more. -/
theorem waits_answers_iff {s : Source UInt8} : (∃ b t, waits.run s = some (b, t)) ↔
    s.good = false ∨ 2 ≤ s.pending.length ∨ s.ended = true := by
  constructor
  · rintro ⟨b, t, reads⟩
    obtain ⟨_, mid, ignores, gets⟩ := run_bind_iff.mp reads
    obtain ⟨pending, ended, good⟩ := s
    cases good with
    | false => exact Or.inl rfl
    | true =>
      refine Or.inr ?_
      match pending, ended with
      | _, true => exact Or.inr rfl
      | [], false => cases ignores
      | [_], false =>
        cases ignores
        cases gets
      | _ :: _ :: _, false => exact Or.inl (by simp)
  · rintro (spoilt | two | ended)
    · exact ⟨none, s, run_bind_iff.mpr ⟨(), s, ifGood_run_spoilt spoilt, ifGood_run_spoilt spoilt⟩⟩
    · obtain ⟨pending, ended, good⟩ := s
      match pending, two with
      | b :: c :: rest, _ =>
        cases good with
        | false => exact ⟨none, _, rfl⟩
        | true => exact ⟨some c, ⟨rest, ended, true⟩, rfl⟩
    · obtain ⟨⟨b, t⟩, reads⟩ := prompt_waits s ended
      exact ⟨b, t, reads⟩

/-- `main` can start its threads whatever is being typed. -/
theorem reachable_starting {m : Machine} {typed : ByteString} {answered : Source UInt8}
    {lifetime : Int} {handles : List PcapHandle} {cfg : TtlSubstitutionCfg}
    (begun : Reachable (step m) initial ⟨typed, answered, .running lifetime handles cfg
      (SwitchLife.initial lifetime 0) false⟩) (k : Nat) (remains : k ≤ handles.length) :
    ∃ p, p.main = .starting k ∧ Reachable (step m) initial
      ⟨typed, answered, .running lifetime handles cfg p false⟩ := by
  induction k with
  | zero => exact ⟨_, rfl, begun.step_to (a := .main 0) rfl⟩
  | succ k ih =>
    obtain ⟨p, place, reached⟩ := ih (Nat.le_of_succ_le remains)
    refine ⟨{ p.setCapture k .testing with main := .starting (k + 1) }, rfl,
      reached.step_to (a := .main 0) ?_⟩
    simp only [step, mainStep, SwitchLife.Process.mainStep, place,
      if_pos (Nat.lt_of_succ_le remains), reduceCtorEq, false_and, if_false, Option.map_some]

theorem reachable_waiting {m : Machine} {typed : ByteString} {answered : Source UInt8}
    {lifetime : Int} {handles : List PcapHandle} {cfg : TtlSubstitutionCfg}
    (begun : Reachable (step m) initial ⟨typed, answered, .running lifetime handles cfg
      (SwitchLife.initial lifetime 0) false⟩) :
    ∃ p, p.main = .waiting ∧ Reachable (step m) initial
      ⟨typed, answered, .running lifetime handles cfg p false⟩ := by
  obtain ⟨p, place, reached⟩ := reachable_starting begun handles.length le_rfl
  refine ⟨{ p with main := .waiting }, rfl, reached.step_to (a := .main 0) ?_⟩
  simp only [step, mainStep, SwitchLife.Process.mainStep, place, lt_irrefl, reduceCtorEq,
    false_and, if_false, Option.map_some]

/-- With the questions answered, what has been typed can stop the switch exactly when two
more bytes stand behind the answers or the input has ended: one Enter is not enough. -/
theorem stops_iff_typed {m : Machine} {typed line rest : ByteString} {ended : Bool}
    {lifetime : Int} {handles : List PcapHandle} {cfg : TtlSubstitutionCfg}
    (dialogue : Dialogue typed ended lifetime line rest)
    (starts : SwitchStartup.main m.ifaddr line m.opens m.configFile = .running handles cfg) :
    (∃ s p ignored, Reachable (step m) initial s ∧ s.typed = typed ∧ s.source.ended = ended ∧
        s.pc = .running lifetime handles cfg p ignored ∧ p.running = false) ↔
      2 ≤ rest.length ∨ ended = true := by
  obtain ⟨between, sound, number, line_typed⟩ := dialogue
  have nonempty := line_ne_nil starts
  have read := (questions_run_iff (m := m) nonempty).mpr
    ⟨between, rest, sound, number, line_typed, rfl⟩
  have answers : (∃ b t, waits.run ⟨rest, ended, sound⟩ = some (b, t)) ↔
      2 ≤ rest.length ∨ ended = true := by
    rw [waits_answers_iff]
    constructor
    · rintro (spoilt | enough)
      · change sound = false at spoilt
        subst spoilt
        cases line_typed with
        | last gap _ blank at_end => exact Or.inr at_end
      · exact enough
    · exact Or.inr
  rw [← answers]
  constructor
  · rintro ⟨s, p, ignored, reachable, rfl, rfl, place, stopped⟩
    obtain ⟨_, _, _, read', -, -, waiting⟩ := (reachable_follows reachable).of_running place
    cases read.symm.trans read'
    cases waiting with
    | untouched runs => rw [stopped] at runs; cases runs
    | ignored runs => rw [stopped] at runs; cases runs
    | woken _ b reads => exact ⟨b, s.source, reads⟩
  · rintro ⟨b, t, reads⟩
    obtain ⟨p, place, reached⟩ := reachable_waiting (reachable_running read starts)
    obtain ⟨_, mid, ignores, gets⟩ := run_bind_iff.mp reads
    have at_get : Reachable (step m) initial
        ⟨typed, mid, .running lifetime handles cfg p true⟩ := by
      refine reached.step_to (a := .main 0) ?_
      simp only [step, mainStep, place, true_and, if_true, ignores, Option.map_some]
    refine ⟨⟨typed, t, .running lifetime handles cfg
      { p with running := false, main := .joining 0 } true⟩, _, _, ?_, rfl, ?_, rfl, rfl⟩
    · refine at_get.step_to (a := .main 0) ?_
      simp only [step, mainStep, SwitchLife.Process.mainStep, place, reduceCtorEq, and_false,
        if_false, if_true, gets, Option.bind_some, Option.map_some]
    · exact (steady_waits _ _ _ reads).1

theorem stops_iff_typed_one_enter :
    ¬ ∃ s p ignored, Reachable (step oneInterface) initial s ∧
      s.typed = literal "300\neth0\n\n" ∧ s.source.ended = false ∧
      s.pc = .running 300 [⟨literal "eth0", 0⟩] repositoryCfg p ignored ∧ p.running = false := by
  rw [stops_iff_typed oneInterface_dialogue oneInterface_starts]
  decide

end SwitchProgram
