import Cursov.Statistics
import Cursov.Library.Progress
import Mathlib.Algebra.Order.BigOperators.Group.Finset

/-!
# The life of the switch process

`main` starts the maintenance thread and one capture thread for each handle, waits
for input, clears `running`, joins the threads in order and closes the handles. The
threads test `running` between two rounds; what they do within a round is that of
`SwitchThreads`.
-/

namespace SwitchLife

open Bytes CommutationTable TableHistory Frame Resumption Transition Progress
open Switch hiding step initial
open SwitchThreads hiding step initial Action
open Statistics

/-- Where a capture thread is: at the test of its loop, in `pcap_next`, in `processPacket`. -/
inductive CapturePc where
  | absent
  | testing
  | polling
  | processing
  | returned
  deriving DecidableEq

/-- The rounds of `tableMaintenanceThread`; `ageEntries` samples the clock, then locks. -/
inductive KeeperPc where
  | absent
  | testing
  | sleeping
  | aging
  | sweeping
  | counting
  | printingTable
  | printingStats
  | returned
  deriving DecidableEq

/-- `main` from the start of its first thread; the numbers count threads and handles. -/
inductive MainPc where
  | startingTable
  | starting (launched : Nat)
  | waiting
  | joining (joined : Nat)
  | joiningTable
  | closing (closed : Nat)
  | returned
  deriving DecidableEq

/-- `closes` counts the calls of `pcap_close` on each handle, the last two fields the calls
of `printTable` and `printStats`. -/
structure Process where
  threads : Threads
  running : Bool
  main : MainPc
  capture : Nat → CapturePc
  keeper : KeeperPc
  counter : Nat
  closes : Nat → Nat
  tablesPrinted : Nat
  statsPrinted : Nat

def initial (lifetime clock : Int) : Process where
  threads := SwitchThreads.initial lifetime clock
  running := true
  main := .startingTable
  capture := fun _ => .absent
  keeper := .absent
  counter := 0
  closes := fun _ => 0
  tablesPrinted := 0
  statsPrinted := 0

inductive Action where
  | tick (elapsed : Nat)
  | main
  | keeper
  | test (port : Nat)
  | noPacket (port : Nat)
  | packet (port : Nat) (f : Capture) (scratch : Memory)
  | advance (port : Nat) (reading : ℚ)

/-- The capture thread that takes the step. -/
def Action.port : Action → Option Nat
  | .test port => some port
  | .noPacket port => some port
  | .packet port _ _ => some port
  | .advance port _ => some port
  | _ => none

namespace Process

def setCapture (s : Process) (port : Nat) (pc : CapturePc) : Process :=
  { s with capture := Function.update s.capture port pc }

/-- `join` waits until the thread has returned. -/
def mainStep (handles : Nat) (s : Process) : Option Process :=
  match s.main with
  | .startingTable => some { s with keeper := .testing, main := .starting 0 }
  | .starting k =>
    if k < handles then some { s.setCapture k .testing with main := .starting (k + 1) }
    else some { s with main := .waiting }
  | .waiting => some { s with running := false, main := .joining 0 }
  | .joining k =>
    if k < handles then
      if s.capture k = .returned then some { s with main := .joining (k + 1) } else none
    else some { s with main := .joiningTable }
  | .joiningTable => if s.keeper = .returned then some { s with main := .closing 0 } else none
  | .closing k =>
    if k < handles then
      some { s with
        closes := Function.update s.closes k (s.closes k + 1)
        main := .closing (k + 1) }
    else some { s with main := .returned }
  | .returned => none

def keeperStep (s : Process) : Option Process :=
  match s.keeper with
  | .absent => none
  | .testing => some { s with keeper := if s.running then .sleeping else .returned }
  | .sleeping => some { s with keeper := .aging }
  | .aging => some { s with
      threads := withTables s.threads (s.threads.world.tables.readClock 0)
      keeper := .sweeping }
  | .sweeping => (s.threads.world.tables.sweep 0).map fun tables =>
      { s with threads := withTables s.threads tables, keeper := .counting }
  | .counting => some { s with
      counter := s.counter + 1
      keeper := if (s.counter + 1) % 5 = 0 then .printingTable else .testing }
  | .printingTable => some { s with tablesPrinted := s.tablesPrinted + 1, keeper := .printingStats }
  | .printingStats => some { s with statsPrinted := s.statsPrinted + 1, keeper := .testing }
  | .returned => none

end Process

/-- Back to the test once the call of `processPacket` is over. -/
def afterOperation : Call → CapturePc
  | .ret => .testing
  | .call _ _ => .processing

def step (handles : Nat) (cfg : TtlSubstitutionCfg) (s : Process) : Action → Option Process
  | .tick elapsed => some
      { s with threads := withTables s.threads (s.threads.world.tables.tick elapsed) }
  | .main => s.mainStep handles
  | .keeper => s.keeperStep
  | .test port =>
    if s.capture port = .testing then
      some (s.setCapture port (if s.running then .polling else .returned))
    else none
  | .noPacket port =>
    if s.capture port = .polling then some (s.setCapture port .testing) else none
  | .packet port f scratch =>
    if s.capture port = .polling then
      (SwitchThreads.step handles cfg s.threads (.capture port f scratch)).map fun threads =>
        { s.setCapture port .processing with threads := threads }
    else none
  | .advance port reading =>
    if s.capture port = .processing then
      (advance perform s.threads port reading).map fun threads =>
        { s.setCapture port (afterOperation (threads.thread port)) with threads := threads }
    else none

/-- The thread is at the test of its loop or in `pcap_next`. -/
def CapturePc.Outside (pc : CapturePc) : Prop := pc = .testing ∨ pc = .polling

def KeeperPc.Busy (pc : KeeperPc) : Prop := pc ≠ .absent ∧ pc ≠ .returned

/-- The action of the threads on their own that belongs to a round of one of them. -/
inductive RoundOf (port : Nat) : SwitchThreads.Action → Prop where
  | capture (f : Capture) (scratch : Memory) : RoundOf port (.capture port f scratch)
  | advance (reading : ℚ) : RoundOf port (.advance port reading)

inductive Effect (handles : Nat) (cfg : TtlSubstitutionCfg) (s : Process) : Action → Process → Prop
  | ticks (elapsed : Nat) : Effect handles cfg s (.tick elapsed)
      { s with threads := withTables s.threads (s.threads.world.tables.tick elapsed) }
  | starts (place : s.main = .startingTable) :
      Effect handles cfg s .main { s with keeper := .testing, main := .starting 0 }
  | launches (k : Nat) (place : s.main = .starting k) (remains : k < handles) :
      Effect handles cfg s .main { s.setCapture k .testing with main := .starting (k + 1) }
  | waits (k : Nat) (place : s.main = .starting k) (all : handles ≤ k) :
      Effect handles cfg s .main { s with main := .waiting }
  | stops (place : s.main = .waiting) :
      Effect handles cfg s .main { s with running := false, main := .joining 0 }
  | joins (k : Nat) (place : s.main = .joining k) (remains : k < handles)
      (finished : s.capture k = .returned) :
      Effect handles cfg s .main { s with main := .joining (k + 1) }
  | joined (k : Nat) (place : s.main = .joining k) (all : handles ≤ k) :
      Effect handles cfg s .main { s with main := .joiningTable }
  | joinsTable (place : s.main = .joiningTable) (finished : s.keeper = .returned) :
      Effect handles cfg s .main { s with main := .closing 0 }
  | closes (k : Nat) (place : s.main = .closing k) (remains : k < handles) :
      Effect handles cfg s .main { s with
        closes := Function.update s.closes k (s.closes k + 1)
        main := .closing (k + 1) }
  | ends (k : Nat) (place : s.main = .closing k) (all : handles ≤ k) :
      Effect handles cfg s .main { s with main := .returned }
  | keeps (t : Process) (busy : s.keeper.Busy) (moved : s.keeperStep = some t)
      (follows : t.threads = s.threads ∨
        ∃ b, SwitchThreads.step handles cfg s.threads b = some t.threads)
      (thread : t.threads.thread = s.threads.thread) (main : t.main = s.main)
      (running : t.running = s.running)
      (capture : t.capture = s.capture) (closes : t.closes = s.closes)
      (there : t.keeper ≠ .absent) (leaves : t.keeper = .returned → s.running = false) :
      Effect handles cfg s .keeper t
  | turns (a : Action) (port : Nat) (own : a.port = some port) (pc : CapturePc)
      (outside : s.capture port |>.Outside)
      (there : pc.Outside ∨ pc = .returned ∧ s.running = false)
      (falls : s.running = false → pc = .returned ∧ s.capture port = .testing ∨
        pc = .testing ∧ s.capture port = .polling) :
      Effect handles cfg s a (s.setCapture port pc)
  | works (a : Action) (port : Nat) (own : a.port = some port) (threads : Threads)
      (inside : s.capture port = .polling ∨ s.capture port = .processing)
      (b : SwitchThreads.Action) (round : RoundOf port b)
      (moved : SwitchThreads.step handles cfg s.threads b = some threads) :
      Effect handles cfg s a
        { s.setCapture port (afterOperation (threads.thread port)) with threads := threads }

theorem mainStep_effect {handles : Nat} {cfg : TtlSubstitutionCfg} {s t : Process}
    (moved : s.mainStep handles = some t) : Effect handles cfg s .main t := by
  simp only [Process.mainStep] at moved
  cases place : s.main with
  | startingTable =>
    simp only [place] at moved
    cases moved
    exact .starts place
  | starting k =>
    simp only [place] at moved
    split at moved
    case isTrue remains =>
      cases moved
      exact .launches k place remains
    case isFalse all =>
      cases moved
      exact .waits k place (Nat.le_of_not_lt all)
  | waiting =>
    simp only [place] at moved
    cases moved
    exact .stops place
  | joining k =>
    simp only [place] at moved
    split at moved
    case isTrue remains =>
      rw [Option.ite_none_right_eq_some] at moved
      obtain ⟨finished, moved⟩ := moved
      cases moved
      exact .joins k place remains finished
    case isFalse all =>
      cases moved
      exact .joined k place (Nat.le_of_not_lt all)
  | joiningTable =>
    simp only [place, Option.ite_none_right_eq_some] at moved
    obtain ⟨finished, moved⟩ := moved
    cases moved
    exact .joinsTable place finished
  | closing k =>
    simp only [place] at moved
    split at moved
    case isTrue remains =>
      cases moved
      exact .closes k place remains
    case isFalse all =>
      cases moved
      exact .ends k place (Nat.le_of_not_lt all)
  | returned =>
    simp only [place] at moved
    cases moved

theorem keeperStep_effect {handles : Nat} {cfg : TtlSubstitutionCfg} {s t : Process}
    (moved : s.keeperStep = some t) : Effect handles cfg s .keeper t := by
  have unfolded := moved
  have busy : s.keeper.Busy := by
    constructor
    · intro place
      simp [Process.keeperStep, place] at moved
    · intro place
      simp [Process.keeperStep, place] at moved
  simp only [Process.keeperStep] at unfolded
  cases place : s.keeper with
  | absent => exact absurd place busy.1
  | returned => exact absurd place busy.2
  | testing =>
    simp only [place] at unfolded
    cases unfolded
    refine .keeps _ busy moved (Or.inl rfl) rfl rfl rfl rfl rfl ?_ ?_
    · cases s.running <;> simp
    · cases s.running <;> simp
  | aging =>
    simp only [place] at unfolded
    cases unfolded
    exact .keeps _ busy moved (Or.inr ⟨.readClock 0, rfl⟩) rfl rfl rfl rfl rfl (by simp) (by simp)
  | sweeping =>
    simp only [place] at unfolded
    obtain ⟨tables, swept, rfl⟩ := Option.map_eq_some_iff.mp unfolded
    have follows : SwitchThreads.step handles cfg s.threads (.sweep 0) =
        some (withTables s.threads tables) := Option.map_eq_some_iff.mpr ⟨tables, swept, rfl⟩
    exact .keeps _ busy moved (Or.inr ⟨.sweep 0, follows⟩) rfl rfl rfl rfl rfl (by simp) (by simp)
  | counting =>
    simp only [place] at unfolded
    cases unfolded
    refine .keeps _ busy moved (Or.inl rfl) rfl rfl rfl rfl rfl ?_ ?_
    · dsimp only
      split <;> simp
    · dsimp only
      split <;> simp
  | _ =>
    simp only [place] at unfolded
    cases unfolded
    exact .keeps _ busy moved (Or.inl rfl) rfl rfl rfl rfl rfl (by simp) (by simp)

theorem step_effect {handles : Nat} {cfg : TtlSubstitutionCfg} {s t : Process} {a : Action}
    (moved : step handles cfg s a = some t) : Effect handles cfg s a t := by
  cases a with
  | tick elapsed =>
    cases moved
    exact .ticks elapsed
  | main => exact mainStep_effect moved
  | keeper => exact keeperStep_effect moved
  | test port =>
    simp only [step, Option.ite_none_right_eq_some, Option.some.injEq] at moved
    obtain ⟨place, rfl⟩ := moved
    refine .turns _ port rfl _ (Or.inl place) ?_ ?_
    · cases running : s.running with
      | true => exact Or.inl (Or.inr rfl)
      | false => exact Or.inr ⟨rfl, rfl⟩
    · intro stopped
      exact Or.inl ⟨by rw [stopped]; rfl, place⟩
  | noPacket port =>
    simp only [step, Option.ite_none_right_eq_some, Option.some.injEq] at moved
    obtain ⟨place, rfl⟩ := moved
    exact .turns _ port rfl _ (Or.inr place) (Or.inl (Or.inl rfl)) fun _ => Or.inr ⟨rfl, place⟩
  | packet port f scratch =>
    simp only [step, Option.ite_none_right_eq_some, Option.map_eq_some_iff] at moved
    obtain ⟨place, threads, captured, rfl⟩ := moved
    have called : afterOperation (threads.thread port) = .processing := by
      obtain ⟨_, _, rfl⟩ := capture_some_iff.mp captured
      simp [afterOperation, processPacket]
    rw [← called]
    exact .works _ port rfl threads (Or.inl place) _ (.capture f scratch) captured
  | advance port reading =>
    simp only [step, Option.ite_none_right_eq_some, Option.map_eq_some_iff] at moved
    obtain ⟨place, threads, advanced, rfl⟩ := moved
    exact .works _ port rfl threads (Or.inr place) _ (.advance reading) advanced

/-- The threads of the process follow the threads on their own. -/
theorem step_followed {handles : Nat} {cfg : TtlSubstitutionCfg} (s : Process) (a : Action)
    (t : Process) (moved : step handles cfg s a = some t) :
    t.threads = s.threads ∨ ∃ b, SwitchThreads.step handles cfg s.threads b = some t.threads := by
  cases step_effect moved with
  | ticks elapsed => exact Or.inr ⟨.tick elapsed, rfl⟩
  | keeps _ _ _ follows => exact follows
  | works a port _ threads _ b _ followed => exact Or.inr ⟨b, followed⟩
  | _ => exact Or.inl rfl

theorem reachable_threads {handles : Nat} {cfg : TtlSubstitutionCfg} {lifetime clock : Int}
    {s : Process} (reachable : Reachable (step handles cfg) (initial lifetime clock) s) :
    Reachable (SwitchThreads.step handles cfg) (SwitchThreads.initial lifetime clock) s.threads :=
  reachable.followed Process.threads step_followed

namespace MainPc

variable (handles : Nat)

/-- How many capture threads are launched, joined, how many handles are closed. -/
def launched : MainPc → Nat
  | .startingTable => 0
  | .starting k => k
  | _ => handles

def joined : MainPc → Nat
  | .joining k => k
  | .joiningTable => handles
  | .closing _ => handles
  | .returned => handles
  | _ => 0

def closed : MainPc → Nat
  | .closing k => k
  | .returned => handles
  | _ => 0

def accepting : MainPc → Bool
  | .startingTable => true
  | .starting _ => true
  | .waiting => true
  | _ => false

def tableJoined : MainPc → Bool
  | .closing _ => true
  | .returned => true
  | _ => false

end MainPc

/-- What `main` has done so far, as the threads and the handles show it. -/
structure Orderly (handles : Nat) (s : Process) : Prop where
  launched_le : s.main.launched handles ≤ handles
  joined_le : s.main.joined handles ≤ handles
  closed_le : s.main.closed handles ≤ handles
  running_eq : s.running = s.main.accepting
  absent_iff : ∀ i, s.capture i = .absent ↔ s.main.launched handles ≤ i
  joined : ∀ i, i < s.main.joined handles → s.capture i = .returned
  keeper_absent_iff : s.keeper = .absent ↔ s.main = .startingTable
  keeper_joined : s.main.tableJoined = true → s.keeper = .returned
  closes_eq : ∀ i, s.closes i = if i < s.main.closed handles then 1 else 0
  returned_stopped : ∀ i, s.capture i = .returned → s.running = false
  keeper_stopped : s.keeper = .returned → s.running = false

theorem initial_orderly (handles : Nat) (lifetime clock : Int) :
    Orderly handles (initial lifetime clock) := by
  constructor <;> simp [initial, MainPc.launched, MainPc.joined, MainPc.closed, MainPc.accepting,
    MainPc.tableJoined]

theorem Orderly.port_lt {handles : Nat} {s : Process} (h : Orderly handles s) {port : Nat}
    (launched : s.capture port ≠ .absent) : port < handles := by
  by_contra beyond
  refine launched ((h.absent_iff port).mpr ?_)
  exact h.launched_le.trans (Nat.le_of_not_lt beyond)

/-- A move of one capture thread between two places where it is launched. -/
theorem Orderly.setCapture {handles : Nat} {s t : Process} (h : Orderly handles s) {port : Nat}
    {pc : CapturePc} (was : s.capture port ≠ .absent ∧ s.capture port ≠ .returned)
    (there : pc ≠ .absent) (leaves : pc = .returned → s.running = false)
    (capture : t.capture = Function.update s.capture port pc) (main : t.main = s.main)
    (running : t.running = s.running) (keeper : t.keeper = s.keeper)
    (closes : t.closes = s.closes) :
    Orderly handles t where
  launched_le := main ▸ h.launched_le
  joined_le := main ▸ h.joined_le
  closed_le := main ▸ h.closed_le
  running_eq := by rw [running, main, h.running_eq]
  absent_iff i := by
    rw [capture, main, ← h.absent_iff]
    by_cases same : i = port
    · subst i
      simp [there, was.1]
    · rw [Function.update_of_ne same]
  joined i joined := by
    rw [main] at joined
    have finished := h.joined i joined
    have other : i ≠ port := by
      rintro rfl
      exact was.2 finished
    rw [capture, Function.update_of_ne other, finished]
  keeper_absent_iff := by rw [keeper, main, h.keeper_absent_iff]
  keeper_joined joined := by
    rw [keeper]
    exact h.keeper_joined (main ▸ joined)
  closes_eq i := by rw [closes, main, h.closes_eq]
  returned_stopped i finished := by
    rw [running]
    rw [capture] at finished
    by_cases same : i = port
    · subst i
      rw [Function.update_self] at finished
      exact leaves finished
    · rw [Function.update_of_ne same] at finished
      exact h.returned_stopped i finished
  keeper_stopped finished := by
    rw [running]
    exact h.keeper_stopped (keeper ▸ finished)

/-- A move of the maintenance thread, or none. -/
theorem Orderly.setKeeper {handles : Nat} {s t : Process} (h : Orderly handles s)
    (absent : t.keeper = .absent ↔ s.keeper = .absent)
    (stays : s.keeper = .returned → t.keeper = .returned)
    (leaves : t.keeper = .returned → s.running = false) (main : t.main = s.main)
    (running : t.running = s.running) (capture : t.capture = s.capture)
    (closes : t.closes = s.closes) : Orderly handles t where
  launched_le := main ▸ h.launched_le
  joined_le := main ▸ h.joined_le
  closed_le := main ▸ h.closed_le
  running_eq := by rw [running, main, h.running_eq]
  absent_iff i := by rw [capture, main, h.absent_iff]
  joined i joined := by
    rw [capture]
    exact h.joined i (main ▸ joined)
  keeper_absent_iff := by rw [absent, main, h.keeper_absent_iff]
  keeper_joined joined := stays (h.keeper_joined (main ▸ joined))
  closes_eq i := by rw [closes, main, h.closes_eq]
  returned_stopped i finished := by
    rw [running]
    exact h.returned_stopped i (capture ▸ finished)
  keeper_stopped finished := by
    rw [running]
    exact leaves finished

/-- A move of `main` once its threads are started. -/
theorem Orderly.setMain {handles : Nat} {s t : Process} (h : Orderly handles s)
    (started : s.main ≠ .startingTable) (start : t.main ≠ .startingTable)
    (launched : t.main.launched handles = s.main.launched handles)
    (joined_le : t.main.joined handles ≤ handles) (closed_le : t.main.closed handles ≤ handles)
    (running_eq : t.running = t.main.accepting) (stays : s.running = false → t.running = false)
    (joined : ∀ i, i < t.main.joined handles → s.capture i = .returned)
    (table : t.main.tableJoined = true → s.keeper = .returned)
    (closes_eq : ∀ i, t.closes i = if i < t.main.closed handles then 1 else 0)
    (capture : t.capture = s.capture) (keeper : t.keeper = s.keeper) : Orderly handles t where
  launched_le := launched ▸ h.launched_le
  joined_le := joined_le
  closed_le := closed_le
  running_eq := running_eq
  absent_iff i := by rw [capture, launched, h.absent_iff]
  joined i early := by rw [capture, joined i early]
  keeper_absent_iff := by
    rw [keeper, h.keeper_absent_iff]
    exact iff_of_false started start
  keeper_joined finished := by rw [keeper, table finished]
  closes_eq := closes_eq
  returned_stopped i finished := stays (h.returned_stopped i (capture ▸ finished))
  keeper_stopped finished := stays (h.keeper_stopped (keeper ▸ finished))

/-- The numbers that a given place of `main` stands for. -/
theorem Orderly.at {handles : Nat} {s : Process} (h : Orderly handles s) {pc : MainPc}
    (place : s.main = pc) :
    s.running = pc.accepting ∧ (∀ i, i < pc.joined handles → s.capture i = .returned) ∧
      (pc.tableJoined = true → s.keeper = .returned) ∧
      ∀ i, s.closes i = if i < pc.closed handles then 1 else 0 := by
  subst pc
  exact ⟨h.running_eq, h.joined, h.keeper_joined, h.closes_eq⟩

theorem starts_orderly {handles : Nat} {s : Process} (h : Orderly handles s)
    (place : s.main = .startingTable) :
    Orderly handles { s with keeper := .testing, main := .starting 0 } where
  launched_le := Nat.zero_le handles
  joined_le := Nat.zero_le handles
  closed_le := Nat.zero_le handles
  running_eq := (h.at place).1
  absent_iff i := by
    rw [h.absent_iff, place]
    rfl
  joined i early := absurd early (Nat.not_lt_zero i)
  keeper_absent_iff := by simp
  keeper_joined finished := by cases finished
  closes_eq := (h.at place).2.2.2
  returned_stopped := h.returned_stopped
  keeper_stopped finished := by cases finished

theorem launches_orderly {handles : Nat} {s : Process} (h : Orderly handles s) {k : Nat}
    (place : s.main = .starting k) (remains : k < handles) :
    Orderly handles { s.setCapture k .testing with main := .starting (k + 1) } where
  launched_le := remains
  joined_le := Nat.zero_le handles
  closed_le := Nat.zero_le handles
  running_eq := (h.at place).1
  absent_iff i := by
    by_cases same : i = k
    · subst i
      simp [Process.setCapture, MainPc.launched]
    · simp only [Process.setCapture, Function.update_of_ne same, h.absent_iff, place,
        MainPc.launched]
      omega
  joined i early := absurd early (Nat.not_lt_zero i)
  keeper_absent_iff := by
    refine h.keeper_absent_iff.trans (iff_of_false ?_ (by simp))
    rw [place]
    simp
  keeper_joined finished := by cases finished
  closes_eq := (h.at place).2.2.2
  returned_stopped i finished := by
    by_cases same : i = k
    · subst i
      simp [Process.setCapture] at finished
    · exact h.returned_stopped i (by simpa [Process.setCapture, same] using finished)
  keeper_stopped := h.keeper_stopped

theorem step_orderly {handles : Nat} {cfg : TtlSubstitutionCfg} (s : Process) (a : Action)
    (t : Process) (h : Orderly handles s) (moved : step handles cfg s a = some t) :
    Orderly handles t := by
  cases step_effect moved with
  | ticks elapsed => exact h.setKeeper Iff.rfl id h.keeper_stopped rfl rfl rfl rfl
  | keeps t busy _ _ _ main running capture closes there leaves =>
    exact h.setKeeper (iff_of_false there busy.1) (fun finished => absurd finished busy.2) leaves
      main running capture closes
  | turns a port _ pc outside there _ =>
    refine h.setCapture ?_ ?_ ?_ rfl rfl rfl rfl rfl
    · rcases outside with place | place <;> rw [place] <;> decide
    · rcases there with (rfl | rfl) | ⟨rfl, _⟩ <;> decide
    · rintro rfl
      rcases there with (h | h) | ⟨_, stopped⟩
      · cases h
      · cases h
      · exact stopped
  | works a port _ threads inside b round followed =>
    refine h.setCapture ?_ ?_ ?_ rfl rfl rfl rfl rfl
    · rcases inside with place | place <;> rw [place] <;> decide
    · cases threads.thread port <;> rintro ⟨⟩
    · cases threads.thread port <;> rintro ⟨⟩
  | starts place => exact starts_orderly h place
  | launches k place remains => exact launches_orderly h place remains
  | waits k place all =>
    obtain ⟨running, joined, table, closes⟩ := h.at place
    have within : k ≤ handles := by simpa [place, MainPc.launched] using h.launched_le
    refine h.setMain (by simp [place]) (by simp) ?_ (Nat.zero_le _) (Nat.zero_le _) running id
      joined table closes rfl rfl
    simp [place, MainPc.launched, le_antisymm within all]
  | stops place =>
    obtain ⟨_, joined, table, closes⟩ := h.at place
    exact h.setMain (by simp [place]) (by simp) (by simp [place, MainPc.launched])
      (Nat.zero_le _) (Nat.zero_le _) rfl (fun _ => rfl) joined table closes rfl rfl
  | joins k place remains finished =>
    obtain ⟨running, joined, table, closes⟩ := h.at place
    refine h.setMain (by simp [place]) (by simp) (by simp [place, MainPc.launched]) remains
      (Nat.zero_le _) running id ?_ table closes rfl rfl
    intro i early
    rcases Nat.lt_succ_iff_lt_or_eq.mp early with earlier | rfl
    · exact joined i earlier
    · exact finished
  | joined k place all =>
    obtain ⟨running, joined, table, closes⟩ := h.at place
    exact h.setMain (by simp [place]) (by simp) (by simp [place, MainPc.launched]) le_rfl
      (Nat.zero_le _) running id (fun i early => joined i (early.trans_le all)) table closes rfl rfl
  | joinsTable place finished =>
    obtain ⟨running, joined, _, closes⟩ := h.at place
    exact h.setMain (by simp [place]) (by simp) (by simp [place, MainPc.launched]) le_rfl
      (Nat.zero_le _) running id joined (fun _ => finished) closes rfl rfl
  | closes k place remains =>
    obtain ⟨running, joined, table, closes⟩ := h.at place
    refine h.setMain (by simp [place]) (by simp) (by simp [place, MainPc.launched]) le_rfl remains
      running id joined table (fun i => ?_) rfl rfl
    by_cases same : i = k
    · subst i
      simp [closes k, MainPc.closed]
    · simp only [Function.update_of_ne same, closes i, MainPc.closed]
      exact if_congr (by omega) rfl rfl
  | ends k place all =>
    obtain ⟨running, joined, table, closes⟩ := h.at place
    have within : k ≤ handles := by simpa [place, MainPc.closed] using h.closed_le
    obtain rfl : k = handles := le_antisymm within all
    exact h.setMain (by simp [place]) (by simp) (by simp [place, MainPc.launched]) le_rfl le_rfl
      running id joined table closes rfl rfl

theorem sendAll_within (bytes : ByteString) (ports : List Nat) :
    Within (sendAll bytes ports) (ports.length + 2) := by
  induction ports with
  | nil => exact .call fun _ => .call fun _ => .ret 0
  | cons q rest ih => exact .call fun _ => ih

theorem length_targets_le (handles port : Nat) (dest : Int) :
    (targets handles port dest).length ≤ handles + 1 := by
  rw [targets]
  split
  · simp
  · refine (List.length_filter_le _ _).trans ?_
    rw [List.length_range]
    exact Nat.le_succ handles

/-- A call updates the statistics twice, learns, looks up, reads the clock and sends on
every port at most once. -/
theorem processPacket_within (handles : Nat) (cfg : TtlSubstitutionCfg) (port : Nat) (f : Capture)
    (scratch : Memory) : Within (processPacket handles cfg port f scratch) (handles + 6) := by
  refine .call fun _ => ?_
  by_cases same : f.shost = f.dhost
  · rw [if_pos same]
    exact (sendAll_within [] []).mono (by simp)
  · rw [if_neg same]
    refine .call fun _ => .call fun dest => ?_
    rw [forwardTo_eq_sendAll]
    refine (sendAll_within _ _).mono ?_
    have few := length_targets_le handles port dest
    omega

theorem perform_sample (i : Nat) (w : World) (op : SwitchOp) (reading : ℚ) :
    (perform i w op reading).1.tables.sample = w.tables.sample := by
  cases op <;> rfl

/-- The threads are in a call exactly while they process a packet, and every call ends. -/
structure Bodies (handles : Nat) (s : Process) : Prop where
  idle_iff : ∀ i, s.threads.thread i = .ret ↔ s.capture i ≠ .processing
  within : ∀ i, Within (s.threads.thread i) (handles + 6)
  sampled : s.keeper = .sweeping → ∃ now, s.threads.world.tables.sample 0 = some now

theorem initial_bodies (handles : Nat) (lifetime clock : Int) :
    Bodies handles (initial lifetime clock) where
  idle_iff _ := iff_of_true rfl (by simp [initial])
  within _ := .ret _
  sampled place := by cases place

theorem afterOperation_ne_processing_iff (c : Call) :
    afterOperation c ≠ .processing ↔ c = .ret := by
  cases c with
  | ret => exact iff_of_true (by decide) rfl
  | call op next => exact iff_of_false (fun differs => differs rfl) (by rintro ⟨⟩)

/-- What one round's step does to the threads. -/
theorem round_threads {handles : Nat} {cfg : TtlSubstitutionCfg} {s t : Threads} {port : Nat}
    {b : SwitchThreads.Action} (round : RoundOf port b)
    (moved : SwitchThreads.step handles cfg s b = some t)
    (within : ∀ i, Within (s.thread i) (handles + 6)) :
    (∀ i, i ≠ port → t.thread i = s.thread i) ∧ Within (t.thread port) (handles + 6) ∧
      t.world.tables.sample = s.world.tables.sample := by
  cases round with
  | capture f scratch =>
    obtain ⟨_, _, rfl⟩ := capture_some_iff.mp moved
    refine ⟨fun i other => Function.update_of_ne other _ _, ?_, rfl⟩
    simp only [Function.update_self]
    exact processPacket_within handles cfg port f scratch
  | advance reading =>
    obtain ⟨op, next, place, world, thread⟩ := advance_some_iff.mp moved
    rw [world, thread]
    refine ⟨fun i other => Function.update_of_ne other _ _, ?_, perform_sample _ _ _ _⟩
    rw [Function.update_self]
    exact (place ▸ within port).next _

theorem keeperStep_sampled {s t : Process} (moved : s.keeperStep = some t)
    (place : t.keeper = .sweeping) : ∃ now, t.threads.world.tables.sample 0 = some now := by
  simp only [Process.keeperStep] at moved
  cases was : s.keeper with
  | aging =>
    simp only [was] at moved
    cases moved
    exact ⟨s.threads.world.tables.clock, by simp [withTables, TableState.readClock]⟩
  | sweeping =>
    simp only [was] at moved
    obtain ⟨tables, _, rfl⟩ := Option.map_eq_some_iff.mp moved
    cases place
  | testing =>
    simp only [was] at moved
    cases moved
    cases running : s.running <;> simp [running] at place
  | counting =>
    simp only [was] at moved
    cases moved
    dsimp only at place
    split at place <;> cases place
  | _ =>
    simp only [was] at moved
    cases moved <;> cases place

theorem step_bodies {handles : Nat} {cfg : TtlSubstitutionCfg} (s : Process) (a : Action)
    (t : Process) (orderly : Orderly handles s) (h : Bodies handles s)
    (moved : step handles cfg s a = some t) : Bodies handles t := by
  cases step_effect moved with
  | keeps t busy moved follows thread main running capture closes there leaves =>
    refine ⟨fun i => ?_, fun i => ?_, keeperStep_sampled moved⟩
    · rw [thread, capture]
      exact h.idle_iff i
    · rw [thread]
      exact h.within i
  | turns a port _ pc outside there _ =>
    refine ⟨fun i => ?_, h.within, h.sampled⟩
    by_cases same : i = port
    · subst i
      have was : s.capture port ≠ .processing := by
        rcases outside with place | place <;> rw [place] <;> decide
      have now : pc ≠ .processing := by rcases there with (rfl | rfl) | ⟨rfl, _⟩ <;> decide
      simp only [Process.setCapture, Function.update_self]
      exact (h.idle_iff port).trans (iff_of_true was now)
    · simp only [Process.setCapture, Function.update_of_ne same]
      exact h.idle_iff i
  | works a port _ threads inside b round followed =>
    obtain ⟨others, within, sample⟩ := round_threads round followed h.within
    refine ⟨fun i => ?_, fun i => ?_, fun place => ?_⟩
    · by_cases same : i = port
      · subst i
        simp only [Process.setCapture, Function.update_self]
        exact (afterOperation_ne_processing_iff _).symm
      · simp only [Process.setCapture, Function.update_of_ne same, others i same]
        exact h.idle_iff i
    · by_cases same : i = port
      · exact same ▸ within
      · simp only [others i same]
        exact h.within i
    · simp only [sample]
      exact h.sampled place
  | launches k place remains =>
    refine ⟨fun i => ?_, h.within, h.sampled⟩
    by_cases same : i = k
    · subst i
      have was : s.capture k = .absent :=
        (orderly.absent_iff k).mpr (by simp [place, MainPc.launched])
      have idle := (h.idle_iff k).mpr (by rw [was]; decide)
      simp only [Process.setCapture, Function.update_self, idle]
      decide
    · simp only [Process.setCapture, Function.update_of_ne same]
      exact h.idle_iff i
  | starts place => exact ⟨h.idle_iff, h.within, fun place => by cases place⟩
  | _ => exact ⟨h.idle_iff, h.within, h.sampled⟩

/-- Carried by every run of the process. -/
structure Sound (handles : Nat) (s : Process) : Prop where
  orderly : Orderly handles s
  bodies : Bodies handles s

theorem step_sound {handles : Nat} {cfg : TtlSubstitutionCfg} (s : Process) (a : Action)
    (t : Process) (h : Sound handles s) (moved : step handles cfg s a = some t) :
    Sound handles t :=
  ⟨step_orderly s a t h.orderly moved, step_bodies s a t h.orderly h.bodies moved⟩

theorem reachable_sound {handles : Nat} {cfg : TtlSubstitutionCfg} {lifetime clock : Int}
    {s : Process} (reachable : Reachable (step handles cfg) (initial lifetime clock) s) :
    Sound handles s :=
  reachable_invariant step_sound
    ⟨initial_orderly handles lifetime clock, initial_bodies handles lifetime clock⟩ reachable

/-- Nothing is left of a process whose `main` has returned: no thread, no open handle, and
no frame that was captured but not forwarded and counted. -/
structure CleanExit (handles : Nat) (s : Process) : Prop where
  captures_over : ∀ i, i < handles → s.capture i = .returned
  keeper_over : s.keeper = .returned
  closed_once : ∀ i, s.closes i = if i < handles then 1 else 0
  forwarded : ∀ c port f, s.threads.world.captures[c]? = some (port, f) → f.shost ≠ f.dhost →
    ForwardedOnce handles s.threads.world c port
  dropped : ∀ c port f, s.threads.world.captures[c]? = some (port, f) → f.shost = f.dhost →
    ∀ q, copies s.threads.world c q = 0
  counted : s.threads.world.tables.table.totalPackets =
    2 * s.threads.world.captures.length % 2 ^ 64

theorem idle_of_joined {handles : Nat} {s : Process} (h : Sound handles s)
    (joined : s.main.joined handles = handles) (i : Nat) : s.threads.thread i = .ret := by
  rw [h.bodies.idle_iff]
  intro place
  have within : i < handles := h.orderly.port_lt (by rw [place]; decide)
  rw [h.orderly.joined i (joined.symm ▸ within)] at place
  cases place

theorem exits_clean {handles : Nat} {cfg : TtlSubstitutionCfg} {lifetime clock : Int} {s : Process}
    (reachable : Reachable (step handles cfg) (initial lifetime clock) s)
    (finished : s.main = .returned) : CleanExit handles s := by
  have h := reachable_sound reachable
  have threads := reachable_threads reachable
  have consistent := reachable_consistent threads
  have joined : s.main.joined handles = handles := by rw [finished, MainPc.joined]
  have idle := idle_of_joined h joined
  obtain ⟨actions, path⟩ := threads
  obtain ⟨total, _⟩ := idle_statistics path idle
  have captures := run_captures path
  constructor
  · intro i within
    exact h.orderly.joined i (joined.symm ▸ within)
  · exact h.orderly.keeper_joined (by rw [finished, MainPc.tableJoined])
  · intro i
    rw [h.orderly.closes_eq, finished, MainPc.closed]
  · intro c port f captured different
    exact settled_forwarded (consistent.settled c port f captured (Or.inl (idle port))) different
  · intro c port f captured same q
    rw [copies, dropped_unsent consistent captured same]
    exact List.count_nil
  · rw [total, captures]
    simp [SwitchThreads.initial, Switch.initial]

/-- Two ports, one frame whose call is not over when the input arrives. -/
theorem exits_clean_mid_call :
    ∃ s, run (step 2 inactive) (initial 300 0)
        [.main, .main, .main, .main, .test 0,
         .packet 0 (plainFrame ![2, 0, 0, 0, 0, 2] ![2, 0, 0, 0, 0, 1]) (fun _ => 0),
         .advance 0 0, .main, .advance 0 0, .advance 0 0, .advance 0 0, .advance 0 0, .advance 0 0,
         .test 0, .test 1, .main, .main, .main, .keeper, .main, .main, .main, .main] = some s ∧
      s.main = .returned ∧ CleanExit 2 s := by
  obtain ⟨s, path, finished⟩ : ∃ s, run (step 2 inactive) (initial 300 0)
      [.main, .main, .main, .main, .test 0,
       .packet 0 (plainFrame ![2, 0, 0, 0, 0, 2] ![2, 0, 0, 0, 0, 1]) (fun _ => 0),
       .advance 0 0, .main, .advance 0 0, .advance 0 0, .advance 0 0, .advance 0 0, .advance 0 0,
       .test 0, .test 1, .main, .main, .main, .keeper, .main, .main, .main, .main] = some s ∧
      s.main = .returned := ⟨_, rfl, rfl⟩
  exact ⟨s, path, finished, exits_clean ⟨_, path⟩ finished⟩

/-- The handle that `pcap_next` or `pcap_sendpacket` is called with. -/
def Uses (s : Process) : Action → Nat → Prop
  | .noPacket port, q => q = port
  | .packet port _ _, q => q = port
  | .advance port _, q => ∃ bytes next, s.threads.thread port = .call (.sendPacket q bytes) next
  | _, _ => False

theorem stage_sends_in_range {handles : Nat} {cfg : TtlSubstitutionCfg} {port : Nat} {f : Capture}
    {scratch : Memory} {r : Call} {answer : Option Int} {sent : List Nat}
    (stage : Stage handles cfg port f scratch r answer sent) {q : Nat} {bytes : ByteString}
    {next : Answer (.sendPacket q bytes) → Call} (at_op : r = .call (.sendPacket q bytes) next) :
    q < handles := by
  cases stage with
  | sending different dest range done todo split =>
    cases todo with
    | nil => cases at_op
    | cons p rest =>
      cases at_op
      have target : q ∈ targets handles port dest := by
        rw [split]
        exact List.mem_append_right _ List.mem_cons_self
      rw [targets] at target
      split at target
      case isTrue known =>
        obtain rfl := List.mem_singleton.mp target
        rcases range with rfl | ⟨_, bound⟩
        · exact absurd rfl known.1
        · omega
      case isFalse => exact List.mem_range.mp (List.mem_filter.mp target).1
  | _ => cases at_op

/-- While some capture thread has not returned, `main` closes nothing. -/
theorem closes_eq_zero {handles : Nat} {s : Process} (h : Orderly handles s) {port : Nat}
    (launched : s.capture port ≠ .absent) (alive : s.capture port ≠ .returned) (q : Nat) :
    s.closes q = 0 := by
  have within := h.port_lt launched
  have none_closed : s.main.closed handles = 0 := by
    cases place : s.main with
    | closing k => exact absurd (h.joined port (by simpa [place, MainPc.joined] using within)) alive
    | returned => exact absurd (h.joined port (by simpa [place, MainPc.joined] using within)) alive
    | _ => rfl
  rw [h.closes_eq, none_closed]
  rfl

/-- The threads of a switch use open handles only; each is closed at most once, and after
`main` has returned no thread takes a step. -/
structure HandlesSafe (handles : Nat) (cfg : TtlSubstitutionCfg) (s : Process) : Prop where
  used_open : ∀ a t q, step handles cfg s a = some t → Uses s a q → q < handles ∧ s.closes q = 0
  closed_at_most_once : ∀ q, s.closes q ≤ 1
  quiet_after_main : s.main = .returned → ∀ a t, step handles cfg s a = some t →
    ∃ elapsed, a = .tick elapsed

/-- An action that is only enabled at a place was performed at it. -/
theorem ite_some_place {p : Prop} [Decidable p] {o : Option Process} {t : Process}
    (moved : (if p then o else none) = some t) : p :=
  (Option.ite_none_right_eq_some.mp moved).1

theorem uses_busy {handles : Nat} {cfg : TtlSubstitutionCfg} {s t : Process} {a : Action} {q : Nat}
    (moved : step handles cfg s a = some t) (uses : Uses s a q) :
    ∃ port, (s.capture port = .polling ∧ q = port) ∨
      (s.capture port = .processing ∧ ∃ bytes next,
        s.threads.thread port = .call (.sendPacket q bytes) next) := by
  cases a with
  | noPacket port =>
    simp only [step, Option.ite_none_right_eq_some] at moved
    exact ⟨port, Or.inl ⟨moved.1, uses⟩⟩
  | packet port f scratch =>
    simp only [step, Option.ite_none_right_eq_some] at moved
    exact ⟨port, Or.inl ⟨moved.1, uses⟩⟩
  | advance port reading =>
    simp only [step, Option.ite_none_right_eq_some] at moved
    exact ⟨port, Or.inr ⟨moved.1, uses⟩⟩
  | _ => cases uses

theorem handles_safe {handles : Nat} {cfg : TtlSubstitutionCfg} {lifetime clock : Int} {s : Process}
    (reachable : Reachable (step handles cfg) (initial lifetime clock) s) :
    HandlesSafe handles cfg s := by
  have h := reachable_sound reachable
  have consistent := reachable_consistent (reachable_threads reachable)
  constructor
  · intro a t q moved uses
    obtain ⟨port, ⟨place, rfl⟩ | ⟨place, bytes, next, sends⟩⟩ := uses_busy moved uses
    · have launched : s.capture q ≠ .absent := by rw [place]; decide
      have unclosed := closes_eq_zero h.orderly launched (by rw [place]; decide) q
      exact ⟨h.orderly.port_lt launched, unclosed⟩
    · obtain ⟨f, scratch, _, stage⟩ := consistent.busy port (by rw [sends]; rintro ⟨⟩)
      exact ⟨stage_sends_in_range stage sends, closes_eq_zero h.orderly (by rw [place]; decide)
        (by rw [place]; decide) q⟩
  · intro q
    rw [h.orderly.closes_eq]
    split <;> decide
  · intro finished a t moved
    have joined : s.main.joined handles = handles := by rw [finished, MainPc.joined]
    have gone : ∀ i, ¬ (s.capture i = .testing ∨ s.capture i = .polling ∨
        s.capture i = .processing) := by
      intro i busy
      have within : i < handles := h.orderly.port_lt fun place => by simp [place] at busy
      simp [h.orderly.joined i (joined.symm ▸ within)] at busy
    have keeper := h.orderly.keeper_joined (by rw [finished, MainPc.tableJoined])
    cases a with
    | tick elapsed => exact ⟨elapsed, rfl⟩
    | main => simp [step, Process.mainStep, finished] at moved
    | keeper => simp [step, Process.keeperStep, keeper] at moved
    | test port => exact absurd (Or.inl (ite_some_place moved)) (gone port)
    | noPacket port => exact absurd (Or.inr (Or.inl (ite_some_place moved))) (gone port)
    | packet port f scratch => exact absurd (Or.inr (Or.inl (ite_some_place moved))) (gone port)
    | advance port reading => exact absurd (Or.inr (Or.inr (ite_some_place moved))) (gone port)

/-- Both ports are polled while `main` waits for the input. -/
theorem handles_safe_polling :
    ∃ s, run (step 2 inactive) (initial 300 0)
        [.main, .main, .main, .main, .test 0, .test 1, .main] = some s ∧
      HandlesSafe 2 inactive s := by
  obtain ⟨s, path⟩ : ∃ s, run (step 2 inactive) (initial 300 0)
      [.main, .main, .main, .main, .test 0, .test 1, .main] = some s := ⟨_, rfl⟩
  exact ⟨s, path, handles_safe ⟨_, path⟩⟩

/-- Every action but the passing of time is work. -/
def work : Action → Nat
  | .tick _ => 0
  | _ => 1

theorem work_le_one (a : Action) : work a ≤ 1 := by cases a <;> simp [work]

/-- The steps that `main` has left at most once the input has arrived. -/
def mainLeft (handles : Nat) : MainPc → Nat
  | .joining k => (handles - k) + (handles + 3)
  | .joiningTable => handles + 2
  | .closing k => (handles - k) + 1
  | _ => 0

/-- The steps of the maintenance thread until it tests `running` and after. -/
def keeperLeft : KeeperPc → Nat
  | .testing => 1
  | .printingStats => 2
  | .printingTable => 3
  | .counting => 4
  | .sweeping => 5
  | .aging => 6
  | .sleeping => 7
  | _ => 0

/-- The steps of a capture thread until it tests `running`, and the test. -/
noncomputable def captureLeft (handles : Nat) (call : Call) : CapturePc → Nat
  | .testing => 1
  | .polling => handles + 8
  | .processing => left call + 1
  | _ => 0

theorem captureLeft_afterOperation (handles : Nat) (call : Call) :
    captureLeft handles call (afterOperation call) ≤ left call + 1 := by
  cases call with
  | ret => exact Nat.le_add_left 1 _
  | call op next => exact le_rfl

noncomputable def stepsLeft (handles : Nat) (s : Process) : Nat :=
  mainLeft handles s.main + keeperLeft s.keeper +
    ∑ i ∈ Finset.range handles, captureLeft handles (s.threads.thread i) (s.capture i)

def shutdownBound (handles : Nat) : Nat := 2 * handles + 10 + handles * (handles + 8)

structure Stopping (handles : Nat) (s : Process) : Prop where
  sound : Sound handles s
  stopped : s.running = false

theorem step_stopping {handles : Nat} {cfg : TtlSubstitutionCfg} (s : Process) (a : Action)
    (t : Process) (h : Stopping handles s) (moved : step handles cfg s a = some t) :
    Stopping handles t := by
  refine ⟨step_sound s a t h.sound moved, ?_⟩
  cases step_effect moved with
  | keeps _ _ _ _ _ _ running => exact running.trans h.stopped
  | stops => rfl
  | _ => exact h.stopped

theorem captureLeft_le {handles : Nat} {s : Process} (h : Sound handles s) (i : Nat) :
    captureLeft handles (s.threads.thread i) (s.capture i) ≤ handles + 8 := by
  have few := left_le (h.bodies.within i)
  cases s.capture i <;> simp only [captureLeft] <;> omega

theorem stepsLeft_le {handles : Nat} {s : Process} (h : Sound handles s) :
    stepsLeft handles s ≤ shutdownBound handles := by
  have main : mainLeft handles s.main ≤ 2 * handles + 3 := by
    cases s.main <;> simp only [mainLeft] <;> omega
  have keeper : keeperLeft s.keeper ≤ 7 := by cases s.keeper <;> decide
  have captures : ∑ i ∈ Finset.range handles,
      captureLeft handles (s.threads.thread i) (s.capture i) ≤ handles * (handles + 8) := by
    refine (Finset.sum_le_card_nsmul _ _ _ fun i _ => captureLeft_le h i).trans_eq ?_
    rw [Finset.card_range, nsmul_eq_mul, Nat.cast_id]
  rw [stepsLeft, shutdownBound]
  omega

/-- A step of one capture thread that leaves it less to do. -/
theorem stepsLeft_capture {handles : Nat} {s t : Process} {port : Nat} (within : port < handles)
    (main : t.main = s.main) (keeper : t.keeper = s.keeper)
    (threads : ∀ i, i ≠ port → t.threads.thread i = s.threads.thread i)
    (captures : ∀ i, i ≠ port → t.capture i = s.capture i)
    (less : captureLeft handles (t.threads.thread port) (t.capture port) <
      captureLeft handles (s.threads.thread port) (s.capture port)) :
    stepsLeft handles t + 1 ≤ stepsLeft handles s := by
  have sum : ∑ i ∈ Finset.range handles, captureLeft handles (t.threads.thread i) (t.capture i) <
      ∑ i ∈ Finset.range handles, captureLeft handles (s.threads.thread i) (s.capture i) := by
    refine Finset.sum_lt_sum (fun i _ => ?_) ⟨port, Finset.mem_range.mpr within, less⟩
    by_cases same : i = port
    · exact same ▸ less.le
    · rw [threads i same, captures i same]
  rw [stepsLeft, stepsLeft, main, keeper]
  omega

theorem keeperStep_left {s t : Process} (stopped : s.running = false)
    (moved : s.keeperStep = some t) : keeperLeft t.keeper + 1 ≤ keeperLeft s.keeper := by
  simp only [Process.keeperStep] at moved
  cases place : s.keeper with
  | absent =>
    rw [place] at moved
    cases moved
  | returned =>
    rw [place] at moved
    cases moved
  | testing =>
    rw [place] at moved
    cases moved
    simp [stopped, keeperLeft]
  | sweeping =>
    rw [place] at moved
    obtain ⟨tables, _, rfl⟩ := Option.map_eq_some_iff.mp moved
    exact le_rfl
  | counting =>
    rw [place] at moved
    cases moved
    dsimp only
    split <;> decide
  | _ =>
    rw [place] at moved
    cases moved
    exact le_rfl

/-- Taking a frame leaves a whole call to do at most, an operation one operation less. -/
theorem captureLeft_round {handles : Nat} {cfg : TtlSubstitutionCfg} {s : Process} {port : Nat}
    {threads : Threads} {b : SwitchThreads.Action}
    (inside : s.capture port = .polling ∨ s.capture port = .processing) (round : RoundOf port b)
    (moved : SwitchThreads.step handles cfg s.threads b = some threads) (h : Bodies handles s) :
    left (threads.thread port) + 1 <
      captureLeft handles (s.threads.thread port) (s.capture port) := by
  cases round with
  | capture f scratch =>
    obtain ⟨idle, _, _⟩ := capture_some_iff.mp moved
    have few := left_le (round_threads (.capture f scratch) moved h.within).2.1
    rw [inside.resolve_right ((h.idle_iff port).mp idle), captureLeft]
    omega
  | advance reading =>
    obtain ⟨op, next, at_op, _, thread⟩ := advance_some_iff.mp moved
    have place : s.capture port = .processing := by
      by_contra other
      have idle := (h.idle_iff port).mpr other
      rw [at_op] at idle
      cases idle
    have less := left_next_lt (at_op ▸ h.within port)
      (perform port s.threads.world op reading).2
    rw [thread, Function.update_self, place, captureLeft, at_op]
    omega

/-- While the switch stops, every piece of work brings it closer to its end. -/
theorem step_left {handles : Nat} {cfg : TtlSubstitutionCfg} (s : Process) (a : Action)
    (t : Process) (h : Stopping handles s) (moved : step handles cfg s a = some t) :
    stepsLeft handles t + work a ≤ stepsLeft handles s := by
  have stopped := h.stopped
  have accepting := h.sound.orderly.running_eq
  rw [stopped] at accepting
  have paid := work_le_one a
  cases step_effect moved with
  | ticks elapsed => exact le_rfl
  | starts place => simp [place, MainPc.accepting] at accepting
  | launches k place => simp [place, MainPc.accepting] at accepting
  | waits k place => simp [place, MainPc.accepting] at accepting
  | stops place => simp [place, MainPc.accepting] at accepting
  | joins k place remains =>
    simp only [stepsLeft, place, mainLeft, captureLeft, work]
    omega
  | joined k place all =>
    simp only [stepsLeft, place, mainLeft, captureLeft, work]
    omega
  | joinsTable place finished =>
    simp only [stepsLeft, place, mainLeft, captureLeft, work]
    omega
  | closes k place remains =>
    simp only [stepsLeft, place, mainLeft, captureLeft, work]
    omega
  | ends k place all =>
    simp only [stepsLeft, place, mainLeft, captureLeft, work]
    omega
  | keeps t busy moved follows thread main running capture =>
    have less := keeperStep_left stopped moved
    simp only [stepsLeft, captureLeft, main, capture, thread, work]
    omega
  | turns a port _ pc outside there falls =>
    have launched : s.capture port ≠ .absent := by
      rcases outside with place | place <;> rw [place] <;> decide
    refine le_trans (Nat.add_le_add_left paid _)
      (stepsLeft_capture (h.sound.orderly.port_lt launched) rfl rfl (fun _ _ => rfl)
        (fun i other => Function.update_of_ne other _ _) ?_)
    rcases falls stopped with ⟨rfl, place⟩ | ⟨rfl, place⟩
    · simp [captureLeft, Process.setCapture, place]
    · simp [captureLeft, Process.setCapture, place]
  | works a port _ threads inside b round followed =>
    have launched : s.capture port ≠ .absent := by
      rcases inside with place | place <;> rw [place] <;> decide
    have others := (round_threads round followed h.sound.bodies.within).1
    have less := captureLeft_round inside round followed h.sound.bodies
    have now := captureLeft_afterOperation handles (threads.thread port)
    refine le_trans (Nat.add_le_add_left paid _)
      (stepsLeft_capture (h.sound.orderly.port_lt launched) rfl rfl others
        (fun i other => Function.update_of_ne other _ _) ?_)
    simp only [Process.setCapture, Function.update_self]
    exact now.trans_lt less

/-- A thread that has been launched and has not returned has a step of its own. -/
theorem capture_moves (cfg : TtlSubstitutionCfg) {handles : Nat} {s : Process} {port : Nat}
    (h : Bodies handles s) (launched : s.capture port ≠ .absent)
    (alive : s.capture port ≠ .returned) : ∃ a t, work a = 1 ∧ step handles cfg s a = some t := by
  cases place : s.capture port with
  | absent => exact absurd place launched
  | returned => exact absurd place alive
  | testing => exact ⟨.test port, _, rfl, if_pos place⟩
  | polling => exact ⟨.noPacket port, _, rfl, if_pos place⟩
  | processing =>
    cases at_op : s.threads.thread port with
    | ret => exact absurd place ((h.idle_iff port).mp at_op)
    | call op next =>
      have enabled : (step handles cfg s (.advance port 0)).isSome := by
        simp [step, place, advance, at_op]
      obtain ⟨t, moved⟩ := Option.isSome_iff_exists.mp enabled
      exact ⟨.advance port 0, t, rfl, moved⟩

theorem keeper_moves (cfg : TtlSubstitutionCfg) {handles : Nat} {s : Process}
    (h : Bodies handles s) (launched : s.keeper ≠ .absent) (alive : s.keeper ≠ .returned) :
    ∃ a t, work a = 1 ∧ step handles cfg s a = some t := by
  have enabled : s.keeperStep.isSome := by
    cases place : s.keeper with
    | absent => exact absurd place launched
    | returned => exact absurd place alive
    | sweeping =>
      obtain ⟨now, sampled⟩ := h.sampled place
      simp [Process.keeperStep, place, sweep_some_iff.mpr ⟨now, sampled, rfl⟩]
    | _ => simp [Process.keeperStep, place]
  obtain ⟨t, moved⟩ := Option.isSome_iff_exists.mp enabled
  exact ⟨.keeper, t, rfl, moved⟩

/-- `main` never waits for a thread that cannot move. -/
theorem stopping_moves (cfg : TtlSubstitutionCfg) {handles : Nat} {s : Process}
    (h : Stopping handles s) (unfinished : s.main ≠ .returned) :
    ∃ a t, work a = 1 ∧ step handles cfg s a = some t := by
  have accepting := h.sound.orderly.running_eq
  rw [h.stopped] at accepting
  have main_moves (enabled : (s.mainStep handles).isSome) :
      ∃ a t, work a = 1 ∧ step handles cfg s a = some t := by
    obtain ⟨t, moved⟩ := Option.isSome_iff_exists.mp enabled
    exact ⟨.main, t, rfl, moved⟩
  cases place : s.main with
  | startingTable => simp [place, MainPc.accepting] at accepting
  | starting k => simp [place, MainPc.accepting] at accepting
  | waiting => simp [place, MainPc.accepting] at accepting
  | returned => exact absurd place unfinished
  | joining k =>
    by_cases remains : k < handles
    · have launched : s.capture k ≠ .absent := by
        rw [ne_eq, h.sound.orderly.absent_iff, place]
        exact remains.not_ge
      by_cases finished : s.capture k = .returned
      · exact main_moves (by simp [Process.mainStep, place, remains, finished])
      · exact capture_moves cfg h.sound.bodies launched finished
    · exact main_moves (by simp [Process.mainStep, place, remains])
  | joiningTable =>
    have launched : s.keeper ≠ .absent := by
      rw [ne_eq, h.sound.orderly.keeper_absent_iff, place]
      simp
    by_cases finished : s.keeper = .returned
    · exact main_moves (by simp [Process.mainStep, place, finished])
    · exact keeper_moves cfg h.sound.bodies launched finished
  | closing k =>
    by_cases remains : k < handles
    · exact main_moves (by simp [Process.mainStep, place, remains])
    · exact main_moves (by simp [Process.mainStep, place, remains])

/-- The steps of `main` until it has cleared `running`. -/
def startLeft (handles : Nat) : MainPc → Nat
  | .startingTable => handles + 3
  | .starting k => (handles - k) + 2
  | .waiting => 1
  | _ => 0

/-- The steps of `main` to the input, then the work of the shutdown. -/
noncomputable def exitLeft (handles : Nat) (s : Process) : Nat :=
  if s.running then startLeft handles s.main + shutdownBound handles else stepsLeft handles s

/-- Before the input `main` waits for nobody. -/
theorem running_moves (cfg : TtlSubstitutionCfg) {handles : Nat} {s : Process}
    (h : Sound handles s) (running : s.running = true) :
    ∃ t, step handles cfg s .main = some t ∧ exitLeft handles t < exitLeft handles s := by
  have accepting := h.orderly.running_eq
  rw [running] at accepting
  cases place : s.main with
  | startingTable =>
    have moved : step handles cfg s .main =
        some { s with keeper := .testing, main := .starting 0 } := by
      simp only [step, Process.mainStep, place]
    refine ⟨_, moved, ?_⟩
    simp [exitLeft, running, startLeft, place]
  | starting k =>
    by_cases remains : k < handles
    · have moved : step handles cfg s .main =
          some { s.setCapture k .testing with main := .starting (k + 1) } := by
        simp only [step, Process.mainStep, place, if_pos remains]
      refine ⟨_, moved, ?_⟩
      simp only [exitLeft, running, startLeft, place, Process.setCapture, if_true]
      omega
    · have moved : step handles cfg s .main = some { s with main := .waiting } := by
        simp only [step, Process.mainStep, place, if_neg remains]
      refine ⟨_, moved, ?_⟩
      simp only [exitLeft, running, startLeft, place, if_true]
      omega
  | waiting =>
    have moved : step handles cfg s .main =
        some { s with running := false, main := .joining 0 } := by
      simp only [step, Process.mainStep, place]
    have limit := stepsLeft_le (step_sound s .main _ h moved)
    refine ⟨_, moved, ?_⟩
    simp only [exitLeft, running, startLeft, place, if_true, Bool.false_eq_true, if_false]
    omega
  | _ => simp [place, MainPc.accepting] at accepting

theorem sound_moves (cfg : TtlSubstitutionCfg) {handles : Nat} {s : Process}
    (h : Sound handles s) (unfinished : s.main ≠ .returned) :
    ∃ a t, work a = 1 ∧ step handles cfg s a = some t ∧
      exitLeft handles t < exitLeft handles s := by
  cases running : s.running with
  | true =>
    obtain ⟨t, moved, less⟩ := running_moves cfg h running
    exact ⟨.main, t, rfl, moved, less⟩
  | false =>
    obtain ⟨a, t, works, moved⟩ := stopping_moves cfg ⟨h, running⟩ unfinished
    have paid := step_left s a t ⟨h, running⟩ moved
    have stopped := (step_stopping s a t ⟨h, running⟩ moved).stopped
    refine ⟨a, t, works, moved, ?_⟩
    rw [exitLeft, exitLeft, running, stopped]
    simp only [Bool.false_eq_true, if_false]
    omega

/-- From every reachable state there is work to do until `main` has returned; once
`running` is cleared, only for so long, whatever the schedule and the frames that arrive;
and the end can always be reached. -/
structure ShutsDown (handles : Nat) (cfg : TtlSubstitutionCfg) (s : Process) : Prop where
  never_stuck : s.main ≠ .returned → ∃ a t, work a = 1 ∧ step handles cfg s a = some t
  bounded : s.running = false → ∀ actions t, run (step handles cfg) s actions = some t →
    cost work actions ≤ shutdownBound handles
  can_return : ∃ actions t, run (step handles cfg) s actions = some t ∧ t.main = .returned

theorem shuts_down {handles : Nat} {cfg : TtlSubstitutionCfg} {lifetime clock : Int} {s : Process}
    (reachable : Reachable (step handles cfg) (initial lifetime clock) s) :
    ShutsDown handles cfg s := by
  have h := reachable_sound reachable
  constructor
  · intro unfinished
    obtain ⟨a, t, works, moved, _⟩ := sound_moves cfg h unfinished
    exact ⟨a, t, works, moved⟩
  · intro stopped actions t path
    have paid := run_cost_le step_stopping step_left ⟨h, stopped⟩ path
    have limit := stepsLeft_le h
    omega
  · refine @exists_run_to_end _ _ _ _ (exitLeft handles) _ step_sound (fun u sound unfinished => ?_)
      s h
    obtain ⟨a, t, _, moved, less⟩ := sound_moves cfg sound unfinished
    exact ⟨a, t, moved, less⟩

/-- A frame is in the hands of its thread and the other thread polls when the input arrives. -/
theorem shuts_down_mid_call :
    ∃ s, run (step 2 inactive) (initial 300 0)
        [.main, .main, .main, .main, .test 0, .test 1,
         .packet 0 (plainFrame ![2, 0, 0, 0, 0, 2] ![2, 0, 0, 0, 0, 1]) (fun _ => 0),
         .main] = some s ∧ s.running = false ∧ ShutsDown 2 inactive s := by
  obtain ⟨s, path, stopped⟩ : ∃ s, run (step 2 inactive) (initial 300 0)
      [.main, .main, .main, .main, .test 0, .test 1,
       .packet 0 (plainFrame ![2, 0, 0, 0, 0, 2] ![2, 0, 0, 0, 0, 1]) (fun _ => 0),
       .main] = some s ∧ s.running = false := ⟨_, rfl, rfl⟩
  exact ⟨s, path, stopped, shuts_down ⟨_, path⟩⟩

/-- The frames that the thread of `port` takes from its handle. -/
def framesOn (port : Nat) : Action → Nat
  | .packet p _ _ => if p = port then 1 else 0
  | _ => 0

def framesLeft (port : Nat) (s : Process) : Nat :=
  if s.capture port = .polling then 1 else 0

/-- Between the test of `running` and the end of the sweep. -/
def KeeperPc.inRound : KeeperPc → Nat
  | .sleeping => 1
  | .aging => 1
  | .sweeping => 1
  | .counting => 1
  | _ => 0

theorem framesLeft_setCapture (port p : Nat) (s : Process) {pc : CapturePc}
    (leaves : pc ≠ .polling) :
    framesLeft port (s.setCapture p pc) ≤ framesLeft port s := by
  by_cases same : port = p
  · subst p
    simp [framesLeft, Process.setCapture, leaves]
  · simp [framesLeft, Process.setCapture, same]

theorem step_frames_left {handles : Nat} {cfg : TtlSubstitutionCfg} (port : Nat) (s : Process)
    (a : Action) (t : Process) (h : Stopping handles s) (moved : step handles cfg s a = some t) :
    framesLeft port t + framesOn port a ≤ framesLeft port s := by
  have accepting := h.sound.orderly.running_eq
  rw [h.stopped] at accepting
  cases a with
  | tick elapsed =>
    cases moved
    exact le_rfl
  | main =>
    cases step_effect moved with
    | launches k place => simp [place, MainPc.accepting] at accepting
    | turns _ _ own => cases own
    | works _ _ own => cases own
    | _ => exact le_rfl
  | keeper =>
    cases step_effect moved with
    | keeps _ _ _ _ _ _ _ capture =>
      rw [framesLeft, framesLeft, capture]
      exact le_rfl
    | turns _ _ own => cases own
    | works _ _ own => cases own
  | test p =>
    simp only [step, Option.ite_none_right_eq_some, Option.some.injEq] at moved
    obtain ⟨_, rfl⟩ := moved
    exact framesLeft_setCapture port p s (by simp [h.stopped])
  | noPacket p =>
    simp only [step, Option.ite_none_right_eq_some, Option.some.injEq] at moved
    obtain ⟨_, rfl⟩ := moved
    exact framesLeft_setCapture port p s (by decide)
  | packet p f scratch =>
    simp only [step, Option.ite_none_right_eq_some, Option.map_eq_some_iff] at moved
    obtain ⟨place, threads, _, rfl⟩ := moved
    by_cases same : p = port
    · subst p
      simp [framesLeft, framesOn, Process.setCapture, place]
    · simp [framesLeft, framesOn, Process.setCapture, same, Ne.symm same]
  | advance p reading =>
    simp only [step, Option.ite_none_right_eq_some, Option.map_eq_some_iff] at moved
    obtain ⟨_, threads, _, rfl⟩ := moved
    refine framesLeft_setCapture port p s ?_
    cases threads.thread p <;> simp [afterOperation]

theorem keeperStep_rounds {s t : Process} (stopped : s.running = false)
    (moved : s.keeperStep = some t) :
    t.counter + t.keeper.inRound ≤ s.counter + s.keeper.inRound := by
  simp only [Process.keeperStep] at moved
  cases place : s.keeper with
  | testing =>
    rw [place] at moved
    cases moved
    simp [stopped, KeeperPc.inRound]
  | sweeping =>
    rw [place] at moved
    obtain ⟨tables, _, rfl⟩ := Option.map_eq_some_iff.mp moved
    exact le_rfl
  | counting =>
    rw [place] at moved
    cases moved
    dsimp only
    split <;> exact le_rfl
  | _ =>
    rw [place] at moved
    cases moved <;> exact le_rfl

theorem step_rounds {handles : Nat} {cfg : TtlSubstitutionCfg} (s : Process) (a : Action)
    (t : Process) (h : Stopping handles s) (moved : step handles cfg s a = some t) :
    t.counter + t.keeper.inRound + 0 ≤ s.counter + s.keeper.inRound := by
  have accepting := h.sound.orderly.running_eq
  rw [h.stopped] at accepting
  cases step_effect moved with
  | keeps t busy moved => exact keeperStep_rounds h.stopped moved
  | starts place => simp [place, MainPc.accepting] at accepting
  | _ => exact le_rfl

/-- The sweep of the table is a step of the maintenance thread. -/
def sweepsOn (s : Process) : Action → Nat
  | .keeper => if s.keeper = .sweeping then 1 else 0
  | _ => 0

/-- The thread has passed its test and not swept yet. -/
def KeeperPc.sweepAhead : KeeperPc → Nat
  | .sleeping => 1
  | .aging => 1
  | .sweeping => 1
  | _ => 0

theorem keeperStep_sweeps {s t : Process} (stopped : s.running = false)
    (moved : s.keeperStep = some t) :
    t.keeper.sweepAhead + sweepsOn s .keeper ≤ s.keeper.sweepAhead := by
  simp only [Process.keeperStep] at moved
  cases place : s.keeper with
  | testing =>
    rw [place] at moved
    cases moved
    simp [stopped, sweepsOn, place, KeeperPc.sweepAhead]
  | sweeping =>
    rw [place] at moved
    obtain ⟨tables, _, rfl⟩ := Option.map_eq_some_iff.mp moved
    simp [sweepsOn, place, KeeperPc.sweepAhead]
  | counting =>
    rw [place] at moved
    cases moved
    dsimp only
    split <;> simp [sweepsOn, place, KeeperPc.sweepAhead]
  | _ =>
    rw [place] at moved
    cases moved <;> simp [sweepsOn, place, KeeperPc.sweepAhead]

theorem step_sweeps {handles : Nat} {cfg : TtlSubstitutionCfg} (s : Process) (a : Action)
    (t : Process) (h : Stopping handles s) (moved : step handles cfg s a = some t) :
    t.keeper.sweepAhead + sweepsOn s a ≤ s.keeper.sweepAhead := by
  have accepting := h.sound.orderly.running_eq
  rw [h.stopped] at accepting
  cases step_effect moved with
  | keeps t busy moved => exact keeperStep_sweeps h.stopped moved
  | starts place => simp [place, MainPc.accepting] at accepting
  | turns _ _ own => cases a <;> first | exact le_rfl | cases own
  | works _ _ own => cases a <;> first | exact le_rfl | cases own
  | _ => exact le_rfl

/-- What happens after `running` is cleared: no thread takes a second frame, and a thread
that is not in `pcap_next` takes none; the table is swept once more at most, and not at all if
the maintenance thread has not passed its test. -/
structure LastRounds (handles : Nat) (cfg : TtlSubstitutionCfg) (s : Process) : Prop where
  frames : ∀ actions t, run (step handles cfg) s actions = some t → ∀ port,
    cost (framesOn port) actions ≤ if s.capture port = .polling then 1 else 0
  sweeps : ∀ actions t, run (step handles cfg) s actions = some t →
    costAlong (step handles cfg) sweepsOn s actions ≤ s.keeper.sweepAhead
  rounds : ∀ actions t, run (step handles cfg) s actions = some t →
    t.counter ≤ s.counter + s.keeper.inRound

theorem last_rounds {handles : Nat} {cfg : TtlSubstitutionCfg} {lifetime clock : Int} {s : Process}
    (reachable : Reachable (step handles cfg) (initial lifetime clock) s)
    (stopped : s.running = false) : LastRounds handles cfg s := by
  have stopping : Stopping handles s := ⟨reachable_sound reachable, stopped⟩
  constructor
  · intro actions t path port
    have paid := run_cost_le step_stopping (step_frames_left port) stopping path
    rw [framesLeft, framesLeft] at paid
    omega
  · intro actions t path
    have paid := @run_costAlong_le _ _ _ _ (fun u => u.keeper.sweepAhead) sweepsOn
      step_stopping step_sweeps _ _ _ stopping path
    omega
  · intro actions t path
    have kept := @run_cost_le _ _ _ _ (fun u => u.counter + u.keeper.inRound) (fun _ => 0)
      step_stopping step_rounds _ _ _ stopping path
    omega

/-- One thread polls, the other is about to test, when the input arrives. -/
theorem last_rounds_polling :
    ∃ s, run (step 2 inactive) (initial 300 0)
        [.main, .main, .main, .main, .test 0, .keeper, .main] = some s ∧ s.running = false ∧
      LastRounds 2 inactive s := by
  obtain ⟨s, path, stopped⟩ : ∃ s, run (step 2 inactive) (initial 300 0)
      [.main, .main, .main, .main, .test 0, .keeper, .main] = some s ∧ s.running = false :=
    ⟨_, rfl, rfl⟩
  exact ⟨s, path, stopped, last_rounds ⟨_, path⟩ stopped⟩

end SwitchLife
