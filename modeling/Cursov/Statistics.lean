import Cursov.SwitchThreads
import Mathlib.Algebra.Order.Group.Multiset

/-!
# The packet statistics

Every call of `processPacket` records twice, a zero on entry and the measured
duration on exit. The law of the counters is an account over all interleavings
of the capture threads: what is recorded, and what the running calls still owe,
is what the calls so far make due.
-/

namespace Statistics

open CommutationTable TableHistory Frame Resumption Transition SwitchThreads
open Switch hiding step initial

structure CountersAgree (t : Table) : Prop where
  total : t.totalPackets = t.processingTimes.length % 2 ^ 64
  maximum : t.maxProcessingTime = t.processingTimes.foldl max 0

theorem updateStats_agree {t : Table} (h : CountersAgree t) (duration : ℚ) :
    CountersAgree (updateStats t duration) where
  total := by
    have total := h.total
    simp only [updateStats, List.length_append, List.length_singleton]
    omega
  maximum := by
    simp only [updateStats, List.foldl_append, List.foldl_cons, List.foldl_nil, ← h.maximum]
    by_cases larger : t.maxProcessingTime < duration
    · rw [if_pos larger, max_eq_right larger.le]
    · rw [if_neg larger, max_eq_left (not_lt.mp larger)]

/-- The average of the recorded times is their sum over their number. -/
theorem averageProcessingTime_eq (t : Table) :
    averageProcessingTime t = t.processingTimes.sum / t.processingTimes.length := by
  rw [averageProcessingTime]
  by_cases none_recorded : t.processingTimes = []
  · rw [if_pos none_recorded, none_recorded, List.sum_nil, zero_div]
  · rw [if_neg none_recorded, List.sum_eq_foldl]

/-- The duration a call is about to record. -/
def pending : Call → Multiset ℚ
  | .call (.updateStats duration) _ => {duration}
  | _ => 0

/-- The measurements a call still makes; the answers do not matter. -/
def unmeasured : Call → Nat
  | .ret => 0
  | .call (.updateStats _) next => unmeasured (next ())
  | .call .elapsed next => unmeasured (next (0 : ℚ)) + 1
  | .call (.updateEntry _ _) next => unmeasured (next ())
  | .call (.getPortForMac _) next => unmeasured (next (-1 : Int))
  | .call (.sendPacket _ _) next => unmeasured (next ())

def recorded (w : World) : Multiset ℚ := w.tables.table.processingTimes

theorem pending_sendAll (bytes : Bytes.ByteString) (ports : List Nat) :
    pending (sendAll bytes ports) = 0 := by
  cases ports with
  | nil => rfl
  | cons q rest => rfl

theorem unmeasured_sendAll (bytes : Bytes.ByteString) (ports : List Nat) :
    unmeasured (sendAll bytes ports) = 1 := by
  induction ports with
  | nil => rfl
  | cons q rest ih => exact ih

theorem unmeasured_processPacket (handles : Nat) (cfg : TtlSubstitutionCfg) (port : Nat)
    (f : Capture) (scratch : Memory) :
    unmeasured (processPacket handles cfg port f scratch) = 1 := by
  change unmeasured (if f.shost = f.dhost then recordDuration else _) = 1
  by_cases same : f.shost = f.dhost
  · rw [if_pos same]
    rfl
  · rw [if_neg same]
    change unmeasured (forwardTo handles port _ (-1)) = 1
    rw [forwardTo_eq_sendAll, unmeasured_sendAll]

theorem perform_recorded (i : Nat) (w : World) (op : SwitchOp) (next : Answer op → Call)
    (reading : ℚ) :
    recorded (perform i w op reading).1 = recorded w + pending (.call op next) := by
  cases op with
  | updateStats duration => exact (Multiset.coe_add _ _).symm
  | _ => exact (add_zero _).symm

theorem measured_elapsed (i : Nat) (w : World) (reading : ℚ) :
    ((perform i w .elapsed reading).1.measured : Multiset ℚ) = w.measured + {reading} :=
  (Multiset.coe_add _ _).symm

/-- A measurement is the only thing that makes a duration pending. -/
theorem stage_measured {handles : Nat} {cfg : TtlSubstitutionCfg} {i : Nat} {f : Capture}
    {scratch : Memory} {r : Call} {answer : Option Int} {sent : List Nat}
    (stage : Stage handles cfg i f scratch r answer sent) {op : SwitchOp}
    {next : Answer op → Call} (at_op : r = .call op next) (w : World) (reading : ℚ) :
    ((perform i w op reading).1.measured : Multiset ℚ) =
      w.measured + pending (next (perform i w op reading).2) := by
  cases stage with
  | entered =>
    cases at_op
    change (w.measured : Multiset ℚ) = w.measured + pending (if f.shost = f.dhost then _ else _)
    by_cases same : f.shost = f.dhost
    · rw [if_pos same]
      exact (add_zero _).symm
    · rw [if_neg same]
      exact (add_zero _).symm
  | dropping same =>
    cases at_op
    exact measured_elapsed i w reading
  | learning different =>
    cases at_op
    exact (add_zero _).symm
  | looking different =>
    cases at_op
    change (w.measured : Multiset ℚ) = w.measured + pending (forwardTo handles i _ _)
    rw [forwardTo_eq_sendAll, pending_sendAll, add_zero]
  | sending different dest range done todo split =>
    cases todo with
    | nil =>
      cases at_op
      exact measured_elapsed i w reading
    | cons q rest =>
      cases at_op
      change (w.measured : Multiset ℚ) = w.measured + pending (sendAll _ rest)
      rw [pending_sendAll, add_zero]
  | recording duration answer sent settled =>
    cases at_op
    exact (add_zero _).symm

theorem stage_unmeasured {handles : Nat} {cfg : TtlSubstitutionCfg} {i : Nat} {f : Capture}
    {scratch : Memory} {r : Call} {answer : Option Int} {sent : List Nat}
    (stage : Stage handles cfg i f scratch r answer sent) {op : SwitchOp}
    {next : Answer op → Call} (at_op : r = .call op next) (w : World) (reading : ℚ) :
    (perform i w op reading).1.measured.length + unmeasured (next (perform i w op reading).2) =
      w.measured.length + unmeasured r := by
  cases stage with
  | entered => cases at_op; rfl
  | dropping same =>
    cases at_op
    exact List.length_append
  | learning different => cases at_op; rfl
  | looking different =>
    cases at_op
    change w.measured.length + unmeasured (forwardTo handles i _ _) =
      w.measured.length + unmeasured (forwardTo handles i _ _)
    rw [forwardTo_eq_sendAll, forwardTo_eq_sendAll, unmeasured_sendAll, unmeasured_sendAll]
  | sending different dest range done todo split =>
    cases todo with
    | nil =>
      cases at_op
      exact List.length_append
    | cons q rest => cases at_op; rfl
  | recording duration answer sent settled => cases at_op; rfl

structure Balanced (handles : Nat) (s : Threads) : Prop where
  counters : CountersAgree s.world.tables.table
  durations : recorded s.world + ∑ i ∈ Finset.range handles, pending (s.thread i) =
    (s.world.measured : Multiset ℚ) + Multiset.replicate s.world.captures.length 0
  measurements : s.world.measured.length + ∑ i ∈ Finset.range handles, unmeasured (s.thread i) =
    s.world.captures.length

theorem initial_balanced (handles : Nat) (lifetime clock : Int) :
    Balanced handles (initial lifetime clock) where
  counters := ⟨rfl, rfl⟩
  durations := by
    change 0 + ∑ i ∈ Finset.range handles, (0 : Multiset ℚ) = 0 + 0
    rw [Finset.sum_const_zero]
  measurements := by
    change 0 + ∑ i ∈ Finset.range handles, 0 = 0
    rw [Finset.sum_const_zero, zero_add]

theorem withTables_balanced {handles : Nat} {s : Threads} (h : Balanced handles s)
    {tables : TableState} (counters : CountersAgree tables.table)
    (same : tables.table.processingTimes = s.world.tables.table.processingTimes) :
    Balanced handles (withTables s tables) where
  counters := counters
  durations := by
    have kept : recorded (withTables s tables).world = recorded s.world :=
      congrArg (fun times : List ℚ => (times : Multiset ℚ)) same
    rw [kept]
    exact h.durations
  measurements := h.measurements

theorem capture_balanced {handles : Nat} {cfg : TtlSubstitutionCfg} {s : Threads} {port : Nat}
    (h : Balanced handles s) (idle : s.thread port = .ret) (valid : port < handles) (f : Capture)
    (scratch : Memory) :
    Balanced handles
      { world := s.world.deliver port f
        thread := Function.update s.thread port (processPacket handles cfg port f scratch) } where
  counters := h.counters
  durations := by
    have length : (s.world.deliver port f).captures.length = s.world.captures.length + 1 :=
      List.length_append
    refine balance_update valid h.durations ?_
    rw [idle, length, Multiset.replicate_succ, ← Multiset.singleton_add]
    change recorded s.world + {0} + _ =
      recorded s.world + 0 + ((s.world.measured : Multiset ℚ) + _)
    abel
  measurements := by
    have length : (s.world.deliver port f).captures.length = s.world.captures.length + 1 :=
      List.length_append
    refine balance_update valid h.measurements ?_
    rw [unmeasured_processPacket, idle, length]
    change s.world.measured.length + 1 + _ = s.world.measured.length + 0 + _
    omega

theorem perform_counters (i : Nat) (w : World) (op : SwitchOp) (reading : ℚ)
    (h : CountersAgree w.tables.table) :
    CountersAgree (perform i w op reading).1.tables.table := by
  cases op with
  | updateStats duration => exact updateStats_agree h duration
  | updateEntry mac port => exact ⟨h.total, h.maximum⟩
  | _ => exact h

theorem advance_balanced {handles : Nat} {cfg : TtlSubstitutionCfg} {s t : Threads} {i : Nat}
    {reading : ℚ} (consistent : Consistent handles cfg s) (h : Balanced handles s)
    (moved : advance perform s i reading = some t) : Balanced handles t := by
  obtain ⟨op, next, at_op, hworld, hthread⟩ := advance_some_iff.mp moved
  obtain ⟨f, scratch, captured, stage⟩ := consistent.busy i (by rw [at_op]; rintro ⟨⟩)
  have valid := (consistent.latest _ i f captured).1
  have measured := stage_measured stage at_op s.world reading
  have unmeasured := stage_unmeasured stage at_op s.world reading
  constructor
  · rw [hworld]
    exact perform_counters i s.world op reading h.counters
  · rw [hworld, hthread, perform_captures]
    refine balance_update valid h.durations ?_
    rw [measured, perform_recorded i s.world op next reading, at_op]
    abel
  · rw [hworld, hthread, perform_captures]
    refine balance_update valid h.measurements ?_
    omega

theorem step_balanced {handles : Nat} {cfg : TtlSubstitutionCfg} (s : Threads) (a : Action)
    (t : Threads) (h : Consistent handles cfg s ∧ Balanced handles s)
    (moved : step handles cfg s a = some t) :
    Consistent handles cfg t ∧ Balanced handles t := by
  refine ⟨step_consistent s a t h.1 moved, ?_⟩
  cases a with
  | tick elapsed =>
    cases moved
    exact withTables_balanced h.2 h.2.counters rfl
  | capture port f scratch =>
    obtain ⟨idle, valid, rfl⟩ := capture_some_iff.mp moved
    exact capture_balanced h.2 idle valid f scratch
  | advance port reading => exact advance_balanced h.1 h.2 moved
  | readClock k =>
    cases moved
    exact withTables_balanced h.2 h.2.counters rfl
  | sweep k =>
    obtain ⟨tables, swept, rfl⟩ := Option.map_eq_some_iff.mp moved
    obtain ⟨now, _, rfl⟩ := sweep_some_iff.mp swept
    exact withTables_balanced h.2 ⟨h.2.counters.total, h.2.counters.maximum⟩ rfl

/-- The statistics count each of `calls` packets once. -/
def CountsOnce (calls : Nat) (w : World) : Prop :=
  w.tables.table.totalPackets = calls ∧
  recorded w = w.measured ∧
  averageProcessingTime w.tables.table = w.measured.sum / calls ∧
  w.tables.table.maxProcessingTime = w.measured.foldl max 0

def isCapture : Action → Bool
  | .capture _ _ _ => true
  | _ => false

/-- The number of `processPacket` calls of a run. -/
def calls (actions : List Action) : Nat := actions.countP isCapture

theorem step_captures {handles : Nat} {cfg : TtlSubstitutionCfg} {s t : Threads} {a : Action}
    (moved : step handles cfg s a = some t) :
    t.world.captures.length = s.world.captures.length + calls [a] := by
  cases a with
  | capture port f scratch =>
    obtain ⟨_, _, rfl⟩ := capture_some_iff.mp moved
    exact List.length_append
  | advance port reading =>
    obtain ⟨op, next, _, hworld, _⟩ := advance_some_iff.mp moved
    rw [hworld, perform_captures]
    rfl
  | sweep k =>
    obtain ⟨tables, _, rfl⟩ := Option.map_eq_some_iff.mp moved
    rfl
  | _ =>
    cases moved
    rfl

theorem run_captures {handles : Nat} {cfg : TtlSubstitutionCfg} {s t : Threads}
    {actions : List Action} (path : run (step handles cfg) s actions = some t) :
    t.world.captures.length = s.world.captures.length + calls actions := by
  induction actions generalizing s with
  | nil =>
    cases path
    rfl
  | cons a rest ih =>
    obtain ⟨mid, moved, path⟩ := run_cons_iff.mp path
    have first := step_captures moved
    have later := ih path
    have split : calls ([a] ++ rest) = calls [a] + calls rest := List.countP_append
    rw [List.singleton_append] at split
    omega

theorem fold_max_zeros (durations : Multiset ℚ) (n : Nat) :
    (durations + Multiset.replicate n 0).fold max 0 = durations.fold max 0 := by
  induction n with
  | zero => rw [Multiset.replicate_zero, add_zero]
  | succ n ih =>
    rw [Multiset.replicate_succ, Multiset.add_cons, Multiset.fold_cons'_right, max_self, ih]

/-- The counters after any run whose calls have all returned: everything is recorded
twice, and only the maximum does not notice. -/
theorem idle_statistics {handles : Nat} {cfg : TtlSubstitutionCfg} {lifetime clock : Int}
    {actions : List Action} {s : Threads}
    (path : run (step handles cfg) (initial lifetime clock) actions = some s)
    (idle : ∀ i, s.thread i = .ret) :
    s.world.tables.table.totalPackets = 2 * calls actions % 2 ^ 64 ∧
    s.world.measured.length = calls actions ∧
    recorded s.world = (s.world.measured : Multiset ℚ) + Multiset.replicate (calls actions) 0 ∧
    s.world.tables.table.maxProcessingTime = s.world.measured.foldl max 0 := by
  obtain ⟨_, h⟩ : Consistent handles cfg s ∧ Balanced handles s :=
    run_invariant step_balanced
      ⟨initial_consistent handles cfg lifetime clock, initial_balanced handles lifetime clock⟩ path
  have captured : s.world.captures.length = calls actions :=
    (run_captures path).trans (Nat.zero_add _)
  have durations := h.durations
  have measurements := h.measurements
  simp only [idle, pending, unmeasured, Finset.sum_const_zero, add_zero,
    captured] at durations measurements
  have recordings : s.world.tables.table.processingTimes.length = 2 * calls actions := by
    have cards := congrArg Multiset.card durations
    simp only [recorded, Multiset.card_add, Multiset.coe_card, Multiset.card_replicate] at cards
    omega
  refine ⟨by rw [h.counters.total, recordings], measurements, durations, ?_⟩
  have unchanged := fold_max_zeros s.world.measured (calls actions)
  rw [← durations, recorded, Multiset.coe_fold_l, Multiset.coe_fold_l] at unchanged
  exact h.counters.maximum.trans unchanged

/-- Both exits of `processPacket` add to what its entry has already counted, so the
statistics are right only while no packet has been processed. -/
theorem counts_once_iff_no_call {handles : Nat} {cfg : TtlSubstitutionCfg} {lifetime clock : Int}
    {actions : List Action} {s : Threads}
    (path : run (step handles cfg) (initial lifetime clock) actions = some s)
    (idle : ∀ i, s.thread i = .ret) :
    CountsOnce (calls actions) s.world ↔ calls actions = 0 := by
  obtain ⟨total, measurements, durations, maximum⟩ := idle_statistics path idle
  constructor
  · rintro ⟨counted, _⟩
    omega
  · intro none_called
    rw [none_called] at total measurements durations ⊢
    have silent : s.world.measured = [] := List.eq_nil_of_length_eq_zero measurements
    have unrecorded : s.world.tables.table.processingTimes = [] := by
      rw [silent] at durations
      exact Multiset.coe_eq_zero _ |>.mp durations
    refine ⟨total, ?_, ?_, maximum⟩
    · rw [durations, Multiset.replicate_zero, add_zero]
    · rw [averageProcessingTime_eq, unrecorded, silent]
      rfl

/-- One packet with equal addresses, from capture to return. -/
def oneDroppedPacket : List Action :=
  [.capture 0 (plainFrame ![2, 0, 0, 0, 0, 1] ![2, 0, 0, 0, 0, 1]) (fun _ => 0),
   .advance 0 0, .advance 0 1, .advance 0 0]

theorem counts_once_iff_no_call_dropped :
    ∃ s, run (step 1 inactive) (initial 300 0) oneDroppedPacket = some s ∧
      (CountsOnce (calls oneDroppedPacket) s.world ↔ calls oneDroppedPacket = 0) := by
  obtain ⟨s, path⟩ : ∃ s, run (step 1 inactive) (initial 300 0) oneDroppedPacket = some s :=
    ⟨_, rfl⟩
  refine ⟨s, path, counts_once_iff_no_call path ?_⟩
  cases path
  rintro (_ | i) <;> rfl

theorem one_packet_counted_twice :
    ∃ s, run (step 1 inactive) (initial 300 0) oneDroppedPacket = some s ∧
      (∀ i, s.thread i = .ret) ∧ ¬ CountsOnce 1 s.world := by
  refine ⟨_, rfl, ?_, ?_⟩
  · rintro (_ | i) <;> rfl
  · rintro ⟨total, _⟩
    revert total
    decide

end Statistics
