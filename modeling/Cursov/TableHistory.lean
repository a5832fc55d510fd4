import Cursov.CommutationTable
import Cursov.Library.Transition

/-!
# The learning table over interleaved runs

Capture threads call `updateEntry` and `getPortForMac`, maintenance threads call
`ageEntries`, which samples the clock before it takes the lock. The table is
compared with an abstract map from addresses to their last binding, computed
from the history of locked updates and sweeps alone.
-/

namespace TableHistory

open CommutationTable Transition

/-- What the locked regions did, oldest first. -/
inductive TableEvent where
  | updated (mac : Mac) (port time : Int)
  | swept (sample : Int)

/-- `sample k` is the clock value a maintenance thread has read for its next sweep.
The history is a record for the proofs; no operation reads it. -/
structure TableState where
  table : Table
  clock : Int
  sample : Nat → Option Int
  history : List TableEvent

def initial (lifetime clock : Int) : TableState where
  table := empty lifetime
  clock := clock
  sample := fun _ => none
  history := []

/-- The steady clock never goes back. -/
def TableState.tick (s : TableState) (elapsed : Nat) : TableState :=
  { s with clock := s.clock + elapsed }

/-- `updateEntry` reads the clock while it holds the lock. -/
def TableState.update (s : TableState) (mac : Mac) (port : Int) : TableState :=
  { s with
    table := updateEntry s.table mac port s.clock
    history := s.history ++ [.updated mac port s.clock] }

def TableState.readClock (s : TableState) (k : Nat) : TableState :=
  { s with sample := Function.update s.sample k (some s.clock) }

/-- The locked loop of `ageEntries`, with the sample of thread `k`. -/
def TableState.sweep (s : TableState) (k : Nat) : Option TableState :=
  (s.sample k).map fun now =>
    { s with
      table := ageEntries s.table now
      sample := Function.update s.sample k none
      history := s.history ++ [.swept now] }

inductive TableAction where
  | tick (elapsed : Nat)
  | updateEntry (thread : Nat) (mac : Mac) (port : Int)
  | readClock (thread : Nat)
  | sweep (thread : Nat)

def step (s : TableState) : TableAction → Option TableState
  | .tick elapsed => some (s.tick elapsed)
  | .updateEntry _ mac port => some (s.update mac port)
  | .readClock k => some (s.readClock k)
  | .sweep k => s.sweep k

theorem sweep_some_iff {s t : TableState} {k : Nat} :
    s.sweep k = some t ↔ ∃ now, s.sample k = some now ∧
      t = { s with
        table := ageEntries s.table now
        sample := Function.update s.sample k none
        history := s.history ++ [.swept now] } := by
  rw [TableState.sweep, Option.map_eq_some_iff]
  exact exists_congr fun now => and_congr_right fun _ => eq_comm

/-- The last binding of every address, if it is still there. -/
abbrev Bindings := Mac → Option TableEntry

/-- A sweep drops the bindings that are at least `lifetime` full seconds old. -/
def applyEvent (lifetime : Int) (b : Bindings) : TableEvent → Bindings
  | .updated mac port time => Function.update b mac (some ⟨port, time⟩)
  | .swept now => fun mac =>
    (b mac).filter fun e => decide (now < e.lastSeen + lifetime * nanosPerSecond)

def bindings (lifetime : Int) (history : List TableEvent) : Bindings :=
  history.foldl (applyEvent lifetime) fun _ => none

theorem bindings_snoc (lifetime : Int) (history : List TableEvent) (e : TableEvent) :
    bindings lifetime (history ++ [e]) = applyEvent lifetime (bindings lifetime history) e := by
  simp [bindings, List.foldl_append]

theorem bindings_never_updated (lifetime : Int) (mac : Mac) (history : List TableEvent)
    (never : ∀ port time, .updated mac port time ∉ history) :
    bindings lifetime history mac = none := by
  induction history using List.reverseRecOn with
  | nil => rfl
  | append_singleton before e ih =>
    have earlier := ih fun port time h => never port time (List.mem_append_left _ h)
    rw [bindings_snoc]
    cases e with
    | updated other port time =>
      have different : mac ≠ other := by
        rintro rfl
        exact never port time (List.mem_append_right _ List.mem_cons_self)
      simpa [applyEvent, Function.update_of_ne different] using earlier
    | swept now => simp [applyEvent, earlier]

/-- After its last update a binding stays until a sweep finds it expired. -/
theorem bindings_after_update (lifetime : Int) (mac : Mac) (port time : Int)
    (before after : List TableEvent)
    (last : ∀ q u, .updated mac q u ∉ after) :
    ((∃ now, .swept now ∈ after ∧ time + lifetime * nanosPerSecond ≤ now) →
      bindings lifetime (before ++ .updated mac port time :: after) mac = none) ∧
    ((¬ ∃ now, .swept now ∈ after ∧ time + lifetime * nanosPerSecond ≤ now) →
      bindings lifetime (before ++ .updated mac port time :: after) mac = some ⟨port, time⟩) := by
  induction after using List.reverseRecOn with
  | nil =>
    have start :
        bindings lifetime (before ++ [.updated mac port time]) mac = some ⟨port, time⟩ := by
      rw [bindings_snoc]
      simp [applyEvent]
    exact ⟨fun h => by simp at h, fun _ => start⟩
  | append_singleton mid e ih =>
    obtain ⟨gone, kept⟩ := ih fun q u h => last q u (List.mem_append_left _ h)
    rw [← List.cons_append, ← List.append_assoc, bindings_snoc]
    cases e with
    | updated other q u =>
      have different : mac ≠ other := by
        rintro rfl
        exact last q u (List.mem_append_right _ List.mem_cons_self)
      simpa [applyEvent, Function.update_of_ne different] using And.intro gone kept
    | swept now =>
      by_cases earlier : ∃ x, .swept x ∈ mid ∧ time + lifetime * nanosPerSecond ≤ x
      · have none_left := gone earlier
        obtain ⟨x, hx, hle⟩ := earlier
        refine ⟨fun _ => by simp [applyEvent, none_left], fun h => ?_⟩
        exact absurd ⟨x, List.mem_append_left _ hx, hle⟩ h
      · have still := kept earlier
        by_cases expired : time + lifetime * nanosPerSecond ≤ now
        · refine ⟨fun _ => ?_, fun h => ?_⟩
          · simpa [applyEvent, still] using expired
          · exact absurd ⟨now, List.mem_append_right _ List.mem_cons_self, expired⟩ h
        · refine ⟨fun h => ?_, fun _ => ?_⟩
          · obtain ⟨x, hx, hle⟩ := h
            rcases List.mem_append.mp hx with hx | hx
            · exact absurd ⟨x, hx, hle⟩ earlier
            · cases List.mem_singleton.mp hx
              exact absurd hle expired
          · simp [applyEvent, still, Int.not_le.mp expired]

/-- Carried by every run: the entries are the abstract bindings, and no sample is
ahead of the clock. -/
structure Refines (lifetime : Int) (s : TableState) : Prop where
  lifetime_eq : s.table.maxLifetimeSec = lifetime
  entry_eq : ∀ mac, entryFor s.table mac = bindings lifetime s.history mac
  sample_le : ∀ k now, s.sample k = some now → now ≤ s.clock

theorem initial_refines (lifetime clock : Int) : Refines lifetime (initial lifetime clock) where
  lifetime_eq := rfl
  entry_eq := fun _ => rfl
  sample_le := fun _ _ h => by simp [initial] at h

theorem update_refines {lifetime : Int} {s : TableState} (hs : Refines lifetime s)
    (mac : Mac) (port : Int) : Refines lifetime (s.update mac port) where
  lifetime_eq := hs.lifetime_eq
  entry_eq := by
    intro m
    change entryFor (updateEntry s.table mac port s.clock) m =
      bindings lifetime (s.history ++ [.updated mac port s.clock]) m
    rw [bindings_snoc]
    by_cases hm : m = mac
    · subst m
      simp [applyEvent]
    · rw [entryFor_updateEntry_of_ne s.table port s.clock hm, hs.entry_eq]
      simp [applyEvent, Function.update_of_ne hm]
  sample_le := hs.sample_le

theorem readClock_refines {lifetime : Int} {s : TableState} (hs : Refines lifetime s)
    (k : Nat) : Refines lifetime (s.readClock k) where
  lifetime_eq := hs.lifetime_eq
  entry_eq := hs.entry_eq
  sample_le := by
    intro j now h
    simp only [TableState.readClock] at h ⊢
    by_cases hj : j = k
    · subst j
      rw [Function.update_self, Option.some.injEq] at h
      omega
    · exact hs.sample_le j now (by rwa [Function.update_of_ne hj] at h)

theorem sweep_refines {lifetime : Int} (positive : 1 ≤ lifetime) {s t : TableState}
    (hs : Refines lifetime s) {k : Nat} (h : s.sweep k = some t) : Refines lifetime t := by
  obtain ⟨now, hnow, rfl⟩ := sweep_some_iff.mp h
  refine ⟨hs.lifetime_eq, ?_, ?_⟩
  · intro mac
    have same : ∀ e, alive now lifetime e = decide (now < e.lastSeen + lifetime * nanosPerSecond) :=
      fun e => by rw [Bool.eq_iff_iff, alive_iff positive, decide_eq_true_iff]
    change entryFor (ageEntries s.table now) mac = bindings lifetime (s.history ++ [.swept now]) mac
    rw [entryFor_ageEntries, bindings_snoc, hs.lifetime_eq, hs.entry_eq, funext same]
    rfl
  · intro j x hx
    by_cases hj : j = k
    · subst j
      simp at hx
    · exact hs.sample_le j x (by simpa [Function.update_of_ne hj] using hx)

theorem step_refines {lifetime : Int} (positive : 1 ≤ lifetime) (s : TableState)
    (a : TableAction) (t : TableState) (hs : Refines lifetime s) (h : step s a = some t) :
    Refines lifetime t := by
  cases a with
  | tick elapsed =>
    cases h
    exact ⟨hs.lifetime_eq, hs.entry_eq, fun k now hk => by
      have := hs.sample_le k now hk
      simp only [TableState.tick]
      omega⟩
  | updateEntry i mac port =>
    cases h
    exact update_refines hs mac port
  | readClock k =>
    cases h
    exact readClock_refines hs k
  | sweep k => exact sweep_refines positive hs h

theorem reachable_refines {lifetime clock : Int} (positive : 1 ≤ lifetime) {s : TableState}
    (reachable : Reachable step (initial lifetime clock) s) : Refines lifetime s :=
  reachable_invariant (step_refines positive) (initial_refines lifetime clock) reachable

/-- Some sweep of the list used a sample at least `lifetime` full seconds after `time`. -/
def ExpiredIn (lifetime time : Int) (after : List TableEvent) : Prop :=
  ∃ now, .swept now ∈ after ∧ time + lifetime * nanosPerSecond ≤ now

theorem lookup_never_updated {lifetime : Int} {s : TableState} (hs : Refines lifetime s)
    {mac : Mac} (never : ∀ port time, .updated mac port time ∉ s.history) :
    getPortForMac s.table mac = -1 := by
  rw [getPortForMac_eq, hs.entry_eq, bindings_never_updated lifetime mac s.history never]
  rfl

theorem lookup_after_update {lifetime : Int} {s : TableState} (hs : Refines lifetime s)
    {mac : Mac} {port time : Int} {before after : List TableEvent}
    (split : s.history = before ++ .updated mac port time :: after)
    (last : ∀ q u, .updated mac q u ∉ after) :
    (ExpiredIn lifetime time after → getPortForMac s.table mac = -1) ∧
    (¬ ExpiredIn lifetime time after → getPortForMac s.table mac = port) := by
  obtain ⟨gone, kept⟩ := bindings_after_update lifetime mac port time before after last
  rw [getPortForMac_eq, hs.entry_eq, split]
  exact ⟨fun h => by rw [gone h]; rfl, fun h => by rw [kept h]; rfl⟩

theorem sweep_entry {lifetime : Int} (positive : 1 ≤ lifetime) {s t : TableState}
    (hs : Refines lifetime s) {k : Nat} {now : Int} (hnow : s.sample k = some now)
    (h : s.sweep k = some t) (mac : Mac) :
    entryFor t.table mac = (entryFor s.table mac).filter
      fun e => decide (now < e.lastSeen + lifetime * nanosPerSecond) := by
  have ht := sweep_refines positive hs h
  obtain ⟨_, hsample, rfl⟩ := sweep_some_iff.mp h
  cases hnow.symm.trans hsample
  rw [ht.entry_eq, hs.entry_eq, bindings_snoc]
  rfl

/-- Actions that neither touch the entry of `mac` nor the sample of thread `k`. -/
def Leaves (k : Nat) (mac : Mac) : TableAction → Prop
  | .tick _ => True
  | .updateEntry _ other _ => other ≠ mac
  | .readClock j => j ≠ k
  | .sweep _ => False

theorem leaves_step {k : Nat} {mac : Mac} {s t : TableState} {a : TableAction}
    (leaves : Leaves k mac a) (h : step s a = some t) :
    entryFor t.table mac = entryFor s.table mac ∧ t.sample k = s.sample k := by
  cases a with
  | tick elapsed =>
    cases h
    exact ⟨rfl, rfl⟩
  | updateEntry i other port =>
    cases h
    exact ⟨entryFor_updateEntry_of_ne s.table port s.clock (Ne.symm leaves), rfl⟩
  | readClock j =>
    cases h
    exact ⟨rfl, Function.update_of_ne (Ne.symm leaves) _ _⟩
  | sweep j => exact False.elim leaves

theorem leaves_run {k : Nat} {mac : Mac} {s t : TableState} {actions : List TableAction}
    (leaves : ∀ a ∈ actions, Leaves k mac a) (h : run step s actions = some t) :
    entryFor t.table mac = entryFor s.table mac ∧ t.sample k = s.sample k := by
  induction actions generalizing s with
  | nil =>
    cases h
    exact ⟨rfl, rfl⟩
  | cons a rest ih =>
    obtain ⟨mid, hstep, hrest⟩ := run_cons_iff.mp h
    have first := leaves_step (leaves a List.mem_cons_self) hstep
    have later := ih (fun b hb => leaves b (List.mem_cons_of_mem a hb)) hrest
    exact ⟨later.1.trans first.1, later.2.trans first.2⟩

/-- A refresh made after thread `k` sampled the clock survives the sweep of `k`. -/
theorem refresh_survives {lifetime : Int} (positive : 1 ≤ lifetime) {s t u : TableState}
    (hs : Refines lifetime s) {k i : Nat} {now : Int} (hnow : s.sample k = some now)
    {mac : Mac} {port : Int} {between : List TableAction}
    (leaves : ∀ a ∈ between, Leaves k mac a)
    (path : run step s (.updateEntry i mac port :: between) = some t)
    (h : step t (.sweep k) = some u) : getPortForMac u.table mac = port := by
  obtain ⟨mid, hupdate, hrest⟩ := run_cons_iff.mp path
  have ht := run_invariant (step_refines positive) hs path
  cases hupdate
  obtain ⟨hentry, hsample⟩ := leaves_run leaves hrest
  have fresh : entryFor t.table mac = some ⟨port, s.clock⟩ :=
    hentry.trans (entryFor_updateEntry s.table mac port s.clock)
  have young : now < s.clock + lifetime * nanosPerSecond := by
    have := hs.sample_le k now hnow
    simp only [nanosPerSecond]
    omega
  rw [getPortForMac_eq, sweep_entry positive ht (hsample.trans hnow) h mac, fresh,
    Option.filter_some, if_pos (decide_eq_true young)]
  rfl

/-- In every reachable state a lookup returns the port of the last update made for
exactly that address, unless there was none or a later sweep found it expired. -/
theorem lookup_refines_history {lifetime clock : Int} (positive : 1 ≤ lifetime)
    {s : TableState} (reachable : Reachable step (initial lifetime clock) s) :
    (∀ mac, (∀ port time, .updated mac port time ∉ s.history) →
      getPortForMac s.table mac = -1) ∧
    (∀ mac port time before after,
      s.history = before ++ .updated mac port time :: after →
      (∀ q u, .updated mac q u ∉ after) →
      (ExpiredIn lifetime time after → getPortForMac s.table mac = -1) ∧
      (¬ ExpiredIn lifetime time after → getPortForMac s.table mac = port)) ∧
    (∀ mac other, mac ≠ other → macToString mac ≠ macToString other) ∧
    (∀ i mac port other t, step s (.updateEntry i mac port) = some t → other ≠ mac →
      entryFor t.table other = entryFor s.table other) ∧
    (∀ k now i mac port between t u, s.sample k = some now →
      (∀ a ∈ between, Leaves k mac a) →
      run step s (.updateEntry i mac port :: between) = some t →
      step t (.sweep k) = some u → getPortForMac u.table mac = port) ∧
    (∀ k now t, s.sample k = some now → step s (.sweep k) = some t → ∀ mac,
      entryFor t.table mac = (entryFor s.table mac).filter
        fun e => decide (now < e.lastSeen + lifetime * nanosPerSecond)) := by
  have hs := reachable_refines positive reachable
  refine ⟨fun mac never => lookup_never_updated hs never,
    fun mac port time before after split last => lookup_after_update hs split last,
    fun mac other different same => different (macToString_injective same), ?_, ?_, ?_⟩
  · intro i mac port other t h different
    cases h
    exact entryFor_updateEntry_of_ne s.table port s.clock different
  · intro k now i mac port between t u hnow leaves path h
    exact refresh_survives positive hs hnow leaves path h
  · intro k now t hnow h mac
    exact sweep_entry positive hs hnow h mac

/-- A station is refreshed between the sample and the locked loop of one sweep. -/
theorem lookup_refines_history_refreshed :
    ∃ s, run step (initial 300 0) [.updateEntry 1 ![2, 0, 0, 0, 0, 7] 1, .tick 400000000000,
        .readClock 0, .updateEntry 3 ![2, 0, 0, 0, 0, 7] 2, .tick 5, .sweep 0] = some s ∧
      getPortForMac s.table ![2, 0, 0, 0, 0, 7] = 2 := by
  have reached : Reachable step (initial 300 0)
      ((((initial 300 0).update ![2, 0, 0, 0, 0, 7] 1).tick 400000000000).readClock 0) :=
    ⟨[.updateEntry 1 ![2, 0, 0, 0, 0, 7] 1, .tick 400000000000, .readClock 0], rfl⟩
  exact ⟨_, rfl, (lookup_refines_history (by decide) reached).2.2.2.2.1 0 400000000000 3
    ![2, 0, 0, 0, 0, 7] 2 [.tick 5] _ _ rfl (by simp [Leaves]) rfl rfl⟩

end TableHistory
