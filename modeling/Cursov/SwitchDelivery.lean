import Cursov.SwitchThreads

/-!
# Where a station's traffic goes

A station is attached at a port while every frame with its source address is
captured there. Traffic for an attached station reaches its port exactly once, and
while the table's entry is fresh it leaves on no other port.
-/

namespace SwitchDelivery

open Bytes CommutationTable TableHistory Frame Resumption Transition
open Switch hiding step initial
open SwitchThreads

/-- Every frame of the station so far was captured on port `d`. -/
def AttachedAt (w : World) (mac : Mac) (d : Nat) : Prop :=
  ∀ p f, (p, f) ∈ w.captures → f.shost = mac → p = d

/-- What one step does to the tables, given what each call may do. -/
inductive TableEffect (s t : Threads) : Prop
  | ticks (elapsed : Nat) (tables : t.world.tables = s.world.tables.tick elapsed)
  | learns (port : Nat) (f : Capture) (busy : s.thread port ≠ .ret)
      (captured : s.world.captures[s.world.current port]? = some (port, f))
      (different : f.shost ≠ f.dhost)
      (tables : t.world.tables = s.world.tables.update f.shost port)
  | records (duration : ℚ) (tables : t.world.tables =
      { s.world.tables with table := updateStats s.world.tables.table duration })
  | samples (k : Nat) (tables : t.world.tables = s.world.tables.readClock k)
  | sweeps (k : Nat) (tables : s.world.tables.sweep k = some t.world.tables)
  | none (tables : t.world.tables = s.world.tables)

theorem step_table {handles : Nat} {cfg : TtlSubstitutionCfg} {s t : Threads} {a : Action}
    (h : Consistent handles cfg s) (moved : step handles cfg s a = some t) : TableEffect s t := by
  cases a with
  | tick elapsed =>
    cases moved
    exact .ticks elapsed rfl
  | capture port f scratch =>
    obtain ⟨_, _, rfl⟩ := capture_some_iff.mp moved
    exact .none rfl
  | readClock k =>
    cases moved
    exact .samples k rfl
  | sweep k =>
    obtain ⟨tables, swept, rfl⟩ := Option.map_eq_some_iff.mp moved
    exact .sweeps k swept
  | advance port reading =>
    obtain ⟨_, _, at_op, _⟩ := advance_some_iff.mp moved
    have busy : s.thread port ≠ .ret := by
      rw [at_op]
      rintro ⟨⟩
    obtain ⟨op, f, scratch, world, captured, of⟩ := advance_opOf h moved
    cases op with
    | updateStats duration => exact .records duration (by rw [world]; rfl)
    | updateEntry mac p =>
      obtain ⟨rfl, rfl, different⟩ := of
      exact .learns port f busy captured different (by rw [world]; rfl)
    | _ => exact .none (by rw [world]; rfl)

/-- Nothing captured or answered is lost, and time does not go back. -/
structure Later (s t : Threads) : Prop extends Keeps s t where
  clock : s.world.tables.clock ≤ t.world.tables.clock

theorem step_later {handles : Nat} {cfg : TtlSubstitutionCfg} {s t : Threads} {a : Action}
    (h : Consistent handles cfg s) (moved : step handles cfg s a = some t) : Later s t where
  toKeeps := step_keeps h moved
  clock := by
    cases step_table h moved with
    | ticks elapsed tables =>
      rw [tables]
      exact Int.le_add_of_nonneg_right (Int.natCast_nonneg elapsed)
    | sweeps k tables =>
      obtain ⟨_, _, same⟩ := sweep_some_iff.mp tables
      rw [same]
    | learns _ _ _ _ _ tables =>
      rw [tables]
      exact le_rfl
    | records _ tables => rw [tables]
    | samples _ tables =>
      rw [tables]
      exact le_rfl
    | none tables => rw [tables]

/-- The answer of a call was no entry, or a port its destination had been captured on. -/
def AnswersLearned (s : Threads) : Prop :=
  ∀ c dest, s.world.answer c = some dest → ∃ port f, s.world.captures[c]? = some (port, f) ∧
    (dest = -1 ∨ ∃ p g, (p, g) ∈ s.world.captures ∧ g.shost = f.dhost ∧ dest = p)

theorem learned_answer {handles : Nat} {captures : List (Nat × Capture)} {t : Table} (mac : Mac)
    (learned : Learned handles captures t) :
    getPortForMac t mac = -1 ∨
      ∃ p g, (p, g) ∈ captures ∧ g.shost = mac ∧ getPortForMac t mac = p := by
  rw [getPortForMac_eq]
  cases found : entryFor t mac with
  | none => exact Or.inl rfl
  | some e =>
    obtain ⟨p, g, captured, _, port, key, _⟩ := learned _ e found
    exact Or.inr ⟨p, g, captured, macToString_injective key, port⟩

theorem step_answers {handles : Nat} {cfg : TtlSubstitutionCfg} {s t : Threads} {a : Action}
    (h : Consistent handles cfg s) (answers : AnswersLearned s)
    (moved : step handles cfg s a = some t) : AnswersLearned t := by
  intro c dest answered
  have later := step_later h moved
  by_cases same : t.world.answer c = s.world.answer c
  · obtain ⟨port, f, captured, origin⟩ := answers c dest (same ▸ answered)
    refine ⟨port, f, later.captured captured, origin.imp_right ?_⟩
    rintro ⟨p, g, mem, source, rfl⟩
    exact ⟨p, g, later.captures.subset mem, source, rfl⟩
  · obtain ⟨_, port, f, captured, found⟩ := answer_looked_up h moved same
    obtain rfl := Option.some.inj (answered.symm.trans found)
    refine ⟨port, f, later.captured captured, (learned_answer f.dhost h.learned).imp_right ?_⟩
    rintro ⟨p, g, mem, source, port_eq⟩
    exact ⟨p, g, later.captures.subset mem, source, port_eq⟩

theorem initial_answers (lifetime clock : Int) :
    AnswersLearned (SwitchThreads.initial lifetime clock) := by
  intro c dest answered
  cases answered

theorem reachable_answers {handles : Nat} {cfg : TtlSubstitutionCfg} {lifetime clock : Int}
    {s : Threads} (reachable : Reachable (step handles cfg) (initial lifetime clock) s) :
    AnswersLearned s := by
  let known (u : Threads) : Prop := Consistent handles cfg u ∧ AnswersLearned u
  have kept : ∀ u a t, known u → step handles cfg u a = some t → known t :=
    fun u a t h moved => ⟨step_consistent u a t h.1 moved, step_answers h.1 h.2 moved⟩
  exact (reachable_invariant kept ⟨initial_consistent handles cfg lifetime clock,
    initial_answers lifetime clock⟩ reachable).2

/-- Every frame whose call has returned went once to the port of its destination, for a
destination attached at another port than the frame's own. -/
def Delivers (handles : Nat) (s : Threads) : Prop :=
  ∀ c port f d, s.world.captures[c]? = some (port, f) → f.shost ≠ f.dhost → Over s c port →
    AttachedAt s.world f.dhost d → d < handles → d ≠ port → copies s.world c d = 1

theorem delivers {handles : Nat} {cfg : TtlSubstitutionCfg} {lifetime clock : Int} {s : Threads}
    (reachable : Reachable (step handles cfg) (initial lifetime clock) s) : Delivers handles s := by
  have consistent := reachable_consistent reachable
  intro c port f d captured different finished attached within elsewhere
  obtain ⟨dest, answered, forwarded⟩ :=
    settled_forwarded (consistent.settled c port f captured finished) different
  rcases forwarded with ⟨_, flooded⟩ | ⟨nonneg, _, unicast⟩
  · rw [flooded, if_pos ⟨within, elsewhere⟩]
  · obtain ⟨port', f', captured', origin⟩ := reachable_answers reachable c dest answered
    obtain ⟨rfl, rfl⟩ : port = port' ∧ f = f' := by simpa [captured] using captured'
    rcases origin with unknown | ⟨p, g, mem, source, rfl⟩
    · omega
    · rw [unicast, attached p g mem source, if_pos rfl]

/-- Port 0 speaks to port 2, which has not spoken yet, and port 2 answers. -/
def greetingRun : List Action :=
  [.capture 0 (plainFrame ![2, 0, 0, 0, 0, 2] ![2, 0, 0, 0, 0, 1]) (fun _ => 0),
   .advance 0 0, .advance 0 0, .advance 0 0, .advance 0 0, .advance 0 0, .advance 0 0,
   .advance 0 0,
   .capture 2 (plainFrame ![2, 0, 0, 0, 0, 1] ![2, 0, 0, 0, 0, 2]) (fun _ => 0),
   .advance 2 0, .advance 2 0, .advance 2 0, .advance 2 0, .advance 2 0, .advance 2 0]

/-- The first frame is flooded, the answer goes through the table: both have arrived. -/
theorem delivers_flooded :
    ∃ s, run (step 3 inactive) (initial 300 0) greetingRun = some s ∧
      s.world.answer 0 = some (-1) ∧ s.world.answer 1 = some 0 ∧ copies s.world 0 2 = 1 ∧
      copies s.world 1 0 = 1 ∧ Delivers 3 s := by
  obtain ⟨s, path, unknown, learned, sent, answered⟩ :
      ∃ s, run (step 3 inactive) (initial 300 0) greetingRun = some s ∧
        s.world.answer 0 = some (-1) ∧ s.world.answer 1 = some 0 ∧ copies s.world 0 2 = 1 ∧
        copies s.world 1 0 = 1 := ⟨_, rfl, rfl, rfl, by decide, by decide⟩
  exact ⟨s, path, unknown, learned, sent, answered, delivers ⟨_, path⟩⟩

/-- No entry of the table is younger than the clock. -/
def SeenBefore (tables : TableState) : Prop :=
  ∀ mac e, entryFor tables.table mac = some e → e.lastSeen ≤ tables.clock

/-- Among the capture threads the table still refines its history. -/
theorem effect_refines {lifetime : Int} (positive : 1 ≤ lifetime) {s t : Threads}
    (h : Refines lifetime s.world.tables) (effect : TableEffect s t) :
    Refines lifetime t.world.tables := by
  cases effect with
  | ticks elapsed tables => exact tables ▸ step_refines positive _ (.tick elapsed) _ h rfl
  | learns port f _ _ _ tables => exact tables ▸ update_refines h f.shost port
  | records duration tables =>
    rw [tables]
    exact ⟨h.lifetime_eq, h.entry_eq, h.sample_le⟩
  | samples k tables => exact tables ▸ readClock_refines h k
  | sweeps k tables => exact sweep_refines positive h tables
  | none tables => exact tables ▸ h

theorem effect_seen {s t : Threads} (h : SeenBefore s.world.tables) (effect : TableEffect s t) :
    SeenBefore t.world.tables := by
  intro mac e found
  cases effect with
  | ticks elapsed tables =>
    rw [tables] at found ⊢
    exact (h mac e found).trans (Int.le_add_of_nonneg_right (Int.natCast_nonneg elapsed))
  | learns port f _ _ _ tables =>
    rw [tables] at found ⊢
    by_cases same : mac = f.shost
    · subst mac
      rw [TableState.update, entryFor_updateEntry] at found
      cases found
      exact le_rfl
    · rw [TableState.update, entryFor_updateEntry_of_ne _ _ _ same] at found
      exact h mac e found
  | sweeps k tables =>
    obtain ⟨now, _, same⟩ := sweep_some_iff.mp tables
    rw [same] at found ⊢
    rw [entryFor_ageEntries] at found
    exact h mac e (Option.eq_some_of_filter_eq_some found)
  | records _ tables =>
    rw [tables] at found ⊢
    exact h mac e found
  | samples _ tables =>
    rw [tables] at found ⊢
    exact h mac e found
  | none tables =>
    rw [tables] at found ⊢
    exact h mac e found

/-- Carried by every run of the threads. -/
structure Sound (handles : Nat) (cfg : TtlSubstitutionCfg) (lifetime : Int) (s : Threads) :
    Prop where
  consistent : Consistent handles cfg s
  refines : Refines lifetime s.world.tables
  seen : SeenBefore s.world.tables

theorem step_sound {handles : Nat} {cfg : TtlSubstitutionCfg} {lifetime : Int}
    (positive : 1 ≤ lifetime) (s : Threads) (a : Action) (t : Threads)
    (h : Sound handles cfg lifetime s) (moved : step handles cfg s a = some t) :
    Sound handles cfg lifetime t where
  consistent := step_consistent s a t h.consistent moved
  refines := effect_refines positive h.refines (step_table h.consistent moved)
  seen := effect_seen h.seen (step_table h.consistent moved)

theorem reachable_sound {handles : Nat} {cfg : TtlSubstitutionCfg} {lifetime clock : Int}
    (positive : 1 ≤ lifetime) {s : Threads}
    (reachable : Reachable (step handles cfg) (initial lifetime clock) s) :
    Sound handles cfg lifetime s := by
  refine reachable_invariant (step_sound positive) ⟨?_, ?_, ?_⟩ reachable
  · exact initial_consistent handles cfg lifetime clock
  · exact initial_refines lifetime clock
  · intro mac e found
    cases found

/-- From `s` on the station's frames come from port `d`: those of its calls that still run in
`s`, and those captured behind `s`. Where the station has been before does not matter. -/
structure StaysAt (s t : Threads) (mac : Mac) (d : Nat) : Prop where
  pending : ∀ p f, s.thread p ≠ .ret → s.world.captures[s.world.current p]? = some (p, f) →
    f.shost = mac → p = d
  captured : ∀ c p f, s.world.captures.length ≤ c → t.world.captures[c]? = some (p, f) →
    f.shost = mac → p = d

theorem StaysAt.earlier {s u t : Threads} {mac : Mac} {d : Nat} (stays : StaysAt s t mac d)
    (later : Later u t) : StaysAt s u mac d where
  pending := stays.pending
  captured c p f behind captured := stays.captured c p f behind (later.captured captured)

/-- A call from before `s` that still runs was running in `s`. -/
def LeftRunning (s u : Threads) : Prop :=
  ∀ p, u.thread p ≠ .ret → u.world.current p < s.world.captures.length →
    s.thread p ≠ .ret ∧ u.world.current p = s.world.current p

theorem step_leftRunning {handles : Nat} {cfg : TtlSubstitutionCfg} {s u v : Threads} {a : Action}
    (h : Consistent handles cfg u) (later : Later s u) (running : LeftRunning s u)
    (moved : step handles cfg u a = some v) : LeftRunning s v := by
  intro p busy old
  cases a with
  | capture port f scratch =>
    obtain ⟨_, _, rfl⟩ := capture_some_iff.mp moved
    by_cases same : p = port
    · subst p
      have grown := later.captures.length_le
      simp only [World.deliver, Function.update_self] at old
      omega
    · simp only [World.deliver, Function.update_of_ne same] at busy old ⊢
      exact running p busy old
  | advance port reading =>
    obtain ⟨_, _, at_op, _⟩ := advance_some_iff.mp moved
    obtain ⟨f, scratch, step⟩ := advance_advances h moved
    rw [step.current] at old ⊢
    by_cases same : p = port
    · subst p
      exact running port (by rw [at_op]; rintro ⟨⟩) old
    · exact running p (step.others p same ▸ busy) old
  | sweep k =>
    obtain ⟨tables, _, rfl⟩ := Option.map_eq_some_iff.mp moved
    exact running p busy old
  | _ =>
    cases moved
    exact running p busy old

/-- A call that runs on the way from `s`, for a frame of the station, is on its port. -/
theorem StaysAt.running {s u : Threads} {mac : Mac} {d p : Nat} {f : Capture}
    (stays : StaysAt s u mac d) (later : Later s u) (running : LeftRunning s u)
    (busy : u.thread p ≠ .ret) (captured : u.world.captures[u.world.current p]? = some (p, f))
    (source : f.shost = mac) : p = d := by
  by_cases old : u.world.current p < s.world.captures.length
  · obtain ⟨busy', same⟩ := running p busy old
    have early := later.captured (List.getElem?_eq_getElem old)
    rw [captured, Option.some.injEq] at early
    refine stays.pending p f busy' ?_ source
    rw [← same, early]
    exact List.getElem?_eq_getElem old
  · exact stays.captured _ p f (Nat.le_of_not_lt old) captured source

/-- The table has the station at its port, and no sweep before `deadline` drops it. -/
def KnownUntil (s : Threads) (mac : Mac) (d : Nat) (lifetime deadline : Int) : Prop :=
  ∃ e, entryFor s.world.tables.table mac = some e ∧ e.port = d ∧
    deadline ≤ e.lastSeen + lifetime * nanosPerSecond

theorem effect_known {lifetime deadline : Int} (positive : 1 ≤ lifetime) {s t : Threads}
    {mac : Mac} {d : Nat} (refines : Refines lifetime s.world.tables)
    (known : KnownUntil s mac d lifetime deadline)
    (stays : ∀ p f, s.thread p ≠ .ret → s.world.captures[s.world.current p]? = some (p, f) →
      f.shost = mac → p = d)
    (fresh : s.world.tables.clock < deadline) (effect : TableEffect s t)
    (seen : SeenBefore s.world.tables) : KnownUntil t mac d lifetime deadline := by
  obtain ⟨e, found, port, late⟩ := known
  cases effect with
  | learns p f busy captured _ tables =>
    by_cases same : mac = f.shost
    · subst mac
      refine ⟨⟨p, s.world.tables.clock⟩, ?_, ?_, ?_⟩
      · rw [tables, TableState.update, entryFor_updateEntry]
      · exact congrArg Nat.cast (stays p f busy captured rfl)
      · have earlier := seen f.shost e found
        dsimp only
        omega
    · refine ⟨e, ?_, port, late⟩
      rw [tables, TableState.update, entryFor_updateEntry_of_ne _ _ _ same, found]
  | sweeps k tables =>
    obtain ⟨now, sampled, _⟩ := sweep_some_iff.mp tables
    refine ⟨e, ?_, port, late⟩
    have before := refines.sample_le k now sampled
    rw [sweep_entry positive refines sampled tables, found, Option.filter_some, if_pos]
    exact decide_eq_true (by omega)
  | ticks _ tables => exact ⟨e, by rw [tables]; exact found, port, late⟩
  | records _ tables => exact ⟨e, by rw [tables]; exact found, port, late⟩
  | samples _ tables => exact ⟨e, by rw [tables]; exact found, port, late⟩
  | none tables => exact ⟨e, by rw [tables]; exact found, port, late⟩

theorem Later.refl (s : Threads) : Later s s := ⟨Keeps.refl s, le_rfl⟩

theorem Later.trans {s t u : Threads} (first : Later s t) (second : Later t u) : Later s u :=
  ⟨first.toKeeps.trans second.toKeeps, first.clock.trans second.clock⟩

/-- What every state on the way from `s` shows, as long as the station has not moved and
the deadline has not passed: it is known, and lookups for it have answered its port. -/
structure Confined (handles : Nat) (cfg : TtlSubstitutionCfg) (lifetime deadline : Int)
    (s : Threads) (mac : Mac) (d : Nat) (u : Threads) : Prop where
  sound : Sound handles cfg lifetime u
  later : Later s u
  running : LeftRunning s u
  known : StaysAt s u mac d → u.world.tables.clock < deadline →
    KnownUntil u mac d lifetime deadline
  answers : StaysAt s u mac d → u.world.tables.clock < deadline →
    ∀ c port f dest, u.world.captures[c]? = some (port, f) → f.dhost = mac →
      s.world.answer c = none → u.world.answer c = some dest → dest = d

theorem step_confined {handles : Nat} {cfg : TtlSubstitutionCfg} {lifetime deadline : Int}
    (positive : 1 ≤ lifetime) {s : Threads} {mac : Mac} {d : Nat} (u : Threads) (a : Action)
    (v : Threads) (h : Confined handles cfg lifetime deadline s mac d u)
    (moved : step handles cfg u a = some v) :
    Confined handles cfg lifetime deadline s mac d v := by
  have later := step_later h.sound.consistent moved
  have effect := step_table h.sound.consistent moved
  refine ⟨step_sound positive u a v h.sound moved, h.later.trans later,
    step_leftRunning h.sound.consistent h.later h.running moved, ?_, ?_⟩
  · intro stays fresh
    have earlier := stays.earlier later
    have before := later.clock.trans_lt fresh
    exact effect_known positive h.sound.refines (h.known earlier before)
      (fun p f busy captured source => earlier.running h.later h.running busy captured source)
      before effect h.sound.seen
  · intro stays fresh c port f dest captured dest_eq unanswered answered
    have earlier := stays.earlier later
    have before := later.clock.trans_lt fresh
    by_cases same : v.world.answer c = u.world.answer c
    · cases asked : u.world.captures[c]? with
      | none =>
        have none_yet := h.sound.consistent.unanswered c (List.getElem?_eq_none_iff.mp asked)
        rw [same, none_yet] at answered
        cases answered
      | some x =>
        obtain rfl := Option.some.inj ((later.captured asked).symm.trans captured)
        exact h.answers earlier before c port f dest asked dest_eq unanswered (same ▸ answered)
    · obtain ⟨_, port', f', asked, found⟩ := answer_looked_up h.sound.consistent moved same
      obtain ⟨rfl, rfl⟩ : port' = port ∧ f' = f := by
        simpa using (later.captured asked).symm.trans captured
      obtain ⟨e, entry, at_d, _⟩ := h.known earlier before
      rw [found, getPortForMac_eq, dest_eq, entry] at answered
      exact (Option.some.inj answered).symm.trans at_d

/-- A call for the station that is looked up after `s` and over in `t` has left on the
station's port once and on no other. -/
def Confines (s t : Threads) (mac : Mac) (d : Nat) : Prop :=
  ∀ c port f, t.world.captures[c]? = some (port, f) → f.dhost = mac → f.shost ≠ mac →
    s.world.answer c = none → Over t c port →
    ∀ q : Nat, copies t.world c q = if q = d then 1 else 0

theorem confines {handles : Nat} {cfg : TtlSubstitutionCfg} {lifetime clock : Int}
    (positive : 1 ≤ lifetime) {s t : Threads} {actions : List Action} {mac : Mac} {d : Nat}
    {e : TableEntry} (reachable : Reachable (step handles cfg) (initial lifetime clock) s)
    (known : entryFor s.world.tables.table mac = some e) (port : e.port = d)
    (path : run (step handles cfg) s actions = some t) (stays : StaysAt s t mac d)
    (fresh : t.world.tables.clock < e.lastSeen + lifetime * nanosPerSecond) :
    Confines s t mac d := by
  let deadline := e.lastSeen + lifetime * nanosPerSecond
  have start : Confined handles cfg lifetime deadline s mac d s := by
    refine ⟨reachable_sound positive reachable, Later.refl s, fun p busy _ => ⟨busy, rfl⟩,
      fun _ _ => ⟨e, known, port, le_rfl⟩, ?_⟩
    intro _ _ c port f dest _ _ unanswered answered
    rw [unanswered] at answered
    cases answered
  have final := run_invariant (step_confined positive) start path
  intro c port f captured dest_eq different unanswered finished q
  have settled := final.sound.consistent.settled c port f captured finished
  obtain ⟨dest, answered, forwarded⟩ := settled_forwarded settled (dest_eq ▸ different)
  obtain rfl := final.answers stays fresh c port f dest captured dest_eq unanswered answered
  rcases forwarded with ⟨unknown, _⟩ | ⟨_, _, unicast⟩
  · omega
  · rw [unicast]
    exact if_congr (by omega) rfl rfl

/-- The station speaks on port 1, is flooded and moves to port 0, where it has just been
learned again. -/
def movingRun : List Action :=
  [.capture 1 (plainFrame ![2, 0, 0, 0, 0, 2] ![2, 0, 0, 0, 0, 1]) (fun _ => 0),
   .advance 1 0, .advance 1 0, .advance 1 0, .advance 1 0, .advance 1 0, .advance 1 0,
   .advance 1 0,
   .capture 0 (plainFrame ![2, 0, 0, 0, 0, 2] ![2, 0, 0, 0, 0, 1]) (fun _ => 0),
   .advance 0 0, .advance 0 0]

/-- Port 2 sends to the station while its entry is young. -/
def answeringRun : List Action :=
  [.tick 5, .capture 2 (plainFrame ![2, 0, 0, 0, 0, 1] ![2, 0, 0, 0, 0, 2]) (fun _ => 0),
   .advance 2 0, .advance 2 0, .advance 2 0, .advance 2 0, .advance 2 0, .advance 2 0]

theorem confines_learned :
    ∃ s t, run (step 3 inactive) (initial 300 0) movingRun = some s ∧
      run (step 3 inactive) s answeringRun = some t ∧ ¬ AttachedAt t.world ![2, 0, 0, 0, 0, 1] 0 ∧
      Confines s t ![2, 0, 0, 0, 0, 1] 0 := by
  obtain ⟨s, t, first, second, known, moved, stays, fresh⟩ :
      ∃ s t, run (step 3 inactive) (initial 300 0) movingRun = some s ∧
        run (step 3 inactive) s answeringRun = some t ∧
        entryFor s.world.tables.table ![2, 0, 0, 0, 0, 1] = some ⟨0, 0⟩ ∧
        ¬ AttachedAt t.world ![2, 0, 0, 0, 0, 1] 0 ∧
        StaysAt s t ![2, 0, 0, 0, 0, 1] 0 ∧
        t.world.tables.clock < 0 + 300 * nanosPerSecond := by
    refine ⟨_, _, rfl, rfl, rfl, ?_, ⟨?_, ?_⟩, by decide⟩
    · intro attached
      exact absurd (attached 1 _ List.mem_cons_self (by decide)) (by decide)
    · intro p f busy captured _
      rcases List.mem_pair.mp (List.mem_of_getElem? captured) with first | second
      · cases first
        exact absurd rfl busy
      · exact congrArg Prod.fst second
    · intro c p f behind captured source
      have inside := (List.getElem?_eq_some_iff.mp captured).1
      obtain rfl : c = 2 := Nat.le_antisymm (Nat.le_of_lt_succ inside) behind
      cases captured
      exact absurd source (by decide)
  exact ⟨s, t, first, second, moved, confines (by decide) ⟨_, first⟩ known rfl second stays fresh⟩

end SwitchDelivery
