import Cursov.Frame
import Cursov.TableHistory
import Cursov.Library.Resumption

/-!
# The switch, one call of `processPacket` after another

`processPacket` is written once, as a program of its accesses to shared state.
This module runs whole calls in sequence, between clock ticks and sweeps; the
interleavings of the capture threads are in `SwitchThreads`.
-/

namespace Switch

open Bytes CommutationTable TableHistory Frame Resumption Transition

/-- One `pcap_sendpacket`: the call it belongs to, the port it leaves, the bytes. -/
structure Transmission where
  call : Nat
  port : Nat
  bytes : ByteString
  deriving DecidableEq

/-- Shared state. The fields after `tables` are records for the statements: the frames
handed out by `pcap_next` with their ports, the call each thread is in, the answer of
each call's lookup, everything sent, and the measured durations. -/
structure World where
  tables : TableState
  captures : List (Nat × Capture)
  current : Nat → Nat
  answer : Nat → Option Int
  wire : List Transmission
  measured : List ℚ

def initial (lifetime clock : Int) : World where
  tables := TableHistory.initial lifetime clock
  captures := []
  current := fun _ => 0
  answer := fun _ => none
  wire := []
  measured := []

/-- The accesses of `processPacket` to state that other threads share. -/
inductive SwitchOp where
  | updateStats (duration : ℚ)
  | elapsed
  | updateEntry (mac : Mac) (port : Int)
  | getPortForMac (mac : Mac)
  | sendPacket (port : Nat) (bytes : ByteString)

abbrev Answer : SwitchOp → Type
  | .updateStats _ => Unit
  | .elapsed => ℚ
  | .updateEntry _ _ => Unit
  | .getPortForMac _ => Int
  | .sendPacket _ _ => Unit

abbrev Call := Program SwitchOp Answer

/-- Each operation is one locked region or one send; `reading` is a measured duration. -/
def perform : Perform SwitchOp Answer World ℚ
  | _, w, .updateStats duration, _ =>
    ({ w with tables := { w.tables with table := updateStats w.tables.table duration } }, ())
  | _, w, .elapsed, reading => ({ w with measured := w.measured ++ [reading] }, reading)
  | _, w, .updateEntry mac port, _ => ({ w with tables := w.tables.update mac port }, ())
  | i, w, .getPortForMac mac, _ =>
    let dest := getPortForMac w.tables.table mac
    ({ w with answer := Function.update w.answer (w.current i) (some dest) }, dest)
  | i, w, .sendPacket port bytes, _ =>
    ({ w with wire := w.wire ++ [⟨w.current i, port, bytes⟩] }, ())

/-- The tail shared by both exits: measure, `updateStats`, return. -/
def recordDuration : Call :=
  .call .elapsed fun duration : ℚ => .call (.updateStats duration) fun _ => .ret

/-- The flood loop over the handle indices that are left. -/
def floodFrom (port : Nat) (bytes : ByteString) : List Nat → Call
  | [] => recordDuration
  | i :: rest =>
    if i ≠ port then .call (.sendPacket i bytes) fun _ => floodFrom port bytes rest
    else floodFrom port bytes rest

/-- From the lookup's answer on. A port of the table is a handle index, never negative. -/
def forwardTo (handles port : Nat) (bytes : ByteString) (destPort : Int) : Call :=
  if destPort ≠ -1 ∧ destPort < handles then
    .call (.sendPacket destPort.toNat bytes) fun _ => recordDuration
  else floodFrom port bytes (List.range handles)

/-- `handles` is the number of open interfaces, `port` the index of the capturing one. -/
def processPacket (handles : Nat) (cfg : TtlSubstitutionCfg) (port : Nat) (f : Capture)
    (scratch : Memory) : Call :=
  .call (.updateStats 0) fun _ =>
    if f.shost = f.dhost then recordDuration
    else .call (.updateEntry f.shost port) fun _ =>
      .call (.getPortForMac f.dhost) (forwardTo handles port (f.sentBytes cfg scratch))

/-- `pcap_next` hands frame `f` to the thread of `port`. -/
def World.deliver (w : World) (port : Nat) (f : Capture) : World :=
  { w with
    captures := w.captures ++ [(port, f)]
    current := Function.update w.current port w.captures.length }

inductive Event where
  | tick (elapsed : Nat)
  | frame (port : Nat) (f : Capture) (scratch : Memory) (duration : ℚ)
  | ageEntries

/-- A whole call, or a whole sweep, without interruption. -/
def step (handles : Nat) (cfg : TtlSubstitutionCfg) (w : World) : Event → Option World
  | .tick elapsed => some { w with tables := w.tables.tick elapsed }
  | .frame port f scratch duration =>
    if port < handles then
      some (exec perform port duration (processPacket handles cfg port f scratch)
        (w.deliver port f))
    else none
  | .ageEntries => ((w.tables.readClock 0).sweep 0).map fun t => { w with tables := t }

/-- What was sent between two states. -/
def sentBetween (w w' : World) : List Transmission :=
  w'.wire.drop w.wire.length

/-- The egress ports of a frame whose lookup answered `dest`, in the order of the sends. -/
def targets (handles port : Nat) (dest : Int) : List Nat :=
  if dest ≠ -1 ∧ dest < handles then [dest.toNat]
  else (List.range handles).filter fun q => q ≠ port

/-- The sends that are left of a call, then its tail. -/
def sendAll (bytes : ByteString) : List Nat → Call
  | [] => recordDuration
  | q :: rest => .call (.sendPacket q bytes) fun _ => sendAll bytes rest

theorem floodFrom_eq_sendAll (port : Nat) (bytes : ByteString) (ports : List Nat) :
    floodFrom port bytes ports = sendAll bytes (ports.filter fun q => q ≠ port) := by
  induction ports with
  | nil => rfl
  | cons q rest ih =>
    by_cases hq : q = port
    · simp [floodFrom, hq, ih]
    · simp [floodFrom, hq, ih, sendAll]

/-- Both send paths are one loop over the targets. -/
theorem forwardTo_eq_sendAll (handles port : Nat) (bytes : ByteString) (dest : Int) :
    forwardTo handles port bytes dest = sendAll bytes (targets handles port dest) := by
  by_cases known : dest ≠ -1 ∧ dest < handles
  · simp only [forwardTo, targets, if_pos known, sendAll]
  · simp only [forwardTo, targets, if_neg known, floodFrom_eq_sendAll]

theorem exec_sendAll_wire (i : Nat) (e : ℚ) (bytes : ByteString) (ports : List Nat)
    (w : World) :
    (exec perform i e (sendAll bytes ports) w).wire =
      w.wire ++ ports.map fun q => ⟨w.current i, q, bytes⟩ := by
  induction ports generalizing w with
  | nil => exact (List.append_nil _).symm
  | cons q rest ih => simp [sendAll, exec, perform, ih]

/-- Learning the source does not change the answer for a different destination. -/
theorem getPortForMac_learned (t : Table) (duration : ℚ) {f : Capture} (port now : Int)
    (different : f.shost ≠ f.dhost) :
    getPortForMac (updateEntry (updateStats t duration) f.shost port now) f.dhost =
      getPortForMac t f.dhost := by
  rw [getPortForMac_eq, getPortForMac_eq, entryFor_updateEntry_of_ne _ _ _ different.symm,
    entryFor_updateStats]

theorem exec_processPacket_wire (handles port : Nat) (cfg : TtlSubstitutionCfg) (f : Capture)
    (scratch : Memory) (e : ℚ) (w : World) :
    (exec perform port e (processPacket handles cfg port f scratch) w).wire =
      w.wire ++ if f.shost = f.dhost then [] else
        (targets handles port (getPortForMac w.tables.table f.dhost)).map
          fun q => ⟨w.current port, q, f.sentBytes cfg scratch⟩ := by
  by_cases same : f.shost = f.dhost
  · simp only [processPacket, exec, if_pos same, List.append_nil]
    rfl
  · simp only [processPacket, exec, if_neg same, forwardTo_eq_sendAll, exec_sendAll_wire]
    simp only [perform, TableState.update, getPortForMac_learned _ _ _ _ same]

/-- Every entry was learned from a captured frame with two different addresses, and
its port is the handle index that frame was captured on. -/
def Learned (handles : Nat) (captures : List (Nat × Capture)) (t : Table) : Prop :=
  ∀ key e, t.macTable.lookup key = some e → ∃ port f, (port, f) ∈ captures ∧ port < handles ∧
    e.port = port ∧ macToString f.shost = key ∧ f.shost ≠ f.dhost

/-- An operation that writes the table only as a captured frame makes it. -/
def Learns (handles : Nat) (captures : List (Nat × Capture)) : SwitchOp → Prop
  | .updateEntry mac dest => ∃ port f, (port, f) ∈ captures ∧ port < handles ∧
      dest = port ∧ mac = f.shost ∧ f.shost ≠ f.dhost
  | _ => True

theorem learned_getPortForMac {handles : Nat} {captures : List (Nat × Capture)} {t : Table}
    (learned : Learned handles captures t) (mac : Mac) :
    getPortForMac t mac = -1 ∨ 0 ≤ getPortForMac t mac ∧ getPortForMac t mac < handles := by
  rw [getPortForMac_eq]
  cases h : entryFor t mac with
  | none => exact Or.inl rfl
  | some e =>
    obtain ⟨port, f, _, hport, he, _⟩ := learned _ e h
    exact Or.inr ⟨by simp [he], by simpa [he] using hport⟩

theorem learned_of_entries {handles : Nat} {captures more : List (Nat × Capture)} {t u : Table}
    (learned : Learned handles captures t) (grown : ∀ c ∈ captures, c ∈ more)
    (kept : ∀ key e, u.macTable.lookup key = some e → t.macTable.lookup key = some e) :
    Learned handles more u := by
  intro key e h
  obtain ⟨port, f, hmem, rest⟩ := learned key e (kept key e h)
  exact ⟨port, f, grown _ hmem, rest⟩

theorem updateEntry_learned {handles port : Nat} {captures : List (Nat × Capture)} {t : Table}
    (learned : Learned handles captures t) {f : Capture} (captured : (port, f) ∈ captures)
    (valid : port < handles) (different : f.shost ≠ f.dhost) (now : Int) :
    Learned handles captures (updateEntry t f.shost port now) := by
  intro key e h
  by_cases hkey : key = macToString f.shost
  · subst key
    rw [updateEntry, AList.lookup_insert, Option.some.injEq] at h
    exact ⟨port, f, captured, valid, by rw [← h], rfl, different⟩
  · rw [updateEntry, AList.lookup_insert_ne hkey] at h
    exact learned key e h

theorem ageEntries_learned {handles : Nat} {captures : List (Nat × Capture)} {t : Table}
    (learned : Learned handles captures t) (now : Int) :
    Learned handles captures (ageEntries t now) := by
  refine learned_of_entries learned (fun _ h => h) fun key e h => ?_
  rw [lookup_ageEntries, Option.filter_eq_some_iff] at h
  exact h.1

/-- One operation of any thread keeps the table learned from the captures. -/
theorem perform_learned {handles : Nat} (i : Nat) (w : World) (op : SwitchOp) (reading : ℚ)
    (learns : Learns handles w.captures op)
    (learned : Learned handles w.captures w.tables.table) :
    Learned handles w.captures (perform i w op reading).1.tables.table := by
  cases op with
  | updateStats duration => exact learned
  | elapsed => exact learned
  | updateEntry mac dest =>
    obtain ⟨port, f, captured, valid, rfl, rfl, different⟩ := learns
    exact updateEntry_learned learned captured valid different _
  | getPortForMac mac => exact learned
  | sendPacket port bytes => exact learned

@[simp] theorem perform_captures (i : Nat) (w : World) (op : SwitchOp) (reading : ℚ) :
    (perform i w op reading).1.captures = w.captures := by
  cases op <;> rfl

theorem sendAll_learns (handles : Nat) (captures : List (Nat × Capture)) (bytes : ByteString)
    (ports : List Nat) : (sendAll bytes ports).Only (Learns handles captures) := by
  induction ports with
  | nil => exact ⟨trivial, fun _ => ⟨trivial, fun _ => trivial⟩⟩
  | cons q rest ih => exact ⟨trivial, fun _ => ih⟩

theorem processPacket_learns {handles port : Nat} {captures : List (Nat × Capture)}
    {f : Capture} (captured : (port, f) ∈ captures) (valid : port < handles)
    (cfg : TtlSubstitutionCfg) (scratch : Memory) :
    (processPacket handles cfg port f scratch).Only (Learns handles captures) := by
  refine ⟨trivial, fun _ => ?_⟩
  by_cases same : f.shost = f.dhost
  · rw [if_pos same]
    exact ⟨trivial, fun _ => ⟨trivial, fun _ => trivial⟩⟩
  · rw [if_neg same]
    refine ⟨⟨port, f, captured, valid, rfl, rfl, same⟩, fun _ => ⟨trivial, fun dest => ?_⟩⟩
    rw [forwardTo_eq_sendAll]
    exact sendAll_learns handles captures _ _

theorem step_learned {handles : Nat} {cfg : TtlSubstitutionCfg} (w : World) (event : Event)
    (w' : World) (learned : Learned handles w.captures w.tables.table)
    (h : step handles cfg w event = some w') :
    Learned handles w'.captures w'.tables.table := by
  cases event with
  | tick elapsed =>
    cases h
    exact learned
  | frame port f scratch duration =>
    by_cases valid : port < handles
    · simp only [step, if_pos valid, Option.some.injEq] at h
      subst w'
      have delivered : (port, f) ∈ (w.deliver port f).captures :=
        List.mem_append_right _ List.mem_cons_self
      have start : Learned handles (w.deliver port f).captures (w.deliver port f).tables.table :=
        learned_of_entries learned (fun c hc => List.mem_append_left _ hc) fun _ _ he => he
      have after := exec_invariant (Learns handles (w.deliver port f).captures)
        (fun v => v.captures = (w.deliver port f).captures ∧
          Learned handles v.captures v.tables.table) port duration
        (fun v op hop hv => ⟨(perform_captures port v op duration).trans hv.1, by
          rw [perform_captures]
          exact perform_learned port v op duration (hv.1 ▸ hop) hv.2⟩)
        (processPacket_learns delivered valid cfg scratch) ⟨rfl, start⟩
      exact after.2
    · simp [step, if_neg valid] at h
  | ageEntries =>
    simp only [step, Option.map_eq_some_iff] at h
    obtain ⟨t, ht, rfl⟩ := h
    obtain ⟨now, _, rfl⟩ := sweep_some_iff.mp ht
    exact ageEntries_learned learned now

theorem initial_learned (handles : Nat) (lifetime clock : Int) :
    Learned handles (initial lifetime clock).captures (initial lifetime clock).tables.table := by
  intro key e h
  simp [initial, TableHistory.initial, empty] at h

/-- What the call or sweep of one event sends. -/
def sentBy (handles : Nat) (cfg : TtlSubstitutionCfg) (w : World) (event : Event) :
    List Transmission :=
  match step handles cfg w event with
  | some w' => sentBetween w w'
  | none => []

theorem sentBy_frame {handles port : Nat} (cfg : TtlSubstitutionCfg) (w : World) (f : Capture)
    (scratch : Memory) (duration : ℚ) (valid : port < handles) :
    sentBy handles cfg w (.frame port f scratch duration) =
      if f.shost = f.dhost then [] else
        (targets handles port (getPortForMac w.tables.table f.dhost)).map
          fun q => ⟨w.captures.length, q, f.sentBytes cfg scratch⟩ := by
  simp only [sentBy, step, if_pos valid, sentBetween, exec_processPacket_wire]
  simp [World.deliver]

theorem port_mem_targets_iff {handles port : Nat} {dest : Int} (valid : port < handles)
    (range : dest = -1 ∨ 0 ≤ dest ∧ dest < handles) :
    port ∈ targets handles port dest ↔ dest = port := by
  by_cases known : dest ≠ -1 ∧ dest < handles
  · simp only [targets, if_pos known, List.mem_singleton]
    omega
  · simp only [targets, if_neg known, List.mem_filter, List.mem_range]
    constructor
    · intro h
      simp at h
    · intro h
      omega

def NotReflected (handles : Nat) (cfg : TtlSubstitutionCfg) (w : World) : Event → Prop
  | .frame port f scratch duration =>
    ∀ t ∈ sentBy handles cfg w (.frame port f scratch duration), t.port ≠ port
  | .tick _ => True
  | .ageEntries => True

instance notReflectedDecidable (handles : Nat) (cfg : TtlSubstitutionCfg) (w : World)
    (event : Event) : Decidable (NotReflected handles cfg w event) :=
  match event with
  | .frame _ _ _ _ => inferInstanceAs (Decidable (∀ t ∈ _, _))
  | .tick _ => .isTrue trivial
  | .ageEntries => .isTrue trivial

/-- The frame is dropped, or its destination was not last seen on the ingress port. -/
def DestinationElsewhere (w : World) : Event → Prop
  | .frame port f _ _ => f.shost = f.dhost ∨ getPortForMac w.tables.table f.dhost ≠ port
  | .tick _ => True
  | .ageEntries => True

theorem frame_not_reflected_iff {handles port : Nat} (cfg : TtlSubstitutionCfg) (w : World)
    (learned : Learned handles w.captures w.tables.table)
    (f : Capture) (scratch : Memory) (duration : ℚ) (valid : port < handles) :
    NotReflected handles cfg w (.frame port f scratch duration) ↔
      DestinationElsewhere w (.frame port f scratch duration) := by
  rw [NotReflected, DestinationElsewhere, sentBy_frame cfg w f scratch duration valid]
  by_cases same : f.shost = f.dhost
  · simp [same]
  · simp only [same, if_false, false_or]
    rw [ne_eq, ← port_mem_targets_iff valid (learned_getPortForMac learned f.dhost)]
    constructor
    · intro h hmem
      exact h _ (List.mem_map_of_mem hmem) rfl
    · rintro h t ht rfl
      obtain ⟨q, hq, rfl⟩ := List.mem_map.mp ht
      exact h hq

/-- A run reflects no frame exactly when no frame is captured on the port its
destination is recorded at: the unicast path does not exclude the ingress port. -/
theorem run_reflects_nothing_iff {handles : Nat} {cfg : TtlSubstitutionCfg}
    {lifetime clock : Int} {events : List Event} {w : World}
    (path : run (step handles cfg) (initial lifetime clock) events = some w) :
    Along (step handles cfg) (NotReflected handles cfg) (initial lifetime clock) events ↔
      Along (step handles cfg) DestinationElsewhere (initial lifetime clock) events := by
  refine along_congr (fun s => Learned handles s.captures s.tables.table)
    step_learned (fun s a t hs h => ?_) (initial_learned handles lifetime clock) path
  cases a with
  | frame port f scratch duration =>
    have valid : port < handles := by
      by_contra hn
      simp [step, hn] at h
    exact frame_not_reflected_iff cfg s hs f scratch duration valid
  | tick elapsed => exact Iff.rfl
  | ageEntries => exact Iff.rfl

instance destinationElsewhereDecidable (w : World) (event : Event) :
    Decidable (DestinationElsewhere w event) :=
  match event with
  | .frame _ _ _ _ => inferInstanceAs (Decidable (_ ∨ _))
  | .tick _ => .isTrue trivial
  | .ageEntries => .isTrue trivial

/-- A minimal frame between two stations. -/
def plainFrame (dhost shost : Mac) : Capture where
  packet := fun i => if h : i < 6 then dhost ⟨i, h⟩ else
    if h : i - 6 < 6 then shost ⟨i - 6, h⟩ else 0
  caplen := 14
  len := 14

def inactive : TtlSubstitutionCfg := ⟨false, fun _ => 0, fun _ => 0⟩

/-- Stations on different ports: the condition holds at both frames. -/
theorem run_reflects_nothing_across_ports :
    Along (step 2 inactive) (NotReflected 2 inactive) (initial 300 0)
      [.frame 0 (plainFrame ![2, 0, 0, 0, 0, 2] ![2, 0, 0, 0, 0, 1]) (fun _ => 0) 0,
       .frame 1 (plainFrame ![2, 0, 0, 0, 0, 1] ![2, 0, 0, 0, 0, 2]) (fun _ => 0) 0] := by
  obtain ⟨w, path⟩ : ∃ w, run (step 2 inactive) (initial 300 0)
      [.frame 0 (plainFrame ![2, 0, 0, 0, 0, 2] ![2, 0, 0, 0, 0, 1]) (fun _ => 0) 0,
       .frame 1 (plainFrame ![2, 0, 0, 0, 0, 1] ![2, 0, 0, 0, 0, 2]) (fun _ => 0) 0] = some w :=
    ⟨_, rfl⟩
  exact (run_reflects_nothing_iff path).mpr (by decide)

/-- Two stations behind port 0 talk to each other: the answer is sent back to port 0. -/
theorem run_reflects_behind_shared_port :
    ¬ Along (step 2 inactive) (NotReflected 2 inactive) (initial 300 0)
      [.frame 0 (plainFrame ![2, 0, 0, 0, 0, 2] ![2, 0, 0, 0, 0, 1]) (fun _ => 0) 0,
       .frame 0 (plainFrame ![2, 0, 0, 0, 0, 1] ![2, 0, 0, 0, 0, 2]) (fun _ => 0) 0] := by
  decide

theorem run_learned {handles : Nat} {cfg : TtlSubstitutionCfg} {lifetime clock : Int}
    {events : List Event} {w : World}
    (path : run (step handles cfg) (initial lifetime clock) events = some w) :
    Learned handles w.captures w.tables.table :=
  run_invariant step_learned (initial_learned handles lifetime clock) path

/-- The frame leaves on every port other than its own. -/
def FloodedBy (handles : Nat) (cfg : TtlSubstitutionCfg) (w : World) (port : Nat) (event : Event) :
    Prop :=
  ∀ q < handles, q ≠ port → ∃ t ∈ sentBy handles cfg w event, t.port = q

theorem mem_targets_unknown {handles port q : Nat} :
    q ∈ targets handles port (-1) ↔ q < handles ∧ q ≠ port := by
  simp [targets]

theorem mem_targets_known {handles port q : Nat} {dest : Int} (nonneg : 0 ≤ dest)
    (valid : dest < handles) : q ∈ targets handles port dest ↔ dest = q := by
  simp only [targets, if_pos (And.intro (by omega : dest ≠ -1) valid), List.mem_singleton]
  omega

/-- A frame is flooded when its destination has no entry, or the entry's port is the
only other one. -/
theorem frame_flooded_iff {handles port : Nat} (cfg : TtlSubstitutionCfg) (w : World)
    (learned : Learned handles w.captures w.tables.table)
    {f : Capture} (scratch : Memory) (duration : ℚ) (valid : port < handles)
    (different : f.shost ≠ f.dhost) :
    FloodedBy handles cfg w port (.frame port f scratch duration) ↔
      getPortForMac w.tables.table f.dhost = -1 ∨
        ∀ q < handles, q ≠ port → getPortForMac w.tables.table f.dhost = q := by
  have sent : ∀ q, (∃ t ∈ sentBy handles cfg w (.frame port f scratch duration), t.port = q) ↔
      q ∈ targets handles port (getPortForMac w.tables.table f.dhost) := by
    intro q
    rw [sentBy_frame cfg w f scratch duration valid, if_neg different]
    constructor
    · rintro ⟨t, ht, rfl⟩
      obtain ⟨q, hq, rfl⟩ := List.mem_map.mp ht
      exact hq
    · intro hq
      exact ⟨_, List.mem_map_of_mem hq, rfl⟩
  simp only [FloodedBy, sent]
  rcases learned_getPortForMac learned f.dhost with unknown | ⟨nonneg, bound⟩
  · simp only [unknown, true_or, iff_true]
    intro q hq hne
    exact mem_targets_unknown.mpr ⟨hq, hne⟩
  · simp only [mem_targets_known nonneg bound]
    constructor
    · exact Or.inr
    · rintro (unknown | known)
      · omega
      · exact known

/-- Entries have ports, so the answer that there is none is given for missing entries only. -/
theorem getPortForMac_unknown_iff {handles : Nat} {captures : List (Nat × Capture)} {t : Table}
    (learned : Learned handles captures t) (mac : Mac) :
    getPortForMac t mac = -1 ↔ entryFor t mac = none := by
  rw [getPortForMac_eq]
  cases found : entryFor t mac with
  | none => simp
  | some e =>
    obtain ⟨port, _, _, _, recorded, _⟩ := learned _ e found
    simp only [Option.map_some, Option.getD_some, reduceCtorEq, iff_false]
    omega

/-- A destination that no captured frame carried as its source has no entry. -/
theorem never_source_unknown {handles : Nat} {captures : List (Nat × Capture)} {t : Table}
    (learned : Learned handles captures t) {mac : Mac}
    (never : ∀ c ∈ captures, c.2.shost = mac → c.2.shost = c.2.dhost) :
    entryFor t mac = none := by
  cases h : entryFor t mac with
  | none => rfl
  | some e =>
    obtain ⟨port, f, hmem, _, _, hkey, different⟩ := learned _ e h
    exact absurd (never (port, f) hmem (macToString_injective hkey)) different

/-- The table has no entry for the address, or the entry's port is the only one but `port`. -/
def HoldsNoOther (handles port : Nat) (t : Table) (mac : Mac) : Prop :=
  entryFor t mac = none ∨
    ∃ e, entryFor t mac = some e ∧ ∀ q < handles, q ≠ port → e.port = q

/-- Group destinations have no case of their own: a frame, whatever its destination, is flooded
exactly when the table has no entry for that (or the entry leaves no other port out), and an
address gets an entry only as the source of an earlier frame. -/
theorem group_frame_flooded_iff {handles port : Nat} {cfg : TtlSubstitutionCfg}
    {lifetime clock : Int} {events : List Event} {w : World}
    (path : run (step handles cfg) (initial lifetime clock) events = some w)
    {f : Capture} (scratch : Memory) (duration : ℚ) (valid : port < handles)
    (different : f.shost ≠ f.dhost) :
    (FloodedBy handles cfg w port (.frame port f scratch duration) ↔
      HoldsNoOther handles port w.tables.table f.dhost) ∧
    ((∀ c ∈ w.captures, c.2.shost = f.dhost → c.2.shost = c.2.dhost) →
      FloodedBy handles cfg w port (.frame port f scratch duration)) := by
  have learned := run_learned path
  have exact_when : FloodedBy handles cfg w port (.frame port f scratch duration) ↔
      HoldsNoOther handles port w.tables.table f.dhost := by
    rw [frame_flooded_iff cfg w learned scratch duration valid different, HoldsNoOther,
      getPortForMac_unknown_iff learned, getPortForMac_eq]
    cases found : entryFor w.tables.table f.dhost with
    | none => simp
    | some e => simp
  exact ⟨exact_when, fun never => exact_when.mpr (Or.inl (never_source_unknown learned never))⟩

/-- A broadcast on a three-port switch that has learned one station. -/
theorem group_frame_flooded_broadcast :
    ∃ w, run (step 3 inactive) (initial 300 0)
        [.frame 1 (plainFrame ![2, 0, 0, 0, 0, 2] ![2, 0, 0, 0, 0, 1]) (fun _ => 0) 0] = some w ∧
      FloodedBy 3 inactive w 0 (.frame 0
        (plainFrame ![255, 255, 255, 255, 255, 255] ![2, 0, 0, 0, 0, 3]) (fun _ => 0) 0) := by
  obtain ⟨w, path⟩ : ∃ w, run (step 3 inactive) (initial 300 0)
      [.frame 1 (plainFrame ![2, 0, 0, 0, 0, 2] ![2, 0, 0, 0, 0, 1]) (fun _ => 0) 0] = some w :=
    ⟨_, rfl⟩
  refine ⟨w, path, (group_frame_flooded_iff path (fun _ => 0) 0 (by decide) (by decide)).2 ?_⟩
  cases path
  decide

/-- A frame with a group source is learned, and the group traffic then misses port 2. -/
theorem group_frame_not_flooded :
    ∃ w, run (step 3 inactive) (initial 300 0)
        [.frame 1 (plainFrame ![2, 0, 0, 0, 0, 2] ![1, 0, 94, 0, 0, 1]) (fun _ => 0) 0] = some w ∧
      isGroup ![1, 0, 94, 0, 0, 1] ∧
      ¬ FloodedBy 3 inactive w 0 (.frame 0
        (plainFrame ![1, 0, 94, 0, 0, 1] ![2, 0, 0, 0, 0, 3]) (fun _ => 0) 0) := by
  refine ⟨_, rfl, by decide, ?_⟩
  intro flooded
  obtain ⟨t, ht, hport⟩ := flooded 2 (by decide) (by decide)
  revert t
  decide

end Switch
