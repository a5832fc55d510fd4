import Cursov.Switch

/-!
# The switch under concurrency

Every port has a capture thread that runs `processPacket` on the frames of its
interface, one after another. The threads interleave at the accesses to shared
state, with each other and with the maintenance thread. The flag `running` only
decides whether a thread takes another frame, so every run of the program is a
run here.
-/

namespace SwitchThreads

open Bytes CommutationTable TableHistory Frame Resumption Transition
open Switch hiding step initial

abbrev Threads := Pool World SwitchOp Answer

def initial (lifetime clock : Int) : Threads where
  world := Switch.initial lifetime clock
  thread := fun _ => .ret

inductive Action where
  | tick (elapsed : Nat)
  | capture (port : Nat) (f : Capture) (scratch : Memory)
  | advance (port : Nat) (reading : ℚ)
  | readClock (k : Nat)
  | sweep (k : Nat)

/-- Replace the table state of the world. -/
def withTables (s : Threads) (tables : TableState) : Threads :=
  { s with world := { s.world with tables := tables } }

/-- `capture` is one return of `pcap_next` in the thread of `port`, which is then between
two calls; `advance` is that thread's next access to shared state. -/
def step (handles : Nat) (cfg : TtlSubstitutionCfg) (s : Threads) : Action → Option Threads
  | .tick elapsed => some (withTables s (s.world.tables.tick elapsed))
  | .capture port f scratch =>
    match s.thread port with
    | .ret =>
      if port < handles then some
        { world := s.world.deliver port f
          thread := Function.update s.thread port (processPacket handles cfg port f scratch) }
      else none
    | .call _ _ => none
  | .advance port reading => advance perform s port reading
  | .readClock k => some (withTables s (s.world.tables.readClock k))
  | .sweep k => (s.world.tables.sweep k).map (withTables s)

theorem capture_some_iff {handles : Nat} {cfg : TtlSubstitutionCfg} {s t : Threads} {port : Nat}
    {f : Capture} {scratch : Memory} :
    step handles cfg s (.capture port f scratch) = some t ↔
      s.thread port = .ret ∧ port < handles ∧
      t = {
        world := s.world.deliver port f
        thread := Function.update s.thread port (processPacket handles cfg port f scratch) } := by
  cases h : s.thread port with
  | ret =>
    by_cases valid : port < handles
    · simp [step, h, valid, eq_comm]
    · simp [step, h, valid]
  | call op next => simp [step, h]

/-- A call that is not interrupted has the effect of `Switch.step`. -/
theorem whole_call_is_run {handles : Nat} (cfg : TtlSubstitutionCfg) {s : Threads} {port : Nat}
    (idle : s.thread port = .ret) (f : Capture) (scratch : Memory) (duration : ℚ) {w : World}
    (call : Switch.step handles cfg s.world (.frame port f scratch duration) = some w) :
    ∃ k, run (step handles cfg) s
      (.capture port f scratch :: List.replicate k (.advance port duration)) =
        some { world := w, thread := s.thread } := by
  have valid : port < handles := by
    by_contra hn
    simp [Switch.step, hn] at call
  simp only [Switch.step, if_pos valid, Option.some.injEq] at call
  obtain ⟨k, hk⟩ := solo_run (step handles cfg) (.advance port duration) port duration
    (fun _ => rfl) (processPacket handles cfg port f scratch) (s.world.deliver port f)
    (Function.update s.thread port (processPacket handles cfg port f scratch))
    (Function.update_self _ _ _)
  refine ⟨k, ?_⟩
  rw [run_cons, capture_some_iff.mpr ⟨idle, valid, rfl⟩, Option.bind_some, hk, call,
    Function.update_idem, ← idle, Function.update_eq_self]

def InRange (handles : Nat) (dest : Int) : Prop :=
  dest = -1 ∨ 0 ≤ dest ∧ dest < handles

/-- What a call has answered and sent once it is over. -/
def Settled (handles port : Nat) (f : Capture) (answer : Option Int) (sent : List Nat) : Prop :=
  if f.shost = f.dhost then sent = []
  else ∃ dest, answer = some dest ∧ InRange handles dest ∧ sent = targets handles port dest

/-- The program that is left of a call, with its lookup's answer and its sends so far. -/
inductive Stage (handles : Nat) (cfg : TtlSubstitutionCfg) (port : Nat) (f : Capture)
    (scratch : Memory) : Call → Option Int → List Nat → Prop where
  | entered : Stage handles cfg port f scratch (processPacket handles cfg port f scratch) none []
  | dropping (same : f.shost = f.dhost) : Stage handles cfg port f scratch recordDuration none []
  | learning (different : f.shost ≠ f.dhost) : Stage handles cfg port f scratch
      (.call (.updateEntry f.shost port) fun _ =>
        .call (.getPortForMac f.dhost) (forwardTo handles port (f.sentBytes cfg scratch))) none []
  | looking (different : f.shost ≠ f.dhost) : Stage handles cfg port f scratch
      (.call (.getPortForMac f.dhost) (forwardTo handles port (f.sentBytes cfg scratch))) none []
  | sending (different : f.shost ≠ f.dhost) (dest : Int) (range : InRange handles dest)
      (done todo : List Nat) (split : targets handles port dest = done ++ todo) :
      Stage handles cfg port f scratch (sendAll (f.sentBytes cfg scratch) todo) (some dest) done
  | recording (duration : ℚ) (answer : Option Int) (sent : List Nat)
      (settled : Settled handles port f answer sent) :
      Stage handles cfg port f scratch (.call (.updateStats duration) fun _ => .ret) answer sent

/-- The ports a call has been sent on, in order. -/
def sentOn (w : World) (c : Nat) : List Nat :=
  (w.wire.filter fun t => t.call = c).map Transmission.port

theorem targets_nodup (handles port : Nat) (dest : Int) : (targets handles port dest).Nodup := by
  rw [targets]
  split
  · exact List.nodup_singleton _
  · exact List.nodup_range.filter _

theorem stage_ne_ret {handles : Nat} {cfg : TtlSubstitutionCfg} {port : Nat} {f : Capture}
    {scratch : Memory} {r : Call} {answer : Option Int} {sent : List Nat}
    (stage : Stage handles cfg port f scratch r answer sent) : r ≠ .ret := by
  cases stage with
  | sending different dest range done todo split =>
    cases todo with
    | nil => rintro ⟨⟩
    | cons q rest => rintro ⟨⟩
  | _ => rintro ⟨⟩

/-- The operations of a call: it learns its own source, looks up its own destination
once, and sends its own bytes on a port only once. -/
def OpOf (cfg : TtlSubstitutionCfg) (port : Nat) (f : Capture) (scratch : Memory)
    (answer : Option Int) (sent : List Nat) : SwitchOp → Prop
  | .updateStats _ => True
  | .elapsed => True
  | .updateEntry mac p => mac = f.shost ∧ p = port ∧ f.shost ≠ f.dhost
  | .getPortForMac mac => mac = f.dhost ∧ answer = none ∧ f.shost ≠ f.dhost
  | .sendPacket q bytes => q ∉ sent ∧ bytes = f.sentBytes cfg scratch ∧ f.shost ≠ f.dhost

theorem stage_op {handles : Nat} {cfg : TtlSubstitutionCfg} {port : Nat} {f : Capture}
    {scratch : Memory} {r : Call} {answer : Option Int} {sent : List Nat}
    (stage : Stage handles cfg port f scratch r answer sent) {op : SwitchOp}
    {next : Answer op → Call} (at_op : r = .call op next) :
    OpOf cfg port f scratch answer sent op := by
  cases stage with
  | entered => cases at_op; trivial
  | dropping same => cases at_op; trivial
  | learning different => cases at_op; exact ⟨rfl, rfl, different⟩
  | looking different => cases at_op; exact ⟨rfl, rfl, different⟩
  | sending different dest range done todo split =>
    cases todo with
    | nil => cases at_op; trivial
    | cons q rest =>
      cases at_op
      have nodup := targets_nodup handles port dest
      rw [split] at nodup
      have apart := (List.nodup_append.mp nodup).2.2
      exact ⟨fun h => apart q h q List.mem_cons_self rfl, rfl, different⟩
  | recording duration answer sent settled => cases at_op; trivial

@[simp] theorem perform_current (i : Nat) (w : World) (op : SwitchOp) (reading : ℚ) :
    (perform i w op reading).1.current = w.current := by
  cases op <;> rfl

theorem perform_answer_of_ne {i c : Nat} {w : World} (op : SwitchOp) (reading : ℚ)
    (other : c ≠ w.current i) : (perform i w op reading).1.answer c = w.answer c := by
  cases op with
  | getPortForMac mac => exact Function.update_of_ne other _ _
  | _ => rfl

theorem perform_sentOn_of_ne {i c : Nat} {w : World} (op : SwitchOp) (reading : ℚ)
    (other : c ≠ w.current i) : sentOn (perform i w op reading).1 c = sentOn w c := by
  cases op with
  | sendPacket q bytes => simp [perform, sentOn, List.filter_append, other.symm]
  | _ => rfl

theorem sentOn_sendPacket (i : Nat) (w : World) (q : Nat) (bytes : ByteString) (reading : ℚ) :
    sentOn (perform i w (.sendPacket q bytes) reading).1 (w.current i) =
      sentOn w (w.current i) ++ [q] := by
  simp [perform, sentOn, List.filter_append]

/-- One operation takes a call to its next stage, or over. -/
theorem stage_advance {handles : Nat} {cfg : TtlSubstitutionCfg} {i : Nat} {f : Capture}
    {scratch : Memory} {r : Call} {answer : Option Int} {sent : List Nat}
    (stage : Stage handles cfg i f scratch r answer sent) {op : SwitchOp}
    {next : Answer op → Call} (at_op : r = .call op next) {w : World}
    (learned : Learned handles w.captures w.tables.table)
    (hanswer : w.answer (w.current i) = answer) (hsent : sentOn w (w.current i) = sent)
    (reading : ℚ) :
    Stage handles cfg i f scratch (next (perform i w op reading).2)
        ((perform i w op reading).1.answer (w.current i))
        (sentOn (perform i w op reading).1 (w.current i)) ∨
      next (perform i w op reading).2 = .ret ∧
      Settled handles i f ((perform i w op reading).1.answer (w.current i))
        (sentOn (perform i w op reading).1 (w.current i)) := by
  cases stage with
  | entered =>
    cases at_op
    change Stage handles cfg i f scratch (if f.shost = f.dhost then _ else _)
      (w.answer (w.current i)) (sentOn w (w.current i)) ∨ _
    rw [hanswer, hsent]
    by_cases same : f.shost = f.dhost
    · rw [if_pos same]
      exact Or.inl (.dropping same)
    · rw [if_neg same]
      exact Or.inl (.learning same)
  | dropping same =>
    cases at_op
    refine Or.inl (.recording reading _ _ ?_)
    rw [Settled, if_pos same]
    exact hsent
  | learning different =>
    cases at_op
    change Stage handles cfg i f scratch _ (w.answer (w.current i)) (sentOn w (w.current i)) ∨ _
    rw [hanswer, hsent]
    exact Or.inl (.looking different)
  | looking different =>
    cases at_op
    have found : (perform i w (.getPortForMac f.dhost) reading).1.answer (w.current i) =
        some (getPortForMac w.tables.table f.dhost) := Function.update_self _ _ _
    have quiet : sentOn (perform i w (.getPortForMac f.dhost) reading).1 (w.current i) = [] :=
      hsent
    rw [found, quiet]
    left
    change Stage handles cfg i f scratch (forwardTo handles i _ (getPortForMac w.tables.table
      f.dhost)) _ _
    rw [forwardTo_eq_sendAll]
    exact .sending different _ (learned_getPortForMac learned f.dhost) [] _ rfl
  | sending different dest range done todo split =>
    cases todo with
    | nil =>
      cases at_op
      refine Or.inl (.recording reading _ _ ?_)
      rw [Settled, if_neg different]
      exact ⟨dest, hanswer, range, by rw [split, List.append_nil]; exact hsent⟩
    | cons q rest =>
      cases at_op
      rw [sentOn_sendPacket, hsent]
      left
      change Stage handles cfg i f scratch _ (w.answer (w.current i)) _
      rw [hanswer]
      exact .sending different dest range (sent ++ [q]) rest (by rw [split]; simp)
  | recording duration answer sent settled =>
    cases at_op
    refine Or.inr ⟨rfl, ?_⟩
    change Settled handles i f (w.answer (w.current i)) (sentOn w (w.current i))
    rw [hanswer, hsent]
    exact settled

/-- The port a call's frame was captured on. -/
def ingress (w : World) (c : Nat) : Option Nat :=
  (w.captures[c]?).map Prod.fst

/-- Earlier in the wire log is earlier in capture order, for one pair of ports. -/
def Ordered (w : World) : Prop :=
  w.wire.Pairwise fun t u => t.port = u.port → ingress w t.call = ingress w u.call →
    t.call < u.call

structure Consistent (handles : Nat) (cfg : TtlSubstitutionCfg) (s : Threads) : Prop where
  learned : Learned handles s.world.captures s.world.tables.table
  latest : ∀ c p f, s.world.captures[c]? = some (p, f) → p < handles ∧ c ≤ s.world.current p
  busy : ∀ i, s.thread i ≠ .ret → ∃ f scratch,
    s.world.captures[s.world.current i]? = some (i, f) ∧
    Stage handles cfg i f scratch (s.thread i) (s.world.answer (s.world.current i))
      (sentOn s.world (s.world.current i))
  settled : ∀ c p f, s.world.captures[c]? = some (p, f) →
    s.thread p = .ret ∨ c ≠ s.world.current p →
    Settled handles p f (s.world.answer c) (sentOn s.world c)
  sent : ∀ t ∈ s.world.wire, ∃ p f scratch, s.world.captures[t.call]? = some (p, f) ∧
    t.bytes = f.sentBytes cfg scratch
  unanswered : ∀ c, s.world.captures.length ≤ c → s.world.answer c = none
  ordered : Ordered s.world

theorem sentOn_eq_nil {w : World} {c : Nat} (quiet : ∀ t ∈ w.wire, t.call ≠ c) :
    sentOn w c = [] := by
  rw [sentOn, List.map_eq_nil_iff, List.filter_eq_nil_iff]
  intro t ht
  simpa using quiet t ht

theorem initial_consistent (handles : Nat) (cfg : TtlSubstitutionCfg) (lifetime clock : Int) :
    Consistent handles cfg (initial lifetime clock) where
  learned := initial_learned handles lifetime clock
  latest := by
    intro c p f h
    simp [initial, Switch.initial] at h
  busy := by
    intro i h
    exact absurd rfl h
  settled := by
    intro c p f h
    simp [initial, Switch.initial] at h
  sent := by
    intro t ht
    simp [initial, Switch.initial] at ht
  unanswered := by
    intro c _
    rfl
  ordered := List.Pairwise.nil

/-- A change of the table alone keeps everything else. -/
theorem withTables_consistent {handles : Nat} {cfg : TtlSubstitutionCfg} {s : Threads}
    (h : Consistent handles cfg s) {tables : TableState}
    (learned : Learned handles s.world.captures tables.table) :
    Consistent handles cfg (withTables s tables) where
  learned := learned
  latest := h.latest
  busy := h.busy
  settled := h.settled
  sent := h.sent
  unanswered := h.unanswered
  ordered := h.ordered

theorem captures_deliver_of_lt {w : World} {port c : Nat} {f : Capture}
    (old : c < w.captures.length) :
    (w.deliver port f).captures[c]? = w.captures[c]? :=
  List.getElem?_append_left old

theorem captures_deliver_cases {w : World} {port c p : Nat} {f g : Capture}
    (h : (w.deliver port f).captures[c]? = some (p, g)) :
    c < w.captures.length ∧ w.captures[c]? = some (p, g) ∨
      c = w.captures.length ∧ p = port ∧ g = f := by
  by_cases old : c < w.captures.length
  · rw [captures_deliver_of_lt old] at h
    exact Or.inl ⟨old, h⟩
  · right
    rw [World.deliver, List.getElem?_append_right (by omega), List.getElem?_eq_some_iff] at h
    obtain ⟨bound, heq⟩ := h
    simp only [List.length_singleton, Nat.lt_one_iff] at bound
    simp only [bound, List.getElem_cons_zero, Prod.mk.injEq] at heq
    exact ⟨by omega, heq.1.symm, heq.2.symm⟩

theorem captures_deliver_of_some {w : World} {port c p : Nat} {f g : Capture}
    (h : w.captures[c]? = some (p, g)) : (w.deliver port f).captures[c]? = some (p, g) :=
  (captures_deliver_of_lt (List.getElem?_eq_some_iff.mp h).1).trans h

/-- Nothing is transmitted yet for the capture that comes next. -/
theorem Consistent.nothing_sent {handles : Nat} {cfg : TtlSubstitutionCfg} {s : Threads}
    (h : Consistent handles cfg s) : sentOn s.world s.world.captures.length = [] := by
  refine sentOn_eq_nil fun t ht hcall => ?_
  obtain ⟨p, g, _, hc, _⟩ := h.sent t ht
  rw [hcall] at hc
  simp at hc

theorem capture_consistent {handles : Nat} {cfg : TtlSubstitutionCfg} {s : Threads} {port : Nat}
    (h : Consistent handles cfg s) (idle : s.thread port = .ret) (valid : port < handles)
    (f : Capture) (scratch : Memory) :
    Consistent handles cfg
      { world := s.world.deliver port f
        thread := Function.update s.thread port (processPacket handles cfg port f scratch) } where
  learned := learned_of_entries h.learned (fun c hc => List.mem_append_left _ hc)
    fun _ _ he => he
  latest := by
    intro c p g hc
    rcases captures_deliver_cases hc with ⟨old, hc⟩ | ⟨rfl, rfl, rfl⟩
    · obtain ⟨hp, hlast⟩ := h.latest c p g hc
      refine ⟨hp, ?_⟩
      by_cases same : p = port
      · subst p
        simpa [World.deliver] using old.le
      · simpa [World.deliver, same] using hlast
    · exact ⟨valid, by simp [World.deliver]⟩
  busy := by
    intro i hi
    by_cases same : i = port
    · subst i
      refine ⟨f, scratch, by simp [World.deliver], ?_⟩
      have silent : s.world.answer s.world.captures.length = none := h.unanswered _ le_rfl
      simp only [World.deliver, Function.update_self]
      change Stage handles cfg port f scratch _ (s.world.answer _) (sentOn s.world _)
      rw [h.nothing_sent, silent]
      exact .entered
    · simp only [Function.update_of_ne same] at hi
      obtain ⟨g, mem, hc, stage⟩ := h.busy i hi
      refine ⟨g, mem, ?_, ?_⟩
      · simp only [World.deliver, Function.update_of_ne same]
        exact captures_deliver_of_some hc
      · simp only [World.deliver, Function.update_of_ne same]
        exact stage
  settled := by
    intro c p g hc finished
    rcases captures_deliver_cases hc with ⟨_, hc⟩ | ⟨rfl, rfl, rfl⟩
    · refine h.settled c p g hc ?_
      by_cases same : p = port
      · subst p
        exact Or.inl idle
      · simpa [World.deliver, same] using finished
    · exfalso
      rcases finished with returned | other
      · simp only [Function.update_self] at returned
        exact stage_ne_ret Stage.entered returned
      · simp [World.deliver] at other
  sent := by
    intro t ht
    obtain ⟨p, g, mem, hc, hbytes⟩ := h.sent t ht
    exact ⟨p, g, mem, captures_deliver_of_some hc, hbytes⟩
  unanswered := by
    intro c hc
    simp only [World.deliver, List.length_append, List.length_singleton] at hc
    exact h.unanswered c (by omega)
  ordered := by
    refine List.Pairwise.imp_of_mem (fun {t u} ht hu earlier hport hsame => ?_) h.ordered
    have old : ∀ v ∈ s.world.wire,
        ingress (s.world.deliver port f) v.call = ingress s.world v.call := by
      intro v hv
      obtain ⟨p, g, _, hc, _⟩ := h.sent v hv
      rw [ingress, captures_deliver_of_some hc, ingress, hc]
    exact earlier hport (by rw [← old t ht, ← old u hu]; exact hsame)

theorem opOf_learns {handles : Nat} {cfg : TtlSubstitutionCfg} {captures : List (Nat × Capture)}
    {i : Nat} {f : Capture} {scratch : Memory} {answer : Option Int} {sent : List Nat}
    {op : SwitchOp} (of : OpOf cfg i f scratch answer sent op) (captured : (i, f) ∈ captures)
    (valid : i < handles) : Learns handles captures op := by
  cases op with
  | updateEntry mac p =>
    obtain ⟨rfl, rfl, different⟩ := of
    exact ⟨i, f, captured, valid, rfl, rfl, different⟩
  | _ => trivial

/-- A send appends to the wire; every other operation leaves it alone. -/
theorem perform_wire (i : Nat) (w : World) (op : SwitchOp) (reading : ℚ) :
    (perform i w op reading).1.wire = w.wire ∨
      ∃ q bytes, op = .sendPacket q bytes ∧
        (perform i w op reading).1.wire = w.wire ++ [⟨w.current i, q, bytes⟩] := by
  cases op with
  | sendPacket q bytes => exact Or.inr ⟨q, bytes, rfl, rfl⟩
  | _ => exact Or.inl rfl

/-- What one access to shared state by thread `i`, in the call of frame `f`, changes. -/
structure Advances (handles : Nat) (cfg : TtlSubstitutionCfg) (i : Nat) (f : Capture)
    (scratch : Memory) (s t : Threads) : Prop where
  captured : s.world.captures[s.world.current i]? = some (i, f)
  captures : t.world.captures = s.world.captures
  current : t.world.current = s.world.current
  others : ∀ j, j ≠ i → t.thread j = s.thread j
  untouched : ∀ c, c ≠ s.world.current i →
    t.world.answer c = s.world.answer c ∧ sentOn t.world c = sentOn s.world c
  forward : Stage handles cfg i f scratch (t.thread i) (t.world.answer (s.world.current i))
      (sentOn t.world (s.world.current i)) ∨
    t.thread i = .ret ∧
      Settled handles i f (t.world.answer (s.world.current i)) (sentOn t.world (s.world.current i))
  wire : t.world.wire = s.world.wire ∨ ∃ q, q ∉ sentOn s.world (s.world.current i) ∧
    t.world.wire = s.world.wire ++ [⟨s.world.current i, q, f.sentBytes cfg scratch⟩]
  learned : Learned handles s.world.captures t.world.tables.table

theorem advance_advances {handles : Nat} {cfg : TtlSubstitutionCfg} {s t : Threads} {i : Nat}
    {reading : ℚ} (h : Consistent handles cfg s) (moved : advance perform s i reading = some t) :
    ∃ f scratch, Advances handles cfg i f scratch s t := by
  obtain ⟨op, next, at_op, hworld, hthread⟩ := advance_some_iff.mp moved
  obtain ⟨f, scratch, captured, stage⟩ := h.busy i (by rw [at_op]; rintro ⟨⟩)
  have of := stage_op stage at_op
  have valid := (h.latest _ i f captured).1
  have forward := stage_advance stage at_op h.learned rfl rfl reading
  have self : t.thread i = next (perform i s.world op reading).2 := by
    rw [hthread, Function.update_self]
  rw [← hworld, ← self] at forward
  refine ⟨f, scratch, captured, ?_, ?_, ?_, ?_, forward, ?_, ?_⟩
  · rw [hworld, perform_captures]
  · rw [hworld, perform_current]
  · intro j hj
    rw [hthread, Function.update_of_ne hj]
  · intro c hc
    rw [hworld]
    exact ⟨perform_answer_of_ne op reading hc, perform_sentOn_of_ne op reading hc⟩
  · rw [hworld]
    rcases perform_wire i s.world op reading with quiet | ⟨q, bytes, rfl, sends⟩
    · exact Or.inl quiet
    · obtain ⟨unsent, rfl, _⟩ := of
      exact Or.inr ⟨q, unsent, sends⟩
  · rw [hworld]
    exact perform_learned i s.world op reading
      (opOf_learns of (List.mem_of_getElem? captured) valid) h.learned

section Advance

variable {handles : Nat} {cfg : TtlSubstitutionCfg} {i : Nat} {f : Capture} {scratch : Memory}
  {s t : Threads}

theorem Advances.busy (step : Advances handles cfg i f scratch s t) (h : Consistent handles cfg s)
    (j : Nat) (running : t.thread j ≠ .ret) :
    ∃ g mem, t.world.captures[t.world.current j]? = some (j, g) ∧
      Stage handles cfg j g mem (t.thread j) (t.world.answer (t.world.current j))
        (sentOn t.world (t.world.current j)) := by
  rw [step.captures, step.current]
  by_cases same : j = i
  · subst j
    rcases step.forward with stage | ⟨finished, _⟩
    · exact ⟨f, scratch, step.captured, stage⟩
    · exact absurd finished running
  · rw [step.others j same] at running ⊢
    obtain ⟨g, mem, hc, stage⟩ := h.busy j running
    have apart : s.world.current j ≠ s.world.current i := by
      intro hcur
      rw [hcur, step.captured, Option.some.injEq, Prod.mk.injEq] at hc
      exact same hc.1.symm
    obtain ⟨answer, sent⟩ := step.untouched _ apart
    rw [answer, sent]
    exact ⟨g, mem, hc, stage⟩

theorem Advances.settled (step : Advances handles cfg i f scratch s t)
    (h : Consistent handles cfg s) {c p : Nat} {g : Capture}
    (captured : s.world.captures[c]? = some (p, g))
    (finished : t.thread p = .ret ∨ c ≠ s.world.current p) :
    Settled handles p g (t.world.answer c) (sentOn t.world c) := by
  by_cases same : c = s.world.current i
  · subst c
    rw [step.captured, Option.some.injEq, Prod.mk.injEq] at captured
    obtain ⟨rfl, rfl⟩ := captured
    rcases step.forward with stage | ⟨_, done⟩
    · rcases finished with returned | other
      · exact absurd returned (stage_ne_ret stage)
      · exact absurd rfl other
    · exact done
  · obtain ⟨answer, sent⟩ := step.untouched c same
    rw [answer, sent]
    apply h.settled c p g captured
    rcases finished with returned | other
    · by_cases here : p = i
      · subst p
        exact Or.inr same
      · rw [step.others p here] at returned
        exact Or.inl returned
    · exact Or.inr other

theorem Advances.sent (step : Advances handles cfg i f scratch s t)
    (h : Consistent handles cfg s) {u : Transmission} (on_wire : u ∈ t.world.wire) :
    ∃ p g mem, s.world.captures[u.call]? = some (p, g) ∧ u.bytes = g.sentBytes cfg mem := by
  rcases step.wire with quiet | ⟨q, _, sends⟩
  · rw [quiet] at on_wire
    exact h.sent u on_wire
  · rw [sends, List.mem_append, List.mem_singleton] at on_wire
    rcases on_wire with earlier | rfl
    · exact h.sent u earlier
    · exact ⟨i, f, scratch, step.captured, rfl⟩

/-- A new send is later than every send of the same port pair: each of them belongs to an
earlier call, since this call has not yet been sent on that port. -/
theorem Advances.ordered (step : Advances handles cfg i f scratch s t)
    (h : Consistent handles cfg s) : Ordered t.world := by
  have same : ingress t.world = ingress s.world := by
    funext c
    rw [ingress, ingress, step.captures]
  rw [Ordered, same]
  rcases step.wire with quiet | ⟨q, unsent, sends⟩
  · rw [quiet]
    exact h.ordered
  · rw [sends]
    refine List.pairwise_append.mpr ⟨h.ordered, List.pairwise_singleton _ _, ?_⟩
    intro v hv u hu hport hsame
    obtain rfl := List.mem_singleton.mp hu
    obtain ⟨p, g, _, hc, _⟩ := h.sent v hv
    simp only [ingress, hc, step.captured, Option.map_some, Option.some.injEq] at hsame
    have earlier := (h.latest v.call p g hc).2
    rw [hsame] at earlier
    have apart : v.call ≠ s.world.current i := by
      intro hcall
      apply unsent
      rw [sentOn, List.mem_map]
      exact ⟨v, List.mem_filter.mpr ⟨hv, by simpa using hcall⟩, hport⟩
    change v.call < s.world.current i
    omega

theorem Advances.consistent (step : Advances handles cfg i f scratch s t)
    (h : Consistent handles cfg s) : Consistent handles cfg t where
  learned := by
    rw [step.captures]
    exact step.learned
  latest := by
    rw [step.captures, step.current]
    exact h.latest
  busy := step.busy h
  settled := by
    rw [step.captures, step.current]
    exact fun c p g captured => step.settled h captured
  sent := by
    rw [step.captures]
    exact fun u on_wire => step.sent h on_wire
  unanswered := by
    intro c hc
    rw [step.captures] at hc
    have bound := (List.getElem?_eq_some_iff.mp step.captured).1
    rw [(step.untouched c (by omega)).1]
    exact h.unanswered c hc
  ordered := step.ordered h

end Advance

theorem step_consistent {handles : Nat} {cfg : TtlSubstitutionCfg} (s : Threads) (a : Action)
    (t : Threads) (h : Consistent handles cfg s) (moved : step handles cfg s a = some t) :
    Consistent handles cfg t := by
  cases a with
  | tick elapsed =>
    cases moved
    exact withTables_consistent h h.learned
  | capture port f scratch =>
    obtain ⟨idle, valid, rfl⟩ := capture_some_iff.mp moved
    exact capture_consistent h idle valid f scratch
  | advance port reading =>
    obtain ⟨f, scratch, advances⟩ := advance_advances h moved
    exact advances.consistent h
  | readClock k =>
    cases moved
    exact withTables_consistent h h.learned
  | sweep k =>
    obtain ⟨tables, swept, rfl⟩ := Option.map_eq_some_iff.mp moved
    obtain ⟨now, _, rfl⟩ := sweep_some_iff.mp swept
    exact withTables_consistent h (ageEntries_learned h.learned now)

theorem reachable_consistent {handles : Nat} {cfg : TtlSubstitutionCfg} {lifetime clock : Int}
    {s : Threads} (reachable : Reachable (step handles cfg) (initial lifetime clock) s) :
    Consistent handles cfg s :=
  reachable_invariant step_consistent (initial_consistent handles cfg lifetime clock) reachable

/-- How often call `c` was sent on port `q`. -/
def copies (w : World) (c q : Nat) : Nat :=
  (sentOn w c).count q

/-- The frame left once on the port its lookup answered, or once on every port but its own. -/
def ForwardedOnce (handles : Nat) (w : World) (c port : Nat) : Prop :=
  ∃ dest, w.answer c = some dest ∧
    (dest = -1 ∧ (∀ q, copies w c q = if q < handles ∧ q ≠ port then 1 else 0) ∨
      0 ≤ dest ∧ dest < handles ∧ ∀ q : Nat, copies w c q = if dest = q then 1 else 0)

/-- The call of frame `c` on `port` has returned. -/
def Over (s : Threads) (c port : Nat) : Prop :=
  s.thread port = .ret ∨ c ≠ s.world.current port

theorem settled_forwarded {handles c port : Nat} {f : Capture} {w : World}
    (settled : Settled handles port f (w.answer c) (sentOn w c)) (different : f.shost ≠ f.dhost) :
    ForwardedOnce handles w c port := by
  rw [Settled, if_neg different] at settled
  obtain ⟨dest, answered, range, sent⟩ := settled
  have once : ∀ q, copies w c q = if q ∈ targets handles port dest then 1 else 0 := by
    intro q
    rw [copies, sent]
    exact (targets_nodup handles port dest).count
  refine ⟨dest, answered, ?_⟩
  rcases range with rfl | ⟨nonneg, bound⟩
  · left
    refine ⟨rfl, fun q => ?_⟩
    rw [once, if_congr mem_targets_unknown rfl rfl]
  · right
    refine ⟨nonneg, bound, fun q => ?_⟩
    rw [once, if_congr (mem_targets_known nonneg bound) rfl rfl]

/-- While the call of a dropped frame runs, and afterwards, nothing of it is sent. -/
theorem dropped_unsent {handles : Nat} {cfg : TtlSubstitutionCfg} {s : Threads} {c port : Nat}
    {f : Capture} (h : Consistent handles cfg s)
    (captured : s.world.captures[c]? = some (port, f)) (same : f.shost = f.dhost) :
    sentOn s.world c = [] := by
  by_cases finished : Over s c port
  · have settled := h.settled c port f captured finished
    rwa [Settled, if_pos same] at settled
  · rw [Over, not_or, not_not] at finished
    obtain ⟨busy, rfl⟩ := finished
    obtain ⟨g, scratch, hc, stage⟩ := h.busy port busy
    obtain ⟨_, rfl⟩ : port = port ∧ f = g := by simpa [captured] using hc
    generalize sentOn s.world (s.world.current port) = sent at stage ⊢
    generalize s.world.answer (s.world.current port) = answer at stage
    generalize s.thread port = r at stage
    cases stage with
    | entered => rfl
    | dropping _ => rfl
    | learning different => exact absurd same different
    | looking different => exact absurd same different
    | sending different => exact absurd same different
    | recording duration answer sent settled => rwa [Settled, if_pos same] at settled

/-- The operation a thread performs next belongs to the call of the frame it captured last. -/
theorem advance_opOf {handles : Nat} {cfg : TtlSubstitutionCfg} {s t : Threads} {i : Nat}
    {reading : ℚ} (h : Consistent handles cfg s) (moved : advance perform s i reading = some t) :
    ∃ op f scratch, t.world = (perform i s.world op reading).1 ∧
      s.world.captures[s.world.current i]? = some (i, f) ∧
      OpOf cfg i f scratch (s.world.answer (s.world.current i))
        (sentOn s.world (s.world.current i)) op := by
  obtain ⟨op, next, at_op, hworld, _⟩ := advance_some_iff.mp moved
  obtain ⟨f, scratch, captured, stage⟩ := h.busy i (by rw [at_op]; rintro ⟨⟩)
  exact ⟨op, f, scratch, hworld, captured, stage_op stage at_op⟩

theorem answer_looked_up {handles : Nat} {cfg : TtlSubstitutionCfg} {s t : Threads} {a : Action}
    (h : Consistent handles cfg s) (moved : step handles cfg s a = some t) {c : Nat}
    (answered : t.world.answer c ≠ s.world.answer c) :
    s.world.answer c = none ∧ ∃ port f, s.world.captures[c]? = some (port, f) ∧
      t.world.answer c = some (getPortForMac s.world.tables.table f.dhost) := by
  cases a with
  | advance port reading =>
    obtain ⟨op, f, scratch, hworld, captured, of⟩ := advance_opOf h moved
    rw [hworld] at answered ⊢
    have here : c = s.world.current port := by
      by_contra other
      exact answered (perform_answer_of_ne op reading other)
    subst c
    cases op with
    | getPortForMac mac =>
      obtain ⟨rfl, unanswered, _⟩ := of
      exact ⟨unanswered, port, f, captured, Function.update_self _ _ _⟩
    | _ => exact absurd rfl answered
  | capture port f scratch =>
    obtain ⟨_, _, rfl⟩ := capture_some_iff.mp moved
    exact absurd rfl answered
  | sweep k =>
    obtain ⟨tables, _, rfl⟩ := Option.map_eq_some_iff.mp moved
    exact absurd rfl answered
  | _ =>
    cases moved
    exact absurd rfl answered

/-- Captured frames stay captured, and answered calls stay answered. -/
structure Keeps (s t : Threads) : Prop where
  captures : s.world.captures <+: t.world.captures
  answers : ∀ c dest, s.world.answer c = some dest → t.world.answer c = some dest

theorem Keeps.captured {s t : Threads} (keeps : Keeps s t) {c : Nat} {x : Nat × Capture}
    (before : s.world.captures[c]? = some x) : t.world.captures[c]? = some x := by
  obtain ⟨early, rfl⟩ := List.getElem?_eq_some_iff.mp before
  have same := keeps.captures.getElem early
  exact List.getElem?_eq_some_iff.mpr ⟨_, same.symm⟩

theorem Keeps.refl (s : Threads) : Keeps s s := ⟨List.prefix_rfl, fun _ _ h => h⟩

theorem Keeps.trans {s t u : Threads} (first : Keeps s t) (second : Keeps t u) : Keeps s u where
  captures := first.captures.trans second.captures
  answers c dest answered := second.answers c dest (first.answers c dest answered)

theorem step_keeps {handles : Nat} {cfg : TtlSubstitutionCfg} {s t : Threads} {a : Action}
    (h : Consistent handles cfg s) (moved : step handles cfg s a = some t) : Keeps s t where
  captures := by
    cases a with
    | capture port f scratch =>
      obtain ⟨_, _, rfl⟩ := capture_some_iff.mp moved
      exact List.prefix_append _ _
    | advance port reading =>
      obtain ⟨f, scratch, step⟩ := advance_advances h moved
      rw [step.captures]
    | sweep k =>
      obtain ⟨tables, _, rfl⟩ := Option.map_eq_some_iff.mp moved
      exact List.prefix_rfl
    | _ =>
      cases moved
      exact List.prefix_rfl
  answers c dest answered := by
    by_contra changed
    have unanswered := (answer_looked_up h moved (c := c) (by rw [answered]; exact changed)).1
    rw [answered] at unanswered
    cases unanswered

end SwitchThreads
