import Cursov.Utilities
import Cursov.Library.Descriptors
import Cursov.Library.Transition

/-!
# Running and stopping the client

Calls of `run` and `stop` on a configured client, with every outcome of `socket`,
`bind` and `connect`, ending with the destructor. In between the receiver thread may
find the connection closed and leave its loop.
-/

namespace ClientLifecycle

open Utilities Descriptors Transition

abbrev Fd := Nat

/-- `sock` is `none` for -1. The numbers `own k` of the table are the sockets created
by `runTCP` and `runUDP`, in order. -/
structure State where
  protocol : Protocol
  isConnected : Bool
  running : Bool
  sock : Option Fd
  receiverThread : Thread
  life : Life
  table : Table Fd

def initial (protocol : Protocol) : State where
  protocol := protocol
  isConnected := false
  running := false
  sock := none
  receiverThread := .absent
  life := .alive
  table := .empty

/-- The outcomes of the system calls of one `run`; the kernel returns a free number. -/
structure Attempt where
  socket : Option Fd
  bind : Bool
  connect : Bool

/-- The new thread object replaces the old one, which is destroyed. -/
def State.connected (s : State) : State :=
  { s with
    isConnected := true
    running := true
    receiverThread := .joinable
    life := if s.receiverThread = .joinable then .terminated else s.life }

/-- What `socket` returns is assigned at once, over whatever `sock` held. -/
def State.assignSocket (s : State) : Option Fd → State
  | none => { s with sock := none }
  | some fd => { s with sock := some fd, table := s.table.create fd }

/-- The part that `runTCP` and `runUDP` share: `ready` is the outcome of the call that
follows `socket`, and both return early without closing what `socket` gave them. -/
def State.establish (s : State) (socket : Option Fd) (ready : Bool) : State :=
  let assigned := s.assignSocket socket
  if socket = none then assigned
  else if ready then assigned.connected
  else assigned

def State.runTCP (s : State) (a : Attempt) : State := s.establish a.socket a.connect

def State.runUDP (s : State) (a : Attempt) : State := s.establish a.socket a.bind

/-- With a protocol that is neither, which only a field that was never assigned can hold, `run`
prints one line and returns: that branch is left out. -/
def State.run (s : State) (a : Attempt) : State :=
  match s.protocol with
  | .tcp => s.runTCP a
  | .udp => s.runUDP a

def State.stop (s : State) : State :=
  { s with
    running := false
    receiverThread := s.receiverThread.join
    table := match s.sock with
      | some fd => s.table.close fd
      | none => s.table
    sock := none
    isConnected := false }

/-- The destructor: `stop`, then the members are destroyed. -/
def State.destroy (s : State) : State :=
  { s.stop with life := if s.stop.receiverThread = .joinable then .terminated else .destroyed }

inductive Action where
  | run (a : Attempt)
  | stop
  | destroy
  | dropped

def State.gives (s : State) (a : Attempt) : Bool :=
  match a.socket with
  | none => true
  | some fd => s.table.slot fd = .free

/-- `run` is not called while connected. The last action is the TCP receiver's: the
connection is closed or broken, it resets the flag and ends. -/
def step (s : State) (action : Action) : Option State :=
  if s.life = .alive then match action with
    | .run a => if s.isConnected = false ∧ s.gives a then some (s.run a) else none
    | .stop => some s.stop
    | .destroy => some s.destroy
    | .dropped =>
      if s.protocol = .tcp ∧ s.isConnected ∧ s.running then
        some { s with isConnected := false }
      else none
  else none

theorem establish_socket (s : State) (socket : Option Fd) (ready : Bool) :
    (socket = none ∧ (s.establish socket ready).sock = none ∧
      (s.establish socket ready).table = s.table) ∨
    ∃ fd, socket = some fd ∧ (s.establish socket ready).sock = some fd ∧
      (s.establish socket ready).table = s.table.create fd := by
  cases socket with
  | none => exact Or.inl ⟨rfl, rfl, rfl⟩
  | some fd =>
    refine Or.inr ⟨fd, rfl, ?_⟩
    cases ready with
    | false => exact ⟨rfl, rfl⟩
    | true => exact ⟨rfl, rfl⟩

theorem establish_life (s : State) (socket : Option Fd) (ready : Bool) :
    (s.establish socket ready).life = s.life ∨ (s.establish socket ready).life = .terminated := by
  cases socket with
  | none => exact Or.inl rfl
  | some fd =>
    cases ready with
    | false => exact Or.inl rfl
    | true =>
      by_cases joinable : s.receiverThread = .joinable
      · exact Or.inr (if_pos joinable)
      · exact Or.inl (if_neg joinable)

/-- All a `run` can do to the socket. -/
theorem run_socket (s : State) (a : Attempt) :
    (a.socket = none ∧ (s.run a).sock = none ∧ (s.run a).table = s.table) ∨
    ∃ fd, a.socket = some fd ∧ (s.run a).sock = some fd ∧ (s.run a).table = s.table.create fd := by
  rw [State.run]
  cases s.protocol with
  | tcp => exact establish_socket s a.socket a.connect
  | udp => exact establish_socket s a.socket a.bind

theorem run_life (s : State) (a : Attempt) :
    (s.run a).life = s.life ∨ (s.run a).life = .terminated := by
  rw [State.run]
  cases s.protocol with
  | tcp => exact establish_life s a.socket a.connect
  | udp => exact establish_life s a.socket a.bind

/-- All a step can do to the socket. -/
inductive Effect (s : State) : Action → State → Prop where
  | unmade (a : Attempt) (t : State) (sock : t.sock = none) (table : t.table = s.table) :
      Effect s (.run a) t
  | made (a : Attempt) (fd : Fd) (t : State) (free : s.table.slot fd = .free)
      (sock : t.sock = some fd) (table : t.table = s.table.create fd) : Effect s (.run a) t
  | closed (action : Action) (ends : action = .stop ∨ action = .destroy) (t : State)
      (sock : t.sock = none) (table : t.table = match s.sock with
        | some fd => s.table.close fd
        | none => s.table) : Effect s action t
  | kept (t : State) (sock : t.sock = s.sock) (table : t.table = s.table) : Effect s .dropped t

theorem step_effect {s t : State} {action : Action} (taken : step s action = some t) :
    Effect s action t := by
  cases action with
  | run a =>
    simp only [step, Option.ite_none_right_eq_some, Option.some.injEq] at taken
    obtain ⟨_, ⟨_, gives⟩, rfl⟩ := taken
    rcases run_socket s a with ⟨_, sock, table⟩ | ⟨fd, made, sock, table⟩
    · exact .unmade a _ sock table
    · refine .made a fd _ ?_ sock table
      simpa [State.gives, made] using gives
  | stop =>
    simp only [step, Option.ite_none_right_eq_some, Option.some.injEq] at taken
    obtain ⟨_, rfl⟩ := taken
    exact .closed .stop (Or.inl rfl) _ rfl rfl
  | destroy =>
    simp only [step, Option.ite_none_right_eq_some, Option.some.injEq] at taken
    obtain ⟨_, rfl⟩ := taken
    exact .closed .destroy (Or.inr rfl) _ rfl rfl
  | dropped =>
    simp only [step, Option.ite_none_right_eq_some, Option.some.injEq] at taken
    obtain ⟨_, _, rfl⟩ := taken
    exact .kept _ rfl rfl

/-- The sockets that are open are those `sock` holds. -/
structure Tidy (s : State) : Prop where
  accounts : Accounts s.table
  held : ∀ fd, s.sock = some fd → ∃ k, s.table.slot fd = .own k
  only : ∀ fd k, s.table.slot fd = .own k → s.sock = some fd

/-- An open socket whose number the client has lost. -/
def Leaked (s : State) : Prop := ∃ fd k, s.table.slot fd = .own k ∧ s.sock ≠ some fd

/-- At most one socket is open, and none has been closed twice. -/
structure Sound (s : State) : Prop where
  single : ∀ j k, s.table.Open j → s.table.Open k → j = k
  once : ∀ k, s.table.closes k ≤ 1

/-- What the step has to leave behind. -/
def Clean (s : State) (action : Action) : Prop :=
  ∀ t, step s action = some t → Sound t ∧
    (action = .stop ∨ action = .destroy → ∀ k, ¬ t.table.Open k)

/-- No `run` is made while an earlier socket is held. -/
def Fresh (s : State) : Action → Prop
  | .run _ => s.sock = none
  | _ => True

instance (s : State) (action : Action) : Decidable (Fresh s action) :=
  match action with
  | .run _ => inferInstanceAs (Decidable (s.sock = none))
  | .stop => .isTrue trivial
  | .destroy => .isTrue trivial
  | .dropped => .isTrue trivial

theorem initial_tidy (protocol : Protocol) : Tidy (initial protocol) where
  accounts := .initially
  held := by rintro fd ⟨⟩
  only := by rintro fd k ⟨⟩

theorem Tidy.sound {s : State} (h : Tidy s) : Sound s where
  single := by
    rintro j k ⟨n, hn⟩ ⟨m, hm⟩
    have same : n = m := Option.some.inj ((h.only n j hn).symm.trans (h.only m k hm))
    rw [same, hm, Slot.own.injEq] at hn
    exact hn.symm
  once := by
    intro k
    by_cases opened : s.table.Open k
    · rw [h.accounts.unclosed k opened]
      omega
    by_cases early : k < s.table.created
    · rw [h.accounts.closed k early opened]
    · rw [h.accounts.unborn k (by omega)]
      omega

/-- The close of `sock`, where there is one, leaves nothing open. -/
theorem Tidy.close {s : State} (h : Tidy s) {table : Table Fd}
    (result : table = match s.sock with
      | some fd => s.table.close fd
      | none => s.table) :
    Accounts table ∧ ∀ k, ¬ table.Open k := by
  cases held : s.sock with
  | none =>
    rw [held] at result
    subst result
    refine ⟨h.accounts, ?_⟩
    rintro k ⟨n, slot⟩
    have other := h.only n k slot
    rw [held] at other
    cases other
  | some fd =>
    obtain ⟨k, slot⟩ := h.held fd held
    rw [held] at result
    subst result
    refine ⟨h.accounts.close slot, ?_⟩
    intro j opened
    obtain ⟨m, different, other⟩ := Table.open_close_iff.mp opened
    exact different (Option.some.inj ((h.only m j other).symm.trans held))

theorem step_tidy (s : State) (action : Action) (t : State) (h : Tidy s) (fresh : Fresh s action)
    (taken : step s action = some t) : Tidy t := by
  cases step_effect taken with
  | unmade a t sock table =>
    have lost : s.sock = none := fresh
    exact {
      accounts := table ▸ h.accounts
      held := by rw [sock]; rintro fd ⟨⟩
      only := by
        intro fd k slot
        have held := h.only fd k (table ▸ slot)
        rw [lost] at held
        cases held }
  | made a fd t free sock table =>
    have lost : s.sock = none := fresh
    exact {
      accounts := table ▸ h.accounts.create free
      held := by
        rw [sock, table]
        rintro n ⟨⟩
        exact ⟨_, Table.slot_create_self s.table fd⟩
      only := by
        intro n k slot
        rw [table] at slot
        rcases Table.update_own.mp slot with ⟨rfl, _⟩ | ⟨_, old⟩
        · exact sock
        · have held := h.only n k old
          rw [lost] at held
          cases held }
  | closed action ends t sock table =>
    obtain ⟨accounts, empty⟩ := h.close table
    exact {
      accounts := accounts
      held := by rw [sock]; rintro fd ⟨⟩
      only := fun fd k slot => absurd ⟨fd, slot⟩ (empty k) }
  | kept t sock table =>
    exact {
      accounts := table ▸ h.accounts
      held := by
        rw [sock, table]
        exact h.held
      only := by
        rw [sock, table]
        exact h.only }

theorem step_clean (s : State) (action : Action) (t : State) (h : Tidy s) (fresh : Fresh s action)
    (taken : step s action = some t) : Clean s action := by
  intro u other
  obtain rfl : t = u := Option.some.inj (taken.symm.trans other)
  refine ⟨(step_tidy s action t h fresh taken).sound, ?_⟩
  rintro (rfl | rfl)
  · cases step_effect taken with
    | closed action ends t sock table => exact (h.close table).2
  · cases step_effect taken with
    | closed action ends t sock table => exact (h.close table).2

/-- A socket is lost by a `run` that overwrites its number, and stays lost. -/
theorem step_loses {s t : State} {action : Action} {fd : Fd} {k : Nat}
    (slot : s.table.slot fd = .own k) (spared : s.sock ≠ some fd ∨ ∃ a, action = .run a)
    (taken : step s action = some t) : Leaked t := by
  cases step_effect taken with
  | unmade a t sock table =>
    refine ⟨fd, k, table ▸ slot, ?_⟩
    rw [sock]
    rintro ⟨⟩
  | made a new t free sock table =>
    have different : fd ≠ new := by
      rintro rfl
      rw [free] at slot
      cases slot
    refine ⟨fd, k, ?_, ?_⟩
    · rw [table]
      exact Table.update_own.mpr (Or.inr ⟨different, slot⟩)
    · rw [sock]
      rintro ⟨⟩
      exact different rfl
  | closed action ends t sock table =>
    have other : s.sock ≠ some fd := by
      rcases spared with other | ⟨a, rfl⟩
      · exact other
      · rcases ends with h | h <;> cases h
    refine ⟨fd, k, ?_, ?_⟩
    · cases held : s.sock with
      | none =>
        rw [held] at table
        exact table ▸ slot
      | some number =>
        rw [held] at table
        rw [table]
        refine Table.update_own.mpr (Or.inr ⟨?_, slot⟩)
        rintro rfl
        exact other held
    · rw [sock]
      rintro ⟨⟩
  | kept t sock table =>
    rcases spared with other | ⟨a, h⟩
    · exact ⟨fd, k, table ▸ slot, sock ▸ other⟩
    · cases h

theorem step_leaks {s t : State} {action : Action} (h : Tidy s) (stale : ¬ Fresh s action)
    (taken : step s action = some t) : Leaked t := by
  cases action with
  | run a =>
    obtain ⟨fd, held⟩ := Option.ne_none_iff_exists'.mp stale
    obtain ⟨k, slot⟩ := h.held fd held
    exact step_loses slot (Or.inr ⟨a, rfl⟩) taken
  | stop => exact absurd trivial stale
  | destroy => exact absurd trivial stale
  | dropped => exact absurd trivial stale

theorem step_leaked {s t : State} {action : Action} (lost : Leaked s)
    (taken : step s action = some t) : Leaked t := by
  obtain ⟨fd, k, slot, other⟩ := lost
  exact step_loses slot (Or.inl other) taken

/-- Only the destructor destroys. -/
theorem destroyed_by {s t : State} {action : Action} (taken : step s action = some t)
    (destroyed : t.life = .destroyed) : action = .destroy := by
  cases action with
  | run a =>
    simp only [step, Option.ite_none_right_eq_some, Option.some.injEq] at taken
    obtain ⟨living, _, rfl⟩ := taken
    rcases run_life s a with same | ended
    · rw [same, living] at destroyed
      cases destroyed
    · rw [ended] at destroyed
      cases destroyed
  | stop =>
    simp only [step, Option.ite_none_right_eq_some, Option.some.injEq] at taken
    obtain ⟨living, rfl⟩ := taken
    rw [State.stop, living] at destroyed
    cases destroyed
  | destroy => rfl
  | dropped =>
    simp only [step, Option.ite_none_right_eq_some, Option.some.injEq] at taken
    obtain ⟨living, _, rfl⟩ := taken
    rw [living] at destroyed
    cases destroyed

/-- A run that stays clean to the destructor leaves no socket behind. -/
theorem run_ends_closed {s t : State} {actions : List Action} (living : s.life = .alive)
    (path : run step s actions = some t) (clean : Along step Clean s actions)
    (destroyed : t.life = .destroyed) : ¬ Leaked t := by
  have kept : ∀ s action t, (s.life = .destroyed → ∀ k, ¬ s.table.Open k) → Clean s action →
      step s action = some t → t.life = .destroyed → ∀ k, ¬ t.table.Open k := by
    intro s action t _ clean taken ended
    exact (clean t taken).2 (Or.inr (destroyed_by taken ended))
  have closed := run_invariant_along kept
    (fun ended => by rw [living] at ended; cases ended) clean path
  rintro ⟨fd, k, slot, _⟩
  exact closed destroyed k ⟨fd, slot⟩

/-- At most one socket is open, none after a `stop` and none is closed twice, as long as
no `run` is made while an earlier socket is still held; and in a run up to the destructor
only then. -/
theorem run_clean_iff_fresh {protocol : Protocol} {actions : List Action} {t : State}
    (path : run step (initial protocol) actions = some t) :
    (Along step Fresh (initial protocol) actions → Along step Clean (initial protocol) actions) ∧
    (t.life = .destroyed → Along step Clean (initial protocol) actions →
      Along step Fresh (initial protocol) actions) := by
  have start := initial_tidy protocol
  constructor
  · exact along_imp Tidy step_tidy step_clean start path
  · intro destroyed clean
    exact along_of_escape Tidy Leaked step_tidy
      (fun s action t h _ stale taken => step_leaks h stale taken)
      (fun s action t lost _ taken => step_leaked lost taken) start path clean
      (run_ends_closed rfl path clean destroyed)

/-- A connect that fails, a stop, and a run that succeeds. -/
theorem run_clean_after_stop :
    Along step Clean (initial .tcp)
      [.run ⟨some 3, true, false⟩, .stop, .run ⟨some 3, true, true⟩, .destroy] := by
  obtain ⟨t, path⟩ : ∃ t, run step (initial .tcp)
      [.run ⟨some 3, true, false⟩, .stop, .run ⟨some 3, true, true⟩, .destroy] = some t := ⟨_, rfl⟩
  exact (run_clean_iff_fresh path).1 (by decide)

/-- The same without the stop in between: the first socket is never closed. -/
theorem run_leaks_on_retry :
    ¬ Along step Clean (initial .tcp)
      [.run ⟨some 3, true, false⟩, .run ⟨some 4, true, true⟩, .destroy] := by
  intro clean
  obtain ⟨_, _, ⟨closed, _⟩⟩ := clean
  exact (closed _ rfl).2 (Or.inr rfl) 0 ⟨3, rfl⟩

end ClientLifecycle
