import Cursov.Utilities
import Cursov.Library.Descriptors
import Cursov.Library.Transition

/-!
# Starting and stopping the server

Calls of `start` and `stop` with every outcome of the system calls in them, ending
with the destructor. Between the calls the threads of the process open and close
their own descriptors; a thread that closes a number it no longer owns is the
subject of `DescriptorOwnership`.
-/

namespace ServerLifecycle

open Bytes Utilities Descriptors Transition

abbrev Fd := Nat

/-- `serverSocket` is `none` for -1. The numbers `own k` of the table are the sockets
created by `setup_socket`, in order. -/
structure State where
  protocol : Protocol
  isRunning : Bool
  serverSocket : Option Fd
  tcpClients : List Fd
  listenerThread : Thread
  life : Life
  table : Table Fd

def initial (protocol : Protocol) : State where
  protocol := protocol
  isRunning := false
  serverSocket := none
  tcpClients := []
  listenerThread := .absent
  life := .alive
  table := .empty

/-- The outcomes of the system calls of one `setup_socket`: a failing call has the
text that `strerror` gives for it. -/
structure Attempt where
  socket : Except ByteString Fd
  setsockopt : Option ByteString
  ioctl : Option ByteString
  bind : Option ByteString
  listen : Option ByteString

/-- Close the socket and throw; the number stays in `server_socket_`. -/
def State.giveUp (s : State) (fd : Fd) (what : ByteString) : State × Except Failure Unit :=
  ({ s with table := s.table.close fd }, .error (.runtimeError what))

def State.setupSocket (s : State) (a : Attempt) : State × Except Failure Unit :=
  match a.socket with
  | .error text => ({ s with serverSocket := none },
      .error (.runtimeError (literal "Socket creation failed: " ++ text)))
  | .ok fd =>
    let opened := { s with serverSocket := some fd, table := s.table.create fd }
    match a.setsockopt with
    | some text => opened.giveUp fd (literal "Setsockopt(SO_REUSEADDR) failed: " ++ text)
    | none => match a.ioctl with
      | some text => opened.giveUp fd (literal "ioctl(SIOCGIFADDR) failed: " ++ text)
      | none => match a.bind with
        | some text => opened.giveUp fd (literal "Bind failed: " ++ text)
        | none =>
          if s.protocol = .tcp then match a.listen with
            | some text => opened.giveUp fd (literal "Listen failed: " ++ text)
            | none => (opened, .ok ())
          else (opened, .ok ())

/-- The new thread object replaces the old one, which is destroyed. -/
def State.start (s : State) (a : Attempt) : State × Except Failure Unit :=
  if s.isRunning then (s, .ok ())
  else match s.setupSocket a with
    | (t, .error failure) => (t, .error failure)
    | (t, .ok ()) => ({ t with
        isRunning := true
        listenerThread := .joinable
        life := if t.listenerThread = .joinable then .terminated else t.life }, .ok ())

def State.stop (s : State) : State :=
  if s.isRunning then
    let silenced := match s.serverSocket with
      | some fd => s.table.close fd
      | none => s.table
    { s with
      isRunning := false
      serverSocket := none
      listenerThread := s.listenerThread.join
      tcpClients := []
      table := s.tcpClients.foldl Table.close silenced }
  else s

/-- The destructor: `stop`, then the members are destroyed. -/
def State.destroy (s : State) : State :=
  { s.stop with life := if s.stop.listenerThread = .joinable then .terminated else .destroyed }

/-- The calls of the controlling thread, and what the other threads do between them:
`accept` and `erase` are the listener's and the handlers' changes of the client list. -/
inductive Action where
  | start (a : Attempt)
  | stop
  | destroy
  | accept (fd : Fd)
  | erase (fd : Fd)
  | occupy (fd : Fd)
  | release (fd : Fd)

/-- The kernel hands out free numbers only. -/
def State.gives (s : State) (a : Attempt) : Bool :=
  match a.socket with
  | .error _ => true
  | .ok fd => s.table.slot fd = .free

def step (s : State) (action : Action) : Option State :=
  if s.life = .alive then match action with
    | .start a => if s.gives a then some (s.start a).1 else none
    | .stop => some s.stop
    | .destroy => some s.destroy
    | .accept fd =>
      if s.protocol = .tcp ∧ s.isRunning ∧ s.table.slot fd = .free then
        some { s with table := s.table.occupy fd, tcpClients := s.tcpClients ++ [fd] }
      else none
    | .erase fd => some { s with tcpClients := s.tcpClients.filter fun client => client ≠ fd }
    | .occupy fd =>
      if s.table.slot fd = .free then some { s with table := s.table.occupy fd } else none
    | .release fd =>
      if s.table.last fd = .foreign then some { s with table := s.table.close fd } else none
  else none

/-- All a `setup_socket` can do: fail without a socket, with its socket closed again,
or succeed. -/
theorem setupSocket_cases (s : State) (a : Attempt) :
    (∃ failure, s.setupSocket a = ({ s with serverSocket := none }, .error failure)) ∨
    ∃ fd, a.socket = .ok fd ∧
      ((∃ failure, s.setupSocket a = ({ s with
          serverSocket := some fd, table := (s.table.create fd).close fd }, .error failure)) ∨
        s.setupSocket a =
          ({ s with serverSocket := some fd, table := s.table.create fd }, .ok ())) := by
  cases made : a.socket with
  | error text =>
    left
    simp only [State.setupSocket, made]
    exact ⟨_, rfl⟩
  | ok fd =>
    refine Or.inr ⟨fd, rfl, ?_⟩
    simp only [State.setupSocket, made]
    cases a.setsockopt with
    | some text => exact Or.inl ⟨_, rfl⟩
    | none => cases a.ioctl with
      | some text => exact Or.inl ⟨_, rfl⟩
      | none => cases a.bind with
        | some text => exact Or.inl ⟨_, rfl⟩
        | none =>
          by_cases tcp : s.protocol = .tcp
          · rw [if_pos tcp]
            cases a.listen with
            | some text => exact Or.inl ⟨_, rfl⟩
            | none => exact Or.inr rfl
          · rw [if_neg tcp]
            exact Or.inr rfl

/-- All a `start` can do. -/
inductive Started (s : State) (a : Attempt) : State × Except Failure Unit → Prop where
  | already (running : s.isRunning = true) : Started s a (s, .ok ())
  | unmade (idle : s.isRunning = false) (failure : Failure) :
      Started s a ({ s with serverSocket := none }, .error failure)
  | failed (idle : s.isRunning = false) (fd : Fd) (made : a.socket = .ok fd) (failure : Failure) :
      Started s a ({ s with serverSocket := some fd, table := (s.table.create fd).close fd },
        .error failure)
  | running (idle : s.isRunning = false) (fd : Fd) (made : a.socket = .ok fd) :
      Started s a ({ s with
        serverSocket := some fd
        table := s.table.create fd
        isRunning := true
        listenerThread := .joinable
        life := if s.listenerThread = .joinable then .terminated else s.life }, .ok ())

theorem start_started (s : State) (a : Attempt) : Started s a (s.start a) := by
  by_cases running : s.isRunning = true
  · rw [State.start, if_pos running]
    exact .already running
  · have idle := Bool.not_eq_true _ ▸ running
    rw [State.start, if_neg running]
    rcases setupSocket_cases s a with ⟨failure, result⟩ | ⟨fd, made, ⟨failure, result⟩ | result⟩
    · rw [result]
      exact .unmade idle failure
    · rw [result]
      exact .failed idle fd made failure
    · rw [result]
      exact .running idle fd made

/-- What holds whenever the controlling thread is outside its calls. -/
structure Orderly (s : State) : Prop where
  accounts : Accounts s.table
  running : s.isRunning = true → ∃ fd k, s.serverSocket = some fd ∧ s.table.slot fd = .own k ∧
    ∀ j, s.table.Open j → j = k
  stopped : s.isRunning = false → (∀ k, ¬ s.table.Open k) ∧ s.tcpClients = []
  clients : ∀ fd ∈ s.tcpClients, s.table.last fd = .foreign
  thread : s.listenerThread = .joinable ↔ s.isRunning = true
  alive : s.life ≠ .terminated

theorem initial_orderly (protocol : Protocol) : Orderly (initial protocol) where
  accounts := .initially
  running := by rintro ⟨⟩
  stopped := by
    intro _
    refine ⟨?_, rfl⟩
    rintro k ⟨n, hn⟩
    cases hn
  clients := by rintro fd ⟨⟩
  thread := by simp [initial]
  alive := by rintro ⟨⟩

theorem start_orderly {s : State} (h : Orderly s) {a : Attempt} (gives : s.gives a = true) :
    Orderly (s.start a).1 := by
  have started := start_started s a
  have free : ∀ fd, a.socket = .ok fd → s.table.slot fd = .free := by
    intro fd made
    simpa [State.gives, made] using gives
  generalize s.start a = result at started
  cases started with
  | already running => exact h
  | unmade idle failure =>
    exact { h with
      running := by
        intro running
        rw [idle] at running
        cases running }
  | failed idle fd made failure =>
    have empty := (h.stopped idle).2
    have held := Table.slot_create_self s.table fd
    have created := h.accounts.create (free fd made)
    exact {
      accounts := created.close held
      running := by
        intro running
        rw [idle] at running
        cases running
      stopped := fun _ => by
        refine ⟨fun k still => ?_, empty⟩
        obtain ⟨opened, different⟩ := (created.open_close held k).mp still
        rcases (Table.open_create (free fd made) k).mp opened with same | older
        · exact different same
        · exact (h.stopped idle).1 k older
      clients := by
        rw [empty]
        rintro fd ⟨⟩
      thread := h.thread
      alive := h.alive }
  | running idle fd made =>
    have empty := (h.stopped idle).2
    have fresh : s.listenerThread ≠ .joinable := fun joinable => by
      rw [h.thread.mp joinable] at idle
      cases idle
    exact {
      accounts := h.accounts.create (free fd made)
      running := fun _ => by
        refine ⟨fd, s.table.created, rfl, Table.slot_create_self s.table fd, fun j opened => ?_⟩
        rcases (Table.open_create (free fd made) j).mp opened with same | older
        · exact same
        · exact absurd older ((h.stopped idle).1 j)
      stopped := by rintro ⟨⟩
      clients := by
        change ∀ fd ∈ s.tcpClients, _
        rw [empty]
        rintro fd ⟨⟩
      thread := iff_of_true rfl rfl
      alive := by
        change (if s.listenerThread = .joinable then _ else _) ≠ _
        rw [if_neg fresh]
        exact h.alive }

theorem stop_orderly {s : State} (h : Orderly s) : Orderly s.stop ∧ s.stop.isRunning = false := by
  by_cases running : s.isRunning = true
  · obtain ⟨fd, k, socket, held, only⟩ := h.running running
    obtain ⟨accounts, kept⟩ := (h.accounts.close held).close_all h.clients
    have stopped : s.stop = { s with
        isRunning := false, serverSocket := none, listenerThread := s.listenerThread.join,
        tcpClients := [], table := s.tcpClients.foldl Table.close (s.table.close fd) } := by
      simp only [State.stop, running, socket, if_true]
    rw [stopped]
    refine ⟨?_, rfl⟩
    exact {
      accounts := accounts
      running := by rintro ⟨⟩
      stopped := fun _ => by
        refine ⟨fun j still => ?_, rfl⟩
        obtain ⟨opened, different⟩ := (h.accounts.open_close held j).mp ((kept j).mp still)
        exact different (only j opened)
      clients := by rintro fd ⟨⟩
      thread := by cases s.listenerThread <;> simp [Thread.join]
      alive := h.alive }
  · have idle := Bool.not_eq_true _ ▸ running
    have same : s.stop = s := if_neg running
    rw [same]
    exact ⟨h, idle⟩

theorem destroy_orderly {s : State} (h : Orderly s) :
    Orderly s.destroy ∧ s.destroy.isRunning = false ∧ s.destroy.life = .destroyed := by
  obtain ⟨stopped, idle⟩ := stop_orderly h
  have joined : s.stop.listenerThread ≠ .joinable := by
    rw [ne_eq, stopped.thread, idle]
    exact Bool.false_ne_true
  have ended : s.destroy = { s.stop with life := .destroyed } := by
    rw [State.destroy, if_neg joined]
  rw [ended]
  exact ⟨{ stopped with alive := by rintro ⟨⟩ }, idle, rfl⟩

/-- An arrival of a foreign descriptor under a free number. -/
theorem occupy_orderly {s : State} (h : Orderly s) {fd : Fd} (free : s.table.slot fd = .free)
    {clients : List Fd} (listed : ∀ client ∈ clients, client ∈ s.tcpClients ∨ client = fd)
    (empty : s.isRunning = false → clients = []) :
    Orderly { s with table := s.table.occupy fd, tcpClients := clients } where
  accounts := h.accounts.occupy free
  running := by
    intro running
    obtain ⟨socket, k, held, slot, only⟩ := h.running running
    refine ⟨socket, k, held, Table.update_own.mpr (Or.inr ⟨?_, slot⟩), fun j opened =>
      only j ((Table.open_occupy free j).mp opened)⟩
    rintro rfl
    rw [free] at slot
    cases slot
  stopped := by
    intro idle
    exact ⟨fun k opened => (h.stopped idle).1 k ((Table.open_occupy free k).mp opened), empty idle⟩
  clients := by
    intro client mem
    by_cases same : client = fd
    · subst client
      exact Function.update_self ..
    · rcases listed client mem with old | new
      · exact (Function.update_of_ne same _ s.table.last).trans (h.clients client old)
      · exact absurd new same
  thread := h.thread
  alive := h.alive

theorem release_orderly {s : State} (h : Orderly s) {fd : Fd}
    (foreign : s.table.last fd = .foreign) :
    Orderly { s with table := s.table.close fd } where
  accounts := h.accounts.close_foreign foreign
  running := by
    intro running
    obtain ⟨socket, k, held, slot, only⟩ := h.running running
    refine ⟨socket, k, held, Table.update_own.mpr (Or.inr ⟨?_, slot⟩), fun j opened =>
      only j ((h.accounts.open_close_foreign foreign j).mp opened)⟩
    rintro rfl
    rw [h.accounts.recent socket k slot] at foreign
    cases foreign
  stopped := by
    intro idle
    obtain ⟨none_open, empty⟩ := h.stopped idle
    exact ⟨fun k opened => none_open k ((h.accounts.open_close_foreign foreign k).mp opened), empty⟩
  clients := h.clients
  thread := h.thread
  alive := h.alive

theorem erase_orderly {s : State} (h : Orderly s) (fd : Fd) :
    Orderly { s with tcpClients := s.tcpClients.filter fun client => client ≠ fd } where
  accounts := h.accounts
  running := h.running
  stopped := by
    intro idle
    obtain ⟨none_open, empty⟩ := h.stopped idle
    refine ⟨none_open, ?_⟩
    rw [empty]
    rfl
  clients := fun client mem => h.clients client (List.mem_of_mem_filter mem)
  thread := h.thread
  alive := h.alive

theorem step_orderly (s : State) (action : Action) (t : State) (h : Orderly s)
    (taken : step s action = some t) : Orderly t := by
  cases action with
  | start a =>
    simp only [step, Option.ite_none_right_eq_some, Option.some.injEq] at taken
    obtain ⟨_, gives, rfl⟩ := taken
    exact start_orderly h gives
  | stop =>
    simp only [step, Option.ite_none_right_eq_some, Option.some.injEq] at taken
    obtain ⟨_, rfl⟩ := taken
    exact (stop_orderly h).1
  | destroy =>
    simp only [step, Option.ite_none_right_eq_some, Option.some.injEq] at taken
    obtain ⟨_, rfl⟩ := taken
    exact (destroy_orderly h).1
  | accept fd =>
    simp only [step, Option.ite_none_right_eq_some, Option.some.injEq] at taken
    obtain ⟨_, ⟨_, running, free⟩, rfl⟩ := taken
    refine occupy_orderly h free (fun client mem => ?_) fun idle => ?_
    · simpa [List.mem_append] using mem
    · rw [running] at idle
      cases idle
  | erase fd =>
    simp only [step, Option.ite_none_right_eq_some, Option.some.injEq] at taken
    obtain ⟨_, rfl⟩ := taken
    exact erase_orderly h fd
  | occupy fd =>
    simp only [step, Option.ite_none_right_eq_some, Option.some.injEq] at taken
    obtain ⟨_, free, rfl⟩ := taken
    exact occupy_orderly h free (fun client mem => Or.inl mem) fun idle => (h.stopped idle).2
  | release fd =>
    simp only [step, Option.ite_none_right_eq_some, Option.some.injEq] at taken
    obtain ⟨_, foreign, rfl⟩ := taken
    exact release_orderly h foreign

/-- What the outside sees of a server between two calls. -/
structure Consistent (s : State) : Prop where
  running : s.isRunning = true → ∃ fd k, s.serverSocket = some fd ∧ s.table.slot fd = .own k ∧
    ∀ j, s.table.Open j ↔ j = k
  stopped : s.isRunning = false → ∀ k, ¬ s.table.Open k
  thread : s.listenerThread = .joinable ↔ s.isRunning = true
  closes : ∀ k, k < s.table.created →
    s.table.Open k ∧ s.table.closes k = 0 ∨ ¬ s.table.Open k ∧ s.table.closes k = 1

theorem Orderly.consistent {s : State} (h : Orderly s) : Consistent s where
  running := by
    intro running
    obtain ⟨fd, k, socket, slot, only⟩ := h.running running
    refine ⟨fd, k, socket, slot, fun j => ⟨only j, ?_⟩⟩
    rintro rfl
    exact ⟨fd, slot⟩
  stopped := fun idle => (h.stopped idle).1
  thread := h.thread
  closes := by
    intro k hk
    by_cases opened : s.table.Open k
    · exact Or.inl ⟨opened, h.accounts.unclosed k opened⟩
    · exact Or.inr ⟨opened, h.accounts.closed k hk opened⟩

end ServerLifecycle
