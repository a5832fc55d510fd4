import Cursov.Bytes
import Cursov.Library.SlotVector
import Cursov.Library.Transition
import Mathlib.Logic.Function.Basic

/-!
# The TCP chat server

The listener thread, one detached thread per client and the thread that calls
`start` and `stop` share the list of descriptor numbers without a lock. The
kernel's table of open descriptors is part of the state: a number is free again
once it is closed, and `accept` or `socket` may return any free number.
-/

namespace Server

open Bytes Transition

abbrev Fd := Nat

/-- What an open number denotes. Connections are numbered in the order of their accepts. -/
inductive Target where
  | listening
  | connection (c : Nat)
  deriving DecidableEq

/-- The place of a thread in `handle_tcp_client`, with the locals it holds there. -/
inductive HandlerPc where
  | loopTest
  | receiving
  | received (buffer : ByteString)
  | acked (buffer : ByteString)
  | relaying (message : ByteString) (cursor stop : Nat)
  | leaving
  | closed
  | ended
  deriving DecidableEq

structure Handler where
  clientSocket : Fd
  pc : HandlerPc
  deriving DecidableEq

inductive ListenerPc where
  | absent
  | loopTest
  | accepting
  | accepted (c : Nat) (clientSocket : Fd)
  | returned
  deriving DecidableEq

/-- The controlling thread is outside `stop`, or inside at one of its steps. -/
inductive ControlPc where
  | idle
  | closingListener
  | joining
  | closingClients (cursor stop : Nat)
  deriving DecidableEq

/-- One `send` of `broadcast_tcp`, by the handler of connection `sender`. -/
structure Relay where
  sender : Nat
  client : Fd
  message : ByteString
  deriving DecidableEq

/-- `serverSocket` is `none` for -1. The last two fields are records: how many closes
have reached each connection, and everything relayed. -/
structure State where
  isRunning : Bool
  serverSocket : Option Fd
  tcpClients : SlotVector Fd
  descriptors : Fd → Option Target
  accepted : Nat
  handler : Nat → Option Handler
  listener : ListenerPc
  control : ControlPc
  closes : Nat → Nat
  relays : List Relay

def initial : State where
  isRunning := false
  serverSocket := none
  tcpClients := .empty
  descriptors := fun _ => none
  accepted := 0
  handler := fun _ => none
  listener := .absent
  control := .idle
  closes := fun _ => 0
  relays := []

/-- `close(fd)`: whatever the number denotes is closed; a free number is an error. -/
def State.closeNumber (s : State) (fd : Fd) : State :=
  { s with
    descriptors := Function.update s.descriptors fd none
    closes := match s.descriptors fd with
      | some (.connection c) => Function.update s.closes c (s.closes c + 1)
      | _ => s.closes }

def State.goto (s : State) (c : Nat) (h : Handler) (pc : HandlerPc) : State :=
  { s with handler := Function.update s.handler c (some { h with pc := pc }) }

/-- `accept` has returned the free number `fd` for the next connection. -/
def State.accept (s : State) (fd : Fd) : State :=
  { s with
    descriptors := Function.update s.descriptors fd (some (.connection s.accepted))
    accepted := s.accepted + 1
    listener := .accepted s.accepted fd }

/-- `push_back` of the accepted number and the creation of its handler. A thread that has
been created and not yet scheduled is a thread before its first step, so this is one step. -/
def State.adopt (s : State) (c : Nat) (fd : Fd) : State :=
  { s with
    tcpClients := s.tcpClients.pushBack fd
    handler := Function.update s.handler c (some ⟨fd, .loopTest⟩)
    listener := .loopTest }

/-- `setup_socket` has returned the free number `fd`; the flag is set and the listener
created. -/
def State.launch (s : State) (fd : Fd) : State :=
  { s with
    serverSocket := some fd
    descriptors := Function.update s.descriptors fd (some .listening)
    isRunning := true
    listener := .loopTest }

inductive ControlAction where
  | start (fd : Fd)
  | stop
  | closeListener
  | join
  | closeClient
  | clearClients

/-- A `start` that succeeds, and `stop` step by step: reset the flag, close the listening
socket, join the listener, close the listed numbers in a range-for, clear the list. -/
def controlStep (s : State) : ControlAction → Option State
  | .start fd =>
    if s.control = .idle ∧ s.isRunning = false ∧ s.descriptors fd = none then
      some (s.launch fd)
    else none
  | .stop =>
    if s.control = .idle ∧ s.isRunning = true then
      some { s with isRunning := false, control := .closingListener }
    else none
  | .closeListener =>
    if s.control = .closingListener then
      match s.serverSocket with
      | some fd => some { s.closeNumber fd with serverSocket := none, control := .joining }
      | none => some { s with control := .joining }
    else none
  | .join =>
    if s.control = .joining ∧ s.listener = .returned then some
      { s with listener := .absent, control := .closingClients 0 s.tcpClients.size }
    else none
  | .closeClient =>
    match s.control with
    | .closingClients cursor stop =>
      if cursor < stop then
        (s.tcpClients.slots[cursor]?).map fun client =>
          { s.closeNumber client with control := .closingClients (cursor + 1) stop }
      else none
    | _ => none
  | .clearClients =>
    match s.control with
    | .closingClients cursor stop =>
      if cursor < stop then none
      else some { s with tcpClients := s.tcpClients.clear, control := .idle }
    | _ => none

inductive ListenerAction where
  | test
  | accept (fd : Fd)
  | acceptFails
  | pushBack

/-- `tcp_listen`. An `accept` that waits may still succeed after `stop` has begun. -/
def listenerStep (s : State) : ListenerAction → Option State
  | .test =>
    if s.listener = .loopTest then
      some { s with listener := if s.isRunning then .accepting else .returned }
    else none
  | .accept fd =>
    if s.listener = .accepting ∧ s.descriptors fd = none then some (s.accept fd) else none
  | .acceptFails =>
    if s.listener = .accepting then some { s with listener := .loopTest } else none
  | .pushBack =>
    match s.listener with
    | .accepted c fd => some (s.adopt c fd)
    | _ => none

inductive HandlerAction where
  | test
  | recv (buffer : ByteString)
  | recvFails
  | ack
  | beginBroadcast
  | relay
  | endBroadcast
  | close
  | erase

/-- `handle_tcp_client` with `broadcast_tcp` inlined, from where the thread stands. The
range-for has fixed its end position when it begins and reads whatever is in the slots. A `recv`
that waits while its number is closed under it may still return data; here it has returned just
before, which no other thread can tell. -/
def handlerMove (s : State) (c : Nat) (h : Handler) : HandlerPc → HandlerAction → Option State
  | .loopTest, .test => some (s.goto c h (if s.isRunning then .receiving else .leaving))
  | .receiving, .recv buffer =>
    match s.descriptors h.clientSocket with
    | some (.connection _) =>
      if 1 ≤ buffer.length ∧ buffer.length ≤ 1023 then some (s.goto c h (.received buffer))
      else none
    | _ => none
  | .receiving, .recvFails => some (s.goto c h .leaving)
  | .received buffer, .ack => some (s.goto c h (.acked buffer))
  | .acked buffer, .beginBroadcast =>
    some (s.goto c h (.relaying (cString (buffer ++ [0])) 0 s.tcpClients.size))
  | .relaying message cursor stop, .relay =>
    if cursor < stop then
      (s.tcpClients.slots[cursor]?).map fun client =>
        { s.goto c h (.relaying message (cursor + 1) stop) with
          relays := if client ≠ h.clientSocket then s.relays ++ [⟨c, client, message⟩]
            else s.relays }
    else none
  | .relaying _ cursor stop, .endBroadcast =>
    if cursor < stop then none else some (s.goto c h .loopTest)
  | .leaving, .close => some ((s.closeNumber h.clientSocket).goto c h .closed)
  | .closed, .erase =>
    some { s.goto c h .ended with tcpClients := s.tcpClients.eraseRemove h.clientSocket }
  | _, _ => none

def handlerStep (s : State) (c : Nat) (a : HandlerAction) : Option State :=
  (s.handler c).bind fun h => handlerMove s c h h.pc a

inductive Action where
  | control (a : ControlAction)
  | listener (a : ListenerAction)
  | handler (c : Nat) (a : HandlerAction)

def step (s : State) : Action → Option State
  | .control a => controlStep s a
  | .listener a => listenerStep s a
  | .handler c a => handlerStep s c a

/-- The thread still has its `close` ahead of it. -/
def HandlerPc.alive : HandlerPc → Bool
  | .closed => false
  | .ended => false
  | _ => true

/-- The thread serves its client: no `recv` has failed and it has not left the loop. -/
def HandlerPc.running : HandlerPc → Bool
  | .leaving => false
  | .closed => false
  | .ended => false
  | _ => true

theorem HandlerPc.alive_of_running {pc : HandlerPc} (h : pc.running = true) : pc.alive = true := by
  cases pc <;> first | rfl | cases h

/-- The effect of a handler's step: it moves on and may send one relay, or it closes its
number, or it erases it from the list. -/
inductive HandlerEffect (s : State) (c : Nat) (h : Handler) : HandlerAction → State → Prop where
  | moves (a : HandlerAction) (pc : HandlerPc) (relays : List Relay)
      (running : h.pc.running = true) (alive : pc.alive = true)
      (sends : relays = s.relays ∨ ∃ client message, relays = s.relays ++ [⟨c, client, message⟩])
      (fixed : ∀ message cursor stop, pc = .relaying message cursor stop →
        stop = s.tcpClients.size ∨ ∃ earlier, h.pc = .relaying message earlier stop) :
      HandlerEffect s c h a { s.goto c h pc with relays := relays }
  | closes (leaving : h.pc = .leaving) :
      HandlerEffect s c h .close ((s.closeNumber h.clientSocket).goto c h .closed)
  | erases (closed : h.pc = .closed) :
      HandlerEffect s c h .erase
        { s.goto c h .ended with tcpClients := s.tcpClients.eraseRemove h.clientSocket }

/-- A move that sends nothing and enters no loop. -/
theorem HandlerEffect.quiet {s : State} {c : Nat} {h : Handler} (a : HandlerAction)
    {before after : HandlerPc} (place : h.pc = before) (running : before.running = true)
    (alive : after.alive = true)
    (outside : ∀ message cursor stop, after ≠ .relaying message cursor stop) :
    HandlerEffect s c h a (s.goto c h after) :=
  .moves a after s.relays (place ▸ running) alive (Or.inl rfl) fun message cursor stop at_loop =>
    absurd at_loop (outside message cursor stop)

theorem handlerMove_effect {s t : State} {c : Nat} {h : Handler} {a : HandlerAction}
    (moved : handlerMove s c h h.pc a = some t) : HandlerEffect s c h a t := by
  cases a with
  | close =>
    cases place : h.pc <;> rw [place] at moved <;> cases moved
    exact .closes place
  | erase =>
    cases place : h.pc <;> rw [place] at moved <;> cases moved
    exact .erases place
  | test =>
    cases place : h.pc <;> rw [place] at moved <;> cases moved
    refine .quiet _ place rfl ?_ ?_
    · cases s.isRunning <;> rfl
    · cases s.isRunning <;> rintro _ _ _ ⟨⟩
  | recv buffer =>
    cases place : h.pc <;> rw [place] at moved <;> first | cases moved | skip
    simp only [handlerMove] at moved
    split at moved
    · simp only [Option.ite_none_right_eq_some, Option.some.injEq] at moved
      obtain ⟨_, rfl⟩ := moved
      refine .quiet _ place rfl rfl ?_
      rintro _ _ _ ⟨⟩
    · cases moved
  | beginBroadcast =>
    cases place : h.pc <;> rw [place] at moved <;> cases moved
    refine .moves _ _ s.relays (by rw [place]; rfl) rfl (Or.inl rfl) ?_
    rintro message cursor stop ⟨⟩
    exact Or.inl rfl
  | relay =>
    cases place : h.pc <;> rw [place] at moved <;> first | cases moved | skip
    rename_i message cursor stop
    simp only [handlerMove, Option.ite_none_right_eq_some, Option.map_eq_some_iff] at moved
    obtain ⟨_, client, _, rfl⟩ := moved
    refine .moves _ _ _ (by rw [place]; rfl) rfl ?_ ?_
    · by_cases own : client ≠ h.clientSocket
      · exact Or.inr ⟨client, message, if_pos own⟩
      · exact Or.inl (if_neg own)
    · rintro _ _ _ ⟨⟩
      exact Or.inr ⟨cursor, place⟩
  | endBroadcast =>
    cases place : h.pc <;> rw [place] at moved <;> first | cases moved | skip
    simp only [handlerMove, Option.ite_none_left_eq_some, Option.some.injEq] at moved
    obtain ⟨_, rfl⟩ := moved
    refine .quiet _ place rfl rfl ?_
    rintro _ _ _ ⟨⟩
  | _ =>
    cases place : h.pc <;> rw [place] at moved <;> cases moved
    refine .quiet _ place rfl rfl ?_
    rintro _ _ _ ⟨⟩

theorem handlerStep_effect {s t : State} {c : Nat} {a : HandlerAction}
    (moved : handlerStep s c a = some t) :
    ∃ h, s.handler c = some h ∧ HandlerEffect s c h a t := by
  obtain ⟨h, held, moved⟩ := Option.bind_eq_some_iff.mp moved
  exact ⟨h, held, handlerMove_effect moved⟩

theorem handler_goto (s : State) (c : Nat) (h : Handler) (pc : HandlerPc) :
    (s.goto c h pc).handler c = some { h with pc := pc } :=
  Function.update_self _ _ _

theorem handler_goto_of_ne (s : State) {c d : Nat} (h : Handler) (pc : HandlerPc)
    (other : d ≠ c) : (s.goto c h pc).handler d = s.handler d :=
  Function.update_of_ne other _ _

theorem closeNumber_shrinks {s : State} {fd x : Fd} {target : Target}
    (h : (s.closeNumber fd).descriptors x = some target) : s.descriptors x = some target := by
  by_cases same : x = fd
  · subst x
    simp [State.closeNumber] at h
  · simpa [State.closeNumber, same] using h

/-- The effect of one step of `start` or `stop`, with what it found. -/
inductive ControlEffect (s : State) : ControlAction → State → Prop where
  | start (fd : Fd) (idle : s.control = .idle) (stopped : s.isRunning = false)
      (free : s.descriptors fd = none) : ControlEffect s (.start fd) (s.launch fd)
  | stop (idle : s.control = .idle) :
      ControlEffect s .stop { s with isRunning := false, control := .closingListener }
  | closeListener (fd : Fd) (socket : s.serverSocket = some fd) :
      ControlEffect s .closeListener
        { s.closeNumber fd with serverSocket := none, control := .joining }
  | noListener (socket : s.serverSocket = none) :
      ControlEffect s .closeListener { s with control := .joining }
  | join (joining : s.control = .joining) (returned : s.listener = .returned) :
      ControlEffect s .join
        { s with listener := .absent, control := .closingClients 0 s.tcpClients.size }
  | closeClient (cursor stop : Nat) (client : Fd) (place : s.control = .closingClients cursor stop)
      (slot : s.tcpClients.slots[cursor]? = some client) :
      ControlEffect s .closeClient
        { s.closeNumber client with control := .closingClients (cursor + 1) stop }
  | clearClients (cursor stop : Nat) (place : s.control = .closingClients cursor stop) :
      ControlEffect s .clearClients { s with tcpClients := s.tcpClients.clear, control := .idle }

theorem controlStep_effect {s t : State} {a : ControlAction} (moved : controlStep s a = some t) :
    ControlEffect s a t := by
  cases a with
  | start fd =>
    simp only [controlStep, Option.ite_none_right_eq_some, Option.some.injEq] at moved
    obtain ⟨⟨idle, stopped, free⟩, rfl⟩ := moved
    exact .start fd idle stopped free
  | stop =>
    simp only [controlStep, Option.ite_none_right_eq_some, Option.some.injEq] at moved
    obtain ⟨⟨idle, _⟩, rfl⟩ := moved
    exact .stop idle
  | closeListener =>
    simp only [controlStep, Option.ite_none_right_eq_some] at moved
    obtain ⟨_, moved⟩ := moved
    split at moved
    · rename_i fd socket
      cases moved
      exact .closeListener fd socket
    · rename_i socket
      cases moved
      exact .noListener socket
  | join =>
    simp only [controlStep, Option.ite_none_right_eq_some, Option.some.injEq] at moved
    obtain ⟨⟨joining, returned⟩, rfl⟩ := moved
    exact .join joining returned
  | closeClient =>
    cases place : s.control with
    | closingClients cursor stop =>
      simp only [controlStep, place, Option.ite_none_right_eq_some, Option.map_eq_some_iff] at moved
      obtain ⟨_, client, slot, rfl⟩ := moved
      exact .closeClient cursor stop client place slot
    | _ => simp [controlStep, place] at moved
  | clearClients =>
    cases place : s.control with
    | closingClients cursor stop =>
      simp only [controlStep, place, Option.ite_none_left_eq_some, Option.some.injEq] at moved
      obtain ⟨_, rfl⟩ := moved
      exact .clearClients cursor stop place
    | _ => simp [controlStep, place] at moved

/-- `start` and `stop` accept nothing, move no handler, send nothing and create no
connection; only the last step of `stop` changes the list. -/
structure ControlFrame (s : State) (a : ControlAction) (t : State) : Prop where
  handler : t.handler = s.handler
  accepted : t.accepted = s.accepted
  relays : t.relays = s.relays
  clients : t.tcpClients = s.tcpClients ∨ a = .clearClients ∧ t.tcpClients = s.tcpClients.clear
  listener : ∀ c fd, t.listener = .accepted c fd → s.listener = .accepted c fd
  descriptors : ∀ x c, t.descriptors x = some (.connection c) →
    s.descriptors x = some (.connection c)

theorem controlStep_frame {s t : State} {a : ControlAction} (moved : controlStep s a = some t) :
    ControlFrame s a t := by
  cases controlStep_effect moved with
  | start fd idle stopped free =>
    refine ⟨rfl, rfl, rfl, Or.inl rfl, nofun, fun x c hx => ?_⟩
    by_cases same : x = fd
    · subst x
      simp [State.launch] at hx
    · simpa [State.launch, same] using hx
  | stop idle => exact ⟨rfl, rfl, rfl, Or.inl rfl, fun _ _ => id, fun _ _ => id⟩
  | closeListener fd socket =>
    exact ⟨rfl, rfl, rfl, Or.inl rfl, fun _ _ => id, fun _ _ => closeNumber_shrinks⟩
  | noListener socket => exact ⟨rfl, rfl, rfl, Or.inl rfl, fun _ _ => id, fun _ _ => id⟩
  | join joining returned => exact ⟨rfl, rfl, rfl, Or.inl rfl, nofun, fun _ _ => id⟩
  | closeClient cursor stop client place slot =>
    exact ⟨rfl, rfl, rfl, Or.inl rfl, fun _ _ => id, fun _ _ => closeNumber_shrinks⟩
  | clearClients cursor stop place =>
    exact ⟨rfl, rfl, rfl, Or.inr ⟨rfl, rfl⟩, fun _ _ => id, fun _ _ => id⟩

/-- The effect of the listener's step: a new place in its loop, a new connection, or a new
handler. -/
inductive ListenerEffect (s : State) : ListenerAction → State → Prop where
  | moves (a : ListenerAction) (pc : ListenerPc) (present : s.listener ≠ .absent)
      (before : ∀ c fd, s.listener ≠ .accepted c fd) (after : ∀ c fd, pc ≠ .accepted c fd) :
      ListenerEffect s a { s with listener := pc }
  | accepts (fd : Fd) (waiting : s.listener = .accepting) (free : s.descriptors fd = none) :
      ListenerEffect s (.accept fd) (s.accept fd)
  | adopts (c : Nat) (fd : Fd) (waiting : s.listener = .accepted c fd) :
      ListenerEffect s .pushBack (s.adopt c fd)

theorem listenerStep_effect {s t : State} {a : ListenerAction}
    (moved : listenerStep s a = some t) : ListenerEffect s a t := by
  cases a with
  | test =>
    simp only [listenerStep, Option.ite_none_right_eq_some, Option.some.injEq] at moved
    obtain ⟨at_test, rfl⟩ := moved
    refine .moves _ _ (by simp [at_test]) (by simp [at_test]) ?_
    cases s.isRunning <;> simp
  | accept fd =>
    simp only [listenerStep, Option.ite_none_right_eq_some, Option.some.injEq] at moved
    obtain ⟨⟨waiting, free⟩, rfl⟩ := moved
    exact .accepts fd waiting free
  | acceptFails =>
    simp only [listenerStep, Option.ite_none_right_eq_some, Option.some.injEq] at moved
    obtain ⟨waiting, rfl⟩ := moved
    exact .moves _ _ (by simp [waiting]) (by simp [waiting]) (by simp)
  | pushBack =>
    cases waiting : s.listener with
    | accepted c fd =>
      simp only [listenerStep, waiting, Option.some.injEq] at moved
      subst t
      exact .adopts c fd waiting
    | _ => simp [listenerStep, waiting] at moved

structure Numbered (s : State) : Prop where
  born : ∀ c h, s.handler c = some h → c < s.accepted
  pending : ∀ c fd, s.listener = .accepted c fd → c < s.accepted ∧ s.handler c = none

theorem initial_numbered : Numbered initial where
  born := by
    rintro c h ⟨⟩
  pending := by
    rintro c fd ⟨⟩

theorem goto_numbered {s : State} {c : Nat} {h : Handler} (numbered : Numbered s)
    (held : s.handler c = some h) (pc : HandlerPc) : Numbered (s.goto c h pc) where
  born := by
    intro d k hk
    by_cases same : d = c
    · exact same ▸ numbered.born c h held
    · exact numbered.born d k ((handler_goto_of_ne s h pc same).symm.trans hk)
  pending := by
    intro d fd waiting
    obtain ⟨bound, unheld⟩ := numbered.pending d fd waiting
    have other : d ≠ c := by
      rintro rfl
      rw [held] at unheld
      cases unheld
    exact ⟨bound, (handler_goto_of_ne s h pc other).trans unheld⟩

theorem step_numbered (s : State) (a : Action) (t : State) (numbered : Numbered s)
    (moved : step s a = some t) : Numbered t := by
  cases a with
  | control a =>
    have frame := controlStep_frame moved
    constructor
    · rw [frame.handler, frame.accepted]
      exact numbered.born
    · rw [frame.handler, frame.accepted]
      exact fun c fd waiting => numbered.pending c fd (frame.listener c fd waiting)
  | listener a =>
    cases listenerStep_effect moved with
    | moves _ pc present before after =>
      exact ⟨numbered.born, fun c fd waiting => absurd waiting (after c fd)⟩
    | accepts fd waiting free =>
      constructor
      · exact fun c h held => (numbered.born c h held).trans (Nat.lt_succ_self _)
      · rintro c x ⟨⟩
        refine ⟨Nat.lt_succ_self _, ?_⟩
        cases held : s.handler s.accepted with
        | none => exact held
        | some h =>
          have := numbered.born s.accepted h held
          omega
    | adopts c fd waiting =>
      constructor
      · intro d h held
        by_cases same : d = c
        · exact same ▸ (numbered.pending c fd waiting).1
        · exact numbered.born d h ((Function.update_of_ne same _ _).symm.trans held)
      · rintro d x ⟨⟩
  | handler c a =>
    obtain ⟨h, held, effect⟩ := handlerStep_effect moved
    cases effect with
    | moves _ pc relays running alive sends fixed =>
      have next := goto_numbered numbered held pc
      exact ⟨next.born, next.pending⟩
    | closes leaving =>
      have closed : Numbered (s.closeNumber h.clientSocket) := ⟨numbered.born, numbered.pending⟩
      exact goto_numbered closed held .closed
    | erases closed =>
      have next := goto_numbered numbered held .ended
      exact ⟨next.born, next.pending⟩

theorem reachable_numbered {s : State} (reachable : Reachable step initial s) : Numbered s :=
  reachable_invariant step_numbered initial_numbered reachable

end Server
