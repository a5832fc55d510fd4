import Cursov.ChatStream
import Cursov.Server

/-!
# One client served without interruption

`ChatStream.handleTcpClient` follows a handler through its chunks; `Server.step` is
the same thread seen from the shared state. A handler that is scheduled alone
relays to the listed clients the messages that `handleTcpClient` broadcasts.
-/

namespace ChatService

open Bytes ChatStream Server Transition

/-- The sends of one broadcast to a list of numbers. -/
def relaysTo (c : Nat) (fd : Fd) (message : ByteString) (clients : List Fd) : List Relay :=
  (clients.filter fun client => client ≠ fd).map fun client => ⟨c, client, message⟩

/-- The steps of one pass through the loop of `handle_tcp_client`. -/
def servePass (c : Nat) (chunk : ByteString) (clients : Nat) : List Action :=
  [.handler c .test, .handler c (.recv chunk), .handler c .ack, .handler c .beginBroadcast] ++
    List.replicate clients (.handler c .relay) ++ [.handler c .endBroadcast]

/-- The thread of connection `c` stands at `pc`, and has relayed `more`. -/
def moved (s : State) (c : Nat) (fd : Fd) (pc : HandlerPc) (more : List Relay) : State :=
  { s with
    handler := Function.update s.handler c (some ⟨fd, pc⟩)
    relays := s.relays ++ more }

theorem step_moved (s : State) (c : Nat) (fd : Fd) (pc : HandlerPc) (more : List Relay)
    (a : HandlerAction) :
    step (moved s c fd pc more) (.handler c a) =
      handlerMove (moved s c fd pc more) c ⟨fd, pc⟩ pc a := by
  have held : (moved s c fd pc more).handler c = some ⟨fd, pc⟩ := Function.update_self _ _ _
  rw [step, handlerStep, held, Option.bind_some]

theorem goto_moved (s : State) (c : Nat) (fd : Fd) (pc next : HandlerPc) (more : List Relay) :
    (moved s c fd pc more).goto c ⟨fd, pc⟩ next = moved s c fd next more := by
  simp only [State.goto, moved, Function.update_idem]

theorem relay_run (s : State) (c : Nat) (fd : Fd) (message : ByteString) {stop : Nat}
    (stored : stop ≤ s.tcpClients.slots.length) (n : Nat) {cursor : Nat} (more : List Relay)
    (left : cursor + n = stop) :
    run step (moved s c fd (.relaying message cursor stop) more)
        (List.replicate n (.handler c .relay)) =
      some (moved s c fd (.relaying message stop stop)
        (more ++ relaysTo c fd message (s.tcpClients.window cursor stop))) := by
  induction n generalizing cursor more with
  | zero =>
    obtain rfl : cursor = stop := left
    rw [SlotVector.window_eq_nil le_rfl, relaysTo, List.filter_nil, List.map_nil, List.append_nil]
    rfl
  | succ n ih =>
    have ahead : cursor < stop := by omega
    obtain ⟨client, slot⟩ : ∃ client, s.tcpClients.slots[cursor]? = some client :=
      ⟨_, List.getElem?_eq_getElem (by omega)⟩
    have first : step (moved s c fd (.relaying message cursor stop) more) (.handler c .relay) =
        some (moved s c fd (.relaying message (cursor + 1) stop)
          (more ++ relaysTo c fd message [client])) := by
      rw [step_moved, handlerMove, if_pos ahead]
      change (s.tcpClients.slots[cursor]?).map _ = _
      rw [slot, Option.map_some, goto_moved]
      by_cases own : client = fd
      · simp [moved, relaysTo, own]
      · simp [moved, relaysTo, own]
    rw [List.replicate_succ, run_cons, first, Option.bind_some,
      ih (more ++ relaysTo c fd message [client]) (by omega), SlotVector.window_cons ahead slot,
      List.append_assoc]
    congr 3
    rw [relaysTo, relaysTo, relaysTo, ← List.map_append, ← List.filter_append]
    rfl

/-- A chunk that `recv` can return from a connection of its own. -/
structure Receives (s : State) (fd : Fd) (chunk : ByteString) : Prop where
  running : s.isRunning = true
  connected : ∃ c, s.descriptors fd = some (.connection c)
  size : 1 ≤ chunk.length ∧ chunk.length ≤ 1023

theorem serve_pass {s : State} {c : Nat} {fd : Fd} {chunk : ByteString}
    (receives : Receives s fd chunk) (more : List Relay) :
    run step (moved s c fd .loopTest more) (servePass c chunk s.tcpClients.size) =
      some (moved s c fd .loopTest
        (more ++ relaysTo c fd (cString (chunk ++ [0])) s.tcpClients.live)) := by
  obtain ⟨target, connected⟩ := receives.connected
  have test : step (moved s c fd .loopTest more) (.handler c .test) =
      some (moved s c fd .receiving more) := by
    rw [step_moved, handlerMove, goto_moved]
    change some (moved s c fd (if s.isRunning then _ else _) more) = _
    rw [if_pos receives.running]
  have recv : step (moved s c fd .receiving more) (.handler c (.recv chunk)) =
      some (moved s c fd (.received chunk) more) := by
    have same : (moved s c fd .receiving more).descriptors fd = some (.connection target) :=
      connected
    rw [step_moved]
    simp only [handlerMove, same, if_pos receives.size, goto_moved]
  have ack : step (moved s c fd (.received chunk) more) (.handler c .ack) =
      some (moved s c fd (.acked chunk) more) := by
    rw [step_moved, handlerMove, goto_moved]
  have begins : step (moved s c fd (.acked chunk) more) (.handler c .beginBroadcast) =
      some (moved s c fd (.relaying (cString (chunk ++ [0])) 0 s.tcpClients.size) more) := by
    rw [step_moved, handlerMove, goto_moved]
    rfl
  have relays := relay_run s c fd (cString (chunk ++ [0])) s.tcpClients.size_le
    s.tcpClients.size more (Nat.zero_add _)
  have ends : ∀ all, step
      (moved s c fd (.relaying (cString (chunk ++ [0])) s.tcpClients.size s.tcpClients.size) all)
      (.handler c .endBroadcast) = some (moved s c fd .loopTest all) := by
    intro all
    rw [step_moved, handlerMove, if_neg (Nat.lt_irrefl _), goto_moved]
  rw [SlotVector.window_zero_size] at relays
  refine run_snoc_iff.mpr ⟨_, ?_, ends _⟩
  refine run_append_iff.mpr ⟨_, ?_, relays⟩
  rw [run_cons, test, Option.bind_some, run_cons, recv, Option.bind_some, run_cons, ack,
    Option.bind_some, run_cons, begins, Option.bind_some, run_nil]

/-- A handler that is alone with its chunks relays what `handleTcpClient` broadcasts, to the
listed clients other than its own. -/
theorem serve_chunks {s : State} {c : Nat} {fd : Fd} (held : s.handler c = some ⟨fd, .loopTest⟩)
    {chunks : List ByteString} (receives : ∀ chunk ∈ chunks, Receives s fd chunk)
    (buffer : ByteString) :
    run step s (chunks.flatMap fun chunk => servePass c chunk s.tcpClients.size) =
      some { s with relays := s.relays ++
        ((broadcasts (handleTcpClient buffer chunks)).flatMap fun message =>
          relaysTo c fd message s.tcpClients.live) } := by
  have general : ∀ more, run step (moved s c fd .loopTest more)
      (chunks.flatMap fun chunk => servePass c chunk s.tcpClients.size) =
      some (moved s c fd .loopTest (more ++
        (broadcasts (handleTcpClient buffer chunks)).flatMap fun message =>
          relaysTo c fd message s.tcpClients.live)) := by
    induction chunks generalizing buffer with
    | nil =>
      intro more
      change some _ = some (moved s c fd .loopTest (more ++ []))
      rw [List.append_nil]
    | cons chunk rest ih =>
      intro more
      obtain ⟨first, later⟩ := List.forall_mem_cons.mp receives
      have message : cString (fillBuffer buffer chunk) = cString (chunk ++ [0]) := by
        rw [fillBuffer, cString_append_nul, cString_append_nul]
      rw [List.flatMap_cons, run_append, serve_pass first more, Option.bind_some,
        ih later (fillBuffer buffer chunk), ← message, List.append_assoc]
      rfl
  have start : moved s c fd .loopTest [] = s := by
    rw [moved, ← held, Function.update_eq_self, List.append_nil]
  have served := general []
  rw [start, List.nil_append] at served
  rw [served, moved, ← held, Function.update_eq_self]

end ChatService
