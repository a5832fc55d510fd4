import Cursov.ChatStream
import Cursov.ClientLifecycle
import Cursov.Library.Progress

/-!
# A session of the client

After `run` the main thread passes the typed lines to `send_message` until the user
leaves, then stops the client. The receiver thread polls the same socket and resets
`is_connected` when the connection ends. The threads interleave at their accesses to
the shared fields and at their system calls.
-/

namespace ClientSession

open Bytes Utilities ChatStream Transition Progress

abbrev Fd := ClientLifecycle.Fd

/-- In `getline`, in `send` or `sendto`, in `join`, before the close, out of `main`. The
last place is the default action of SIGPIPE. -/
inductive MainPc where
  | reading
  | sending (message : ByteString)
  | joining
  | closing
  | returned
  | killed (message : ByteString)
  deriving DecidableEq

inductive ReceiverPc where
  | absent
  | testing
  | checking
  | receiving
  | pausing
  | returned
  deriving DecidableEq

inductive Errno where
  | wouldBlock
  | other
  deriving DecidableEq

/-- What one `recv` or `recvfrom` returns, with the `errno` that is read after it. -/
inductive Received where
  | bytes (chunk : ByteString)
  | zero (errno : Errno)
  | error (errno : Errno)
  deriving DecidableEq

/-- What became of one call of `send_message`; a send may take a part of the bytes. -/
inductive Attempt where
  | refused
  | failed
  | sent (bytes : ByteString)
  deriving DecidableEq

/-- The last four fields are records: the lines read, what became of them, the lines
printed, the closes of the socket. -/
structure Session where
  protocol : Protocol
  isConnected : Bool
  running : Bool
  sock : Option Fd
  main : MainPc
  receiver : ReceiverPc
  buffer : ByteString
  typed : List ByteString
  log : List (ByteString × Attempt)
  lines : List Line
  closes : Nat

/-- What `run` leaves on a new client. -/
def start (protocol : Protocol) (a : ClientLifecycle.Attempt) (buffer : ByteString) : Session :=
  let s := (ClientLifecycle.initial protocol).run a
  { protocol := protocol
    isConnected := s.isConnected
    running := s.running
    sock := s.sock
    main := .reading
    receiver := if s.receiverThread = .joinable then .testing else .absent
    buffer := buffer
    typed := []
    log := []
    lines := []
    closes := 0 }

inductive Action where
  | line (message : ByteString)
  | endOfInput
  | send (taken : Option Nat)
  | brokenPipe
  | main
  | receiver
  | receive (r : Received)

def MainPc.alive : MainPc → Bool
  | .killed _ => false
  | _ => true

namespace Session

/-- `stop` begins: the flag, then the join. -/
def leave (s : Session) : Session := { s with running := false, main := .joining }

/-- The line the loop has read, up to the call that sends it. -/
def readLine (s : Session) (message : ByteString) : Session :=
  if message = literal "exit" then s.leave
  else if s.isConnected ∧ s.sock ≠ none then
    { s with typed := s.typed ++ [message], main := .sending message }
  else { s with typed := s.typed ++ [message], log := s.log ++ [(message, .refused)] }

def sendStep (s : Session) (taken : Option Nat) : Option Session :=
  match s.main with
  | .sending message => some { s with
      log := s.log ++ [(message, match taken with
        | none => .failed
        | some n => .sent (message.take n))]
      main := .reading }
  | _ => none

def mainStep (s : Session) : Option Session :=
  match s.main with
  | .joining =>
    if s.receiver = .absent ∨ s.receiver = .returned then some { s with main := .closing } else none
  | .closing => some { s with
      closes := if s.sock = none then s.closes else s.closes + 1
      sock := none
      isConnected := false
      main := .returned }
  | _ => none

def receiverStep (s : Session) : Option Session :=
  match s.receiver with
  | .testing => some { s with receiver := if s.running then .checking else .returned }
  | .checking => some { s with
      receiver := if s.isConnected ∧ s.sock ≠ none then .receiving else .pausing }
  | .pausing => some { s with receiver := .testing }
  | _ => none

/-- The text of the chunk is printed, the buffer keeps the chunk. -/
def print (s : Session) (chunk : ByteString) : Session :=
  let message := cString (fillBuffer s.buffer chunk)
  { s with
    lines := s.lines ++ [if message = ackMessage then .delivered else .received message]
    buffer := fillBuffer s.buffer chunk
    receiver := .pausing }

/-- A report, after which the receiver leaves its loop. -/
def drop (s : Session) (report : Line) : Session :=
  { s with lines := s.lines ++ [report], isConnected := false, receiver := .returned }

def receiveTcp (s : Session) : Received → Session
  | .bytes chunk => s.print chunk
  | .zero _ => s.drop .connectionClosed
  | .error .wouldBlock => { s with receiver := .pausing }
  | .error .other => s.drop .receiveError

/-- Whatever is not data is judged by `errno` alone, an empty datagram too. -/
def receiveUdp (s : Session) : Received → Session
  | .bytes chunk => s.print chunk
  | .zero .wouldBlock => { s with receiver := .pausing }
  | .error .wouldBlock => { s with receiver := .pausing }
  | _ => { s with lines := s.lines ++ [.receiveError], receiver := .pausing }

def receive (s : Session) (r : Received) : Session :=
  match s.protocol with
  | .tcp => s.receiveTcp r
  | .udp => s.receiveUdp r

end Session

/-- `recv` is given 1023 bytes of the buffer. -/
def Received.fits : Received → Bool
  | .bytes chunk => decide (1 ≤ chunk.length ∧ chunk.length ≤ 1023)
  | _ => true

/-- The process that SIGPIPE has ended takes no step. -/
def step (s : Session) : Action → Option Session
  | .line message => if s.main = .reading then some (s.readLine message) else none
  | .endOfInput => if s.main = .reading then some s.leave else none
  | .send taken => s.sendStep taken
  | .brokenPipe =>
    match s.main with
    | .sending message =>
      if s.protocol = .tcp then some { s with main := .killed message } else none
    | _ => none
  | .main => s.mainStep
  | .receiver => if s.main.alive then s.receiverStep else none
  | .receive r =>
    if s.main.alive ∧ s.receiver = .receiving ∧ r.fits then some (s.receive r) else none

/-- The line that is read and not yet settled. -/
def MainPc.pending : MainPc → List ByteString
  | .sending message => [message]
  | .killed message => [message]
  | _ => []

/-- The message loop is still running. -/
def MainPc.serving : MainPc → Bool
  | .joining => false
  | .closing => false
  | .returned => false
  | _ => true

/-- The receiver is in its loop. -/
def ReceiverPc.inLoop : ReceiverPc → Bool
  | .absent => false
  | .returned => false
  | _ => true

/-- What the threads do, seen from the shared fields. -/
inductive Effect (s : Session) : Action → Session → Prop
  | leaves (a : Action) (reading : s.main = .reading) : Effect s a s.leave
  | takes (message : ByteString) (reading : s.main = .reading) (connected : s.isConnected = true)
      (held : s.sock ≠ none) :
      Effect s (.line message)
        { s with typed := s.typed ++ [message], main := .sending message }
  | refuses (message : ByteString) (reading : s.main = .reading)
      (unable : ¬ (s.isConnected = true ∧ s.sock ≠ none)) :
      Effect s (.line message)
        { s with typed := s.typed ++ [message], log := s.log ++ [(message, .refused)] }
  | settles (taken : Option Nat) (message : ByteString) (sending : s.main = .sending message)
      (attempt : Attempt) (made : attempt ≠ .refused)
      (part : ∀ bytes, attempt = .sent bytes → bytes <+: message) :
      Effect s (.send taken) { s with log := s.log ++ [(message, attempt)], main := .reading }
  | dies (message : ByteString) (sending : s.main = .sending message) :
      Effect s .brokenPipe { s with main := .killed message }
  | joins (joining : s.main = .joining) (finished : s.receiver.inLoop = false) :
      Effect s .main { s with main := .closing }
  | closes (closing : s.main = .closing) :
      Effect s .main { s with
        closes := if s.sock = none then s.closes else s.closes + 1
        sock := none
        isConnected := false
        main := .returned }
  | turns (a : Action) (lines : List Line) (buffer : ByteString) (pc : ReceiverPc)
      (inLoop : s.receiver.inLoop = true) (stays : pc.inLoop = true)
      (silent : (∀ r, a ≠ .receive r) → lines = s.lines ∧ buffer = s.buffer) :
      Effect s a { s with lines := lines, buffer := buffer, receiver := pc }
  | finishes (testing : s.receiver = .testing) (stopped : s.running = false) :
      Effect s .receiver { s with receiver := .returned }
  | drops (r : Received) (report : Line) (receiving : s.receiver = .receiving)
      (stream : s.protocol = .tcp) : Effect s (.receive r) (s.drop report)

theorem receive_effect {s : Session} {r : Received} (receiving : s.receiver = .receiving) :
    Effect s (.receive r) (s.receive r) := by
  have inLoop : s.receiver.inLoop = true := by rw [receiving]; rfl
  rw [Session.receive]
  cases stream : s.protocol with
  | tcp =>
    cases r with
    | bytes chunk => exact .turns _ _ _ _ inLoop rfl fun silent => absurd rfl (silent _)
    | zero errno => exact .drops _ _ receiving stream
    | error errno =>
      cases errno with
      | wouldBlock => exact .turns _ _ _ _ inLoop rfl fun silent => absurd rfl (silent _)
      | other => exact .drops _ _ receiving stream
  | udp =>
    cases r with
    | bytes chunk => exact .turns _ _ _ _ inLoop rfl fun silent => absurd rfl (silent _)
    | zero errno =>
      cases errno <;> exact .turns _ _ _ _ inLoop rfl fun silent => absurd rfl (silent _)
    | error errno =>
      cases errno <;> exact .turns _ _ _ _ inLoop rfl fun silent => absurd rfl (silent _)

theorem receiverStep_effect {s t : Session} (moved : s.receiverStep = some t) :
    Effect s .receiver t := by
  simp only [Session.receiverStep] at moved
  cases place : s.receiver with
  | testing =>
    rw [place] at moved
    cases moved
    by_cases running : s.running = true
    · rw [if_pos running]
      exact .turns _ _ _ _ (by rw [place]; rfl) rfl fun _ => ⟨rfl, rfl⟩
    · rw [if_neg running]
      exact .finishes place (Bool.eq_false_of_not_eq_true running)
  | checking =>
    rw [place] at moved
    cases moved
    refine .turns _ _ _ _ (by rw [place]; rfl) ?_ fun _ => ⟨rfl, rfl⟩
    split <;> rfl
  | pausing =>
    rw [place] at moved
    cases moved
    exact .turns _ _ _ _ (by rw [place]; rfl) rfl fun _ => ⟨rfl, rfl⟩
  | _ =>
    rw [place] at moved
    cases moved

theorem step_effect {s t : Session} {a : Action} (moved : step s a = some t) : Effect s a t := by
  cases a with
  | line message =>
    simp only [step, Option.ite_none_right_eq_some, Option.some.injEq] at moved
    obtain ⟨reading, rfl⟩ := moved
    rw [Session.readLine]
    by_cases exits : message = literal "exit"
    · rw [if_pos exits]
      exact .leaves _ reading
    · rw [if_neg exits]
      by_cases able : s.isConnected = true ∧ s.sock ≠ none
      · rw [if_pos able]
        exact .takes message reading able.1 able.2
      · rw [if_neg able]
        exact .refuses message reading able
  | endOfInput =>
    simp only [step, Option.ite_none_right_eq_some, Option.some.injEq] at moved
    obtain ⟨reading, rfl⟩ := moved
    exact .leaves _ reading
  | send taken =>
    simp only [step, Session.sendStep] at moved
    split at moved
    case h_1 message sending =>
      cases moved
      refine .settles taken message sending _ ?_ ?_
      · cases taken <;> simp
      · rintro bytes sent
        cases taken with
        | none => cases sent
        | some n =>
          cases sent
          exact List.take_prefix n message
    case h_2 => cases moved
  | brokenPipe =>
    simp only [step] at moved
    split at moved
    case h_1 message sending =>
      rw [Option.ite_none_right_eq_some] at moved
      obtain ⟨_, moved⟩ := moved
      cases moved
      exact .dies message sending
    case h_2 => cases moved
  | main =>
    simp only [step, Session.mainStep] at moved
    split at moved
    case h_1 joining =>
      rw [Option.ite_none_right_eq_some] at moved
      obtain ⟨finished, moved⟩ := moved
      cases moved
      refine .joins joining ?_
      rcases finished with finished | finished <;> rw [finished] <;> rfl
    case h_2 closing =>
      cases moved
      exact .closes closing
    case h_3 => cases moved
  | receiver =>
    simp only [step, Option.ite_none_right_eq_some] at moved
    exact receiverStep_effect moved.2
  | receive r =>
    simp only [step, Option.ite_none_right_eq_some, Option.some.injEq] at moved
    obtain ⟨⟨_, receiving, _⟩, rfl⟩ := moved
    exact receive_effect receiving

/-- What `run` has opened: nothing that works, or a socket with a receiver on it. -/
structure Begun (o : Session) : Prop where
  reading : o.main = .reading
  clean : o.typed = [] ∧ o.log = [] ∧ o.lines = [] ∧ o.closes = 0
  receiver_inLoop : o.receiver.inLoop = o.isConnected
  running_eq : o.running = o.isConnected
  connected_open : o.isConnected = true → o.sock ≠ none

theorem start_begun (protocol : Protocol) (a : ClientLifecycle.Attempt) (buffer : ByteString) :
    Begun (start protocol a buffer) := by
  have run_begun (sock : Option Fd) (ready : Bool) :
      let s := (ClientLifecycle.initial protocol).establish sock ready
      (if s.receiverThread = .joinable then ReceiverPc.testing else .absent).inLoop =
        s.isConnected ∧ s.running = s.isConnected ∧ (s.isConnected = true → s.sock ≠ none) := by
    cases sock with
    | none => exact ⟨rfl, rfl, by rintro ⟨⟩⟩
    | some fd =>
      cases ready with
      | false => exact ⟨rfl, rfl, by rintro ⟨⟩⟩
      | true => exact ⟨rfl, rfl, fun _ => by rintro ⟨⟩⟩
  cases protocol with
  | tcp =>
    obtain ⟨inLoop, running, connected⟩ := run_begun a.socket a.connect
    exact ⟨rfl, ⟨rfl, rfl, rfl, rfl⟩, inLoop, running, connected⟩
  | udp =>
    obtain ⟨inLoop, running, connected⟩ := run_begun a.socket a.bind
    exact ⟨rfl, ⟨rfl, rfl, rfl, rfl⟩, inLoop, running, connected⟩

/-- The socket and its two users, since the state `o` that `run` left. -/
structure Linked (o s : Session) : Prop where
  protocol_eq : s.protocol = o.protocol
  sock_eq : s.sock = if s.main = .returned then none else o.sock
  closes_eq : s.closes = if s.main = .returned ∧ o.sock ≠ none then 1 else 0
  connected_open : s.isConnected = true → s.main ≠ .returned ∧ o.sock ≠ none
  inLoop_connected : s.receiver.inLoop = true → s.isConnected = true
  joined : s.main = .closing ∨ s.main = .returned → s.receiver.inLoop = false
  running_eq : s.running = (o.running && s.main.serving)
  sending_open : ∀ message, s.main = .sending message → o.sock ≠ none
  datagrams_stay : o.isConnected = true → s.main ≠ .returned → s.protocol = .udp →
    s.isConnected = true

theorem Begun.linked {o : Session} (begun : Begun o) : Linked o o where
  protocol_eq := rfl
  sock_eq := by simp [begun.reading]
  closes_eq := by simp [begun.reading, begun.clean.2.2.2]
  connected_open connected := ⟨by simp [begun.reading], begun.connected_open connected⟩
  inLoop_connected inLoop := begun.receiver_inLoop ▸ inLoop
  joined := by simp [begun.reading]
  running_eq := by simp [begun.reading, MainPc.serving]
  sending_open := by simp [begun.reading]
  datagrams_stay connected _ _ := connected

/-- A move of the main thread before it closes the socket. -/
theorem Linked.goto {o s t : Session} (h : Linked o s) (before : s.main ≠ .returned)
    (after : t.main ≠ .returned) (protocol : t.protocol = s.protocol) (sock : t.sock = s.sock)
    (closes : t.closes = s.closes) (connected : t.isConnected = s.isConnected)
    (receiver : t.receiver = s.receiver) (running : t.running = (o.running && t.main.serving))
    (joined : t.main = .closing → s.receiver.inLoop = false)
    (sending : ∀ message, t.main = .sending message → o.sock ≠ none) : Linked o t where
  protocol_eq := protocol.trans h.protocol_eq
  sock_eq := by rw [sock, h.sock_eq, if_neg before, if_neg after]
  closes_eq := by
    rw [closes, h.closes_eq, if_neg fun both => before both.1, if_neg fun both => after both.1]
  connected_open up := ⟨after, (h.connected_open (connected ▸ up)).2⟩
  inLoop_connected inLoop := by
    rw [connected]
    exact h.inLoop_connected (receiver ▸ inLoop)
  joined at_end := by
    rw [receiver]
    exact joined (at_end.resolve_right after)
  running_eq := running
  sending_open := sending
  datagrams_stay up _ datagrams := by
    rw [connected]
    exact h.datagrams_stay up before (protocol ▸ datagrams)

/-- A move of the receiver. -/
theorem Linked.receive {o s t : Session} (h : Linked o s) (protocol : t.protocol = s.protocol)
    (sock : t.sock = s.sock) (closes : t.closes = s.closes) (main : t.main = s.main)
    (running : t.running = s.running) (was : s.receiver.inLoop = true)
    (connected : t.isConnected = true → s.isConnected = true)
    (inLoop : t.receiver.inLoop = true → t.isConnected = true)
    (kept : s.protocol = .udp → t.isConnected = s.isConnected) : Linked o t where
  protocol_eq := protocol.trans h.protocol_eq
  sock_eq := by rw [sock, main, h.sock_eq]
  closes_eq := by rw [closes, main, h.closes_eq]
  connected_open up := by
    rw [main]
    exact h.connected_open (connected up)
  inLoop_connected := inLoop
  joined at_end := by
    have finished := h.joined (main ▸ at_end)
    rw [was] at finished
    cases finished
  running_eq := by rw [running, main, h.running_eq]
  sending_open message place := h.sending_open message (main ▸ place)
  datagrams_stay up live datagrams := by
    rw [protocol] at datagrams
    rw [kept datagrams]
    exact h.datagrams_stay up (main ▸ live) datagrams

theorem step_linked {o : Session} (s : Session) (a : Action) (t : Session) (h : Linked o s)
    (moved : step s a = some t) : Linked o t := by
  have serving {pc : MainPc} (place : s.main = pc) : s.running = (o.running && pc.serving) :=
    place ▸ h.running_eq
  cases step_effect moved with
  | leaves a reading =>
    refine h.goto (by simp [reading]) (by simp [Session.leave]) rfl rfl rfl rfl rfl ?_ ?_ ?_
    · simp [Session.leave, MainPc.serving]
    · simp [Session.leave]
    · simp [Session.leave]
  | takes message reading connected held =>
    exact h.goto (by simp [reading]) (by simp) rfl rfl rfl rfl rfl (serving reading :) (by simp)
      fun _ _ => (h.connected_open connected).2
  | refuses message reading unable =>
    exact h.goto (by simp [reading]) (by simp [reading]) rfl rfl rfl rfl rfl h.running_eq
      (by simp [reading]) (by simp [reading])
  | settles taken message sending attempt =>
    exact h.goto (by simp [sending]) (by simp) rfl rfl rfl rfl rfl (serving sending :) (by simp)
      (by simp)
  | dies message sending =>
    exact h.goto (by simp [sending]) (by simp) rfl rfl rfl rfl rfl (serving sending :) (by simp)
      (by simp)
  | joins joining finished =>
    exact h.goto (by simp [joining]) (by simp) rfl rfl rfl rfl rfl (serving joining :)
      (fun _ => finished) (by simp)
  | closes closing =>
    have held : s.sock = o.sock := by simp [h.sock_eq, closing]
    have unclosed : s.closes = 0 := by simp [h.closes_eq, closing]
    refine ⟨h.protocol_eq, rfl, ?_, by simp, ?_, ?_, (serving closing :), by simp, by simp⟩
    · simp only [held, unclosed, true_and]
      by_cases empty : o.sock = none <;> simp [empty]
    · intro inLoop
      rw [h.joined (Or.inl closing)] at inLoop
      cases inLoop
    · exact fun _ => h.joined (Or.inl closing)
  | turns a lines buffer pc inLoop stays =>
    exact h.receive rfl rfl rfl rfl rfl inLoop id (fun _ => h.inLoop_connected inLoop) fun _ => rfl
  | finishes testing stopped =>
    exact h.receive rfl rfl rfl rfl rfl (by rw [testing]; rfl) id (by rintro ⟨⟩) fun _ => rfl
  | drops r report receiving stream =>
    refine h.receive rfl rfl rfl rfl rfl (by rw [receiving]; rfl) (by rintro ⟨⟩) (by rintro ⟨⟩) ?_
    intro datagrams
    rw [stream] at datagrams
    cases datagrams

/-- What has become of the lines read so far: each was attempted once and in order, what was
taken of it is its beginning, and nothing is sent once a line has been refused. -/
structure Settled (o s : Session) : Prop where
  attempted : s.log.map Prod.fst ++ s.main.pending = s.typed
  parts : ∀ message bytes, (message, .sent bytes) ∈ s.log → bytes <+: message
  refused_last : s.log.Pairwise fun x y => x.2 = .refused → y.2 = .refused
  connected_unrefused : s.isConnected = true ∨ s.main.pending ≠ [] → ∀ x ∈ s.log, x.2 ≠ .refused
  datagrams_unrefused : o.isConnected = true → s.protocol = .udp → ∀ x ∈ s.log, x.2 ≠ .refused
  begun : s.isConnected = true ∨ s.main.pending ≠ [] → o.isConnected = true
  unbegun_refused : o.isConnected = false → ∀ x ∈ s.log, x.2 = .refused

theorem Begun.settled {o : Session} (begun : Begun o) : Settled o o := by
  obtain ⟨typed, log, _, _⟩ := begun.clean
  have idle : o.main.pending = [] := by rw [begun.reading]; rfl
  constructor <;> simp [typed, log, idle]

/-- A step that settles nothing and reads nothing. -/
theorem Settled.keep {o s t : Session} (h : Settled o s) (typed : t.typed = s.typed)
    (log : t.log = s.log) (pending : t.main.pending = s.main.pending)
    (connected : t.isConnected = true → s.isConnected = true) (protocol : t.protocol = s.protocol) :
    Settled o t where
  attempted := by rw [log, pending, typed, h.attempted]
  parts := log ▸ h.parts
  refused_last := log ▸ h.refused_last
  connected_unrefused active := by
    rw [log]
    exact h.connected_unrefused (active.imp connected (pending ▸ ·))
  datagrams_unrefused up datagrams := by
    rw [log]
    exact h.datagrams_unrefused up (protocol ▸ datagrams)
  begun active := h.begun (active.imp connected (pending ▸ ·))
  unbegun_refused failed := log ▸ h.unbegun_refused failed

theorem takes_settled {o s : Session} (h : Settled o s) (reading : s.main = .reading)
    (connected : s.isConnected = true) (message : ByteString) :
    Settled o { s with typed := s.typed ++ [message], main := .sending message } where
  attempted := by
    have idle := h.attempted
    rw [reading] at idle
    simpa [MainPc.pending] using congrArg (· ++ [message]) idle
  parts := h.parts
  refused_last := h.refused_last
  connected_unrefused _ := h.connected_unrefused (Or.inl connected)
  datagrams_unrefused := h.datagrams_unrefused
  begun _ := h.begun (Or.inl connected)
  unbegun_refused := h.unbegun_refused

theorem refuses_settled {o s : Session} (linked : Linked o s) (h : Settled o s)
    (reading : s.main = .reading) (unable : ¬ (s.isConnected = true ∧ s.sock ≠ none))
    (message : ByteString) :
    Settled o { s with
      typed := s.typed ++ [message], log := s.log ++ [(message, .refused)] } := by
  have live : s.main ≠ .returned := by simp [reading]
  have down : s.isConnected = false := by
    by_contra up
    have up := Bool.eq_true_of_not_eq_false up
    refine unable ⟨up, ?_⟩
    rw [linked.sock_eq, if_neg live]
    exact (linked.connected_open up).2
  have idle : s.main.pending = [] := by rw [reading]; rfl
  constructor
  case attempted =>
    have before := h.attempted
    rw [idle, List.append_nil] at before
    simp [idle, before]
  case parts =>
    intro m bytes sent
    rcases List.mem_append.mp sent with old | new
    · exact h.parts m bytes old
    · simp at new
  case refused_last =>
    refine List.pairwise_append.mpr ⟨h.refused_last, List.pairwise_singleton _ _, ?_⟩
    intro x _ y last _
    rw [List.mem_singleton.mp last]
  case connected_unrefused => simp [down, idle]
  case datagrams_unrefused =>
    intro up datagrams
    rw [linked.datagrams_stay up live datagrams] at down
    cases down
  case begun => simp [down, idle]
  case unbegun_refused =>
    intro failed x mem
    rcases List.mem_append.mp mem with old | new
    · exact h.unbegun_refused failed x old
    · rw [List.mem_singleton.mp new]

theorem settles_settled {o s : Session} (h : Settled o s) {message : ByteString}
    (sending : s.main = .sending message) {attempt : Attempt} (made : attempt ≠ .refused)
    (part : ∀ bytes, attempt = .sent bytes → bytes <+: message) :
    Settled o { s with log := s.log ++ [(message, attempt)], main := .reading } := by
  have busy : s.main.pending ≠ [] := by simp [sending, MainPc.pending]
  have unrefused := h.connected_unrefused (Or.inr busy)
  have begun := h.begun (Or.inr busy)
  have all : ∀ x ∈ s.log ++ [(message, attempt)], x.2 ≠ .refused := by
    intro x mem
    rcases List.mem_append.mp mem with old | new
    · exact unrefused x old
    · rw [List.mem_singleton.mp new]
      exact made
  constructor
  case attempted =>
    have before := h.attempted
    rw [sending] at before
    simpa [MainPc.pending] using before
  case parts =>
    intro m bytes sent
    rcases List.mem_append.mp sent with old | new
    · exact h.parts m bytes old
    · obtain ⟨rfl, rfl⟩ := Prod.mk.inj (List.mem_singleton.mp new)
      exact part bytes rfl
  case refused_last =>
    refine List.Pairwise.imp_of_mem ?_ (List.pairwise_of_forall fun _ _ => trivial)
    exact fun {x y} mem _ _ refused => absurd refused (all x mem)
  case connected_unrefused => exact fun _ => all
  case datagrams_unrefused => exact fun _ _ => all
  case begun => exact fun _ => begun
  case unbegun_refused =>
    intro failed
    rw [begun] at failed
    cases failed

theorem step_settled {o : Session} (s : Session) (a : Action) (t : Session) (linked : Linked o s)
    (h : Settled o s) (moved : step s a = some t) : Settled o t := by
  cases step_effect moved with
  | leaves a reading => exact h.keep rfl rfl (by rw [reading]; rfl) id rfl
  | takes message reading connected held => exact takes_settled h reading connected message
  | refuses message reading unable => exact refuses_settled linked h reading unable message
  | settles taken message sending attempt made part => exact settles_settled h sending made part
  | dies message sending => exact h.keep rfl rfl (by rw [sending]; rfl) id rfl
  | joins joining finished => exact h.keep rfl rfl (by rw [joining]; rfl) id rfl
  | closes closing => exact h.keep rfl rfl (by rw [closing]; rfl) (by rintro ⟨⟩) rfl
  | turns a lines buffer pc inLoop stays => exact h.keep rfl rfl rfl id rfl
  | finishes testing stopped => exact h.keep rfl rfl rfl id rfl
  | drops r report receiving stream => exact h.keep rfl rfl rfl (by rintro ⟨⟩) rfl

/-- Carried by every session. -/
structure Sound (o s : Session) : Prop where
  linked : Linked o s
  settled : Settled o s

theorem step_sound {o : Session} (s : Session) (a : Action) (t : Session) (h : Sound o s)
    (moved : step s a = some t) : Sound o t :=
  ⟨step_linked s a t h.linked moved, step_settled s a t h.linked h.settled moved⟩

theorem reachable_sound {protocol : Protocol} {a : ClientLifecycle.Attempt} {buffer : ByteString}
    {s : Session} (reachable : Reachable step (start protocol a buffer) s) :
    Sound (start protocol a buffer) s :=
  reachable_invariant step_sound
    ⟨(start_begun protocol a buffer).linked, (start_begun protocol a buffer).settled⟩ reachable

/-- The action is a `recv`, `recvfrom`, `send` or `sendto`. -/
def UsesSocket : Action → Prop
  | .send _ => True
  | .brokenPipe => True
  | .receive _ => True
  | _ => False

/-- Both threads use only the socket that `run` opened, and only while it is open; it is
closed once, and not before the receiver is gone; and the receiver never finds itself
without a connection, so its longer pause is never taken. -/
structure SocketSafe (o s : Session) : Prop where
  used_open : ∀ a t, step s a = some t → UsesSocket a →
    s.sock = o.sock ∧ o.sock ≠ none ∧ s.closes = 0
  closed_once : s.main = .returned → s.sock = none ∧ s.receiver.inLoop = false ∧
    s.closes = if o.sock = none then 0 else 1
  connected_in_loop : s.receiver.inLoop = true → s.isConnected = true ∧ s.sock ≠ none

theorem Linked.sock_open {o s : Session} (h : Linked o s) (live : s.main ≠ .returned) :
    s.sock = o.sock ∧ s.closes = 0 := by
  rw [h.sock_eq, h.closes_eq, if_neg live, if_neg fun both => live both.1]
  exact ⟨rfl, rfl⟩

theorem Linked.inLoop_open {o s : Session} (h : Linked o s) (inLoop : s.receiver.inLoop = true) :
    s.main ≠ .returned ∧ o.sock ≠ none :=
  h.connected_open (h.inLoop_connected inLoop)

theorem uses_open {o s t : Session} {a : Action} (h : Linked o s) (moved : step s a = some t)
    (uses : UsesSocket a) : s.main ≠ .returned ∧ o.sock ≠ none := by
  cases step_effect moved with
  | settles taken message sending => exact ⟨by simp [sending], h.sending_open message sending⟩
  | dies message sending => exact ⟨by simp [sending], h.sending_open message sending⟩
  | drops r report receiving => exact h.inLoop_open (by rw [receiving]; rfl)
  | turns a lines buffer pc inLoop => exact h.inLoop_open inLoop
  | leaves a reading =>
    cases a with
    | send taken => simp [step, Session.sendStep, reading] at moved
    | brokenPipe => simp [step, reading] at moved
    | receive r =>
      simp only [step, Option.ite_none_right_eq_some] at moved
      exact h.inLoop_open (by rw [moved.1.2.1]; rfl)
    | _ => cases uses
  | _ => cases uses

theorem socket_safe {protocol : Protocol} {a : ClientLifecycle.Attempt} {buffer : ByteString}
    {s : Session} (reachable : Reachable step (start protocol a buffer) s) :
    SocketSafe (start protocol a buffer) s := by
  have h := (reachable_sound reachable).linked
  constructor
  · intro b t moved uses
    obtain ⟨live, held⟩ := uses_open h moved uses
    obtain ⟨sock, unclosed⟩ := h.sock_open live
    exact ⟨sock, held, unclosed⟩
  · intro returned
    refine ⟨by rw [h.sock_eq, if_pos returned], h.joined (Or.inr returned), ?_⟩
    rw [h.closes_eq]
    by_cases empty : (start protocol a buffer).sock = none <;> simp [empty, returned]
  · intro inLoop
    obtain ⟨live, held⟩ := h.inLoop_open inLoop
    exact ⟨h.inLoop_connected inLoop, (h.sock_open live).1 ▸ held⟩

/-- The server goes away while a line is being sent, then the user leaves. -/
def fading : List Action :=
  [.receiver, .line (literal "hi"), .receiver, .receive (.zero .other), .send (some 2),
   .line (literal "ho"), .line (literal "exit"), .main, .main]

theorem socket_safe_fading :
    ∃ s, run step (start .tcp ⟨some 3, true, true⟩ []) fading = some s ∧ s.main = .returned ∧
      SocketSafe (start .tcp ⟨some 3, true, true⟩ []) s := by
  obtain ⟨s, path, finished⟩ : ∃ s, run step (start .tcp ⟨some 3, true, true⟩ []) fading = some s ∧
      s.main = .returned := ⟨_, rfl, rfl⟩
  exact ⟨s, path, finished, socket_safe ⟨_, path⟩⟩

theorem lines_settled {protocol : Protocol} {a : ClientLifecycle.Attempt} {buffer : ByteString}
    {s : Session} (reachable : Reachable step (start protocol a buffer) s) :
    Settled (start protocol a buffer) s :=
  (reachable_sound reachable).settled

theorem lines_settled_fading :
    ∃ s, run step (start .tcp ⟨some 3, true, true⟩ []) fading = some s ∧
      s.log = [(literal "hi", .sent (literal "hi")), (literal "ho", .refused)] ∧
      Settled (start .tcp ⟨some 3, true, true⟩ []) s := by
  obtain ⟨s, path, log⟩ : ∃ s, run step (start .tcp ⟨some 3, true, true⟩ []) fading = some s ∧
      s.log = [(literal "hi", .sent (literal "hi")), (literal "ho", .refused)] := ⟨_, rfl, rfl⟩
  exact ⟨s, path, log, lines_settled ⟨_, path⟩⟩

def received : List Action → List Received
  | [] => []
  | .receive r :: rest => r :: received rest
  | _ :: rest => received rest

theorem received_cons {a : Action} (silent : ∀ r, a ≠ .receive r) (rest : List Action) :
    received (a :: rest) = received rest := by
  cases a with
  | receive r => exact absurd rfl (silent r)
  | _ => rfl

/-- What a non-blocking `recv` on a stream says. -/
def Received.poll : Received → Poll
  | .bytes chunk => .data chunk
  | .zero _ => .closed
  | .error .wouldBlock => .wouldBlock
  | .error .other => .failed

/-- The line for one datagram or for its absence; the receiver goes on in any case. -/
def Received.datagramLine : Received → List Line
  | .bytes chunk => [if cString chunk = ackMessage then .delivered else .received (cString chunk)]
  | .zero .wouldBlock => []
  | .error .wouldBlock => []
  | _ => [.receiveError]

def linesFor (protocol : Protocol) (buffer : ByteString) (rs : List Received) : List Line :=
  match protocol with
  | .tcp => receiveMessages buffer (rs.map Received.poll)
  | .udp => rs.flatMap Received.datagramLine

/-- A receiver that has left its loop receives nothing more. -/
theorem received_gone {s t : Session} {actions : List Action} (gone : s.receiver = .returned)
    (path : run step s actions = some t) : received actions = [] := by
  induction actions generalizing s with
  | nil => rfl
  | cons a rest ih =>
    obtain ⟨mid, moved, later⟩ := run_cons_iff.mp path
    have out : s.receiver.inLoop = false := by rw [gone]; rfl
    have still : mid.receiver = .returned := by
      cases step_effect moved with
      | turns a lines buffer pc inLoop =>
        rw [out] at inLoop
        cases inLoop
      | finishes testing stopped => rfl
      | drops r report receiving => rfl
      | _ => exact gone
    cases a with
    | receive r =>
      simp only [step, Option.ite_none_right_eq_some, gone] at moved
      obtain ⟨⟨_, receiving, _⟩, _⟩ := moved
      cases receiving
    | _ => exact ih still later

/-- Other actions than `recv` print nothing. -/
theorem silent_step {s t : Session} {a : Action} (silent : ∀ r, a ≠ .receive r)
    (moved : step s a = some t) :
    t.protocol = s.protocol ∧ t.buffer = s.buffer ∧ t.lines = s.lines := by
  cases step_effect moved with
  | turns a lines buffer pc inLoop stays kept =>
    obtain ⟨rfl, rfl⟩ := kept silent
    exact ⟨rfl, rfl, rfl⟩
  | drops r report => exact absurd rfl (silent r)
  | _ => exact ⟨rfl, rfl, rfl⟩

/-- One result of `recv` is printed as the first of those that follow. -/
theorem receive_prints (s : Session) (r : Received) (rest : List Received)
    (later : (s.receive r).receiver = .returned → rest = []) :
    (s.receive r).protocol = s.protocol ∧
      (s.receive r).lines ++ linesFor s.protocol (s.receive r).buffer rest =
        s.lines ++ linesFor s.protocol s.buffer (r :: rest) := by
  cases stream : s.protocol with
  | tcp =>
    rw [Session.receive, stream] at later ⊢
    cases r with
    | bytes chunk =>
      refine ⟨stream, ?_⟩
      simp [Session.receiveTcp, Session.print, linesFor, receiveMessages, Received.poll]
    | zero errno =>
      rw [later rfl]
      exact ⟨stream, List.append_nil _⟩
    | error errno =>
      cases errno with
      | wouldBlock => exact ⟨stream, rfl⟩
      | other =>
        rw [later rfl]
        exact ⟨stream, List.append_nil _⟩
  | udp =>
    rw [Session.receive, stream]
    refine ⟨?_, ?_⟩
    · cases r with
      | bytes chunk => exact stream
      | zero errno => cases errno <;> exact stream
      | error errno => cases errno <;> exact stream
    · rw [linesFor, linesFor, List.flatMap_cons, ← List.append_assoc]
      congr 1
      cases r with
      | bytes chunk =>
        simp only [Session.receiveUdp, Session.print, Received.datagramLine, cString_fillBuffer]
      | zero errno => cases errno <;> simp [Session.receiveUdp, Received.datagramLine]
      | error errno => cases errno <;> simp [Session.receiveUdp, Received.datagramLine]

/-- Whatever the main thread does in between, the receiver prints what `receive_messages`
makes of the results of its own system calls. -/
theorem session_prints {s t : Session} {actions : List Action}
    (path : run step s actions = some t) :
    t.lines = s.lines ++ linesFor s.protocol s.buffer (received actions) := by
  induction actions generalizing s with
  | nil =>
    cases path
    cases protocol : t.protocol <;> simp [received, linesFor, receiveMessages]
  | cons a rest ih =>
    obtain ⟨mid, moved, later⟩ := run_cons_iff.mp path
    rw [ih later]
    by_cases reads : ∃ r, a = .receive r
    · obtain ⟨r, rfl⟩ := reads
      simp only [step, Option.ite_none_right_eq_some, Option.some.injEq] at moved
      obtain ⟨_, rfl⟩ := moved
      obtain ⟨protocol, lines⟩ := receive_prints s r (received rest) fun gone =>
        received_gone gone later
      rw [protocol]
      exact lines
    · have silent : ∀ r, a ≠ .receive r := fun r same => reads ⟨r, same⟩
      obtain ⟨protocol, buffer, lines⟩ := silent_step silent moved
      rw [protocol, buffer, lines, received_cons silent]

/-- Two chunks and the end of the stream, around a line of the user's. -/
theorem session_prints_fading :
    ∃ t, run step (start .tcp ⟨some 3, true, true⟩ []) fading = some t ∧
      t.lines = [] ++ linesFor .tcp [] (received fading) := by
  obtain ⟨t, path⟩ : ∃ t, run step (start .tcp ⟨some 3, true, true⟩ []) fading = some t := ⟨_, rfl⟩
  exact ⟨t, path, session_prints path⟩

/-- The bytes that the network has taken from the client. -/
def sentBytes (log : List (ByteString × Attempt)) : ByteString :=
  log.flatMap fun x => match x.2 with
    | .sent bytes => bytes
    | _ => []

def Received.chunk : Received → List ByteString
  | .bytes chunk => [chunk]
  | _ => []

/-- The chunks that the client has received. -/
def chunks (actions : List Action) : List ByteString :=
  (received actions).flatMap Received.chunk

/-- The text that a line repeats: a delivery repeats the acknowledgement. -/
def lineText : Line → ByteString
  | .delivered => ackMessage
  | .received message => message
  | _ => []

theorem lineText_print (message : ByteString) :
    lineText (if message = ackMessage then .delivered else .received message) = message := by
  by_cases ack : message = ackMessage
  · rw [if_pos ack, ack, lineText]
  · rw [if_neg ack, lineText]

theorem receive_text (s : Session) (r : Received) :
    (s.receive r).lines.flatMap lineText =
      s.lines.flatMap lineText ++ (r.chunk.map cString).flatten := by
  rw [Session.receive]
  cases s.protocol with
  | tcp =>
    cases r with
    | bytes chunk =>
      simp [Session.receiveTcp, Session.print, lineText_print, cString_fillBuffer, Received.chunk]
    | zero errno => simp [Session.receiveTcp, Session.drop, lineText, Received.chunk]
    | error errno =>
      cases errno <;> simp [Session.receiveTcp, Session.drop, lineText, Received.chunk]
  | udp =>
    cases r with
    | bytes chunk =>
      simp [Session.receiveUdp, Session.print, lineText_print, cString_fillBuffer, Received.chunk]
    | zero errno => cases errno <;> simp [Session.receiveUdp, lineText, Received.chunk]
    | error errno => cases errno <;> simp [Session.receiveUdp, lineText, Received.chunk]

/-- The printed lines repeat what has been received, each chunk up to its first NUL. -/
theorem session_text {s t : Session} {actions : List Action} (path : run step s actions = some t) :
    t.lines.flatMap lineText =
      s.lines.flatMap lineText ++ ((chunks actions).map cString).flatten := by
  induction actions generalizing s with
  | nil =>
    cases path
    exact (List.append_nil _).symm
  | cons a rest ih =>
    obtain ⟨mid, moved, later⟩ := run_cons_iff.mp path
    rw [ih later]
    by_cases reads : ∃ r, a = .receive r
    · obtain ⟨r, rfl⟩ := reads
      simp only [step, Option.ite_none_right_eq_some, Option.some.injEq] at moved
      obtain ⟨_, rfl⟩ := moved
      rw [receive_text, chunks, chunks, received, List.flatMap_cons, List.map_append,
        List.flatten_append, List.append_assoc]
    · have silent : ∀ r, a ≠ .receive r := fun r same => reads ⟨r, same⟩
      rw [(silent_step silent moved).2.2, chunks, chunks, received_cons silent]

def mainLeft : MainPc → Nat
  | .joining => 2
  | .closing => 1
  | _ => 0

/-- The steps of the receiver until it finds `running` cleared. -/
def receiverLeft : ReceiverPc → Nat
  | .testing => 1
  | .pausing => 2
  | .receiving => 3
  | .checking => 4
  | _ => 0

def stepsLeft (s : Session) : Nat := mainLeft s.main + receiverLeft s.receiver

/-- `main` has left the message loop and is in `stop` or past it. -/
structure Leaving (o s : Session) : Prop where
  sound : Sound o s
  left : s.main = .joining ∨ s.main = .closing ∨ s.main = .returned

theorem Leaving.stopped {o s : Session} (h : Leaving o s) : s.running = false := by
  rw [h.sound.linked.running_eq]
  rcases h.left with place | place | place <;> simp [place, MainPc.serving]

theorem step_leaving {o : Session} (s : Session) (a : Action) (t : Session) (h : Leaving o s)
    (moved : step s a = some t) : Leaving o t := by
  refine ⟨step_sound s a t h.sound moved, ?_⟩
  have left := h.left
  cases step_effect moved with
  | leaves a reading => simp [reading] at left
  | takes message reading => simp [reading] at left
  | refuses message reading => simp [reading] at left
  | settles taken message sending => simp [sending] at left
  | dies message sending => simp [sending] at left
  | joins joining finished => exact Or.inr (Or.inl rfl)
  | closes closing => exact Or.inr (Or.inr rfl)
  | turns a lines buffer pc => exact left
  | finishes testing stopped => exact left
  | drops r report receiving => exact left

theorem receiverStep_left {s t : Session} (stopped : s.running = false)
    (moved : s.receiverStep = some t) :
    t.main = s.main ∧ receiverLeft t.receiver + 1 ≤ receiverLeft s.receiver := by
  simp only [Session.receiverStep] at moved
  cases place : s.receiver with
  | testing =>
    rw [place] at moved
    cases moved
    simp [stopped, receiverLeft]
  | checking =>
    rw [place] at moved
    cases moved
    refine ⟨rfl, ?_⟩
    dsimp only
    split <;> decide
  | pausing =>
    rw [place] at moved
    cases moved
    exact ⟨rfl, le_rfl⟩
  | _ =>
    rw [place] at moved
    cases moved

theorem receive_left (s : Session) (r : Received) :
    (s.receive r).main = s.main ∧ receiverLeft (s.receive r).receiver ≤ 2 := by
  rw [Session.receive]
  cases s.protocol with
  | tcp =>
    cases r with
    | bytes chunk => exact ⟨rfl, le_rfl⟩
    | zero errno => exact ⟨rfl, Nat.zero_le 2⟩
    | error errno =>
      cases errno with
      | wouldBlock => exact ⟨rfl, le_rfl⟩
      | other => exact ⟨rfl, Nat.zero_le 2⟩
  | udp =>
    cases r with
    | bytes chunk => exact ⟨rfl, le_rfl⟩
    | zero errno => cases errno <;> exact ⟨rfl, le_rfl⟩
    | error errno => cases errno <;> exact ⟨rfl, le_rfl⟩

/-- Past the message loop every step of either thread brings the client closer to its end. -/
theorem step_left {o : Session} (s : Session) (a : Action) (t : Session) (h : Leaving o s)
    (moved : step s a = some t) : stepsLeft t + 1 ≤ stepsLeft s := by
  have left := h.left
  cases a with
  | line message =>
    simp only [step, Option.ite_none_right_eq_some] at moved
    simp [moved.1] at left
  | endOfInput =>
    simp only [step, Option.ite_none_right_eq_some] at moved
    simp [moved.1] at left
  | send taken =>
    rcases left with place | place | place <;> simp [step, Session.sendStep, place] at moved
  | brokenPipe => rcases left with place | place | place <;> simp [step, place] at moved
  | main =>
    simp only [step, Session.mainStep] at moved
    rcases left with place | place | place
    · simp only [place, Option.ite_none_right_eq_some, Option.some.injEq] at moved
      obtain ⟨_, rfl⟩ := moved
      simp only [stepsLeft, place, mainLeft]
      omega
    · simp only [place, Option.some.injEq] at moved
      subst t
      simp only [stepsLeft, place, mainLeft]
      omega
    · simp [place] at moved
  | receiver =>
    simp only [step, Option.ite_none_right_eq_some] at moved
    obtain ⟨main, less⟩ := receiverStep_left h.stopped moved.2
    rw [stepsLeft, stepsLeft, main]
    omega
  | receive r =>
    simp only [step, Option.ite_none_right_eq_some, Option.some.injEq] at moved
    obtain ⟨⟨_, receiving, _⟩, rfl⟩ := moved
    obtain ⟨main, few⟩ := receive_left s r
    have three : receiverLeft s.receiver = 3 := by rw [receiving]; rfl
    rw [stepsLeft, stepsLeft, main]
    omega

theorem stepsLeft_le (s : Session) : stepsLeft s ≤ 6 := by
  have main : mainLeft s.main ≤ 2 := by cases s.main <;> simp [mainLeft]
  have receiver : receiverLeft s.receiver ≤ 4 := by cases s.receiver <;> decide
  exact Nat.add_le_add main receiver

/-- The join never waits for a receiver that cannot move: its `recv` does not block. -/
theorem leaving_moves {o s : Session} (h : Leaving o s) (unfinished : s.main ≠ .returned) :
    ∃ a t, step s a = some t := by
  rcases h.left with place | place | place
  · have alive : s.main.alive = true := by rw [place]; rfl
    cases receiver : s.receiver with
    | absent => exact ⟨.main, _, by simp only [step, Session.mainStep, place, receiver]; rfl⟩
    | returned => exact ⟨.main, _, by simp only [step, Session.mainStep, place, receiver]; rfl⟩
    | receiving =>
      exact ⟨.receive (.error .wouldBlock), _, if_pos ⟨alive, receiver, rfl⟩⟩
    | _ => exact ⟨.receiver, _, by simp only [step, alive, Session.receiverStep, receiver]; rfl⟩
  · exact ⟨.main, _, by simp only [step, Session.mainStep, place]; rfl⟩
  · exact absurd place unfinished

/-- Once the user has left, `main` and the receiver together take at most six more steps,
and there is one to take until `main` has returned, however much the server still sends. -/
structure Ends (s : Session) : Prop where
  bounded : ∀ actions t, run step s actions = some t → actions.length ≤ 6
  never_stuck : ∀ actions t, run step s actions = some t → t.main ≠ .returned →
    ∃ a u, step t a = some u

theorem ends {protocol : Protocol} {a : ClientLifecycle.Attempt} {buffer : ByteString}
    {s : Session} (reachable : Reachable step (start protocol a buffer) s)
    (joining : s.main = .joining) : Ends s := by
  have leaving : Leaving (start protocol a buffer) s :=
    ⟨reachable_sound reachable, Or.inl joining⟩
  constructor
  · intro actions t path
    have paid := run_cost_le step_leaving step_left leaving path
    have few := stepsLeft_le s
    rw [cost_one] at paid
    omega
  · intro actions t path unfinished
    exact leaving_moves (run_invariant step_leaving leaving path) unfinished

/-- The user leaves while the receiver is in `recv`. -/
theorem ends_receiving :
    ∃ s, run step (start .udp ⟨some 3, true, true⟩ [])
        [.line (literal "hi"), .receiver, .send (some 2), .receiver, .endOfInput] = some s ∧
      s.main = .joining ∧ Ends s := by
  obtain ⟨s, path, joining⟩ : ∃ s, run step (start .udp ⟨some 3, true, true⟩ [])
      [.line (literal "hi"), .receiver, .send (some 2), .receiver, .endOfInput] = some s ∧
      s.main = .joining := ⟨_, rfl, rfl⟩
  exact ⟨s, path, joining, ends ⟨_, path⟩ joining⟩

end ClientSession
