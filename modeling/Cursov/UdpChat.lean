import Cursov.ClientSession
import Cursov.UdpListen
import Cursov.Library.LossyNetwork

/-!
# The chat over UDP

Clients and server exchange datagrams through a network that may lose, copy and
reorder them. The server logs a datagram and acknowledges it to its sender; nothing
is relayed. Every datagram is accounted for, in any interleaving of the parties.
-/

namespace UdpChat

open Bytes Utilities Transition ChatStream UdpListen LossyNetwork
open ClientSession (Session)

/-- To the server with the address of its sender, or from the server. -/
inductive Mail where
  | request (sender : SockaddrIn) (bytes : ByteString)
  | reply (recipient : SockaddrIn) (bytes : ByteString)
  deriving DecidableEq

/-- What `recvfrom` makes of a datagram: at most 1023 bytes of it, nothing of an empty one. -/
def receipt (sender : SockaddrIn) (bytes : ByteString) : Receipt :=
  if nonempty : bytes = [] then .nothing
  else .datagram
    { sender := sender
      bytes := bytes.take 1023
      nonempty := by simpa using nonempty
      fits := by rw [List.length_take]; exact Nat.min_le_left _ _ }

/-- The datagrams that `udp_listen` sends. -/
def replies (effects : List Effect) : List Mail :=
  effects.filterMap fun
    | .log _ => none
    | .ack message recipient => some (.reply recipient message)

/-- A client is known by the address and port of its socket. `receipts` is what `recvfrom`
has returned to the server so far. -/
structure Chat where
  clients : SockaddrIn → Session
  receipts : List Receipt
  network : Network Mail

/-- The last four actions are those of the network. -/
inductive Action where
  | client (i : SockaddrIn) (a : ClientSession.Action)
  | send (i : SockaddrIn) (whole : Bool)
  | serve (k : Nat)
  | deliver (k : Nat)
  | lose (k : Nat)
  | copy (k : Nat)

/-- The steps of a client that touch no datagram. -/
def isLocal : ClientSession.Action → Bool
  | .send _ => false
  | .receive (.bytes _) => false
  | _ => true

def setClient (s : Chat) (i : SockaddrIn) (c : Session) : Chat :=
  { s with clients := Function.update s.clients i c }

section Runs

variable (beyond buffer : ByteString)

/-- What `udp_listen` has done; its buffer holds `buffer` at first. -/
def served (s : Chat) : List Effect := udpListen beyond buffer s.receipts

/-- `sendto` sends a datagram whole or fails. -/
def sendStep (s : Chat) (i : SockaddrIn) (whole : Bool) : Option Chat :=
  match (s.clients i).main with
  | .sending message =>
    (ClientSession.step (s.clients i) (.send (if whole then some message.length else none))).map
      fun c => { setClient s i c with
        network := s.network.post (if whole then [.request i message] else []) }
  | _ => none

def serveStep (s : Chat) (k : Nat) : Option Chat :=
  match s.network.take k with
  | some (.request sender bytes, network) => some { s with
      receipts := s.receipts ++ [receipt sender bytes]
      network := network.post
        (replies (udpListen beyond (bufferAfter buffer s.receipts) [receipt sender bytes])) }
  | _ => none

/-- The kernel hands a datagram to the socket that it is addressed to. -/
def deliverStep (s : Chat) (k : Nat) : Option Chat :=
  match s.network.take k with
  | some (.reply recipient bytes, network) =>
    (ClientSession.step (s.clients recipient) (.receive (.bytes bytes))).map fun c =>
      { setClient s recipient c with network := network }
  | _ => none

def step (s : Chat) : Action → Option Chat
  | .client i a =>
    if isLocal a then (ClientSession.step (s.clients i) a).map (setClient s i) else none
  | .send i whole => sendStep s i whole
  | .serve k => serveStep beyond buffer s k
  | .deliver k => deliverStep s k
  | .lose k => (s.network.lose k).map fun network => { s with network := network }
  | .copy k => (s.network.copy k).map fun network => { s with network := network }

end Runs

/-- The sessions have just been started; nothing is on its way. -/
def initial (sessions : SockaddrIn → Session) : Chat := ⟨sessions, [], .empty⟩

/-- The datagrams that a client has sent and that are not empty. -/
def isSent : ByteString × ClientSession.Attempt → Bool
  | (_, .sent bytes) => !bytes.isEmpty
  | _ => false

def sentBy (c : Session) : Nat := c.log.countP isSent

def notices (c : Session) : Nat := c.lines.count .delivered

/-- What a step that touches no datagram leaves alone. -/
structure Quiet (c c' : Session) : Prop where
  protocol_eq : c'.protocol = c.protocol
  log_grows : ∃ more, c'.log = c.log ++ more ∧ ∀ x ∈ more, x.2 = .refused
  lines_grow : ∃ more, c'.lines = c.lines ++ more ∧ ∀ line ∈ more, line = .receiveError

theorem Quiet.of_eq {c c' : Session} (protocol : c'.protocol = c.protocol) (log : c'.log = c.log)
    (lines : c'.lines = c.lines) : Quiet c c' where
  protocol_eq := protocol
  log_grows := ⟨[], by rw [log, List.append_nil], List.forall_mem_nil _⟩
  lines_grow := ⟨[], by rw [lines, List.append_nil], List.forall_mem_nil _⟩

theorem receive_quiet {c : Session} (datagrams : c.protocol = .udp) {r : ClientSession.Received}
    (empty : isLocal (.receive r) = true) : Quiet c (c.receive r) := by
  have reports (report : Line) (only : report = .receiveError) (pc : ClientSession.ReceiverPc) :
      Quiet c { c with lines := c.lines ++ [report], receiver := pc } := by
    refine ⟨rfl, ⟨[], (List.append_nil _).symm, List.forall_mem_nil _⟩, [report], rfl, ?_⟩
    exact fun line mem => (List.mem_singleton.mp mem).trans only
  rw [Session.receive, datagrams]
  cases r with
  | bytes chunk => cases empty
  | zero errno =>
    cases errno with
    | wouldBlock => exact .of_eq rfl rfl rfl
    | other => exact reports _ rfl _
  | error errno =>
    cases errno with
    | wouldBlock => exact .of_eq rfl rfl rfl
    | other => exact reports _ rfl _

theorem local_quiet {c c' : Session} {a : ClientSession.Action} (datagrams : c.protocol = .udp)
    (quiet : isLocal a = true) (moved : ClientSession.step c a = some c') : Quiet c c' := by
  by_cases receives : ∃ r, a = .receive r
  · obtain ⟨r, rfl⟩ := receives
    simp only [ClientSession.step, Option.ite_none_right_eq_some, Option.some.injEq] at moved
    rw [← moved.2]
    exact receive_quiet datagrams quiet
  · cases ClientSession.step_effect moved with
    | refuses message =>
      refine ⟨rfl, ⟨[(message, .refused)], rfl, ?_⟩, [], (List.append_nil _).symm,
        List.forall_mem_nil _⟩
      exact fun x mem => by rw [List.mem_singleton.mp mem]
    | settles => cases quiet
    | turns a lines buffer pc inLoop stays silent =>
      obtain ⟨rfl, rfl⟩ := silent fun r same => receives ⟨r, same⟩
      exact .of_eq rfl rfl rfl
    | drops r => exact absurd ⟨r, rfl⟩ receives
    | _ => exact .of_eq rfl rfl rfl

theorem Quiet.sentBy_eq {c c' : Session} (quiet : Quiet c c') : sentBy c' = sentBy c := by
  obtain ⟨more, grown, refused⟩ := quiet.log_grows
  have none : more.countP isSent = 0 := by
    refine List.countP_eq_zero.mpr fun x mem => ?_
    obtain ⟨message, attempt⟩ := x
    cases refused _ mem
    simp [isSent]
  rw [sentBy, grown, List.countP_append, none, sentBy, Nat.add_zero]

theorem Quiet.notices_eq {c c' : Session} (quiet : Quiet c c') : notices c' = notices c := by
  obtain ⟨more, grown, reports⟩ := quiet.lines_grow
  have none : more.count .delivered = 0 := by
    refine List.count_eq_zero.mpr fun mem => ?_
    cases reports _ mem
  rw [notices, grown, List.count_append, none, notices, Nat.add_zero]

theorem send_spec {c c' : Session} {message : ByteString} {whole : Bool}
    (sending : c.main = .sending message)
    (moved : ClientSession.step c (.send (if whole then some message.length else none)) = some c') :
    c'.protocol = c.protocol ∧
      c'.log = c.log ++ [(message, if whole then .sent message else .failed)] ∧
      c'.lines = c.lines := by
  simp only [ClientSession.step, Session.sendStep, sending, Option.some.injEq] at moved
  subst moved
  refine ⟨rfl, ?_, rfl⟩
  cases whole with
  | false => rfl
  | true => simp

theorem deliver_spec {c c' : Session} (datagrams : c.protocol = .udp)
    (moved : ClientSession.step c (.receive (.bytes ackMessage)) = some c') :
    c'.protocol = c.protocol ∧ c'.log = c.log ∧ c'.lines = c.lines ++ [.delivered] := by
  simp only [ClientSession.step, Option.ite_none_right_eq_some, Option.some.injEq] at moved
  obtain ⟨_, rfl⟩ := moved
  have text : cString (fillBuffer c.buffer ackMessage) = ackMessage := by
    rw [cString_fillBuffer, cString_eq_self_iff]
    decide
  rw [Session.receive, datagrams]
  refine ⟨datagrams, rfl, ?_⟩
  simp only [Session.receiveUdp, Session.print, text, if_true]

def acked (e : SockaddrIn) (effects : List Effect) : Nat := effects.count (.ack ackMessage e)

def isRequest (e : SockaddrIn) : Mail → Bool
  | .request sender bytes => decide (sender = e ∧ bytes ≠ [])
  | _ => false

def isReply (e : SockaddrIn) : Mail → Bool
  | .reply recipient _ => decide (recipient = e)
  | _ => false

theorem cString_prefix (text rest : ByteString) : cString text <+: cString (text ++ rest) := by
  by_cases clean : 0 ∈ text
  · rw [cString_append_of_nul clean]
  · rw [cString_append_of_clean clean, (cString_eq_self_iff text).mpr clean]
    exact List.prefix_append _ _

/-- A datagram with bytes is logged and acknowledged, an empty one is passed over. -/
theorem udpListen_receipt (beyond buffer : ByteString) (sender : SockaddrIn) (bytes : ByteString) :
    udpListen beyond buffer [receipt sender bytes] =
      if bytes = [] then []
      else [.log (logLine sender (cString (store buffer (bytes.take 1023) ++ beyond))),
        .ack ackMessage sender] := by
  rw [receipt]
  split <;> rfl

theorem acked_receipt (beyond buffer : ByteString) (sender e : SockaddrIn) (bytes : ByteString) :
    acked e (udpListen beyond buffer [receipt sender bytes]) =
      if isRequest e (.request sender bytes) then 1 else 0 := by
  rw [udpListen_receipt]
  by_cases empty : bytes = []
  · simp [empty, acked, isRequest]
  · by_cases own : sender = e <;> simp [empty, own, acked, isRequest]

theorem replies_receipt (beyond buffer : ByteString) (sender e : SockaddrIn) (bytes : ByteString) :
    (replies (udpListen beyond buffer [receipt sender bytes])).countP (isReply e) =
      if isRequest e (.request sender bytes) then 1 else 0 := by
  rw [udpListen_receipt]
  by_cases empty : bytes = []
  · simp [empty, replies, isRequest]
  · by_cases own : sender = e <;> simp [empty, own, replies, isRequest, isReply]

/-- A datagram of the chat: the sender has sent it, or it is an acknowledgement. -/
def Genuine (clients : SockaddrIn → Session) : Mail → Prop
  | .request sender bytes => (bytes, .sent bytes) ∈ (clients sender).log
  | .reply _ bytes => bytes = ackMessage

/-- The logged line starts with a message that the named client has sent. -/
def Attributed (clients : SockaddrIn → Session) : Effect → Prop
  | .log line => ∃ i message text, (message, .sent message) ∈ (clients i).log ∧
      line = logLine i text ∧ cString (message.take 1023) <+: text
  | .ack message _ => message = ackMessage

structure Sound (beyond buffer : ByteString) (s : Chat) : Prop where
  datagrams : ∀ i, (s.clients i).protocol = .udp
  genuine : s.network.Only (Genuine s.clients)
  attributed : ∀ effect ∈ served beyond buffer s, Attributed s.clients effect
  asked : ∀ i, sentBy (s.clients i) + s.network.made (isRequest i) =
    acked i (served beyond buffer s) + s.network.held (isRequest i)
  answered : ∀ i, acked i (served beyond buffer s) + s.network.made (isReply i) =
    notices (s.clients i) + s.network.held (isReply i)
  lines : ∀ i, ∀ line ∈ (s.clients i).lines, line = .delivered ∨ line = .receiveError

/-- What the clients have sent they stay the senders of. -/
def Grows (clients clients' : SockaddrIn → Session) : Prop :=
  ∀ i, ∀ x ∈ (clients i).log, x ∈ (clients' i).log

theorem Grows.genuine {clients clients' : SockaddrIn → Session} (grows : Grows clients clients')
    (mail : Mail) (genuine : Genuine clients mail) : Genuine clients' mail := by
  cases mail with
  | request sender bytes => exact grows sender _ genuine
  | reply recipient bytes => exact genuine

theorem Grows.attributed {clients clients' : SockaddrIn → Session}
    (grows : Grows clients clients') (effect : Effect) (attributed : Attributed clients effect) :
    Attributed clients' effect := by
  cases effect with
  | log line =>
    obtain ⟨i, message, text, sent, shown⟩ := attributed
    exact ⟨i, message, text, grows i _ sent, shown⟩
  | ack message recipient => exact attributed

theorem grows_update {clients : SockaddrIn → Session} {i : SockaddrIn} {c : Session}
    {more : List (ByteString × ClientSession.Attempt)} (log : c.log = (clients i).log ++ more) :
    Grows clients (Function.update clients i c) := by
  intro j x mem
  by_cases own : j = i
  · subst own
    rw [Function.update_self, log]
    exact List.mem_append_left _ mem
  · rwa [Function.update_of_ne own]

section Steps

variable {beyond buffer : ByteString} {s : Chat}

theorem served_concat (beyond buffer : ByteString) (s : Chat) (r : Receipt) :
    udpListen beyond buffer (s.receipts ++ [r]) = served beyond buffer s ++
      udpListen beyond (bufferAfter buffer s.receipts) [r] :=
  udpListen_append beyond buffer s.receipts [r]

/-- A client and the network change together, and the accounts with them. -/
theorem Sound.update (h : Sound beyond buffer s) {i : SockaddrIn} {c : Session}
    {network : Network Mail} (protocol : c.protocol = (s.clients i).protocol)
    (log : ∃ more, c.log = (s.clients i).log ++ more)
    (lines : ∃ more, c.lines = (s.clients i).lines ++ more ∧
      ∀ line ∈ more, line = .delivered ∨ line = .receiveError)
    (genuine : network.Only (Genuine (Function.update s.clients i c)))
    (asked : ∀ j, sentBy (Function.update s.clients i c j) + network.made (isRequest j) +
        s.network.held (isRequest j) =
      sentBy (s.clients j) + s.network.made (isRequest j) + network.held (isRequest j))
    (answered : ∀ j, notices (Function.update s.clients i c j) + network.held (isReply j) +
        s.network.made (isReply j) =
      notices (s.clients j) + s.network.held (isReply j) + network.made (isReply j)) :
    Sound beyond buffer { setClient s i c with network := network } := by
  obtain ⟨_, log⟩ := log
  constructor
  case datagrams =>
    refine (Function.forall_update_iff s.clients (p := fun _ c => c.protocol = .udp)).mpr ⟨?_, ?_⟩
    · exact protocol.trans (h.datagrams i)
    · exact fun j _ => h.datagrams j
  case genuine => exact genuine
  case attributed =>
    exact fun effect mem => (grows_update log).attributed effect (h.attributed effect mem)
  case asked =>
    intro j
    have before := h.asked j
    have moved := asked j
    simp only [served, setClient] at before ⊢
    omega
  case answered =>
    intro j
    have before := h.answered j
    have moved := answered j
    simp only [served, setClient] at before ⊢
    omega
  case lines =>
    refine (Function.forall_update_iff s.clients
      (p := fun _ c => ∀ line ∈ c.lines, line = .delivered ∨ line = .receiveError)).mpr ⟨?_, ?_⟩
    · obtain ⟨more, grown, kinds⟩ := lines
      rw [grown]
      exact List.forall_mem_append.mpr ⟨h.lines i, kinds⟩
    · exact fun j _ => h.lines j

/-- The network moves its datagrams about. -/
theorem Sound.setNetwork (h : Sound beyond buffer s) {network : Network Mail}
    (genuine : network.Only (Genuine s.clients))
    (account : ∀ p, network.held p + s.network.made p = s.network.held p + network.made p) :
    Sound beyond buffer { s with network := network } where
  datagrams := h.datagrams
  genuine := genuine
  attributed := h.attributed
  asked i := by
    have before := h.asked i
    have moved := account (isRequest i)
    simp only [served] at before ⊢
    omega
  answered i := by
    have before := h.answered i
    have moved := account (isReply i)
    simp only [served] at before ⊢
    omega
  lines := h.lines

theorem Sound.clientStep (h : Sound beyond buffer s) {i : SockaddrIn} {c : Session}
    (quiet : Quiet (s.clients i) c) : Sound beyond buffer (setClient s i c) := by
  obtain ⟨sent, log, _⟩ := quiet.log_grows
  obtain ⟨printed, lines, reports⟩ := quiet.lines_grow
  refine h.update quiet.protocol_eq ⟨sent, log⟩
    ⟨printed, lines, fun line mem => Or.inr (reports line mem)⟩
    (h.genuine.mono fun mail => (grows_update log).genuine mail) (fun j => ?_) fun j => ?_
  · by_cases own : j = i
    · rw [own, Function.update_self, quiet.sentBy_eq]
    · rw [Function.update_of_ne own]
  · by_cases own : j = i
    · rw [own, Function.update_self, quiet.notices_eq]
    · rw [Function.update_of_ne own]

/-- A datagram is posted for what is sent, and it is a request of its sender. -/
theorem posted_requests (e : SockaddrIn) (message : ByteString) (whole : Bool) :
    (if whole then [Mail.request e message] else []).countP (isRequest e) =
      [(message, if whole then ClientSession.Attempt.sent message else .failed)].countP isSent := by
  cases whole with
  | false => rfl
  | true => cases message <;> simp [isRequest, isSent]

theorem posted_other {e e' : SockaddrIn} (other : e ≠ e') (message : ByteString) (whole : Bool) :
    (if whole then [Mail.request e message] else []).countP (isRequest e') = 0 := by
  cases whole with
  | false => rfl
  | true => simp [isRequest, other]

theorem posted_replies (e e' : SockaddrIn) (message : ByteString) (whole : Bool) :
    (if whole then [Mail.request e message] else []).countP (isReply e') = 0 := by
  cases whole <;> rfl

theorem Sound.sendStep (h : Sound beyond buffer s) {i : SockaddrIn} {whole : Bool} {t : Chat}
    (moved : sendStep s i whole = some t) : Sound beyond buffer t := by
  rw [UdpChat.sendStep] at moved
  split at moved
  case h_2 => cases moved
  case h_1 message sending =>
    obtain ⟨c, stepped, rfl⟩ := Option.map_eq_some_iff.mp moved
    obtain ⟨protocol, log, lines⟩ := send_spec sending stepped
    have grows := grows_update log
    refine h.update protocol ⟨_, log⟩ ⟨[], by rw [lines, List.append_nil], List.forall_mem_nil _⟩
      (Network.Only.post (h.genuine.mono fun mail => grows.genuine mail) ?_) (fun j => ?_)
      fun j => ?_
    · intro mail mem
      cases whole with
      | false => cases mem
      | true =>
        rw [List.mem_singleton.mp mem, Genuine, Function.update_self, log]
        exact List.mem_append_right _ List.mem_cons_self
    · rw [Network.made_post, Network.held_post]
      by_cases own : j = i
      · rw [own, Function.update_self, posted_requests, sentBy, log, List.countP_append, sentBy]
        omega
      · rw [Function.update_of_ne own, posted_other fun same => own same.symm]
        omega
    · have notices_eq : notices (Function.update s.clients i c j) = notices (s.clients j) := by
        by_cases own : j = i
        · rw [own, Function.update_self, notices, lines, notices]
        · rw [Function.update_of_ne own]
      rw [notices_eq, Network.made_post, Network.held_post, posted_replies]
      omega

theorem Sound.serveStep (h : Sound beyond buffer s) {k : Nat} {t : Chat}
    (moved : serveStep beyond buffer s k = some t) : Sound beyond buffer t := by
  rw [UdpChat.serveStep] at moved
  split at moved
  case h_2 => cases moved
  case h_1 sender bytes network taken =>
    cases moved
    obtain ⟨sent, genuine⟩ := h.genuine.take taken
    have served_eq := served_concat beyond buffer s (receipt sender bytes)
    constructor
    case datagrams => exact h.datagrams
    case genuine =>
      refine genuine.post fun mail mem => ?_
      rw [udpListen_receipt] at mem
      split at mem
      · cases mem
      · rw [List.mem_singleton.mp mem]
        rfl
    case attributed =>
      rw [served, served_eq]
      refine List.forall_mem_append.mpr ⟨h.attributed, fun effect mem => ?_⟩
      rw [udpListen_receipt] at mem
      split at mem
      · cases mem
      · rcases List.mem_cons.mp mem with rfl | mem
        · refine ⟨sender, bytes, _, sent, rfl, ?_⟩
          rw [store, List.append_assoc]
          exact cString_prefix _ _
        · rw [List.mem_singleton.mp mem]
          rfl
    case asked =>
      intro j
      have before := h.asked j
      obtain ⟨held, made⟩ := Network.take_account taken (isRequest j)
      have none : (replies (udpListen beyond (bufferAfter buffer s.receipts)
          [receipt sender bytes])).countP (isRequest j) = 0 := by
        rw [udpListen_receipt]
        split <;> rfl
      rw [Network.made_post, Network.held_post, none, made, served, served_eq, acked,
        List.count_append, ← acked, ← acked, acked_receipt]
      dsimp only
      omega
    case answered =>
      intro j
      have before := h.answered j
      obtain ⟨held, made⟩ := Network.take_account taken (isReply j)
      rw [Network.made_post, Network.held_post, replies_receipt, made, served, served_eq, acked,
        List.count_append, ← acked, ← acked, acked_receipt]
      simp only [isReply, Bool.false_eq_true, if_false] at held
      dsimp only
      omega
    case lines => exact h.lines

theorem Sound.deliverStep (h : Sound beyond buffer s) {k : Nat} {t : Chat}
    (moved : deliverStep s k = some t) : Sound beyond buffer t := by
  rw [UdpChat.deliverStep] at moved
  split at moved
  case h_2 => cases moved
  case h_1 recipient bytes network taken =>
    obtain ⟨rfl, genuine⟩ := h.genuine.take taken
    obtain ⟨c, stepped, rfl⟩ := Option.map_eq_some_iff.mp moved
    obtain ⟨protocol, log, lines⟩ := deliver_spec (h.datagrams recipient) stepped
    refine h.update protocol ⟨[], by rw [log, List.append_nil]⟩
      ⟨_, lines, fun line mem => Or.inl (List.mem_singleton.mp mem)⟩
      (genuine.mono fun mail => (grows_update (by rw [log, List.append_nil])).genuine mail)
      (fun j => ?_) fun j => ?_
    · obtain ⟨held, made⟩ := Network.take_account taken (isRequest j)
      have sent_eq : sentBy (Function.update s.clients recipient c j) = sentBy (s.clients j) := by
        by_cases own : j = recipient
        · rw [own, Function.update_self, sentBy, log, sentBy]
        · rw [Function.update_of_ne own]
      simp only [isRequest, Bool.false_eq_true, if_false] at held
      omega
    · obtain ⟨held, made⟩ := Network.take_account taken (isReply j)
      by_cases own : j = recipient
      · subst own
        rw [Function.update_self, notices, lines, List.count_append, List.count_singleton_self,
          ← notices]
        simp only [isReply, decide_true, if_true] at held
        omega
      · rw [Function.update_of_ne own]
        have other : recipient ≠ j := fun same => own same.symm
        simp only [isReply, other, decide_false, Bool.false_eq_true, if_false] at held
        omega

theorem step_sound (s : Chat) (a : Action) (t : Chat) (h : Sound beyond buffer s)
    (moved : step beyond buffer s a = some t) : Sound beyond buffer t := by
  cases a with
  | client i a =>
    simp only [step, Option.ite_none_right_eq_some, Option.map_eq_some_iff] at moved
    obtain ⟨quiet, c, stepped, rfl⟩ := moved
    exact h.clientStep (local_quiet (h.datagrams i) quiet stepped)
  | send i whole => exact h.sendStep moved
  | serve k => exact h.serveStep moved
  | deliver k => exact h.deliverStep moved
  | lose k =>
    obtain ⟨network, lost, rfl⟩ := Option.map_eq_some_iff.mp moved
    refine h.setNetwork (h.genuine.lose lost) fun p => ?_
    obtain ⟨held, made⟩ := Network.lose_account lost p
    rw [held, made]
  | copy k =>
    obtain ⟨network, copied, rfl⟩ := Option.map_eq_some_iff.mp moved
    exact h.setNetwork (h.genuine.copy copied) (Network.copy_account copied)

end Steps

section Runs

variable {beyond buffer : ByteString} {sessions : SockaddrIn → Session}

/-- Every client has just been started for UDP, whether its socket could be bound or not. -/
def Started (sessions : SockaddrIn → Session) : Prop :=
  ∀ i, ∃ a buffer, sessions i = ClientSession.start .udp a buffer

theorem initial_sound (started : Started sessions) : Sound beyond buffer (initial sessions) := by
  have fresh (i : SockaddrIn) : (sessions i).protocol = .udp ∧ (sessions i).log = [] ∧
      (sessions i).lines = [] := by
    obtain ⟨a, buffer, same⟩ := started i
    rw [same]
    exact ⟨rfl, rfl, rfl⟩
  constructor
  case datagrams => exact fun i => (fresh i).1
  case genuine => exact Network.only_empty _
  case attributed => exact List.forall_mem_nil _
  case asked =>
    intro i
    simp [initial, sentBy, (fresh i).2.1, served, udpListen, acked]
  case answered =>
    intro i
    simp [initial, notices, (fresh i).2.2, served, udpListen, acked]
  case lines =>
    intro i line mem
    rw [initial, (fresh i).2.2] at mem
    cases mem

theorem reachable_sound (started : Started sessions) {s : Chat}
    (reachable : Reachable (step beyond buffer) (initial sessions) s) : Sound beyond buffer s := by
  obtain ⟨actions, path⟩ := reachable
  exact run_invariant step_sound (initial_sound started) path

/-- What has become of the datagrams of a client, and of the acknowledgements to it. -/
structure Accounts (beyond buffer : ByteString) (s : Chat) (i : SockaddrIn) : Prop where
  asked : sentBy (s.clients i) + s.network.made (isRequest i) =
    acked i (served beyond buffer s) + s.network.held (isRequest i)
  answered : acked i (served beyond buffer s) + s.network.made (isReply i) =
    notices (s.clients i) + s.network.held (isReply i)
  at_most : s.network.made (isRequest i) = 0 → s.network.made (isReply i) = 0 →
    notices (s.clients i) ≤ acked i (served beyond buffer s) ∧
      acked i (served beyond buffer s) ≤ sentBy (s.clients i)

theorem datagrams_accounted (started : Started sessions) {s : Chat}
    (reachable : Reachable (step beyond buffer) (initial sessions) s) (i : SockaddrIn) :
    Accounts beyond buffer s i := by
  have h := reachable_sound started reachable
  have asked := h.asked i
  have answered := h.answered i
  refine ⟨asked, answered, fun requests replies => ?_⟩
  omega

/-- Nobody is shown a text of somebody else: it is logged by the server, under the address
of its sender, and goes no further. -/
theorem texts_stay_at_server (started : Started sessions) {s : Chat}
    (reachable : Reachable (step beyond buffer) (initial sessions) s) :
    (∀ i, ∀ line ∈ (s.clients i).lines, line = .delivered ∨ line = .receiveError) ∧
      ∀ effect ∈ served beyond buffer s, Attributed s.clients effect := by
  have h := reachable_sound started reachable
  exact ⟨h.lines, h.attributed⟩

end Runs

/-- Two clients; the datagram of the first is copied, one of the two acknowledgements is lost. -/
def talking : List Action :=
  [.client ⟨![10, 0, 0, 1], 4000⟩ (.line (literal "hi")), .send ⟨![10, 0, 0, 1], 4000⟩ true,
   .copy 0, .serve 0, .serve 0, .lose 0, .client ⟨![10, 0, 0, 1], 4000⟩ .receiver,
   .client ⟨![10, 0, 0, 1], 4000⟩ .receiver, .deliver 0,
   .client ⟨![10, 0, 0, 2], 4001⟩ (.line (literal "OK")), .send ⟨![10, 0, 0, 2], 4001⟩ true]

def listening : SockaddrIn → Session :=
  fun _ => ClientSession.start .udp ⟨some 3, true, true⟩ []

theorem listening_started : Started listening := fun _ => ⟨_, _, rfl⟩

theorem talking_run : ∃ s, run (step [] []) (initial listening) talking = some s ∧
    sentBy (s.clients ⟨![10, 0, 0, 1], 4000⟩) = 1 ∧
    acked ⟨![10, 0, 0, 1], 4000⟩ (served [] [] s) = 2 ∧
    notices (s.clients ⟨![10, 0, 0, 1], 4000⟩) = 1 := ⟨_, rfl, rfl, rfl, rfl⟩

theorem datagrams_accounted_talking :
    ∃ s, run (step [] []) (initial listening) talking = some s ∧
      Accounts [] [] s ⟨![10, 0, 0, 1], 4000⟩ := by
  obtain ⟨s, path, _⟩ := talking_run
  exact ⟨s, path, datagrams_accounted listening_started ⟨_, path⟩ _⟩

theorem texts_stay_at_server_talking :
    ∃ s, run (step [] []) (initial listening) talking = some s ∧
      (∀ i, ∀ line ∈ (s.clients i).lines, line = .delivered ∨ line = .receiveError) ∧
      ∀ effect ∈ served [] [] s, Attributed s.clients effect := by
  obtain ⟨s, path, _⟩ := talking_run
  exact ⟨s, path, texts_stay_at_server listening_started ⟨_, path⟩⟩

end UdpChat
