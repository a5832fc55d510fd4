import Cursov.Bytes
import Mathlib.Data.List.Flatten
import Mathlib.Data.List.Forall2

/-!
# Messages on a TCP connection

The stream between a client and the server carries no delimiters and no tags. The
server takes what one `recv` returns for one message; the client takes the two
bytes of the acknowledgement for an acknowledgement, whoever sent them.
-/

namespace ChatStream

open Bytes

/-- The stack buffer after `recv` has stored a chunk and the terminator is set. -/
def fillBuffer (buffer chunk : ByteString) : ByteString :=
  chunk ++ 0 :: buffer.drop (chunk.length + 1)

theorem cString_fillBuffer (buffer chunk : ByteString) :
    cString (fillBuffer buffer chunk) = cString chunk :=
  cString_append_nul chunk _

/-- The acknowledgement, `ack_message`. -/
def ackMessage : ByteString := literal "OK"

inductive ServerEffect where
  | ack
  | broadcast (message : ByteString)
  deriving DecidableEq

/-- `handle_tcp_client` on the chunks its `recv` calls return, up to the end of the stream. -/
def handleTcpClient (buffer : ByteString) : List ByteString → List ServerEffect
  | [] => []
  | chunk :: rest =>
    .ack :: .broadcast (cString (fillBuffer buffer chunk)) ::
      handleTcpClient (fillBuffer buffer chunk) rest

/-- The messages one client passes to `send_message` arrive in these chunks. -/
structure Segments (messages chunks : List ByteString) : Prop where
  messages_nonempty : ∀ m ∈ messages, m ≠ []
  stream : chunks.flatten = messages.flatten
  sizes : ∀ chunk ∈ chunks, 1 ≤ chunk.length ∧ chunk.length ≤ 1023

/-- One acknowledgement and one broadcast per message, in order. -/
def framed (messages : List ByteString) : List ServerEffect :=
  messages.flatMap fun m => [.ack, .broadcast m]

def broadcasts (effects : List ServerEffect) : List ByteString :=
  effects.filterMap fun
    | .ack => none
    | .broadcast message => some message

theorem broadcasts_framed (messages : List ByteString) :
    broadcasts (framed messages) = messages := by
  induction messages with
  | nil => rfl
  | cons m rest ih =>
    change m :: broadcasts (framed rest) = m :: rest
    rw [ih]

theorem framed_injective : Function.Injective framed := by
  intro messages others same
  rw [← broadcasts_framed messages, same, broadcasts_framed]

/-- The server acknowledges and relays chunk by chunk, each up to its first NUL. -/
theorem handleTcpClient_eq_framed (buffer : ByteString) (chunks : List ByteString) :
    handleTcpClient buffer chunks = framed (chunks.map cString) := by
  induction chunks generalizing buffer with
  | nil => rfl
  | cons chunk rest ih =>
    rw [handleTcpClient, cString_fillBuffer, ih]
    rfl

/-- The server takes chunks for messages: one acknowledgement and one broadcast for each, so
the messages come out framed exactly when they are the chunks. -/
theorem one_ack_and_broadcast_per_chunk (buffer : ByteString) {messages chunks : List ByteString}
    (segments : Segments messages chunks) :
    (∃ texts, handleTcpClient buffer chunks = framed texts ∧
      List.Forall₂ (fun chunk text => 0 ∉ chunk → text = chunk) chunks texts) ∧
    ((∀ m ∈ messages, 0 ∉ m) →
      (broadcasts (handleTcpClient buffer chunks)).flatten = messages.flatten ∧
      (handleTcpClient buffer chunks = framed messages ↔ chunks = messages)) := by
  have per_chunk := handleTcpClient_eq_framed buffer chunks
  constructor
  · refine ⟨chunks.map cString, per_chunk, ?_⟩
    rw [List.forall₂_map_right_iff, List.forall₂_same]
    exact fun chunk _ => (cString_eq_self_iff chunk).mpr
  · intro text
    have clean : ∀ c ∈ chunks, cString c = c := by
      intro c hc
      apply (cString_eq_self_iff c).mpr
      intro zero
      have sent : 0 ∈ messages.flatten := by
        rw [← segments.stream]
        exact List.mem_flatten_of_mem hc zero
      obtain ⟨m, hm, inside⟩ := List.mem_flatten.mp sent
      exact text m hm inside
    rw [per_chunk, List.map_congr_left clean, List.map_id', broadcasts_framed]
    exact ⟨segments.stream, framed_injective.eq_iff⟩

/-- Two messages in one chunk and a half, the second cut in two. -/
theorem one_ack_and_broadcast_per_chunk_split :
    (broadcasts (handleTcpClient [] [[104, 105, 121], [111]])).flatten = [104, 105, 121, 111] ∧
    handleTcpClient [] [[104, 105, 121], [111]] ≠ framed [[104, 105], [121, 111]] := by
  have segments : Segments [[104, 105], [121, 111]] [[104, 105, 121], [111]] :=
    ⟨by decide, by decide, by decide⟩
  obtain ⟨_, clean⟩ := one_ack_and_broadcast_per_chunk [] segments
  obtain ⟨relayed, only⟩ := clean (by decide)
  exact ⟨relayed, fun same => absurd (only.mp same) (by decide)⟩

/-- Two messages that arrive in one chunk are acknowledged and relayed as one. -/
theorem coalesced_messages_not_framed :
    Segments [[97], [98]] [[97, 98]] ∧
      handleTcpClient [] [[97, 98]] ≠ framed [[97], [98]] := by
  exact ⟨⟨by decide, by decide, by decide⟩, by decide⟩

/-- What one non-blocking `recv` of `receive_messages` returns. -/
inductive Poll where
  | data (chunk : ByteString)
  | wouldBlock
  | closed
  | failed
  deriving DecidableEq

/-- The lines `receive_messages` prints: «Сообщение доставлено», «Получено», and the two
reports that end it. -/
inductive Line where
  | delivered
  | received (message : ByteString)
  | connectionClosed
  | receiveError
  deriving DecidableEq

/-- `receive_messages`, TCP branch, while it is running and connected. -/
def receiveMessages (buffer : ByteString) : List Poll → List Line
  | [] => []
  | .data chunk :: rest =>
    let message := cString (fillBuffer buffer chunk)
    (if message = ackMessage then .delivered else .received message) ::
      receiveMessages (fillBuffer buffer chunk) rest
  | .wouldBlock :: rest => receiveMessages buffer rest
  | .closed :: _ => [.connectionClosed]
  | .failed :: _ => [.receiveError]

/-- What the server sends on one client's connection. -/
inductive ServerSend where
  | ack
  | relay (text : ByteString)
  deriving DecidableEq

def ServerSend.bytes : ServerSend → ByteString
  | .ack => ackMessage
  | .relay text => text

/-- Every server send arrives as its own chunk, between polls that find nothing. -/
def Arrives (sends : List ServerSend) (polls : List Poll) : Prop :=
  (polls.filter fun p => p ≠ .wouldBlock) = sends.map fun s => .data s.bytes

/-- The line printed for a send that arrives as its own chunk. -/
def lineFor (s : ServerSend) : Line :=
  if s.bytes = ackMessage then .delivered else .received s.bytes

def relayed (sends : List ServerSend) : List ByteString :=
  sends.filterMap fun
    | .ack => none
    | .relay text => some text

def printed (lines : List Line) : List ByteString :=
  lines.filterMap fun
    | .received message => some message
    | _ => none

/-- As many deliveries are reported as were acknowledged, and the relayed messages are
printed as received, once each and in order. -/
def TellsApart (sends : List ServerSend) (lines : List Line) : Prop :=
  lines.count .delivered = sends.count .ack ∧ printed lines = relayed sends

theorem receiveMessages_eq {sends : List ServerSend} {polls : List Poll}
    (arrives : Arrives sends polls) (text : ∀ s ∈ sends, 0 ∉ s.bytes) (buffer : ByteString) :
    receiveMessages buffer polls = sends.map lineFor := by
  induction polls generalizing sends buffer with
  | nil =>
    rw [Arrives, List.filter_nil, eq_comm, List.map_eq_nil_iff] at arrives
    subst sends
    rfl
  | cons p rest ih =>
    by_cases empty : p = .wouldBlock
    · subst p
      exact ih (by simpa [Arrives] using arrives) text buffer
    · rw [Arrives, List.filter_cons_of_pos (by simpa using empty)] at arrives
      cases sends with
      | nil => cases arrives
      | cons s later =>
        rw [List.map_cons, List.cons.injEq] at arrives
        obtain ⟨rfl, arrives⟩ := arrives
        obtain ⟨first, others⟩ := List.forall_mem_cons.mp text
        rw [receiveMessages, cString_fillBuffer, (cString_eq_self_iff _).mpr first,
          ih arrives others]
        rfl

theorem count_delivered (sends : List ServerSend) :
    (sends.map lineFor).count .delivered =
      sends.count .ack + sends.count (.relay ackMessage) := by
  induction sends with
  | nil => rfl
  | cons s rest ih =>
    cases s with
    | ack =>
      simp [lineFor, ServerSend.bytes, ih]
      omega
    | relay text =>
      by_cases collides : text = ackMessage
      · simp [lineFor, ServerSend.bytes, collides, ih]
        omega
      · simp [lineFor, ServerSend.bytes, collides, ih]

theorem count_relay_eq_zero_iff {sends : List ServerSend} {text : ByteString} :
    sends.count (.relay text) = 0 ↔ text ∉ relayed sends := by
  rw [List.count_eq_zero, relayed, List.mem_filterMap]
  constructor
  · rintro absent ⟨s, hs, same⟩
    cases s with
    | ack => cases same
    | relay other =>
      cases same
      exact absent hs
  · intro absent present
    exact absent ⟨.relay text, present, rfl⟩

theorem printed_eq_relayed {sends : List ServerSend} (apart : ackMessage ∉ relayed sends) :
    printed (sends.map lineFor) = relayed sends := by
  induction sends with
  | nil => rfl
  | cons s rest ih =>
    cases s with
    | ack => exact ih apart
    | relay text =>
      obtain ⟨differs, later⟩ := not_or.mp fun h => apart (List.mem_cons.mpr h)
      have line : lineFor (.relay text) = .received text := if_neg fun same => differs same.symm
      rw [List.map_cons, line]
      exact congrArg (text :: ·) (ih later)

/-- The client decodes the connection correctly exactly when no other client's message is
the two bytes of the acknowledgement. -/
theorem tells_apart_iff_no_relayed_ok (buffer : ByteString) {sends : List ServerSend}
    {polls : List Poll} (arrives : Arrives sends polls)
    (texts : ∀ s ∈ sends, 1 ≤ s.bytes.length ∧ s.bytes.length ≤ 1023 ∧ 0 ∉ s.bytes) :
    TellsApart sends (receiveMessages buffer polls) ↔ ackMessage ∉ relayed sends := by
  rw [receiveMessages_eq arrives (fun s hs => (texts s hs).2.2) buffer, TellsApart,
    count_delivered]
  constructor
  · rintro ⟨counted, _⟩
    rw [← count_relay_eq_zero_iff]
    omega
  · intro apart
    refine ⟨?_, printed_eq_relayed apart⟩
    rw [count_relay_eq_zero_iff.mpr apart, Nat.add_zero]

/-- An acknowledgement between two messages of other clients. -/
theorem tells_apart_around_ack :
    TellsApart [.relay [104, 105], .ack, .relay [111, 107]]
      (receiveMessages [] [.data [104, 105], .wouldBlock, .data [79, 75], .data [111, 107]]) := by
  refine (tells_apart_iff_no_relayed_ok [] ?_ ?_).mpr ?_
  · rfl
  · decide
  · decide

/-- Another client says OK: the client reports a delivery and prints nothing. -/
theorem relayed_ok_taken_for_ack :
    Arrives [.relay (literal "OK")] [.data (literal "OK")] ∧
      ¬ TellsApart [.relay (literal "OK")] (receiveMessages [] [.data (literal "OK")]) := by
  refine ⟨rfl, ?_⟩
  rintro ⟨counted, _⟩
  revert counted
  decide

end ChatStream
