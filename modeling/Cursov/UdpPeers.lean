import Cursov.UdpListen
import Cursov.Library.FirstOccurrences

/-!
# The peers of the UDP server

`broadcast_udp` records a sender it does not know and sends the message to every
peer but the sender. Peers are told apart by address and port; what else their
`sockaddr_in` holds is that of the first call.
-/

namespace UdpPeers

open Bytes UdpListen FirstOccurrences

/-- A whole `sockaddr_in`, with the fields that are never compared. -/
structure Peer extends SockaddrIn where
  family : UInt16
  zero : Fin 8 → UInt8
  deriving DecidableEq

/-- What `sendto` is given. -/
structure Sendto where
  message : ByteString
  recipient : Peer
  deriving DecidableEq

/-- The predicate of `find_if`. -/
def isSender (sender client : Peer) : Bool :=
  client.address = sender.address && client.port = sender.port

/-- The condition in the loop that sends. -/
def isOther (sender : Option Peer) (client : Peer) : Bool :=
  match sender with
  | none => true
  | some sender => client.address ≠ sender.address || client.port ≠ sender.port

/-- The first part of `broadcast_udp`: `udp_clients_` with the sender in it. -/
def remember (clients : List Peer) : Option Peer → List Peer
  | none => clients
  | some sender => match clients.find? (isSender sender) with
    | some _ => clients
    | none => clients ++ [sender]

/-- `udp_clients_` after the call, and what it has sent. -/
def broadcastUdp (clients : List Peer) (message : ByteString) (sender : Option Peer) :
    List Peer × List Sendto :=
  let known := remember clients sender
  (known, (known.filter (isOther sender)).map fun client => ⟨message, client⟩)

structure Call where
  message : ByteString
  sender : Option Peer

/-- `udp_clients_` after these calls on an empty list. -/
def clientsAfter (calls : List Call) : List Peer :=
  calls.foldl (fun clients call => (broadcastUdp clients call.message call.sender).1) []

/-- The pair that identifies a peer. -/
def endpoint (peer : Peer) : SockaddrIn := peer.toSockaddrIn

theorem endpoint_eq_iff {peer other : Peer} :
    endpoint peer = endpoint other ↔ peer.address = other.address ∧ peer.port = other.port := by
  obtain ⟨⟨address, port⟩, family, zero⟩ := peer
  exact SockaddrIn.mk.injEq .. ▸ Iff.rfl

theorem isSender_iff {sender client : Peer} :
    isSender sender client = true ↔ endpoint client = endpoint sender := by
  rw [endpoint_eq_iff, isSender, Bool.and_eq_true, decide_eq_true_eq, decide_eq_true_eq]

/-- The two conditions are each other's complement. -/
theorem isOther_iff {sender : Option Peer} {client : Peer} :
    isOther sender client = true ↔ sender.map endpoint ≠ some (endpoint client) := by
  cases sender with
  | none => simp [isOther]
  | some sender =>
    have turned : endpoint sender = endpoint client ↔
        client.address = sender.address ∧ client.port = sender.port :=
      eq_comm.trans endpoint_eq_iff
    rw [Option.map_some, ne_eq, Option.some.injEq, turned, not_and_or, isOther, Bool.or_eq_true,
      decide_eq_true_eq, decide_eq_true_eq]

/-- Looking for the sender and appending it is offering its endpoint. -/
theorem remember_eq_offer (clients : List Peer) (sender : Peer) :
    remember clients (some sender) = offer endpoint clients sender := by
  have known : endpoint sender ∈ clients.map endpoint ↔
      (clients.find? (isSender sender)).isSome = true := by
    rw [List.find?_isSome, List.mem_map]
    exact exists_congr fun client => and_congr_right fun _ => isSender_iff.symm
  rw [remember, offer]
  cases found : clients.find? (isSender sender) with
  | none => rw [if_neg (by simp [known, found])]
  | some client => rw [if_pos (by simp [known, found])]

theorem clientsAfter_concat (calls : List Call) (call : Call) :
    clientsAfter (calls ++ [call]) = remember (clientsAfter calls) call.sender := by
  rw [clientsAfter, List.foldl_append]
  rfl

theorem clientsAfter_records (calls : List Call) :
    Records ((calls.filterMap Call.sender).map endpoint) ((clientsAfter calls).map endpoint) := by
  induction calls using List.reverseRecOn with
  | nil => exact .nil
  | append_singleton earlier call ih =>
    rw [clientsAfter_concat, List.filterMap_append, List.map_append]
    cases sender : call.sender with
    | none =>
      have nobody : [call].filterMap Call.sender = [] := List.filterMap_cons_none sender
      rwa [nobody, List.map_nil, List.append_nil]
    | some peer =>
      have this_one : [call].filterMap Call.sender = [peer] := List.filterMap_cons_some sender
      rw [this_one, remember_eq_offer]
      exact ih.offer peer

/-- What a call sends: its message, once to every recorded pair but that of its sender, and
to nobody else. -/
structure Delivers (message : ByteString) (sender : Option SockaddrIn)
    (recorded : List SockaddrIn) (sent : List Sendto) : Prop where
  message_sent : ∀ s ∈ sent, s.message = message
  count_sent : ∀ pair, (sent.map fun s => endpoint s.recipient).count pair =
    if pair ∈ recorded ∧ sender ≠ some pair then 1 else 0

theorem broadcastUdp_delivers {clients : List Peer} (message : ByteString) (sender : Option Peer)
    (nodup : ((remember clients sender).map endpoint).Nodup) :
    Delivers message (sender.map endpoint) ((remember clients sender).map endpoint)
      (broadcastUdp clients message sender).2 where
  message_sent s mem := by
    obtain ⟨client, _, rfl⟩ := List.mem_map.mp mem
    rfl
  count_sent pair := by
    have recipients : ((broadcastUdp clients message sender).2.map fun s => endpoint s.recipient) =
        ((remember clients sender).filter (isOther sender)).map endpoint := List.map_map
    have once : (((remember clients sender).filter (isOther sender)).map endpoint).Nodup :=
      nodup.sublist (List.filter_sublist.map endpoint)
    rw [recipients, once.count]
    congr 1
    simp only [List.mem_map, List.mem_filter, isOther_iff, eq_iff_iff]
    constructor
    · rintro ⟨client, ⟨listed, other⟩, rfl⟩
      exact ⟨⟨client, listed, rfl⟩, other⟩
    · rintro ⟨⟨client, listed, rfl⟩, other⟩
      exact ⟨client, ⟨listed, other⟩, rfl⟩

/-- After any calls the list records their senders, each pair once and in the order of the
first calls; and the next call reaches every recorded pair but its own. -/
theorem peers_recorded_and_served (calls : List Call) (call : Call) :
    Records ((calls.filterMap Call.sender).map endpoint) ((clientsAfter calls).map endpoint) ∧
      Delivers call.message (call.sender.map endpoint)
        ((clientsAfter (calls ++ [call])).map endpoint)
        (broadcastUdp (clientsAfter calls) call.message call.sender).2 := by
  refine ⟨clientsAfter_records calls, ?_⟩
  have next := (clientsAfter_records (calls ++ [call])).nodup
  rw [clientsAfter_concat] at next ⊢
  exact broadcastUdp_delivers call.message call.sender next

end UdpPeers
