import Cursov.ChatStream
import Mathlib.Data.Fin.VecNotation
import Mathlib.Data.Fintype.Pi

/-!
# The log of the UDP server

`udp_listen` receives every datagram into one buffer, sets a newline behind it and
prints the buffer as a C string. The newline ends no string, so the print goes on
into what earlier datagrams have left there.
-/

namespace UdpListen

open Bytes ChatStream

structure SockaddrIn where
  address : Fin 4 → UInt8
  port : UInt16
  deriving DecidableEq

/-- A datagram that `recvfrom` can deliver whole. -/
structure Datagram where
  sender : SockaddrIn
  bytes : ByteString
  nonempty : bytes ≠ []
  fits : bytes.length ≤ 1023

/-- What `recvfrom` returns: a datagram, or nothing (an empty datagram or an error). -/
inductive Receipt where
  | datagram (d : Datagram)
  | nothing

inductive Effect where
  | log (line : ByteString)
  | ack (message : ByteString) (recipient : SockaddrIn)
  deriving DecidableEq

/-- The buffer after `recvfrom` has stored the datagram and the newline is set. -/
def store (buffer bytes : ByteString) : ByteString :=
  bytes ++ newline :: buffer.drop (bytes.length + 1)

def logLine (sender : SockaddrIn) (text : ByteString) : ByteString :=
  literal "Received message from " ++
    (dotted sender.address ++ (literal ": " ++ (text ++ [newline])))

/-- `udp_listen` while the server is running. `beyond` is the memory behind the buffer. -/
def udpListen (beyond buffer : ByteString) : List Receipt → List Effect
  | [] => []
  | .nothing :: rest => udpListen beyond buffer rest
  | .datagram d :: rest =>
    .log (logLine d.sender (cString (store buffer d.bytes ++ beyond))) ::
      .ack ackMessage d.sender :: udpListen beyond (store buffer d.bytes) rest

def lines (effects : List Effect) : List ByteString :=
  effects.filterMap fun
    | .log line => some line
    | .ack _ _ => none

/-- What the buffer holds after these receipts. -/
def bufferAfter (buffer : ByteString) : List Receipt → ByteString
  | [] => buffer
  | .nothing :: rest => bufferAfter buffer rest
  | .datagram d :: rest => bufferAfter (store buffer d.bytes) rest

theorem udpListen_append (beyond buffer : ByteString) (before after : List Receipt) :
    udpListen beyond buffer (before ++ after) =
      udpListen beyond buffer before ++ udpListen beyond (bufferAfter buffer before) after := by
  induction before generalizing buffer with
  | nil => rfl
  | cons receipt rest ih =>
    cases receipt with
    | nothing => exact ih buffer
    | datagram d =>
      simp only [List.cons_append, udpListen, bufferAfter, ih]

/-- The line logged for a datagram that arrives after `history`. -/
def lineFor (beyond buffer : ByteString) (history : List Receipt) (d : Datagram) :
    Option ByteString :=
  (lines (udpListen beyond buffer (history ++ [.datagram d]))).getLast?

theorem lineFor_eq (beyond buffer : ByteString) (history : List Receipt) (d : Datagram) :
    lineFor beyond buffer history d =
      some (logLine d.sender (cString (store (bufferAfter buffer history) d.bytes ++ beyond))) := by
  rw [lineFor, udpListen_append, lines, List.filterMap_append]
  exact List.getLast?_concat

/-- A datagram without a NUL is printed with the newline and all that follows it up to the
next NUL. -/
theorem printed_eq (buffer beyond : ByteString) {bytes : ByteString} (clean : 0 ∉ bytes) :
    cString (store buffer bytes ++ beyond) =
      bytes ++ newline :: cString (buffer.drop (bytes.length + 1) ++ beyond) := by
  rw [store, List.append_assoc, cString_append_of_clean clean, List.cons_append]
  rfl

theorem logLine_inj {sender : SockaddrIn} {text text' : ByteString} :
    logLine sender text = logLine sender text' ↔ text = text' := by
  simp only [logLine, List.append_cancel_left_eq, List.append_cancel_right_eq]

/-- The line holds the datagram's own bytes up to the first NUL, and any run in which the
same datagram arrives logs the same line for it. -/
def OwnLine (beyond buffer : ByteString) (history : List Receipt) (d : Datagram) : Prop :=
  lineFor beyond buffer history d = some (logLine d.sender (cString d.bytes)) ∧
    ∀ buffer' history', lineFor beyond buffer' history' d = lineFor beyond buffer history d

/-- Without a NUL at least the newline is printed behind the datagram's own bytes. -/
theorem lineFor_ne_of_clean (beyond buffer : ByteString) (history : List Receipt) {d : Datagram}
    (clean : 0 ∉ d.bytes) :
    lineFor beyond buffer history d ≠ some (logLine d.sender (cString d.bytes)) := by
  intro own
  rw [lineFor_eq, Option.some.injEq, logLine_inj, printed_eq _ _ clean,
    (cString_eq_self_iff _).mpr clean] at own
  have lengths := congrArg List.length own
  simp at lengths

theorem lineFor_of_nul (beyond buffer : ByteString) (history : List Receipt) {d : Datagram}
    (nul : 0 ∈ d.bytes) :
    lineFor beyond buffer history d = some (logLine d.sender (cString d.bytes)) := by
  rw [lineFor_eq, store, List.append_assoc, cString_append_of_nul nul]

/-- A line depends on its own datagram alone exactly when the datagram itself has a NUL. -/
theorem ownLine_iff_nul (beyond buffer : ByteString) (history : List Receipt) (d : Datagram) :
    OwnLine beyond buffer history d ↔ 0 ∈ d.bytes := by
  constructor
  · rintro ⟨own, _⟩
    by_contra clean
    exact lineFor_ne_of_clean beyond buffer history clean own
  · intro nul
    refine ⟨lineFor_of_nul beyond buffer history nul, fun buffer' history' => ?_⟩
    rw [lineFor_of_nul beyond buffer' history' nul, lineFor_of_nul beyond buffer history nul]

def secret : Datagram where
  sender := ⟨![10, 0, 0, 1], 4000⟩
  bytes := literal "secret"
  nonempty := by decide
  fits := by decide

def greeting : Datagram where
  sender := ⟨![10, 0, 0, 2], 4001⟩
  bytes := literal "hi"
  nonempty := by decide
  fits := by decide

/-- The second peer's line ends with the rest of the first peer's message. -/
theorem residue_logged :
    lineFor [] (List.replicate 1024 0) [.datagram secret] greeting =
        some (literal "Received message from 10.0.0.2: hi\nret\n\n") ∧
      lineFor [] (List.replicate 1024 0) [] greeting =
        some (literal "Received message from 10.0.0.2: hi\n\n") ∧
      ¬ OwnLine [] (List.replicate 1024 0) [.datagram secret] greeting :=
  ⟨by decide, by decide,
    fun own => lineFor_ne_of_clean [] (List.replicate 1024 0) [.datagram secret] (by decide) own.1⟩

end UdpListen
