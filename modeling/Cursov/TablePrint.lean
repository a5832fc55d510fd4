import Cursov.PrintedFields
import Cursov.SwitchThreads

/-!
# The printed table

`printTable` writes a row for every entry, in the order in which the hash map happens
to hold them. The columns are padded, not separated; they can still be told apart
while port numbers are shorter than their column.
-/

namespace TablePrint

open Bytes Utilities CommutationTable Frame Transition Formats PrintedFields
open Switch (Learned)

abbrev Entry := Sigma fun _ : ByteString => TableEntry

/-- A string after `std::left` and `std::setw`. -/
def setw (width : Nat) (text : ByteString) : ByteString :=
  text ++ List.replicate (width - text.length) space

/-- A signed number as `operator<<` writes it. -/
def signed (n : Int) : ByteString :=
  if n < 0 then 45 :: decimal n.natAbs else decimal n.natAbs

/-- What a row says. The last field is what leaves a blank behind the port. -/
structure Row where
  mac : Mac
  port : Nat
  age : Int
  port_lt : port < 10 ^ 9

def Row.text (r : Row) : ByteString :=
  setw 20 (macToString r.mac) ++ setw 10 (decimal r.port) ++ signed r.age ++ [newline]

/-- What the screen tells of an entry. -/
def seen (now : Int) (entry : Entry) : ByteString × Int × Int :=
  (entry.1, entry.2.port, ageSeconds now entry.2)

def Row.seen (r : Row) : ByteString × Int × Int := (macToString r.mac, r.port, r.age)

section Screens

variable {handles : Nat} {captures : List (Nat × Capture)} {t : Table}

end Screens

/-- The call for a frame on port 0, up to the update of the table, and four seconds. -/
def learning : List SwitchThreads.Action :=
  [.capture 0 (Switch.plainFrame ![2, 0, 0, 0, 0, 2] ![2, 0, 0, 0, 0, 1]) (fun _ => 0),
   .advance 0 0, .tick 4000000000]

end TablePrint
