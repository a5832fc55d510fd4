import Cursov.ClientStartup

/-!
# From a configured string to a port

Server and client read a port with `stoi` and narrow the result to 16 bits. Only
the constructor of the server tests the port, and it is given the narrowed one.
-/

namespace PortNumber

open Bytes Utilities ClientConfig ClientStartup

/-- The fields of `Server` that the arguments of its constructor set. -/
structure Server where
  port : UInt16
  protocol : Protocol
  deriving DecidableEq

/-- `Server::Server`; the second test of a port is never true. -/
def construct (port : UInt16) (protocol : Protocol) : Except Failure Server :=
  if port = 0 ∨ port.toNat > 65535 then
    .error (.invalidArgument (literal "Invalid port number: " ++ decimal port.toNat))
  else .ok ⟨port, protocol⟩

/-- What the `try` block of the server's `main` does with the map it has read. -/
def settings (config : Config) : Except Failure Server := do
  let port ← stoi (← valueAt config (literal "port"))
  let protocol ← parseProtocol (← valueAt config (literal "protocol"))
  construct (UInt16.ofInt port) protocol

/-- `std::exception::what`. -/
def what : Failure → ByteString
  | .runtimeError text => text
  | .invalidArgument text => text
  | .outOfRange text => text

/-- A decimal numeral: digits and nothing else. -/
def Numeral (s : ByteString) : Prop := s ≠ [] ∧ ∀ b ∈ s, isDigit b = true

theorem digit_bounds {b : UInt8} (digit : isDigit b = true) : 48 ≤ b.toNat ∧ b.toNat ≤ 57 := by
  simp only [isDigit, Bool.and_eq_true, decide_eq_true_eq, UInt8.le_iff_toNat_le] at digit
  exact digit

theorem Numeral.signOf {s : ByteString} (numeral : Numeral s) :
    Utilities.signOf ((cString s).dropWhile isSpace) = (1, s) := by
  obtain ⟨nonempty, digits⟩ := numeral
  obtain ⟨b, rest, rfl⟩ := List.exists_cons_of_ne_nil nonempty
  have bounds := digit_bounds (digits b List.mem_cons_self)
  have no_nul : 0 ∉ b :: rest := fun mem => absurd (digits 0 mem) (by decide)
  have visible : isSpace b = false := by
    simp only [isSpace, Bool.or_eq_false_iff, Bool.and_eq_false_iff, beq_eq_false_iff_ne, ne_eq,
      decide_eq_false_iff_not, UInt8.le_iff_toNat_le, ← UInt8.toNat_inj]
    constructor
    · intro same
      rw [same] at bounds
      exact absurd bounds (by decide)
    · right
      change ¬ b.toNat ≤ 13
      omega
  have plus : b ≠ 43 := by
    rintro rfl
    simp at bounds
  have minus : b ≠ 45 := by
    rintro rfl
    simp at bounds
  rw [(cString_eq_self_iff _).mpr no_nul, List.dropWhile_cons, visible, if_neg Bool.false_ne_true,
    Utilities.signOf, if_neg minus, if_neg plus]

end PortNumber
