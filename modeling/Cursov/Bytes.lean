import Mathlib.Data.List.TakeWhile

/-!
# Byte strings

A `std::string` is its list of bytes. A character array is the list of bytes it
holds, and reading it as a C string stops at the first NUL.
-/

namespace Bytes

abbrev ByteString := List UInt8

/-- A string literal of the source. -/
def literal (text : String) : ByteString :=
  text.toList.map fun c => UInt8.ofNat c.toNat

/-- An unsigned number as `operator<<` and `std::to_string` write it. -/
def decimal (n : Nat) : ByteString :=
  (Nat.toDigits 10 n).map fun c => UInt8.ofNat c.toNat

/-- An unsigned number after `std::hex`. -/
def hexadecimal (n : Nat) : ByteString :=
  (Nat.toDigits 16 n).map fun c => UInt8.ofNat c.toNat

/-- `inet_ntoa` and `inet_ntop`: the four bytes of an address in network order. -/
def dotted (address : Fin 4 → UInt8) : ByteString :=
  decimal (address 0).toNat ++ 46 :: (decimal (address 1).toNat ++ 46 ::
    (decimal (address 2).toNat ++ 46 :: decimal (address 3).toNat))

abbrev newline : UInt8 := 10
abbrev space : UInt8 := 32
abbrev quote : UInt8 := 34
abbrev hash : UInt8 := 35
abbrev equals : UInt8 := 61

/-- `std::isspace` in the "C" locale; no byte from 0x80 on is a space. -/
def isSpace (b : UInt8) : Bool := b == space || 9 ≤ b && b ≤ 13

/-- `tolower` in the "C" locale. -/
def toLower (b : UInt8) : UInt8 := if 65 ≤ b && b ≤ 90 then b + 32 else b

/-- The implicit conversion of a character array to `std::string`. -/
def cString (buffer : List UInt8) : ByteString :=
  buffer.takeWhile fun b => b != 0

theorem toLower_toLower (b : UInt8) : toLower (toLower b) = toLower b := by
  by_cases upper : (65 ≤ b && b ≤ 90) = true
  · have bounds : 65 ≤ b.toNat ∧ b.toNat ≤ 90 := by
      simpa [UInt8.le_iff_toNat_le] using upper
    have lower : ¬ (65 ≤ b + 32 && b + 32 ≤ 90) = true := by
      simp only [Bool.and_eq_true, decide_eq_true_eq, UInt8.le_iff_toNat_le, UInt8.toNat_add,
        UInt8.toNat_ofNat]
      omega
    rw [toLower, toLower, if_pos upper, if_neg lower]
  · rw [toLower, toLower, if_neg upper, if_neg upper]

theorem cString_append_nul (text rest : List UInt8) :
    cString (text ++ 0 :: rest) = cString text := by
  induction text with
  | nil => rfl
  | cons b tail ih =>
    by_cases hb : b = 0
    · simp [cString, hb]
    · have hne : (b != 0) = true := by simpa using hb
      simpa [cString, List.takeWhile_cons, hne] using ih

theorem cString_eq_self_iff (text : List UInt8) : cString text = text ↔ 0 ∉ text := by
  rw [cString, List.takeWhile_eq_self_iff]
  constructor
  · intro h hz
    simpa using h 0 hz
  · intro h b hb
    have hne : b ≠ 0 := fun heq => h (heq ▸ hb)
    simpa using hne

theorem not_nul_mem_cString (text : List UInt8) : 0 ∉ cString text := by
  intro mem
  simpa using List.mem_takeWhile_imp mem

theorem cString_append_of_nul {text : ByteString} (nul : 0 ∈ text) (rest : ByteString) :
    cString (text ++ rest) = cString text := by
  obtain ⟨first, later, rfl, _⟩ := List.eq_append_cons_of_mem nul
  rw [List.append_assoc, List.cons_append, cString_append_nul, cString_append_nul]

theorem cString_append_of_clean {text : ByteString} (clean : 0 ∉ text) (rest : ByteString) :
    cString (text ++ rest) = text ++ cString rest := by
  refine List.takeWhile_append_of_pos fun b hb => ?_
  have nonzero : b ≠ 0 := fun same => clean (same ▸ hb)
  simpa using nonzero

end Bytes
