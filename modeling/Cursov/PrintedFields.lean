import Cursov.TtlConfig
import Cursov.Library.Formats

/-!
# The fields of printed lines

Numbers, hardware addresses and IP addresses as the programs print them, each with
the text behind which it can be read back.
-/

namespace PrintedFields

open Bytes Utilities CommutationTable TtlConfig Formats

/-- The byte of a digit, and the digit of a byte. -/
theorem digitChar_byte :
    ∀ d < 16, Char.ofNat (UInt8.ofNat (Nat.digitChar d).toNat).toNat = Nat.digitChar d := by
  decide

theorem digits_bytes {base : Nat} (least : 1 < base) (most : base ≤ 16) (n : Nat) :
    ((Nat.toDigits base n).map fun c => UInt8.ofNat c.toNat).map (fun b => Char.ofNat b.toNat) =
      Nat.toDigits base n := by
  rw [List.map_map]
  conv_rhs => rw [← List.map_id (Nat.toDigits base n)]
  refine List.map_congr_left fun c mem => ?_
  obtain ⟨d, small, rfl⟩ := exists_digit_of_mem_toDigits least n mem
  exact digitChar_byte d (small.trans_le most)

theorem digits_injective {base : Nat} (least : 1 < base) (most : base ≤ 16) :
    Function.Injective fun n => (Nat.toDigits base n).map fun c => UInt8.ofNat c.toNat := by
  intro n m same
  apply toDigits_injective least most
  rw [← digits_bytes least most n, ← digits_bytes least most m]
  exact congrArg (List.map fun b => Char.ofNat b.toNat) same

theorem mem_digits {base : Nat} (least : 1 < base) (n : Nat) {b : UInt8}
    (mem : b ∈ (Nat.toDigits base n).map fun c => UInt8.ofNat c.toNat) :
    ∃ d < base, b = UInt8.ofNat (Nat.digitChar d).toNat := by
  obtain ⟨c, written, rfl⟩ := List.mem_map.mp mem
  obtain ⟨d, small, rfl⟩ := exists_digit_of_mem_toDigits least n written
  exact ⟨d, small, rfl⟩

theorem decimal_injective : Function.Injective decimal :=
  digits_injective (by decide) (by decide)

theorem isDigit_of_mem_decimal (n : Nat) : ∀ b ∈ decimal n, isDigit b = true := by
  have digits : ∀ d < 10, isDigit (UInt8.ofNat (Nat.digitChar d).toNat) = true := by decide
  intro b mem
  obtain ⟨d, small, rfl⟩ := mem_digits (by decide) n mem
  exact digits d small

theorem decimal_shows : Shows decimal (StartsOutside isDigit) id :=
  shows_of_class decimal_injective isDigit_of_mem_decimal

def isHexDigit (b : UInt8) : Bool := isDigit b || 97 ≤ b && b ≤ 102

theorem hexadecimal_shows : Shows hexadecimal (StartsOutside isHexDigit) id := by
  have digits : ∀ d < 16, isHexDigit (UInt8.ofNat (Nat.digitChar d).toNat) = true := by decide
  refine shows_of_class (digits_injective (by decide) (by decide)) fun n b mem => ?_
  obtain ⟨d, small, rfl⟩ := mem_digits (by decide) n mem
  exact digits d small

/-- A small unsigned number is printed by its value. -/
theorem byte_shows : Shows (fun b : UInt8 => decimal b.toNat) (StartsOutside isDigit) id :=
  (decimal_shows.comap UInt8.toNat).of_iff fun _ _ => UInt8.toNat_inj

/-- A number with zeros in front up to a width. -/
def padded (width n : Nat) : ByteString := (decimal n).leftpad width 48

theorem isDigit_of_mem_padded (width n : Nat) : ∀ b ∈ padded width n, isDigit b = true := by
  intro b mem
  rw [padded, List.leftpad, List.mem_append, List.mem_replicate] at mem
  rcases mem with ⟨_, rfl⟩ | digit
  · rfl
  · exact isDigit_of_mem_decimal n b digit

/-- Zeros in front do not change the value. -/
theorem digitsValue_zeros (count : Nat) (digits : ByteString) :
    digitsValue (List.replicate count 48 ++ digits) = digitsValue digits := by
  induction count with
  | zero => rfl
  | succ count ih => exact ih

theorem digitsValue_decimal (n : Nat) : digitsValue (decimal n) = n := by
  have digit : ∀ d < 10, ((UInt8.ofNat (Nat.digitChar d).toNat).toNat : Int) - 48 = d := by decide
  induction n using Nat.strong_induction_on with
  | _ n ih =>
    rw [decimal, Nat.toDigits_eq_if (by decide)]
    by_cases small : n < 10
    · rw [if_pos small, digitsValue, List.map_singleton, List.foldl_cons, List.foldl_nil,
        digit n small, mul_zero, zero_add]
    · have front := ih (n / 10) (by omega)
      rw [if_neg small, digitsValue, List.map_append, List.foldl_append]
      rw [digitsValue, decimal] at front
      rw [front, List.map_singleton, List.foldl_cons, List.foldl_nil,
        digit (n % 10) (Nat.mod_lt n (by decide))]
      omega

theorem padded_shows (width : Nat) : Shows (padded width) (StartsOutside isDigit) id := by
  refine shows_of_class (fun n m same => ?_) (isDigit_of_mem_padded width)
  have value := congrArg digitsValue same
  rw [padded, padded, List.leftpad, List.leftpad, digitsValue_zeros, digitsValue_zeros,
    digitsValue_decimal, digitsValue_decimal] at value
  exact_mod_cast value

theorem length_padded {width n : Nat} (positive : 0 < width) (small : n < 10 ^ width) :
    (padded width n).length = width := by
  have digits := (Nat.length_toDigits_le_iff (by decide) positive).mpr small
  rw [padded, List.leftpad, List.length_append, List.length_replicate, decimal, List.length_map]
  omega

theorem macToString_shows : Shows macToString Anything id :=
  shows_of_length macToString_injective fun _ _ => rfl

theorem dotted_shows : Shows dotted (StartsOutside isDigit) id := by
  have part (i : Fin 4) : Shows (fun a : Address => decimal (a i).toNat) (StartsOutside isDigit)
      (fun a => a i) := byte_shows.comap fun a : Address => a i
  have format := (part 0).separated [dot] rfl <| (part 1).separated [dot] rfl <|
    (part 2).separated [dot] rfl (part 3)
  refine (format.of_iff fun a b => ?_).of_eq fun a => rfl
  rw [Prod.mk.injEq, Prod.mk.injEq, Prod.mk.injEq, id, id]
  constructor
  · rintro ⟨first, second, third, fourth⟩
    funext i
    fin_cases i
    exacts [first, second, third, fourth]
  · rintro rfl
    exact ⟨rfl, rfl, rfl, rfl⟩

end PrintedFields
