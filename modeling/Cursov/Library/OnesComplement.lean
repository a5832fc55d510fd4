import Mathlib.Data.Nat.ModEq

/-!
# One's-complement sums

Addition of digits in base `b` with the carry added back at the low end. A sum that
is collected first and folded afterwards has the same residue modulo `b - 1`, and is
zero only when every summand is.
-/

namespace OnesComplement

/-- Take the carries off and add them at the low end. -/
def fold (b x : Nat) : Nat := x / b + x % b

/-- The digits summed with end-around carry. -/
def sum (b : Nat) (digits : List Nat) : Nat := digits.foldl (fun x y => fold b (x + y)) 0

/-- `r` is the digit that `x` comes to when all carries are folded back. -/
structure Folded (b x r : Nat) : Prop where
  small : r < b
  residue : r ≡ x [MOD b - 1]
  zero : r = 0 ↔ x = 0

variable {b : Nat}

theorem fold_modEq (base : 2 ≤ b) (x : Nat) : fold b x ≡ x [MOD b - 1] := by
  have one : b ≡ 1 [MOD b - 1] := by
    have shifted : (b - 1) + 1 ≡ 1 [MOD b - 1] := by simp [Nat.ModEq]
    rwa [Nat.sub_add_cancel (by omega)] at shifted
  calc fold b x ≡ 1 * (x / b) + x % b [MOD b - 1] := by rw [Nat.one_mul, fold]
    _ ≡ b * (x / b) + x % b [MOD b - 1] := (one.symm.mul_right _).add_right _
    _ ≡ x [MOD b - 1] := by rw [Nat.div_add_mod]

theorem fold_eq_zero (b x : Nat) : fold b x = 0 ↔ x = 0 := by
  constructor
  · intro h
    have split := Nat.div_add_mod x b
    rw [fold, Nat.add_eq_zero_iff] at h
    rw [h.1, h.2] at split
    omega
  · rintro rfl
    rw [fold, Nat.zero_div, Nat.zero_mod]

/-- The carry of two digits is folded back in one step. -/
theorem fold_add_lt {x y : Nat} (hx : x < b) (hy : y < b) : fold b (x + y) < b := by
  by_cases carries : x + y < b
  · rw [fold, Nat.div_eq_of_lt carries, Nat.mod_eq_of_lt carries]
    omega
  · have quotient : (x + y) / b = 1 := Nat.div_eq_of_lt_le (by omega) (by omega)
    have split := Nat.div_add_mod (x + y) b
    rw [quotient] at split
    rw [fold, quotient]
    omega

namespace Folded

theorem unique (base : 2 ≤ b) {x r r' : Nat} (h : Folded b x r) (h' : Folded b x r') : r = r' := by
  have same : r ≡ r' [MOD b - 1] := h.residue.trans h'.residue.symm
  have zeros : r = 0 ↔ r' = 0 := h.zero.trans h'.zero.symm
  have top : ∀ {u v : Nat}, u < b - 1 → v = b - 1 → u ≡ v [MOD b - 1] → u = 0 := by
    intro u v small top equal
    rw [Nat.ModEq, top, Nat.mod_self, Nat.mod_eq_of_lt small] at equal
    exact equal
  have hr := h.small
  have hr' := h'.small
  by_cases first : r < b - 1
  · by_cases second : r' < b - 1
    · exact Nat.ModEq.eq_of_lt_of_lt same first second
    · have zero := top first (by omega) same
      omega
  · by_cases second : r' < b - 1
    · have zero := top second (by omega) same.symm
      omega
    · omega

theorem self {x : Nat} (small : x < b) : Folded b x x := ⟨small, Nat.ModEq.refl x, Iff.rfl⟩

/-- Folding a partial sum does not change what it comes to. -/
theorem of_fold (base : 2 ≤ b) {x r : Nat} (h : Folded b (fold b x) r) : Folded b x r where
  small := h.small
  residue := h.residue.trans (fold_modEq base x)
  zero := h.zero.trans (fold_eq_zero b x)

/-- Add a digit to a folded sum. -/
theorem add (base : 2 ≤ b) {x r y : Nat} (h : Folded b x r) (digit : y < b) :
    Folded b (x + y) (fold b (r + y)) where
  small := fold_add_lt h.small digit
  residue := (fold_modEq base (r + y)).trans (h.residue.add_right y)
  zero := by
    rw [fold_eq_zero, Nat.add_eq_zero_iff, Nat.add_eq_zero_iff, h.zero]

end Folded

theorem sum_folded (base : 2 ≤ b) {digits : List Nat} (bound : ∀ d ∈ digits, d < b) :
    Folded b digits.sum (sum b digits) := by
  have general : ∀ x r, Folded b x r →
      Folded b (x + digits.sum) (digits.foldl (fun x y => fold b (x + y)) r) := by
    induction digits with
    | nil => exact fun x r h => h
    | cons d rest ih =>
      intro x r h
      obtain ⟨first, others⟩ := List.forall_mem_cons.mp bound
      rw [List.sum_cons, ← Nat.add_assoc]
      exact ih others _ _ (h.add base first)
  simpa [sum] using general 0 0 (.self (by omega))

end OnesComplement
