import Cursov.Frame
import Cursov.Library.OnesComplement

/-!
# The Internet checksum

The words that `checksum` adds up, their one's-complement sum, and when the single
fold of the carries gives its complement.
-/

namespace InternetChecksum

open Frame OnesComplement

/-- The 16-bit words of a buffer; an odd last byte is padded with zero. -/
def words (m : Memory) : (len addr : Nat) → List Nat
  | 0, _ => []
  | 1, addr => [(m addr).toNat]
  | len + 2, addr => read16 m addr :: words m len (addr + 2)

/-- The one's-complement sum of the words, all carries folded back. -/
def onesSum (m : Memory) (addr len : Nat) : Nat := OnesComplement.sum (2 ^ 16) (words m len addr)

def internetChecksum (m : Memory) (addr len : Nat) : Nat := 2 ^ 16 - 1 - onesSum m addr len

/-- Folding the carries of the plain sum once leaves none. -/
def FoldsOnce (m : Memory) (addr len : Nat) : Prop :=
  fold (2 ^ 16) (words m len addr).sum < 2 ^ 16

theorem read16_lt (m : Memory) (addr : Nat) : read16 m addr < 2 ^ 16 := by
  have low := (m addr).toNat_lt
  have high := (m (addr + 1)).toNat_lt
  rw [read16]
  omega

theorem words_lt (m : Memory) (len addr : Nat) : ∀ word ∈ words m len addr, word < 2 ^ 16 := by
  induction len, addr using words.induct with
  | case1 addr => simp [words]
  | case2 addr =>
    have byte := (m addr).toNat_lt
    simp only [words, List.mem_singleton, forall_eq]
    omega
  | case3 len addr ih =>
    rw [words, List.forall_mem_cons]
    exact ⟨read16_lt m addr, ih⟩

theorem sum_words_le (m : Memory) (len addr : Nat) :
    (words m len addr).sum ≤ (2 ^ 16 - 1) * ((len + 1) / 2) := by
  induction len, addr using words.induct with
  | case1 addr => simp [words]
  | case2 addr =>
    have byte := (m addr).toNat_lt
    simp only [words, List.sum_cons, List.sum_nil]
    omega
  | case3 len addr ih =>
    have word := read16_lt m addr
    rw [words, List.sum_cons]
    omega

/-- No addition of the loop overflows its 32 bits. -/
theorem checksumLoop_eq (m : Memory) (len addr sum : Nat)
    (bound : sum + (words m len addr).sum < 2 ^ 32) :
    checksumLoop m len addr sum = sum + (words m len addr).sum := by
  induction len, addr using words.induct generalizing sum with
  | case1 addr => rfl
  | case2 addr =>
    simp only [words, List.sum_cons, List.sum_nil, Nat.add_zero] at bound ⊢
    exact Nat.mod_eq_of_lt bound
  | case3 len addr ih =>
    rw [words, List.sum_cons] at bound ⊢
    rw [checksumLoop, Nat.mod_eq_of_lt (by omega), ih _ (by omega)]
    omega

theorem checksum_eq (m : Memory) (addr : Nat) {len : Nat} (bound : len ≤ 65535) :
    checksum m addr len = 2 ^ 16 - 1 - fold (2 ^ 16) (words m len addr).sum % 2 ^ 16 := by
  have small := sum_words_le m len addr
  have loop := checksumLoop_eq m len addr 0 (by omega)
  simp only [checksum, Int.toNat_natCast, loop, Nat.zero_add]
  rw [fold, Nat.mod_eq_of_lt (b := 2 ^ 32) (by omega)]

theorem onesSum_folded (m : Memory) (addr len : Nat) :
    Folded (2 ^ 16) (words m len addr).sum (onesSum m addr len) :=
  sum_folded (by decide) (words_lt m len addr)

/-- What one more fold adds when a carry is left. -/
theorem onesSum_eq (m : Memory) (addr : Nat) {len : Nat} (bound : len ≤ 65535) :
    onesSum m addr len =
      if fold (2 ^ 16) (words m len addr).sum < 2 ^ 16 then fold (2 ^ 16) (words m len addr).sum
      else fold (2 ^ 16) (words m len addr).sum - 2 ^ 16 + 1 := by
  have base : 2 ≤ 2 ^ 16 := by decide
  have small := sum_words_le m len addr
  have folded := onesSum_folded m addr len
  by_cases once : fold (2 ^ 16) (words m len addr).sum < 2 ^ 16
  · rw [if_pos once]
    exact folded.unique base (.of_fold base (.self once))
  · rw [if_neg once]
    have again : fold (2 ^ 16) (fold (2 ^ 16) (words m len addr).sum) =
        fold (2 ^ 16) (words m len addr).sum - 2 ^ 16 + 1 := by
      simp only [fold] at once ⊢
      omega
    rw [← again]
    refine folded.unique base (.of_fold base (.of_fold base (.self ?_)))
    rw [again]
    simp only [fold] at once ⊢
    omega

theorem checksum_eq_internetChecksum_iff (m : Memory) (addr : Nat) {len : Nat}
    (bound : len ≤ 65535) :
    checksum m addr len = internetChecksum m addr len ↔ FoldsOnce m addr len := by
  have small := sum_words_le m len addr
  rw [internetChecksum, onesSum_eq m addr bound, checksum_eq m addr bound, FoldsOnce]
  by_cases once : fold (2 ^ 16) (words m len addr).sum < 2 ^ 16
  · rw [if_pos once, Nat.mod_eq_of_lt once]
    exact iff_of_true rfl once
  · rw [if_neg once]
    refine iff_of_false ?_ once
    simp only [fold] at once ⊢
    omega

theorem words_congr {m m' : Memory} (len addr : Nat)
    (same : ∀ i, addr ≤ i → i < addr + len → m i = m' i) :
    words m len addr = words m' len addr := by
  induction len, addr using words.induct with
  | case1 addr => rfl
  | case2 addr => rw [words, words, same addr (by omega) (by omega)]
  | case3 len addr ih =>
    rw [words, words, read16, read16, same addr (by omega) (by omega),
      same (addr + 1) (by omega) (by omega), ih fun i low high => same i (by omega) (by omega)]

theorem write16_of_ne (m : Memory) {a i : Nat} (value : Nat) (first : i ≠ a) (second : i ≠ a + 1) :
    write16 m a value i = m i := by
  rw [write16, Function.update_of_ne second, Function.update_of_ne first]

theorem write16_low (m : Memory) (a value : Nat) :
    write16 m a value a = UInt8.ofNat (value % 256) := by
  rw [write16, Function.update_of_ne (by omega), Function.update_self]

theorem write16_high (m : Memory) (a value : Nat) :
    write16 m a value (a + 1) = UInt8.ofNat (value / 256 % 256) := by
  rw [write16, Function.update_self]

theorem read16_write16 (m : Memory) (a : Nat) {value : Nat} (small : value < 2 ^ 16) :
    read16 (write16 m a value) a = value := by
  rw [read16, write16_low, write16_high, UInt8.toNat_ofNat', UInt8.toNat_ofNat']
  omega

/-- A word at an even offset counts with its value. -/
theorem sum_words_write16 (m : Memory) (len addr p : Nat) {value : Nat} (small : value < 2 ^ 16)
    (even : p % 2 = 0) (inside : p + 2 ≤ len) :
    (words (write16 m (addr + p) value) len addr).sum + read16 m (addr + p) =
      (words m len addr).sum + value := by
  induction len, addr using words.induct generalizing p with
  | case1 addr => omega
  | case2 addr => omega
  | case3 len addr ih =>
    rw [words, words, List.sum_cons, List.sum_cons]
    by_cases first : p = 0
    · subst p
      have rest : words (write16 m (addr + 0) value) len (addr + 2) = words m len (addr + 2) :=
        words_congr len (addr + 2) fun i low _ => write16_of_ne m value (by omega) (by omega)
      rw [rest, Nat.add_zero, read16_write16 m addr small]
      omega
    · have head : read16 (write16 m (addr + p) value) addr = read16 m addr := by
        rw [read16, read16, write16_of_ne m value (by omega) (by omega),
          write16_of_ne m value (by omega) (by omega)]
      have tail := ih (p - 2) (by omega) (by omega)
      have place : addr + 2 + (p - 2) = addr + p := by omega
      rw [place] at tail
      rw [head]
      omega

theorem stored_sum_iff (m : Memory) (addr : Nat) {len p : Nat} (bound : len ≤ 65535)
    (even : p % 2 = 0) (inside : p + 2 ≤ len) (zeroed : read16 m (addr + p) = 0) :
    onesSum (write16 m (addr + p) (checksum m addr len)) addr len = 0xFFFF ↔
      FoldsOnce m addr len := by
  have small := sum_words_le m len addr
  have value := checksum_eq m addr bound
  have digit : checksum m addr len < 2 ^ 16 := by omega
  have total := sum_words_write16 m len addr p digit even inside
  rw [zeroed, Nat.add_zero] at total
  have folded := onesSum_folded (write16 m (addr + p) (checksum m addr len)) addr len
  rw [total] at folded
  have top : fold (2 ^ 16) (words m len addr).sum < 2 * 2 ^ 16 - 1 := by
    rw [fold]
    omega
  have none_lost := fold_eq_zero (2 ^ 16) (words m len addr).sum
  have kept := fold_modEq (b := 2 ^ 16) (by decide) (words m len addr).sum
  obtain ⟨result, residue, zero⟩ := folded
  rw [Nat.ModEq] at residue kept
  rw [FoldsOnce]
  generalize onesSum (write16 m (addr + p) (checksum m addr len)) addr len = r at *
  generalize checksum m addr len = c at *
  generalize fold (2 ^ 16) (words m len addr).sum = f at *
  generalize (words m len addr).sum = S at *
  by_cases carries : f < 2 ^ 16
  · rw [Nat.mod_eq_of_lt carries] at value
    omega
  · have rest : f % 2 ^ 16 = f - 2 ^ 16 := by omega
    rw [rest] at value
    omega

/-- The code's checksum is the Internet checksum, and makes the sum of a buffer with a
zeroed field all ones, exactly when one fold takes care of all carries. -/
theorem checksum_iff_folds_once (m : Memory) (addr len : Nat) (bound : len ≤ 65535) :
    (checksum m addr len = internetChecksum m addr len ↔ FoldsOnce m addr len) ∧
    ∀ p, p % 2 = 0 → p + 2 ≤ len → read16 m (addr + p) = 0 →
      (onesSum (write16 m (addr + p) (checksum m addr len)) addr len = 0xFFFF ↔
        FoldsOnce m addr len) :=
  ⟨checksum_eq_internetChecksum_iff m addr bound,
    fun _ even inside zeroed => stored_sum_iff m addr bound even inside zeroed⟩

/-- An echo request whose words sum to a carry that is folded once. -/
def echoBuffer : Memory := fun i => ([8, 0, 0, 0, 255, 255, 1, 0] : List UInt8).getD i 0

theorem checksum_iff_folds_once_echo :
    checksum echoBuffer 0 8 = internetChecksum echoBuffer 0 8 :=
  (checksum_iff_folds_once echoBuffer 0 8 (by decide)).1.mpr (by
    rw [FoldsOnce]
    decide)

/-- An echo request with identifier FF FF and sequence F8 FF: the fold itself carries. -/
def carryBuffer : Memory := fun i => ([8, 0, 0, 0, 255, 255, 248, 255] : List UInt8).getD i 0

theorem checksum_not_internetChecksum :
    checksum carryBuffer 0 8 ≠ internetChecksum carryBuffer 0 8 ∧ read16 carryBuffer 2 = 0 ∧
      onesSum (write16 carryBuffer 2 (checksum carryBuffer 0 8)) 0 8 ≠ 0xFFFF := by
  decide

end InternetChecksum
