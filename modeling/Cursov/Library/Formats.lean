import Mathlib.Data.List.Infix
import Mathlib.Data.List.TakeWhile
import Mathlib.Data.Nat.Digits.Defs

/-!
# Formats that can be read back

A writer turns values into text. It shows an attribute of the values when its text
depends on nothing else and when, whatever text follows, the attribute and the end of
the text are determined. Formats are put together from formats.
-/

namespace Formats

universe u v w x y

variable {α : Type u} {β : Type v} {γ : Type w} {Sym : Type x}

/-- `follow` holds of the texts that may stand behind. -/
structure Shows (write : α → List Sym) (follow : List Sym → Prop) (shown : α → β) : Prop where
  text_eq : ∀ {a b}, shown a = shown b → write a = write b
  read : ∀ {a b rest rest'}, follow rest → follow rest' →
    write a ++ rest = write b ++ rest' → shown a = shown b ∧ rest = rest'

def Anything (_ : List Sym) : Prop := True

/-- A text that starts with none of these symbols. -/
def StartsOutside (p : Sym → Bool) (rest : List Sym) : Prop :=
  ∀ c ∈ rest.head?, p c = false

theorem startsOutside_cons {p : Sym → Bool} {c : Sym} (outside : p c = false) (rest : List Sym) :
    StartsOutside p (c :: rest) := by
  rintro d ⟨⟩
  exact outside

theorem startsOutside_of_head {p : Sym → Bool} {sep : List Sym}
    (separates : (sep.head?.any fun c => !p c) = true) (rest : List Sym) :
    StartsOutside p (sep ++ rest) := by
  cases sep with
  | nil => cases separates
  | cons c sep => exact startsOutside_cons (by simpa using separates) _

theorem StartsOutside.ne_append {p : Sym → Bool} {rest text : List Sym}
    (outside : StartsOutside p rest) (starts : text.head?.any p = true) (text' : List Sym) :
    rest ≠ text ++ text' := by
  rintro rfl
  cases text with
  | nil => cases starts
  | cons c text =>
    have inside : p c = true := starts
    rw [outside c rfl] at inside
    cases inside

namespace Shows

variable {write : α → List Sym} {follow : List Sym → Prop} {shown : α → β}

theorem mono (format : Shows write follow shown) {fewer : List Sym → Prop}
    (implies : ∀ rest, fewer rest → follow rest) : Shows write fewer shown where
  text_eq := format.text_eq
  read first second same := format.read (implies _ first) (implies _ second) same

/-- The attribute can be given in any form that carries the same information. -/
theorem of_iff (format : Shows write follow shown) {shown' : α → γ}
    (same : ∀ a b, shown a = shown b ↔ shown' a = shown' b) : Shows write follow shown' where
  text_eq equal := format.text_eq ((same _ _).mpr equal)
  read first second equal :=
    (format.read first second equal).imp_left (same _ _).mp

/-- The same text, written differently. -/
theorem of_eq (format : Shows write follow shown) {write' : α → List Sym}
    (same : ∀ a, write' a = write a) : Shows write' follow shown :=
  funext same ▸ format

theorem comap (format : Shows write follow shown) (f : γ → α) :
    Shows (fun c => write (f c)) follow (fun c => shown (f c)) where
  text_eq equal := format.text_eq equal
  read first second equal := format.read first second equal

/-- A fixed text in front. -/
theorem behind (format : Shows write follow shown) (text : List Sym) :
    Shows (fun a => text ++ write a) follow shown where
  text_eq equal := congrArg (text ++ ·) (format.text_eq equal)
  read first second equal := by
    rw [List.append_assoc, List.append_assoc] at equal
    exact format.read first second (List.append_cancel_left equal)

/-- One format after the other. -/
theorem append (format : Shows write follow shown) {write' : α → List Sym}
    {follow' : List Sym → Prop} {shown' : α → γ} (next : Shows write' follow' shown')
    (joins : ∀ a rest, follow' rest → follow (write' a ++ rest)) :
    Shows (fun a => write a ++ write' a) follow' (fun a => (shown a, shown' a)) where
  text_eq equal := by
    obtain ⟨left, right⟩ := Prod.mk.inj equal
    rw [format.text_eq left, next.text_eq right]
  read first second equal := by
    rw [List.append_assoc, List.append_assoc] at equal
    obtain ⟨left, equal⟩ := format.read (joins _ _ first) (joins _ _ second) equal
    obtain ⟨right, equal⟩ := next.read first second equal
    exact ⟨Prod.ext left right, equal⟩

/-- A separator that does not start like the field goes between it and the next one. -/
theorem separated {p : Sym → Bool} (format : Shows write (StartsOutside p) shown)
    (sep : List Sym) (separates : (sep.head?.any fun c => !p c) = true)
    {write' : α → List Sym} {follow' : List Sym → Prop} {shown' : α → γ}
    (next : Shows write' follow' shown') :
    Shows (fun a => write a ++ (sep ++ write' a)) follow' (fun a => (shown a, shown' a)) := by
  refine format.append (next.behind sep) fun a rest _ => ?_
  rw [List.append_assoc]
  exact startsOutside_of_head separates _

/-- The last field of a line. -/
theorem closed {p : Sym → Bool} (format : Shows write (StartsOutside p) shown) (sep : List Sym)
    (separates : (sep.head?.any fun c => !p c) = true) :
    Shows (fun a => write a ++ sep) Anything shown where
  text_eq equal := congrArg (· ++ sep) (format.text_eq equal)
  read _ _ equal := by
    rw [List.append_assoc, List.append_assoc] at equal
    exact (format.read (startsOutside_of_head separates _) (startsOutside_of_head separates _)
      equal).imp_right List.append_cancel_left

/-- A text that is there or not; what follows does not start like it. -/
theorem option {p : Sym → Bool} (format : Shows write (StartsOutside p) shown)
    (starts : ∀ a, (write a).head?.any p = true) :
    Shows (fun o : Option α => o.elim [] write) (StartsOutside p) (fun o => o.map shown) where
  text_eq {o o'} equal := by
    cases o with
    | none =>
      cases o' with
      | none => rfl
      | some b => cases equal
    | some a =>
      cases o' with
      | none => cases equal
      | some b => exact format.text_eq (Option.some.inj equal)
  read {o o' rest rest'} first second equal := by
    cases o with
    | none =>
      cases o' with
      | none => exact ⟨rfl, equal⟩
      | some b => exact absurd equal (first.ne_append (starts b) rest')
    | some a =>
      cases o' with
      | none => exact absurd equal.symm (second.ne_append (starts a) rest)
      | some b => exact (format.read first second equal).imp_left (congrArg some)

/-- A list of values, each of which can be read back whatever follows it. -/
theorem flatMap_prefix_iff (format : Shows write Anything shown) (nonempty : ∀ a, write a ≠ [])
    (as bs : List α) : as.flatMap write <+: bs.flatMap write ↔ as.map shown <+: bs.map shown := by
  induction as generalizing bs with
  | nil => simp
  | cons a as ih =>
    cases bs with
    | nil => simp [nonempty a]
    | cons b bs =>
      rw [List.flatMap_cons, List.flatMap_cons, List.map_cons, List.map_cons,
        List.cons_prefix_cons, ← ih bs]
      constructor
      · rintro ⟨rest, equal⟩
        rw [List.append_assoc] at equal
        obtain ⟨left, equal⟩ := format.read trivial trivial equal
        exact ⟨left, rest, equal⟩
      · rintro ⟨left, rest, equal⟩
        exact ⟨rest, by rw [format.text_eq left, List.append_assoc, equal]⟩

end Shows

/-- Values of one width. -/
theorem shows_of_length {write : α → List Sym} (injective : Function.Injective write)
    (width : ∀ a b, (write a).length = (write b).length) : Shows write Anything id where
  text_eq equal := congrArg write equal
  read _ _ equal := (List.append_inj equal (width _ _)).imp_left fun same => injective same

theorem takeWhile_append_startsOutside {p : Sym → Bool} {text rest : List Sym}
    (inside : ∀ c ∈ text, p c = true) (outside : StartsOutside p rest) :
    (text ++ rest).takeWhile p = text := by
  rw [List.takeWhile_append_of_pos inside]
  cases rest with
  | nil => rw [List.takeWhile_nil, List.append_nil]
  | cons c rest =>
    rw [List.takeWhile_cons_of_neg (by simp [outside c rfl]), List.append_nil]

/-- Values written in one class of symbols, up to a symbol outside of it. -/
theorem shows_of_class {write : α → List Sym} {p : Sym → Bool}
    (injective : Function.Injective write) (inside : ∀ a, ∀ c ∈ write a, p c = true) :
    Shows write (StartsOutside p) id where
  text_eq equal := congrArg write equal
  read {a b _ _} first second equal := by
    have written : write a = write b := by
      rw [← takeWhile_append_startsOutside (inside a) first, equal,
        takeWhile_append_startsOutside (inside b) second]
    rw [written] at equal
    exact ⟨injective written, List.append_cancel_left equal⟩

/-- A word that is there for some values. -/
structure Word (α : Type u) (Sym : Type x) where
  present : α → Bool
  first : Sym
  others : List Sym

def Word.text (w : Word α Sym) (a : α) : List Sym :=
  if w.present a then w.first :: w.others else []

/-- What follows the word does not start like it. -/
theorem Word.text_shows [DecidableEq Sym] (w : Word α Sym) :
    Shows w.text (StartsOutside fun c => decide (c = w.first)) w.present where
  text_eq equal := by rw [Word.text, Word.text, equal]
  read {a b rest rest'} behind behind' equal := by
    have starts : ∀ {text : List Sym}, StartsOutside (fun c => decide (c = w.first)) text →
        ∀ text', text ≠ w.first :: text' := by
      rintro _ outside text' rfl
      exact of_decide_eq_false (outside w.first rfl) rfl
    rw [Word.text, Word.text] at equal
    cases ha : w.present a <;> cases hb : w.present b
    · simpa [ha, hb] using equal
    · exact absurd (by simpa [ha, hb] using equal) (starts behind (w.others ++ rest'))
    · exact absurd (by simpa [ha, hb] using equal.symm) (starts behind' (w.others ++ rest))
    · simpa [ha, hb] using equal

/-- The words in a fixed order. -/
def words (table : List (Word α Sym)) (a : α) : List Sym := table.flatMap fun w => w.text a

theorem startsOutside_words {table : List (Word α Sym)} {p : Sym → Bool}
    (outside : ∀ w ∈ table, p w.first = false) (a : α) {rest : List Sym}
    (behind : StartsOutside p rest) : StartsOutside p (words table a ++ rest) := by
  induction table with
  | nil => exact behind
  | cons w table ih =>
    rw [words, List.flatMap_cons, Word.text]
    split
    · exact startsOutside_cons (outside w List.mem_cons_self) _
    · exact ih fun w' mem => outside w' (List.mem_cons_of_mem w mem)

/-- Which of the words are there can be read back when no two of them start alike. -/
theorem shows_words [DecidableEq Sym] {table : List (Word α Sym)}
    (distinct : (table.map Word.first).Nodup) :
    Shows (words table) (StartsOutside fun c => decide (c ∈ table.map Word.first))
      (fun a => table.map fun w => w.present a) := by
  induction table with
  | nil => exact ⟨fun _ => rfl, fun _ _ equal => ⟨rfl, equal⟩⟩
  | cons w table ih =>
    obtain ⟨fresh, distinct⟩ := List.nodup_cons.mp distinct
    have later : Shows (words table)
        (StartsOutside fun c => decide (c ∈ (w :: table).map Word.first))
        (fun a => table.map fun w => w.present a) :=
      (ih distinct).mono fun rest outside c first => decide_eq_false fun mem =>
        of_decide_eq_false (outside c first) (List.mem_cons_of_mem _ mem)
    have format := w.text_shows.append later fun a rest outside => by
      apply startsOutside_words
      · intro w' mem
        exact decide_eq_false fun same => fresh (same ▸ List.mem_map_of_mem mem)
      · intro c first
        exact decide_eq_false fun same =>
          of_decide_eq_false (outside c first) (same ▸ List.mem_cons_self)
    refine (format.of_iff fun a b => ?_).of_eq fun a => rfl
    rw [Prod.mk.injEq, List.map_cons, List.map_cons, List.cons.injEq]

/-- Texts that differ at a place differ with whatever follows them. -/
theorem append_ne_append {text text' : List Sym} {c d : Sym} (n : Nat)
    (first : text[n]? = some c) (second : text'[n]? = some d) (differ : c ≠ d)
    (rest rest' : List Sym) : text ++ rest ≠ text' ++ rest' := by
  intro equal
  have symbols := congrArg (fun text => text[n]?) equal
  rw [List.getElem?_append_left (List.getElem?_eq_some_iff.mp first).1,
    List.getElem?_append_left (List.getElem?_eq_some_iff.mp second).1, first, second] at symbols
  exact differ (Option.some.inj symbols)

/-- Two kinds of values whose texts never start alike. -/
theorem Shows.sum {write : α → List Sym} {write' : β → List Sym} {follow : List Sym → Prop}
    {δ : Type y} {shown : α → γ} {shown' : β → δ} (left : Shows write follow shown)
    (right : Shows write' follow shown')
    (apart : ∀ a b rest rest', write a ++ rest ≠ write' b ++ rest') :
    Shows (Sum.elim write write') follow (Sum.map shown shown') where
  text_eq {s t} equal := by
    cases s with
    | inl a =>
      cases t with
      | inl b => exact left.text_eq (Sum.inl.inj equal)
      | inr b => cases equal
    | inr a =>
      cases t with
      | inl b => cases equal
      | inr b => exact right.text_eq (Sum.inr.inj equal)
  read {s t _ _} first second equal := by
    cases s with
    | inl a =>
      cases t with
      | inl b => exact (left.read first second equal).imp_left (congrArg Sum.inl)
      | inr b => exact absurd equal (apart _ _ _ _)
    | inr a =>
      cases t with
      | inl b => exact absurd equal.symm (apart _ _ _ _)
      | inr b => exact (right.read first second equal).imp_left (congrArg Sum.inr)

/-- The numerals of a base up to 16 are distinct. -/
theorem toDigits_injective {base : Nat} (least : 1 < base) (most : base ≤ 16) :
    Function.Injective (Nat.toDigits base) := by
  have digits : ∀ i j : Fin 16, Nat.digitChar i = Nat.digitChar j → i = j := by decide
  have digit : ∀ n m, n % base = m % base ∨
      Nat.digitChar (n % base) ≠ Nat.digitChar (m % base) := by
    intro n m
    have hn := Nat.mod_lt n (Nat.lt_trans Nat.one_pos least)
    have hm := Nat.mod_lt m (Nat.lt_trans Nat.one_pos least)
    by_cases equal : Nat.digitChar (n % base) = Nat.digitChar (m % base)
    · exact Or.inl (congrArg Fin.val (digits ⟨_, hn.trans_le most⟩ ⟨_, hm.trans_le most⟩ equal))
    · exact Or.inr equal
  intro n
  induction n using Nat.strong_induction_on with
  | _ n ih =>
    intro m equal
    rw [Nat.toDigits_eq_if least, Nat.toDigits_eq_if (n := m) least] at equal
    by_cases hn : n < base
    · by_cases hm : m < base
      · rw [if_pos hn, if_pos hm] at equal
        have last := digit n m
        rw [Nat.mod_eq_of_lt hn, Nat.mod_eq_of_lt hm] at last
        exact last.resolve_right (absurd (List.cons.inj equal).1)
      · rw [if_pos hn, if_neg hm] at equal
        have length := congrArg List.length equal
        have some_digit := Nat.length_toDigits_pos (b := base) (n := m / base)
        rw [List.length_append, List.length_singleton, List.length_singleton] at length
        omega
    · by_cases hm : m < base
      · rw [if_neg hn, if_pos hm] at equal
        have length := congrArg List.length equal
        have some_digit := Nat.length_toDigits_pos (b := base) (n := n / base)
        rw [List.length_append, List.length_singleton, List.length_singleton] at length
        omega
      · rw [if_neg hn, if_neg hm] at equal
        obtain ⟨front, last⟩ := List.append_inj' equal rfl
        have quotient := ih (n / base) (Nat.div_lt_self (by omega) least) front
        have remainder := (digit n m).resolve_right (absurd (List.cons.inj last).1)
        rw [← Nat.div_add_mod n base, ← Nat.div_add_mod m base, quotient, remainder]

theorem exists_digit_of_mem_toDigits {base : Nat} (least : 1 < base) (n : Nat) {c : Char}
    (mem : c ∈ Nat.toDigits base n) : ∃ d < base, c = Nat.digitChar d := by
  induction n using Nat.strong_induction_on with
  | _ n ih =>
    rw [Nat.toDigits_eq_if least] at mem
    by_cases small : n < base
    · rw [if_pos small, List.mem_singleton] at mem
      exact ⟨n, small, mem⟩
    · rw [if_neg small, List.mem_append, List.mem_singleton] at mem
      rcases mem with front | last
      · exact ih (n / base) (Nat.div_lt_self (by omega) least) front
      · exact ⟨n % base, Nat.mod_lt n (Nat.lt_trans Nat.one_pos least), last⟩

end Formats
