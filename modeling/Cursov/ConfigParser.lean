import Cursov.Bytes
import Cursov.Library.Bindings
import Cursov.Library.Text

/-!
# The configuration parser of the switch

`ConfigParser` reads a file line by line. Every line is trimmed as a whole, then
cut at its first `=`, then both parts are trimmed again; trimming also takes off
one pair of double quotes.
-/

namespace ConfigParser

open Bytes Text Bindings

abbrev Config := AList fun _ : ByteString => ByteString

/-- Begins and ends with a quote, and these are two quotes. -/
def Wrapped (str : ByteString) : Prop :=
  2 ≤ str.length ∧ str.head? = some quote ∧ str.getLast? = some quote

instance : DecidablePred Wrapped := fun _ => inferInstanceAs (Decidable (_ ∧ _ ∧ _))

/-- `str.substr(1, str.size() - 2)` on a wrapped string. -/
def unquote (str : ByteString) : ByteString :=
  if Wrapped str then (str.drop 1).take (str.length - 2) else str

def trim (str : ByteString) : ByteString := unquote (Text.trim isSpace str)

def parseLine (config : Config) (line : ByteString) : Config :=
  let trimmed := trim line
  if trimmed = [] ∨ trimmed.head? = some hash then config
  else match cut equals trimmed with
    | none => config
    | some (key, value) => if trim key ≠ [] then config.insert (trim key) (trim value) else config

def loadFromFile (contents : ByteString) : Config := (lines newline contents).foldl parseLine ∅

/-- The constructor, on a file that cannot be opened or has these contents. -/
def construct (filename : ByteString) : Option ByteString → Except ByteString Config
  | none => .error (literal "Cannot open config file: " ++ filename)
  | some contents => .ok (loadFromFile contents)

def getString (config : Config) (key defaultValue : ByteString) : ByteString :=
  match config.lookup key with
  | some value => value
  | none => defaultValue

def getBool (config : Config) (key : ByteString) (defaultValue : Bool) : Bool :=
  match config.lookup key with
  | none => defaultValue
  | some text =>
    let value := text.map toLower
    if value ∈ [literal "true", literal "TRUE", literal "1", literal "yes", literal "YES"] then true
    else if value ∈ [literal "false", literal "FALSE", literal "0", literal "no", literal "NO"] then
      false
    else defaultValue

theorem unquote_of_head {str : ByteString} (head : str.head? ≠ some quote) : unquote str = str :=
  if_neg fun wrapped => head wrapped.2.1

theorem unquote_quoted (value : ByteString) : unquote (quote :: (value ++ [quote])) = value := by
  have wrapped : Wrapped (quote :: (value ++ [quote])) := by
    refine ⟨by simp, rfl, ?_⟩
    rw [← List.cons_append, List.getLast?_concat]
  rw [unquote, if_pos wrapped]
  simp

theorem equals_not_mem {blanks : ByteString} (all : ∀ b ∈ blanks, isSpace b = true) :
    equals ∉ blanks := by
  intro h
  have spaced := all equals h
  revert spaced
  decide

/-- A key as the file format allows it. -/
structure WritableKey (key : ByteString) : Prop where
  nonempty : key ≠ []
  no_equals : equals ∉ key
  no_newline : newline ∉ key
  trimmed : Trimmed isSpace key
  no_hash : key.head? ≠ some hash
  no_quote : key.head? ≠ some quote

instance (key : ByteString) : Decidable (WritableKey key) :=
  decidable_of_iff (key ≠ [] ∧ equals ∉ key ∧ newline ∉ key ∧ Trimmed isSpace key ∧
      key.head? ≠ some hash ∧ key.head? ≠ some quote)
    ⟨fun ⟨a, b, c, d, e, f⟩ => ⟨a, b, c, d, e, f⟩, fun ⟨a, b, c, d, e, f⟩ => ⟨a, b, c, d, e, f⟩⟩

/-- What a line stores whose first trim leaves an `=` behind a name. -/
theorem parseLine_of_trim (config : Config) {line name rest : ByteString}
    (shape : trim line = name ++ equals :: rest) (free : equals ∉ name)
    (uncommented : name.head? ≠ some hash) (named : trim name ≠ []) :
    parseLine config line = config.insert (trim name) (trim rest) := by
  have stored : ¬ (name ++ equals :: rest = [] ∨
      (name ++ equals :: rest).head? = some hash) := by
    cases name with
    | nil => exact absurd rfl named
    | cons first later => simpa using uncommented
  simp only [parseLine, shape, if_neg stored, cut_append free]
  exact if_pos named

section Line

variable {key body indent beforeEq afterEq trailing : ByteString}

/-- The first trim leaves the key in front, and behind the `=` what trims to the value. -/
theorem trim_binding (beforeEq : ByteString) (named : key ≠ [])
    (starts : ∀ b ∈ key.head?, isSpace b = false) (trimmed : Trimmed isSpace body)
    (front : ∀ b ∈ indent, isSpace b = true) (around : ∀ b ∈ afterEq, isSpace b = true)
    (back : ∀ b ∈ trailing, isSpace b = true) :
    ∃ rest, Text.trim isSpace (indent ++ (key ++ (beforeEq ++ equals ::
        (afterEq ++ (body ++ trailing))))) = key ++ (beforeEq ++ equals :: rest) ∧
      Text.trim isSpace rest = body ∧ (equals :: rest).getLast? = (equals :: body).getLast? := by
  obtain ⟨first, later, rfl⟩ := List.exists_cons_of_ne_nil named
  have start : ∀ rest : ByteString, ∀ b ∈ (first :: later ++ rest).head?, isSpace b = false :=
    fun rest => starts
  by_cases empty : body = []
  · subst body
    refine ⟨[], ?_, rfl, rfl⟩
    have core : Trimmed isSpace (first :: later ++ (beforeEq ++ [equals])) := by
      refine ⟨start _, ?_⟩
      rw [← List.append_assoc, List.getLast?_concat]
      rintro b ⟨⟩
      decide
    have padding : ∀ b ∈ afterEq ++ trailing, isSpace b = true := by
      intro b hb
      rcases List.mem_append.mp hb with h | h
      · exact around b h
      · exact back b h
    have result := trim_pad front padding core
    simpa using result
  · have last : ∀ before : ByteString, (before ++ body).getLast? = body.getLast? := by
      intro before
      simp [List.getLast?_append, List.getLast?_eq_some_getLast empty]
    refine ⟨afterEq ++ body, ?_, ?_, ?_⟩
    · have core : Trimmed isSpace
          (first :: later ++ (beforeEq ++ equals :: (afterEq ++ body))) := by
        refine ⟨start _, ?_⟩
        have ends := last (first :: later ++ (beforeEq ++ equals :: afterEq))
        simp only [List.append_assoc, List.cons_append] at ends ⊢
        rw [ends]
        exact trimmed.2
      have result := trim_pad front back core
      simpa using result
    · have nothing : ∀ b ∈ ([] : ByteString), isSpace b = true := by simp
      have result := trim_pad around nothing trimmed
      rwa [List.append_nil] at result
    · rw [← List.cons_append, last, ← List.singleton_append, last]

theorem trim_padded_name {name : ByteString} (trimmed : Trimmed isSpace name)
    (between : ∀ b ∈ beforeEq, isSpace b = true) : trim (name ++ beforeEq) = unquote name := by
  have nothing : ∀ b ∈ ([] : ByteString), isSpace b = true := by simp
  have bare := trim_pad nothing between trimmed
  rw [List.nil_append] at bare
  rw [trim, bare]

theorem parseLine_binding (config : Config) (writable : WritableKey key)
    (trimmed : Trimmed isSpace body) (front : ∀ b ∈ indent, isSpace b = true)
    (between : ∀ b ∈ beforeEq, isSpace b = true) (around : ∀ b ∈ afterEq, isSpace b = true)
    (back : ∀ b ∈ trailing, isSpace b = true) :
    parseLine config (indent ++ (key ++ (beforeEq ++ equals :: (afterEq ++ (body ++ trailing))))) =
      config.insert key (unquote body) := by
  obtain ⟨rest, whole, value, _⟩ := trim_binding beforeEq writable.nonempty writable.trimmed.1
    trimmed front around back
  have head : ∀ more : ByteString, (key ++ more).head? = key.head? := by
    obtain ⟨first, later, rfl⟩ := List.exists_cons_of_ne_nil writable.nonempty
    exact fun more => rfl
  have line : trim (indent ++ (key ++ (beforeEq ++ equals :: (afterEq ++ (body ++ trailing))))) =
      (key ++ beforeEq) ++ equals :: rest := by
    rw [trim, whole, unquote_of_head (head _ ▸ writable.no_quote), List.append_assoc]
  have free : equals ∉ key ++ beforeEq := by
    rw [List.mem_append, not_or]
    exact ⟨writable.no_equals, equals_not_mem between⟩
  have name : trim (key ++ beforeEq) = key := by
    rw [trim_padded_name writable.trimmed between, unquote_of_head writable.no_quote]
  rw [parseLine_of_trim config line free (head beforeEq ▸ writable.no_hash)
    (name.symm ▸ writable.nonempty), name, trim, value]

end Line

theorem mem_of_mem_unquote {str : ByteString} {b : UInt8} (mem : b ∈ unquote str) : b ∈ str := by
  by_cases wrapped : Wrapped str
  · rw [unquote, if_pos wrapped] at mem
    exact List.mem_of_mem_drop (List.mem_of_mem_take mem)
  · rwa [unquote, if_neg wrapped] at mem

/-- A line the format ignores: blank, a comment, or without `=`. -/
inductive Ignored (line : ByteString) : Prop where
  | blank (all : ∀ b ∈ line, isSpace b = true)
  | comment (indent text : ByteString) (shape : line = indent ++ hash :: text)
      (front : ∀ b ∈ indent, isSpace b = true)
  | unassigned (free : equals ∉ line)

theorem parseLine_ignored (config : Config) {line : ByteString} (ignored : Ignored line) :
    parseLine config line = config := by
  cases ignored with
  | blank all =>
    have nothing : trim line = [] := by
      rw [trim, trim_eq_nil all]
      rfl
    simp only [parseLine, nothing, true_or, if_true]
  | comment indent text shape front =>
    have head : (Text.trim isSpace line).head? = some hash := by
      rw [shape]
      exact head_trim front (by decide)
    have same : trim line = Text.trim isSpace line :=
      unquote_of_head (by rw [head]; decide)
    simp only [parseLine, same, head, or_true, if_true]
  | unassigned free =>
    have uncut : cut equals (trim line) = none :=
      cut_eq_none_iff.mpr fun mem => free (mem_of_mem_trim (mem_of_mem_unquote mem))
    simp only [parseLine, uncut]
    split <;> rfl

/-- A final newline makes no difference. -/
theorem loadFromFile_snoc (contents : ByteString) :
    loadFromFile (contents ++ [newline]) = loadFromFile contents :=
  foldl_lines_snoc (fun config => parseLine_ignored config (.unassigned List.not_mem_nil))
    newline contents ∅

/-- A text as it stands in a line, bare or in quotes. -/
def written (quoted : Bool) (text : ByteString) : ByteString :=
  if quoted then quote :: (text ++ [quote]) else text

/-- Quotes around a text leave nothing to trim; a bare text has to be trimmed itself. -/
theorem written_trimmed {quoted : Bool} {text : ByteString}
    (bare : quoted = false → Trimmed isSpace text) : Trimmed isSpace (written quoted text) := by
  cases quoted with
  | false => exact bare rfl
  | true =>
    constructor
    · rintro b ⟨⟩
      decide
    · rw [written, if_pos rfl, ← List.cons_append, List.getLast?_concat]
      rintro b ⟨⟩
      decide

/-- Whitespace within one line. -/
def Blank (text : ByteString) : Prop := ∀ b ∈ text, isSpace b = true ∧ b ≠ newline

instance : DecidablePred Blank :=
  List.decidableBAll fun b => isSpace b = true ∧ b ≠ newline

theorem Blank.spaces {text : ByteString} (blank : Blank text) : ∀ b ∈ text, isSpace b = true :=
  fun b hb => (blank b hb).1

theorem Blank.one_line {text : ByteString} (blank : Blank text) : newline ∉ text :=
  fun h => (blank newline h).2 rfl

/-- One entry as it is written, with the blanks around its parts. -/
structure EntryLine where
  key : ByteString
  value : ByteString
  quoted : Bool
  indent : ByteString
  beforeEq : ByteString
  afterEq : ByteString
  trailing : ByteString
  writable : WritableKey key
  one_line : newline ∉ value
  bare : quoted = false → Trimmed isSpace value ∧ ¬ Wrapped value
  front : Blank indent
  between : Blank beforeEq
  around : Blank afterEq
  back : Blank trailing

structure IgnoredLine where
  text : ByteString
  one_line : newline ∉ text
  ignored : Ignored text

inductive FileLine where
  | entry (e : EntryLine)
  | other (o : IgnoredLine)

namespace EntryLine

/-- The value as written. -/
def body (e : EntryLine) : ByteString :=
  if e.quoted then quote :: (e.value ++ [quote]) else e.value

def text (e : EntryLine) : ByteString :=
  e.indent ++ (e.key ++ (e.beforeEq ++ equals :: (e.afterEq ++ (e.body ++ e.trailing))))

theorem body_trimmed (e : EntryLine) : Trimmed isSpace e.body :=
  written_trimmed fun bare => (e.bare bare).1

theorem unquote_body (e : EntryLine) : unquote e.body = e.value := by
  by_cases quoted : e.quoted = true
  · rw [body, if_pos quoted, unquote_quoted]
  · rw [body, if_neg quoted]
    exact if_neg (e.bare (Bool.not_eq_true _ ▸ quoted)).2

theorem parse (config : Config) (e : EntryLine) :
    parseLine config e.text = config.insert e.key e.value := by
  rw [text, parseLine_binding config e.writable e.body_trimmed e.front.spaces e.between.spaces
    e.around.spaces e.back.spaces, unquote_body]

theorem one_line_text (e : EntryLine) : newline ∉ e.text := by
  have value : newline ∉ e.body := by
    by_cases quoted : e.quoted = true
    · rw [body, if_pos quoted]
      have apart : newline ≠ quote := by decide
      simp [apart, e.one_line]
    · rw [body, if_neg quoted]
      exact e.one_line
  simp only [text, List.mem_append, List.mem_cons, not_or]
  exact ⟨e.front.one_line, e.writable.no_newline, e.between.one_line, by decide,
    e.around.one_line, value, e.back.one_line⟩

end EntryLine

namespace FileLine

def text : FileLine → ByteString
  | .entry e => e.text
  | .other o => o.text

/-- The entries of a file, in the order they are written. -/
def entries (file : List FileLine) : List (Sigma fun _ : ByteString => ByteString) :=
  file.filterMap fun
    | .entry e => some ⟨e.key, e.value⟩
    | .other _ => none

theorem one_line (line : FileLine) : newline ∉ line.text := by
  cases line with
  | entry e => exact e.one_line_text
  | other o => exact o.one_line

theorem parse_all (config : Config) (file : List FileLine) :
    (file.map text).foldl parseLine config = record config (entries file) := by
  induction file generalizing config with
  | nil => rfl
  | cons line rest ih =>
    cases line with
    | entry e =>
      rw [List.map_cons, List.foldl_cons, text, e.parse, ih]
      rfl
    | other o =>
      rw [List.map_cons, List.foldl_cons, text, parseLine_ignored config o.ignored, ih]
      rfl

end FileLine

/-- What is written is read back: whatever the order of the entries, the blanks, the quotes
and the lines between, the parser knows exactly the map that was written. -/
theorem getString_of_written (m : Config) (file : List FileLine) (contents : ByteString)
    (order : (FileLine.entries file).Perm m.entries)
    (written : contents = terminated newline (file.map FileLine.text) ∨
      contents ++ [newline] = terminated newline (file.map FileLine.text))
    (key defaultValue : ByteString) :
    getString (loadFromFile contents) key defaultValue = (m.lookup key).getD defaultValue := by
  have free : ∀ line ∈ file.map FileLine.text, newline ∉ line := by
    intro line mem
    obtain ⟨source, _, rfl⟩ := List.mem_map.mp mem
    exact source.one_line
  have whole : loadFromFile (terminated newline (file.map FileLine.text)) =
      record ∅ (FileLine.entries file) := by
    rw [loadFromFile, lines_terminated free, FileLine.parse_all]
  have loaded : loadFromFile contents = record ∅ (FileLine.entries file) := by
    rcases written with rfl | more
    · exact whole
    · rw [← loadFromFile_snoc, more, whole]
  rw [getString, loaded, lookup_record_perm order]
  cases m.lookup key with
  | none => rfl
  | some value => rfl

/-- A comment, a quoted value with blanks and `=` in it, and a bare value. -/
def writtenFile : List FileLine :=
  [.other ⟨literal " # ttl", by decide, .comment [space] (literal " ttl") rfl (by simp [isSpace])⟩,
   .entry ⟨literal "client", literal " a=b ", true, [space], [space], [9], [13],
    by decide, by decide, by decide, by decide, by decide, by decide, by decide⟩,
   .entry ⟨literal "enabled", literal "true", false, [], [], [], [],
    by decide, by decide, by decide, by decide, by decide, by decide, by decide⟩]

theorem getString_of_written_quoted :
    getString (loadFromFile (literal " # ttl\n client =\t\" a=b \"\r\nenabled=true"))
      (literal "client") [] = literal " a=b " := by
  have read := getString_of_written
    (((∅ : Config).insert (literal "enabled") (literal "true")).insert (literal "client")
      (literal " a=b "))
    writtenFile (literal " # ttl\n client =\t\" a=b \"\r\nenabled=true") (List.Perm.refl _)
    (Or.inr (by decide)) (literal "client") []
  exact read.trans (by decide)

theorem head_ne_quote {text : ByteString} (no_quote : quote ∉ text) : text.head? ≠ some quote :=
  fun head => no_quote (List.mem_of_head? head)

theorem unquote_written (quoted : Bool) {text : ByteString} (no_quote : quote ∉ text) :
    unquote (written quoted text) = text := by
  cases quoted with
  | false => exact unquote_of_head (head_ne_quote no_quote)
  | true => exact unquote_quoted text

/-- A key without quotes. -/
structure PlainKey (key : ByteString) : Prop where
  nonempty : key ≠ []
  no_equals : equals ∉ key
  no_newline : newline ∉ key
  no_quote : quote ∉ key
  trimmed : Trimmed isSpace key
  no_hash : key.head? ≠ some hash

/-- A value without quotes. -/
structure PlainValue (value : ByteString) : Prop where
  no_newline : newline ∉ value
  no_quote : quote ∉ value
  trimmed : Trimmed isSpace value

/-- The whitespace around the two parts of a line. -/
structure Padding where
  indent : ByteString
  beforeEq : ByteString
  afterEq : ByteString
  trailing : ByteString
  front : ∀ b ∈ indent, isSpace b = true
  between : ∀ b ∈ beforeEq, isSpace b = true
  around : ∀ b ∈ afterEq, isSpace b = true
  back : ∀ b ∈ trailing, isSpace b = true

def Padding.line (p : Padding) (name body : ByteString) : ByteString :=
  p.indent ++ (name ++ (p.beforeEq ++ equals :: (p.afterEq ++ (body ++ p.trailing))))

section Quotes

variable {key value : ByteString}

theorem PlainKey.writable (plain : PlainKey key) : WritableKey key :=
  ⟨plain.nonempty, plain.no_equals, plain.no_newline, plain.trimmed, plain.no_hash,
    head_ne_quote plain.no_quote⟩

theorem PlainKey.quoted_no_equals (plain : PlainKey key) : equals ∉ written true key := by
  have apart : equals ≠ quote := by decide
  simp [written, plain.no_equals, apart]

theorem parseLine_bare_key (config : Config) (p : Padding) (valueQuoted : Bool)
    (plainKey : PlainKey key) (plainValue : PlainValue value) :
    parseLine config (p.line key (written valueQuoted value)) = config.insert key value := by
  have trimmed : Trimmed isSpace (written valueQuoted value) :=
    written_trimmed fun _ => plainValue.trimmed
  have stored :=
    parseLine_binding config plainKey.writable trimmed p.front p.between p.around p.back
  rwa [unquote_written _ plainValue.no_quote] at stored

/-- The quote before the key has no partner at the end of the line. -/
theorem parseLine_quoted_key (config : Config) (p : Padding) (plainKey : PlainKey key)
    (plainValue : PlainValue value) :
    parseLine config (p.line (written true key) value) = config.insert key value := by
  have trimmed : Trimmed isSpace (written true key) := written_trimmed nofun
  obtain ⟨rest, whole, body, last⟩ := trim_binding p.beforeEq (List.cons_ne_nil _ _) trimmed.1
    plainValue.trimmed p.front p.around p.back
  have unwrapped : ¬ Wrapped (written true key ++ (p.beforeEq ++ equals :: rest)) := by
    rintro ⟨_, _, ends⟩
    rw [← List.append_assoc, List.getLast?_append_of_ne_nil _ (List.cons_ne_nil _ _), last] at ends
    rcases List.mem_cons.mp (List.mem_of_getLast? ends) with same | inside
    · revert same
      decide
    · exact plainValue.no_quote inside
  have line : trim (p.line (written true key) value) =
      (written true key ++ p.beforeEq) ++ equals :: rest := by
    rw [trim, Padding.line]
    exact (congrArg unquote whole).trans ((if_neg unwrapped).trans (List.append_assoc _ _ _).symm)
  have free : equals ∉ written true key ++ p.beforeEq := by
    rw [List.mem_append, not_or]
    exact ⟨plainKey.quoted_no_equals, equals_not_mem p.between⟩
  have name : trim (written true key ++ p.beforeEq) = key := by
    rw [trim_padded_name trimmed p.between, unquote_written true plainKey.no_quote]
  have quoted : (written true key ++ p.beforeEq).head? ≠ some hash :=
    show some quote ≠ some hash by decide
  rw [parseLine_of_trim config line free quoted (name.symm ▸ plainKey.nonempty), name, trim, body,
    unquote_of_head (head_ne_quote plainValue.no_quote)]

/-- A key that has lost its first quote keeps the second. -/
theorem trim_broken_key {beforeEq : ByteString} (plain : PlainKey key)
    (between : ∀ b ∈ beforeEq, isSpace b = true) :
    trim (key ++ quote :: beforeEq) = key ++ [quote] := by
  have head : (key ++ [quote]).head? = key.head? := List.head?_append_of_ne_nil key plain.nonempty
  have trimmed : Trimmed isSpace (key ++ [quote]) := by
    refine ⟨head ▸ plain.trimmed.1, ?_⟩
    rw [List.getLast?_concat]
    rintro b ⟨⟩
    decide
  rw [List.append_cons, trim_padded_name trimmed between,
    unquote_of_head (head ▸ head_ne_quote plain.no_quote)]

/-- A value that has lost its last quote keeps the first. -/
theorem trim_broken_value {afterEq : ByteString} (plain : PlainValue value)
    (around : ∀ b ∈ afterEq, isSpace b = true) :
    trim (afterEq ++ quote :: value) = quote :: value := by
  have trimmed : Trimmed isSpace (quote :: value) := by
    constructor
    · rintro b ⟨⟩
      decide
    · by_cases empty : value = []
      · subst value
        rintro b ⟨⟩
        decide
      · rw [List.getLast?_cons_of_ne_nil empty]
        exact plain.trimmed.2
  have unwrapped : ¬ Wrapped (quote :: value) := by
    rintro ⟨long, _, ends⟩
    have nonempty : value ≠ [] := by
      rintro rfl
      exact absurd long (by decide)
    rw [List.getLast?_cons_of_ne_nil nonempty] at ends
    exact plain.no_quote (List.mem_of_getLast? ends)
  have nothing : ∀ b ∈ ([] : ByteString), isSpace b = true := by simp
  have bare := trim_pad around nothing trimmed
  rw [List.append_nil] at bare
  rw [trim, bare]
  exact if_neg unwrapped

/-- The quote before the key is paired with the one behind the value, and both are lost. -/
theorem parseLine_both_quoted (config : Config) (p : Padding) (plainKey : PlainKey key)
    (plainValue : PlainValue value) :
    parseLine config (p.line (written true key) (written true value)) =
      config.insert (key ++ [quote]) (quote :: value) := by
  have line : trim (p.line (written true key) (written true value)) =
      (key ++ quote :: p.beforeEq) ++ equals :: (p.afterEq ++ quote :: value) := by
    have core : Trimmed isSpace (written true
        ((key ++ quote :: p.beforeEq) ++ equals :: (p.afterEq ++ quote :: value))) :=
      written_trimmed nofun
    have shape : p.line (written true key) (written true value) = p.indent ++ (written true
        ((key ++ quote :: p.beforeEq) ++ equals :: (p.afterEq ++ quote :: value)) ++
          p.trailing) := by
      simp [Padding.line, written]
    rw [trim, shape, trim_pad p.front p.back core, written, if_pos rfl, unquote_quoted]
  have free : equals ∉ key ++ quote :: p.beforeEq := by
    have apart : equals ≠ quote := by decide
    simp [plainKey.no_equals, apart, equals_not_mem p.between]
  have uncommented : (key ++ quote :: p.beforeEq).head? ≠ some hash := by
    rw [List.head?_append_of_ne_nil key plainKey.nonempty]
    exact plainKey.no_hash
  have name := trim_broken_key plainKey p.between
  rw [parseLine_of_trim config line free uncommented (by simp [name]), name,
    trim_broken_value plainValue p.around]

/-- The line binds the key to the value and touches no other key. -/
def Stores (line key value : ByteString) : Prop :=
  ∀ (config : Config) (name : ByteString), (parseLine config line).lookup name =
    if name = key then some value else config.lookup name

theorem stores_of_insert {line : ByteString}
    (inserts : ∀ config, parseLine config line = config.insert key value) :
    Stores line key value := by
  intro config name
  rw [inserts]
  by_cases same : name = key
  · rw [if_pos same, same, AList.lookup_insert]
  · rw [if_neg same, AList.lookup_insert_ne same]

/-- Whatever the padding, a line stores what is written exactly unless both parts are in
quotes. -/
theorem stores_iff_not_both_quoted (p : Padding) (keyQuoted valueQuoted : Bool)
    (plainKey : PlainKey key) (plainValue : PlainValue value) :
    Stores (p.line (written keyQuoted key) (written valueQuoted value)) key value ↔
      ¬ (keyQuoted = true ∧ valueQuoted = true) := by
  cases keyQuoted with
  | false =>
    refine iff_of_true (stores_of_insert fun config => ?_) nofun
    exact parseLine_bare_key config p valueQuoted plainKey plainValue
  | true =>
    cases valueQuoted with
    | false =>
      refine iff_of_true (stores_of_insert fun config => ?_) nofun
      exact parseLine_quoted_key config p plainKey plainValue
    | true =>
      refine iff_of_false (fun stores => ?_) fun other => other ⟨rfl, rfl⟩
      have found := stores ∅ key
      have apart : key ≠ key ++ [quote] := by simp
      rw [parseLine_both_quoted _ p plainKey plainValue, AList.lookup_insert_ne apart,
        if_pos rfl] at found
      cases found

end Quotes

/-- `"port" = 80` with a carriage return. -/
def portPadding : Padding :=
  ⟨[], [space], [space], [13], List.forall_mem_nil _, List.forall_mem_singleton.mpr rfl,
    List.forall_mem_singleton.mpr rfl, List.forall_mem_singleton.mpr rfl⟩

theorem stores_quoted_key :
    Stores (literal "\"port\" = 80\r") (literal "port") (literal "80") := by
  have plainKey : PlainKey (literal "port") :=
    ⟨by decide, by decide, by decide, by decide, by decide, by decide⟩
  have plainValue : PlainValue (literal "80") := ⟨by decide, by decide, by decide⟩
  exact (stores_iff_not_both_quoted portPadding true false plainKey plainValue).mpr (by decide)

/-- `"port"="80"` is stored under the key `port"` with the value `"80`. -/
theorem both_quoted_misread :
    (parseLine ∅ (literal "\"port\"=\"80\"")).lookup (literal "port\"") =
        some (literal "\"80") ∧
      ¬ Stores (literal "\"port\"=\"80\"") (literal "port") (literal "80") := by
  refine ⟨by decide, fun stores => ?_⟩
  have found := stores ∅ (literal "port")
  revert found
  decide

end ConfigParser
