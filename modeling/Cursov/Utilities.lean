import Cursov.ConfigParser

/-!
# Configuration files, protocol names, numbers and threads

What client and server share: `read_config_file`, `parse_protocol`, and of the
standard library `stoi` and the life of a thread object.
-/

namespace Utilities

open Bytes Text Bindings ConfigParser

/-- The exceptions these functions raise, with their texts. -/
inductive Failure where
  | runtimeError (what : ByteString)
  | invalidArgument (what : ByteString)
  | outOfRange (what : ByteString)
  deriving DecidableEq

/-- A literal of the source that is not ASCII. -/
def utf8 (text : String) : ByteString := text.toUTF8.toList

/-- The characters `read_config_file` trims: space, tab, newline, carriage return. -/
def isBlank (b : UInt8) : Bool := b == space || b == 9 || b == newline || b == 13

/-- `find_first_not_of(" \t\n\r")`; `none` is `npos`, which is no position of a string. -/
def findFirstNotBlank (str : ByteString) : Option Nat :=
  let i := str.findIdx fun b => !isBlank b
  if i < str.length then some i else none

/-- `find_last_not_of(" \t\n\r")`. -/
def findLastNotBlank (str : ByteString) : Option Nat :=
  let i := str.reverse.findIdx fun b => !isBlank b
  if i < str.length then some (str.length - 1 - i) else none

/-- One more than a position; one more than `npos` is zero. -/
def onePast : Option Nat → Nat
  | none => 0
  | some i => i + 1

/-- `erase(pos, count)` of a string. A count of `npos` is all that follows. -/
def erase (str : ByteString) (pos : Nat) (count : Option Nat) : Except Failure ByteString :=
  if str.length < pos then .error (.outOfRange (literal "basic_string::erase"))
  else .ok (str.take pos ++ match count with
    | none => []
    | some n => str.drop (pos + n))

/-- The two `erase` calls for a key or a value. -/
def eraseBlanks (str : ByteString) : Except Failure ByteString := do
  let front ← erase str 0 (findFirstNotBlank str)
  erase front (onePast (findLastNotBlank front)) none

/-- One round of the loop of `read_config_file`. -/
def readLine (config : Config) (line : ByteString) : Except Failure Config :=
  match getline equals line with
  | none => .ok config
  | some (key, rest) => match getline newline rest with
    | none => .ok config
    | some (value, _) => do
      let key ← eraseBlanks key
      let value ← eraseBlanks value
      if key ≠ [] ∧ value ≠ [] then .ok (config.insert key value) else .ok config

/-- `read_config_file`; `file` is the contents of a readable regular file. -/
def readConfigFile (filename : ByteString) (file : Option ByteString) : Except Failure Config :=
  match file with
  | none => .error (.runtimeError
      (utf8 "Файл конфигурации недоступен или не существует: " ++ filename))
  | some contents => (lines newline contents).foldlM readLine ∅

/-- A variable of this type that was never assigned may hold neither value; such a variable
has no counterpart here. -/
inductive Protocol where
  | tcp
  | udp
  deriving DecidableEq

def parseProtocol (str : ByteString) : Except Failure Protocol :=
  if str = literal "tcp" ∨ str = literal "TCP" then .ok .tcp
  else if str = literal "udp" ∨ str = literal "UDP" then .ok .udp
  else .error (.invalidArgument (literal "Invalid protocol: " ++ str))

def isDigit (b : UInt8) : Bool := 48 ≤ b && b ≤ 57

/-- The sign in front of a number and what follows it. -/
def signOf : ByteString → Int × ByteString
  | [] => (1, [])
  | b :: rest => if b = 45 then (-1, rest) else if b = 43 then (1, rest) else (1, b :: rest)

def digitsValue (digits : ByteString) : Int :=
  digits.foldl (fun value b => 10 * value + (b.toNat - 48)) 0

/-- `std::stoi` in base 10: blanks, a sign, then digits up to the first other character. -/
def stoi (str : ByteString) : Except Failure Int :=
  let (sign, rest) := signOf ((cString str).dropWhile isSpace)
  let digits := rest.takeWhile isDigit
  let value := sign * digitsValue digits
  if digits = [] then .error (.invalidArgument (literal "stoi"))
  else if -2147483648 ≤ value ∧ value ≤ 2147483647 then .ok value
  else .error (.outOfRange (literal "stoi"))

example : (stoi (literal " -12a")).toOption = some (-12) := by decide

/-- A pointer to a `std::thread`: none yet, or one before or after its join. -/
inductive Thread where
  | absent
  | joinable
  | joined
  deriving DecidableEq

/-- The object that owns a thread. Destroying a joinable thread terminates the program. -/
inductive Life where
  | alive
  | destroyed
  | terminated
  deriving DecidableEq

def Thread.join : Thread → Thread
  | .joinable => .joined
  | t => t

theorem erase_findFirstNotBlank (str : ByteString) :
    erase str 0 (findFirstNotBlank str) = .ok (str.dropWhile isBlank) := by
  rw [List.dropWhile_eq_drop_findIdx_not, findFirstNotBlank]
  by_cases found : (str.findIdx fun b => !isBlank b) < str.length
  · rw [if_pos found]
    simp [erase]
  · rw [if_neg found, List.drop_eq_nil_of_le (Nat.le_of_not_lt found)]
    rfl

theorem erase_findLastNotBlank (str : ByteString) :
    erase str (onePast (findLastNotBlank str)) none = .ok (str.rdropWhile isBlank) := by
  rw [List.rdropWhile, List.dropWhile_eq_drop_findIdx_not, findLastNotBlank]
  by_cases found : (str.reverse.findIdx fun b => !isBlank b) < str.length
  · rw [if_pos found, List.reverse_drop, List.reverse_reverse, List.length_reverse, onePast, erase,
      if_neg (by omega), List.append_nil]
    congr 2
    omega
  · rw [if_neg found, List.drop_eq_nil_of_le (by rw [List.length_reverse]; omega)]
    rfl

/-- No position is out of range, whatever is found, and what is left is the trimmed string. -/
theorem eraseBlanks_eq_trim (str : ByteString) :
    eraseBlanks str = .ok (Text.trim isBlank str) := by
  rw [eraseBlanks, erase_findFirstNotBlank]
  exact erase_findLastNotBlank _

/-- The map after a line, by what stands around its first `=`. -/
def bindLine (config : Config) (line : ByteString) : Config :=
  match getline equals line with
  | none => config
  | some (key, rest) => match getline newline rest with
    | none => config
    | some (value, _) =>
      if Text.trim isBlank key ≠ [] ∧ Text.trim isBlank value ≠ [] then
        config.insert (Text.trim isBlank key) (Text.trim isBlank value)
      else config

theorem readLine_eq (config : Config) (line : ByteString) :
    readLine config line = .ok (bindLine config line) := by
  rw [readLine, bindLine]
  cases getline equals line with
  | none => rfl
  | some cut =>
    obtain ⟨key, rest⟩ := cut
    cases body : getline newline rest with
    | none => simp only [body]
    | some found =>
      obtain ⟨value, after⟩ := found
      simp only [body, eraseBlanks_eq_trim]
      change (if _ then _ else _) = _
      split <;> rfl

theorem foldlM_readLine (config : Config) (all : List ByteString) :
    all.foldlM readLine config = .ok (all.foldl bindLine config) := by
  induction all generalizing config with
  | nil => rfl
  | cons line rest ih =>
    rw [List.foldlM_cons, readLine_eq, List.foldl_cons, ← ih]
    rfl

theorem readConfigFile_open (filename contents : ByteString) :
    readConfigFile filename (some contents) = .ok ((lines newline contents).foldl bindLine ∅) :=
  foldlM_readLine ∅ _

theorem bindLine_unassigned (config : Config) {line : ByteString} (free : equals ∉ line) :
    bindLine config line = config := by
  by_cases empty : line = []
  · subst line
    rfl
  · rw [bindLine, getline_of_free free empty]
    rfl

theorem bindLine_cut (config : Config) {key value : ByteString} (free : equals ∉ key)
    (one_line : newline ∉ value) (named : Text.trim isBlank key ≠ [])
    (valued : Text.trim isBlank value ≠ []) :
    bindLine config (key ++ equals :: value) =
      config.insert (Text.trim isBlank key) (Text.trim isBlank value) := by
  have nonempty : value ≠ [] := by
    rintro rfl
    exact valued rfl
  simp only [bindLine, getline_append free, getline_of_free one_line nonempty]
  exact if_pos ⟨named, valued⟩

theorem isSpace_of_isBlank {b : UInt8} (blank : isBlank b = true) : isSpace b = true := by
  simp only [isBlank, Bool.or_eq_true, beq_iff_eq] at blank
  rcases blank with ((rfl | rfl) | rfl) | rfl <;> decide

/-- One side of a line both parsers understand. -/
structure CommonPart (text : ByteString) : Prop where
  nonempty : Text.trim isBlank text ≠ []
  no_quote : quote ∉ text
  trimmed : Trimmed isSpace (Text.trim isBlank text)

instance (text : ByteString) : Decidable (CommonPart text) :=
  decidable_of_iff (Text.trim isBlank text ≠ [] ∧ quote ∉ text ∧
      Trimmed isSpace (Text.trim isBlank text))
    ⟨fun ⟨a, b, c⟩ => ⟨a, b, c⟩, fun ⟨a, b, c⟩ => ⟨a, b, c⟩⟩

/-- A line of the common language: without `=`, or a key and a value around the first `=`. -/
def CommonLine (line : ByteString) : Prop :=
  equals ∉ line ∨ ∃ key value, line = key ++ equals :: value ∧ equals ∉ key ∧
    CommonPart key ∧ CommonPart value ∧ (Text.trim isBlank key).head? ≠ some hash

theorem CommonPart.unquoted {text : ByteString} (part : CommonPart text) :
    (Text.trim isBlank text).head? ≠ some quote :=
  fun head => part.no_quote (mem_of_mem_trim (List.mem_of_head? head))

theorem parseLine_common (config : Config) {key value : ByteString} (free : equals ∉ key)
    (one_line : newline ∉ key) (name : CommonPart key) (body : CommonPart value)
    (uncommented : (Text.trim isBlank key).head? ≠ some hash) :
    parseLine config (key ++ equals :: value) =
      config.insert (Text.trim isBlank key) (Text.trim isBlank value) := by
  obtain ⟨indent, beforeEq, keyShape, front, between⟩ := exists_trim isBlank key
  obtain ⟨afterEq, trailing, valueShape, around, back⟩ := exists_trim isBlank value
  have writable : WritableKey (Text.trim isBlank key) :=
    ⟨name.nonempty, fun mem => free (mem_of_mem_trim mem),
      fun mem => one_line (mem_of_mem_trim mem), name.trimmed, uncommented, name.unquoted⟩
  have shape : key ++ equals :: value = indent ++ (Text.trim isBlank key ++ (beforeEq ++ equals ::
      (afterEq ++ (Text.trim isBlank value ++ trailing)))) := by
    rw [← valueShape]
    nth_rewrite 1 [keyShape]
    simp
  have stored := parseLine_binding config writable body.trimmed
    (fun b hb => isSpace_of_isBlank (front b hb)) (fun b hb => isSpace_of_isBlank (between b hb))
    (fun b hb => isSpace_of_isBlank (around b hb)) (fun b hb => isSpace_of_isBlank (back b hb))
  rw [shape, stored, unquote_of_head body.unquoted]

theorem bindLine_eq_parseLine (config : Config) {line : ByteString} (one_line : newline ∉ line)
    (common : CommonLine line) : bindLine config line = parseLine config line := by
  rcases common with free | ⟨key, value, rfl, free, name, body, uncommented⟩
  · rw [bindLine_unassigned config free, parseLine_ignored config (.unassigned free)]
  · simp only [List.mem_append, List.mem_cons, not_or] at one_line
    rw [bindLine_cut config free one_line.2.2 name.nonempty body.nonempty,
      parseLine_common config free one_line.1 name body uncommented]

theorem bindLines_eq_parseLines (config : Config) {all : List ByteString}
    (one_line : ∀ line ∈ all, newline ∉ line) (common : ∀ line ∈ all, CommonLine line) :
    all.foldl bindLine config = all.foldl parseLine config := by
  induction all generalizing config with
  | nil => rfl
  | cons line rest ih =>
    obtain ⟨here, later⟩ := List.forall_mem_cons.mp one_line
    obtain ⟨first, others⟩ := List.forall_mem_cons.mp common
    rw [List.foldl_cons, List.foldl_cons, bindLine_eq_parseLine config here first]
    exact ih (parseLine config line) later others

/-- On a file in the common language both parsers succeed with the same map. -/
theorem readConfigFile_agrees (filename contents : ByteString)
    (common : ∀ line ∈ lines newline contents, CommonLine line) :
    ∃ config, readConfigFile filename (some contents) = .ok config ∧
      ConfigParser.construct filename (some contents) = .ok config := by
  refine ⟨loadFromFile contents, ?_, rfl⟩
  rw [readConfigFile_open, loadFromFile,
    bindLines_eq_parseLines ∅ (fun _ mem => free_of_mem_lines mem) common]

/-- A blank line, a line without `=`, and the same key bound twice. -/
theorem readConfigFile_agrees_repeated :
    ∃ config, readConfigFile (literal "server.cfg")
        (some (literal " \r\n port = 80\r\nnothing\nport=81")) = .ok config ∧
      ConfigParser.construct (literal "server.cfg")
        (some (literal " \r\n port = 80\r\nnothing\nport=81")) = .ok config := by
  apply readConfigFile_agrees
  have split : lines newline (literal " \r\n port = 80\r\nnothing\nport=81") =
      [literal " \r", literal " port = 80\r", literal "nothing", literal "port=81"] := by decide
  rw [split]
  simp only [List.forall_mem_cons]
  refine ⟨Or.inl (by decide), Or.inr ?_, Or.inl (by decide), Or.inr ?_, by simp⟩
  · exact ⟨literal " port ", literal " 80\r", by decide, by decide, by decide, by decide, by decide⟩
  · exact ⟨literal "port", literal "81", by decide, by decide, by decide, by decide, by decide⟩

/-- The line assigns `v` to `k`: what stands around its first `=`, trimmed, and neither empty. -/
def Yields (line k v : ByteString) : Prop :=
  ∃ key value, line = key ++ equals :: value ∧ equals ∉ key ∧ Text.trim isBlank key = k ∧
    Text.trim isBlank value = v ∧ k ≠ [] ∧ v ≠ []

theorem cut_unique {key key' value value' : ByteString} (free : equals ∉ key)
    (free' : equals ∉ key') (same : key ++ equals :: value = key' ++ equals :: value') :
    key = key' ∧ value = value' := by
  have first := cut_append free value
  rw [same, cut_append free' value'] at first
  cases first
  exact ⟨rfl, rfl⟩

/-- A line whose key or value is blank is passed over. -/
theorem bindLine_blank (config : Config) {key value : ByteString} (free : equals ∉ key)
    (one_line : newline ∉ value)
    (blank : Text.trim isBlank key = [] ∨ Text.trim isBlank value = []) :
    bindLine config (key ++ equals :: value) = config := by
  by_cases nothing : value = []
  · subst value
    rw [bindLine, getline_append free]
    rfl
  · have unassigned : ¬ (Text.trim isBlank key ≠ [] ∧ Text.trim isBlank value ≠ []) := by
      rintro ⟨named, valued⟩
      exact blank.elim named valued
    simp only [bindLine, getline_append free, getline_of_free one_line nothing]
    exact if_neg unassigned

theorem bindLine_effect (config : Config) {line : ByteString} (one_line : newline ∉ line) :
    Effect Yields line config (bindLine config line) := by
  by_cases present : equals ∈ line
  · obtain ⟨key, value, rfl, free⟩ := List.eq_append_cons_of_mem present
    have rest : newline ∉ value := by
      simp only [List.mem_append, List.mem_cons, not_or] at one_line
      exact one_line.2.2
    have parts : ∀ k v, Yields (key ++ equals :: value) k v ↔ Text.trim isBlank key = k ∧
        Text.trim isBlank value = v ∧ k ≠ [] ∧ v ≠ [] := by
      intro k v
      constructor
      · rintro ⟨key', value', same, free', yields⟩
        obtain ⟨rfl, rfl⟩ := cut_unique free free' same
        exact yields
      · exact fun yields => ⟨key, value, rfl, free, yields⟩
    by_cases assigned : Text.trim isBlank key ≠ [] ∧ Text.trim isBlank value ≠ []
    · rw [bindLine_cut config free rest assigned.1 assigned.2]
      refine .binds _ _ fun k v => ?_
      rw [parts]
      constructor
      · rintro ⟨rfl, rfl, _⟩
        exact ⟨rfl, rfl⟩
      · rintro ⟨rfl, rfl⟩
        exact ⟨rfl, rfl, assigned⟩
    · rw [bindLine_blank config free rest (by tauto)]
      refine .silent fun k v yields => ?_
      obtain ⟨rfl, rfl, both⟩ := (parts k v).mp yields
      exact assigned both
  · rw [bindLine_unassigned config present]
    refine .silent ?_
    rintro k v ⟨key, value, rfl, _⟩
    simp at present

/-- An open file is always read to its end. A key is bound to the value that the last line
assigning anything to it assigns, and to nothing else. -/
theorem readConfigFile_accepts_grammar (filename contents : ByteString) :
    ∃ config, readConfigFile filename (some contents) = .ok config ∧
      (∀ k v, config.lookup k = some v ↔ ∃ before line after,
        lines newline contents = before ++ line :: after ∧ Yields line k v ∧
          ∀ later ∈ after, ∀ v', ¬ Yields later k v') ∧
      ∀ line ∈ lines newline contents, (∀ k v, ¬ Yields line k v) →
        ∀ known, readLine known line = .ok known := by
  refine ⟨_, readConfigFile_open filename contents, fun k v => ?_, fun line mem silent known => ?_⟩
  · exact lookup_foldl_iff fun line mem m => bindLine_effect m (free_of_mem_lines mem)
  · have effect := bindLine_effect known (free_of_mem_lines mem)
    rw [readLine_eq]
    generalize bindLine known line = result at effect
    cases effect with
    | binds k v only => exact absurd ((only k v).mpr ⟨rfl, rfl⟩) (silent k v)
    | silent none => rfl

end Utilities
