import Cursov.Frame
import Cursov.Utilities
import Mathlib.Data.Fin.VecNotation
import Mathlib.Data.Fintype.Pi

/-!
# The substitution config and its two loaders

The switch reads `ttl_substitution.cfg` through `ConfigParser`. `load_ttl_config`
reads the same file with `fgets`, looks for settings anywhere in a line and hands
`inet_pton` the rest of the line with its newline, which is no address.
-/

namespace TtlConfig

open Bytes Text Bindings ConfigParser Utilities Frame

abbrev Address := Fin 4 → UInt8

abbrev dot : UInt8 := 46

/-- One number of an address: up to three digits, without superfluous zeros in front. -/
def octet (part : ByteString) : Option UInt8 :=
  if part ≠ [] ∧ part.length ≤ 3 ∧ part.all isDigit ∧ (part.length = 1 ∨ part.head? ≠ some 48) ∧
      digitsValue part ≤ 255 then
    some (UInt8.ofNat (digitsValue part).toNat)
  else none

/-- `inet_pton` for `AF_INET`: what it stores, or `none` where it stores nothing. -/
def inetPton (str : ByteString) : Option Address := do
  let (first, rest) ← cut dot (cString str)
  let (second, rest) ← cut dot rest
  let (third, fourth) ← cut dot rest
  some ![← octet first, ← octet second, ← octet third, ← octet fourth]

/-- What `fgets` delivers one after another: at most `size` bytes, and nothing behind a newline.
`read` is what it has read of the piece so far. -/
def fgetsPieces (size : Nat) : ByteString → ByteString → List ByteString
  | read, [] => if read = [] then [] else [read]
  | read, b :: rest =>
    if b = newline ∨ read.length + 1 = size then
      (read ++ [b]) :: fgetsPieces size [] rest
    else fgetsPieces size (read ++ [b]) rest

/-- `strstr` finds the needle. -/
def strstr (line needle : ByteString) : Bool := decide (needle <:+: cString line)

/-- `strchr(line, '=') + 2`. -/
def afterEquals (line : ByteString) : ByteString :=
  ((cString line).dropWhile fun b => b != equals).drop 2

/-- The body of the loop of `load_ttl_config`. -/
def loadLine (cfg : TtlSubstitutionCfg) (line : ByteString) : TtlSubstitutionCfg :=
  if strstr line (literal "enabled = true") then { cfg with isActive := true }
  else if strstr line (literal "client_ip = ") then
    { cfg with clientIp := (inetPton (afterEquals line)).getD cfg.clientIp }
  else if strstr line (literal "server_ip = ") then
    { cfg with serverIp := (inetPton (afterEquals line)).getD cfg.serverIp }
  else cfg

/-- The size of the line buffer, less the terminator. -/
def lineSize : Nat := 255

def loadTtlConfig (cfg : TtlSubstitutionCfg) : Option ByteString → Int × TtlSubstitutionCfg
  | none => (-1, cfg)
  | some contents => (0, (fgetsPieces lineSize [] contents).foldl loadLine cfg)

/-- `ttl_substitution_cfg ttl_cfg = {0}`. -/
def zeroed : TtlSubstitutionCfg := ⟨false, fun _ => 0, fun _ => 0⟩

/-- How the part of `main` ends that loads the config. -/
inductive Loading where
  | uncaught (what : ByteString)
  | exited (code : Int) (message : ByteString)
  | loaded (cfg : TtlSubstitutionCfg)

def loadConfig (file : Option ByteString) : Loading :=
  match ConfigParser.construct (literal "../CommutationTable/ttl_substitution.cfg") file with
  | .error what => .uncaught what
  | .ok config =>
    if config.entries = [] then .exited 1 (literal "Error loading config file!\n")
    else
      let clientIp := getString config (literal "client_ip") []
      let serverIp := getString config (literal "server_ip") []
      if clientIp = [] ∨ serverIp = [] then
        .exited 1 (literal "Client or server IP not specified in config!\n")
      else match inetPton clientIp, inetPton serverIp with
        | some client, some server =>
          .loaded ⟨getBool config (literal "enabled") false, client, server⟩
        | _, _ => .exited 1 (literal "Invalid IP address format in config!\n")

theorem octet_digits {part : ByteString} {n : UInt8} (read : octet part = some n) :
    part.length ≤ 3 ∧ ∀ b ∈ part, isDigit b = true := by
  rw [octet] at read
  split at read
  case isTrue accepted => exact ⟨accepted.2.1, List.all_eq_true.mp accepted.2.2.1⟩
  case isFalse => cases read

/-- An accepted text is four short rows of digits with dots between them. -/
theorem inetPton_shape {str : ByteString} {address : Address} (read : inetPton str = some address) :
    (cString str).length ≤ 15 ∧ ∀ b ∈ cString str, isDigit b = true ∨ b = dot := by
  simp only [inetPton, bind, Option.bind_eq_some_iff] at read
  obtain ⟨⟨first, rest⟩, cut₁, ⟨second, rest'⟩, cut₂, ⟨third, fourth⟩, cut₃, _, h₁, _, h₂, _, h₃,
    _, h₄, _⟩ := read
  dsimp only at cut₂ cut₃ h₁ h₂ h₃ h₄
  obtain ⟨len₁, digits₁⟩ := octet_digits h₁
  obtain ⟨len₂, digits₂⟩ := octet_digits h₂
  obtain ⟨len₃, digits₃⟩ := octet_digits h₃
  obtain ⟨len₄, digits₄⟩ := octet_digits h₄
  rw [(cut_eq_some_iff.mp cut₁).2, (cut_eq_some_iff.mp cut₂).2, (cut_eq_some_iff.mp cut₃).2]
  constructor
  · simp only [List.length_append, List.length_cons]
    omega
  · intro b mem
    simp only [List.mem_append, List.mem_cons] at mem
    rcases mem with h | rfl | h | rfl | h | rfl | h
    · exact Or.inl (digits₁ b h)
    · exact Or.inr rfl
    · exact Or.inl (digits₂ b h)
    · exact Or.inr rfl
    · exact Or.inl (digits₃ b h)
    · exact Or.inr rfl
    · exact Or.inl (digits₄ b h)

/-- A byte that is neither a digit nor a dot is in no accepted text. -/
theorem not_mem_of_inetPton {str : ByteString} {address : Address}
    (read : inetPton str = some address) (clean : 0 ∉ str) {b : UInt8} (digit : isDigit b = false)
    (apart : b ≠ dot) : b ∉ str := by
  have shape := (inetPton_shape read).2
  rw [(cString_eq_self_iff _).mpr clean] at shape
  intro mem
  rcases shape b mem with h | h
  · rw [digit] at h
    cases h
  · exact apart h

/-- The text of an address with nothing after it. -/
structure Quad where
  text : ByteString
  address : Address
  accepted : inetPton text = some address
  no_nul : 0 ∉ text

namespace Quad

variable (q : Quad)

theorem length_le : q.text.length ≤ 15 := by
  have shape := (inetPton_shape q.accepted).1
  rwa [(cString_eq_self_iff _).mpr q.no_nul] at shape

theorem digit_or_dot : ∀ b ∈ q.text, isDigit b = true ∨ b = dot := by
  have shape := (inetPton_shape q.accepted).2
  rwa [(cString_eq_self_iff _).mpr q.no_nul] at shape

theorem not_mem {b : UInt8} (digit : isDigit b = false) (apart : b ≠ dot) : b ∉ q.text :=
  not_mem_of_inetPton q.accepted q.no_nul digit apart

theorem trimmed : Trimmed isSpace q.text := by
  have visible : ∀ b ∈ q.text, isSpace b = false := by
    intro b mem
    by_contra blank
    rw [Bool.not_eq_false] at blank
    rcases q.digit_or_dot b mem with digit | rfl
    · simp only [isDigit, isSpace, Bool.and_eq_true, Bool.or_eq_true, decide_eq_true_eq,
        beq_iff_eq, UInt8.le_iff_toNat_le] at digit blank
      rcases blank with rfl | blank
      · exact absurd digit.1 (by decide)
      · exact absurd (digit.1.trans blank.2) (by decide)
    · exact absurd blank (by decide)
  exact ⟨fun b hb => visible b (List.mem_of_head? hb),
    fun b hb => visible b (List.mem_of_getLast? hb)⟩

theorem nonempty : q.text ≠ [] := by
  intro empty
  have accepted := q.accepted
  rw [empty] at accepted
  cases accepted

end Quad

inductive Entry where
  | enabled (value : Bool)
  | clientIp (quad : Quad)
  | serverIp (quad : Quad)
  | blank (text : ByteString) (blank : Blank text)
  | comment (indent text : ByteString) (front : Blank indent) (one_line : newline ∉ text)

namespace Entry

def boolText : Bool → ByteString
  | true => literal "true"
  | false => literal "false"

def text : Entry → ByteString
  | .enabled value => literal "enabled = " ++ boolText value
  | .clientIp quad => literal "client_ip = " ++ quad.text
  | .serverIp quad => literal "server_ip = " ++ quad.text
  | .blank text _ => text
  | .comment indent text _ _ => indent ++ hash :: text

def enabledSet : Entry → Option Bool
  | .enabled value => some value
  | _ => none

def clientSet : Entry → Option Quad
  | .clientIp quad => some quad
  | _ => none

def serverSet : Entry → Option Quad
  | .serverIp quad => some quad
  | _ => none

theorem one_line (e : Entry) : newline ∉ e.text := by
  cases e with
  | enabled value => cases value <;> decide
  | clientIp quad =>
    rw [text, List.mem_append, not_or]
    exact ⟨by decide, quad.not_mem (by decide) (by decide)⟩
  | serverIp quad =>
    rw [text, List.mem_append, not_or]
    exact ⟨by decide, quad.not_mem (by decide) (by decide)⟩
  | blank text blank => exact blank.one_line
  | comment indent text front one_line =>
    rw [Entry.text, List.mem_append, List.mem_cons, not_or, not_or]
    exact ⟨front.one_line, by decide, one_line⟩

/-- The pieces of its line, newline and all, as `fgets` delivers them. -/
def pieces (e : Entry) : List ByteString := fgetsPieces lineSize [] (e.text ++ [newline])

def commentPieces : Entry → List ByteString
  | .comment indent text front one_line => (Entry.comment indent text front one_line).pieces
  | _ => []

end Entry

/-- The file: every line with its newline. -/
def file (entries : List Entry) : ByteString := terminated newline (entries.map Entry.text)

theorem parseLine_setting (config : Config) (key : ByteString) {lead value : ByteString}
    (text : lead = key ++ ([space] ++ equals :: [space])) (writable : WritableKey key)
    (trimmed : Trimmed isSpace value) (no_quote : quote ∉ value) :
    parseLine config (lead ++ value) = config.insert key value := by
  subst lead
  have nothing : ∀ b ∈ ([] : ByteString), isSpace b = true := List.forall_mem_nil _
  have blank : ∀ b ∈ [space], isSpace b = true := List.forall_mem_singleton.mpr rfl
  have stored := parseLine_binding config writable trimmed nothing blank blank nothing
  rw [unquote_of_head fun head => no_quote (List.mem_of_head? head)] at stored
  simpa using stored

/-- What an entry binds a key of the parser to. -/
def Entry.bound (e : Entry) : Option (ByteString × ByteString) :=
  match e with
  | .enabled value => some (literal "enabled", boolText value)
  | .clientIp quad => some (literal "client_ip", quad.text)
  | .serverIp quad => some (literal "server_ip", quad.text)
  | _ => none

theorem parseLine_entry (config : Config) (e : Entry) :
    parseLine config e.text = e.bound.elim config fun b => config.insert b.1 b.2 := by
  cases e with
  | enabled value =>
    have trimmed : Trimmed isSpace (Entry.boolText value) := by cases value <;> decide
    have no_quote : quote ∉ Entry.boolText value := by cases value <;> decide
    exact parseLine_setting config (literal "enabled") rfl (by decide) trimmed no_quote
  | clientIp quad =>
    exact parseLine_setting config (literal "client_ip") rfl (by decide) quad.trimmed
      (quad.not_mem (by decide) (by decide))
  | serverIp quad =>
    exact parseLine_setting config (literal "server_ip") rfl (by decide) quad.trimmed
      (quad.not_mem (by decide) (by decide))
  | blank text blank => exact parseLine_ignored config (.blank blank.spaces)
  | comment indent text front one_line =>
    exact parseLine_ignored config (.comment indent text rfl front.spaces)

/-- A key ends with the text of the last value that an entry sets it to. -/
theorem lookup_file {Value : Type} (entries : List Entry) (key : ByteString)
    (set : Entry → Option Value) (text : Value → ByteString)
    (sets : ∀ e, (set e).map text = e.bound.bind fun b => if key = b.1 then some b.2 else none) :
    (loadFromFile (file entries)).lookup key = (entries.filterMap set).getLast?.map text := by
  have free : ∀ line ∈ entries.map Entry.text, newline ∉ line := by
    intro line mem
    obtain ⟨e, _, rfl⟩ := List.mem_map.mp mem
    exact e.one_line
  have each : ∀ e ∈ entries, ∀ config : Config,
      (parseLine config e.text).lookup key = ((set e).map text).or (config.lookup key) := by
    intro e _ config
    rw [parseLine_entry, sets e]
    cases e.bound with
    | none => rfl
    | some b =>
      obtain ⟨name, value⟩ := b
      by_cases same : key = name
      · subst name
        simp [AList.lookup_insert]
      · simp [same, AList.lookup_insert_ne same]
  rw [loadFromFile, file, lines_terminated free, List.foldl_map,
    foldl_last (AList.lookup key) (fun e => (set e).map text) each, ← List.getLast?_map,
    List.map_filterMap]
  exact Option.or_none

/-- `main` obtains what the last entry of each kind says. -/
theorem loadConfig_file {entries : List Entry} {enabled : Bool} {client server : Quad}
    (lastEnabled : (entries.filterMap Entry.enabledSet).getLast? = some enabled)
    (lastClient : (entries.filterMap Entry.clientSet).getLast? = some client)
    (lastServer : (entries.filterMap Entry.serverSet).getLast? = some server) :
    loadConfig (some (file entries)) = .loaded ⟨enabled, client.address, server.address⟩ := by
  have foundEnabled := lookup_file entries (literal "enabled") Entry.enabledSet Entry.boolText
    fun e => by cases e <;> rfl
  have foundClient := lookup_file entries (literal "client_ip") Entry.clientSet Quad.text
    fun e => by cases e <;> rfl
  have foundServer := lookup_file entries (literal "server_ip") Entry.serverSet Quad.text
    fun e => by cases e <;> rfl
  rw [lastEnabled] at foundEnabled
  rw [lastClient] at foundClient
  rw [lastServer] at foundServer
  have bound : (loadFromFile (file entries)).entries ≠ [] := by
    intro empty
    rw [AList.lookup, empty] at foundClient
    cases foundClient
  have active : getBool (loadFromFile (file entries)) (literal "enabled") false = enabled := by
    rw [getBool, foundEnabled]
    cases enabled <;> decide
  simp only [loadConfig, construct, if_neg bound, getString, foundClient, foundServer,
    Option.map_some, client.nonempty, server.nonempty, or_self, if_false, client.accepted,
    server.accepted, active]

/-- A line is delivered apart from what comes after its newline. -/
theorem fgetsPieces_append (size : Nat) (read line rest : ByteString) :
    fgetsPieces size read (line ++ newline :: rest) =
      fgetsPieces size read (line ++ [newline]) ++ fgetsPieces size [] rest := by
  induction line generalizing read with
  | nil => simp [fgetsPieces]
  | cons b line ih =>
    simp only [List.cons_append, fgetsPieces]
    by_cases ends : b = newline ∨ read.length + 1 = size
    · rw [if_pos ends, if_pos ends, ih, List.cons_append]
    · rw [if_neg ends, if_neg ends, ih]

/-- A line that fits the buffer is delivered in one piece. -/
theorem fgetsPieces_line {size : Nat} {read line : ByteString} (free : newline ∉ line)
    (fits : read.length + line.length < size) :
    fgetsPieces size read (line ++ [newline]) = [read ++ (line ++ [newline])] := by
  induction line generalizing read with
  | nil => simp [fgetsPieces]
  | cons b line ih =>
    obtain ⟨other, later⟩ := not_or.mp fun h => free (List.mem_cons.mpr h)
    rw [List.length_cons] at fits
    have goes_on : ¬ (b = newline ∨ read.length + 1 = size) := by
      rintro (same | full)
      · exact other same.symm
      · omega
    have rest : fgetsPieces size (read ++ [b]) (line ++ [newline]) =
        [read ++ [b] ++ (line ++ [newline])] := by
      refine ih later ?_
      rw [List.length_append, List.length_singleton]
      omega
    rw [List.cons_append, fgetsPieces, if_neg goes_on, rest]
    simp

theorem fgetsPieces_file (entries : List Entry) :
    fgetsPieces lineSize [] (file entries) = entries.flatMap Entry.pieces := by
  induction entries with
  | nil => rfl
  | cons e rest ih =>
    have shape : file (e :: rest) = e.text ++ newline :: file rest := by
      simp [file, terminated]
    rw [shape, fgetsPieces_append, ih]
    rfl

/-- The address that a line shows for a key: the key, ` = ` and the address, which ends the line
or at a NUL byte, and no `=` before these. -/
def shownAddress (key line : ByteString) : Option Address := do
  let (front, value) ← cut equals (cString line)
  if key ++ [space] <:+ front ∧ value.head? = some space then inetPton value.tail else none

theorem afterEquals_of_cut {line front value : ByteString}
    (split : cut equals (cString line) = some (front, value)) : afterEquals line = value.tail := by
  obtain ⟨free, whole⟩ := cut_eq_some_iff.mp split
  have before : ∀ b ∈ front, (b != equals) = true := by
    intro b mem
    rw [bne_iff_ne]
    rintro rfl
    exact free mem
  rw [afterEquals, whole, List.dropWhile_append_of_pos before]
  simp

/-- Nothing is found that has a byte the line lacks. -/
theorem strstr_eq_false {line needle : ByteString} {b : UInt8} (needed : b ∈ needle)
    (absent : b ∉ cString line) : strstr line needle = false := by
  rw [strstr, decide_eq_false_iff_not]
  intro found
  exact absent (found.subset needed)

/-- What a needle has behind its `=` is found behind the first `=`. -/
theorem suffix_of_strstr {line front value start rest : ByteString}
    (split : cut equals (cString line) = some (front, value))
    (found : strstr line (start ++ equals :: rest) = true) : ∃ after, rest ++ after <:+ value := by
  obtain ⟨before, after, whole⟩ := of_decide_eq_true found
  have text : before ++ start ++ equals :: (rest ++ after) = cString line := by
    rw [← whole]
    simp
  rw [← text] at split
  exact ⟨after, suffix_of_cut split⟩

section Shown

variable {line front value : ByteString} {address : Address}

theorem not_mem_of_accepted (split : cut equals (cString line) = some (front, value))
    (accepted : inetPton value.tail = some address) {b : UInt8} (digit : isDigit b = false)
    (apart : b ≠ dot) : b ∉ value.tail := by
  refine not_mem_of_inetPton accepted (fun nul => not_nul_mem_cString line ?_) digit apart
  rw [(cut_eq_some_iff.mp split).2]
  exact List.mem_append_right _ (List.mem_cons_of_mem _ (List.mem_of_mem_tail nul))

/-- A line with an accepted address does not enable anything. -/
theorem not_enabled_of_accepted (split : cut equals (cString line) = some (front, value))
    (accepted : inetPton value.tail = some address) :
    strstr line (literal "enabled = true") = false := by
  rw [Bool.eq_false_iff]
  intro found
  obtain ⟨after, before, whole⟩ := @suffix_of_strstr line front value (literal "enabled ")
    (literal " true") split found
  have letter : 116 ∈ value.tail := by
    rw [← whole]
    cases before <;> simp [literal]
  exact not_mem_of_accepted split accepted (by decide) (by decide) letter

theorem strstr_setting_iff (key : ByteString)
    (split : cut equals (cString line) = some (front, value))
    (accepted : inetPton value.tail = some address) :
    strstr line (key ++ [space] ++ equals :: [space]) = true ↔
      key ++ [space] <:+ front ∧ value.head? = some space := by
  have whole := (cut_eq_some_iff.mp split).2
  constructor
  · intro found
    obtain ⟨before, after, text⟩ := of_decide_eq_true found
    have here : before ++ key ++ [space] ++ equals :: (space :: after) =
        front ++ equals :: value := by
      rw [← whole, ← text]
      simp
    have behind : space :: after <:+ value := by
      rw [whole, ← here] at split
      exact suffix_of_cut split
    -- the address leaves room for a space only in front of it
    have value_eq : value = space :: after := by
      cases value with
      | nil => exact absurd behind.length_le (by simp)
      | cons first tail =>
        rcases List.suffix_cons_iff.mp behind with same | later
        · exact same.symm
        · exact absurd (later.mem List.mem_cons_self)
            (not_mem_of_accepted split accepted (by decide) (by decide))
    rw [value_eq] at here ⊢
    refine ⟨⟨before, ?_⟩, rfl⟩
    rw [← List.append_assoc]
    exact List.append_cancel_right here
  · rintro ⟨⟨before, rfl⟩, blank⟩
    obtain ⟨tail, rfl⟩ := List.head?_eq_some_iff.mp blank
    refine decide_eq_true ⟨before, tail, ?_⟩
    rw [whole]
    simp

end Shown

theorem shownAddress_eq (key line : ByteString) :
    shownAddress key line =
      if strstr line (literal "enabled = true") then none
      else if strstr line (key ++ [space] ++ equals :: [space]) then inetPton (afterEquals line)
      else none := by
  cases split : cut equals (cString line) with
  | none =>
    have absent := cut_eq_none_iff.mp split
    rw [strstr_eq_false (b := equals) (by decide) absent,
      strstr_eq_false (b := equals) (by simp) absent]
    simp [shownAddress, split]
  | some parts =>
    obtain ⟨front, value⟩ := parts
    rw [afterEquals_of_cut split]
    cases accepted : inetPton value.tail with
    | none => simp [shownAddress, split, accepted]
    | some address =>
      simp only [shownAddress, split, Option.bind_eq_bind, Option.bind_some, accepted,
        not_enabled_of_accepted split accepted, strstr_setting_iff key split accepted,
        Bool.false_eq_true, if_false]

-- a NUL byte in a comment hides the newline from `inet_pton`
example : shownAddress (literal "client_ip") (literal "# client_ip = 10.0.0.1" ++ [0, newline]) =
    some ![10, 0, 0, 1] := rfl

/-- A line with the setting of the client shows no server. -/
theorem no_server_of_client {line : ByteString}
    (client : strstr line (literal "client_ip = ") = true) :
    shownAddress (literal "server_ip") line = none := by
  cases split : cut equals (cString line) with
  | none => simp [shownAddress, split]
  | some parts =>
    obtain ⟨front, value⟩ := parts
    cases accepted : inetPton value.tail with
    | none => simp [shownAddress, split, accepted]
    | some address =>
      have client_ends := ((strstr_setting_iff (literal "client_ip") split accepted).mp client).1
      have other : ¬ literal "server_ip" ++ [space] <:+ front := by
        intro server_ends
        have same := List.suffix_of_suffix_length_le client_ends server_ends (by decide)
        exact absurd same (by decide)
      simp [shownAddress, split, other]

theorem loadLine_clientIp (cfg : TtlSubstitutionCfg) (line : ByteString) :
    some (loadLine cfg line).clientIp =
      (shownAddress (literal "client_ip") line).or (some cfg.clientIp) := by
  have key : literal "client_ip" ++ [space] ++ equals :: [space] = literal "client_ip = " := rfl
  rw [loadLine, shownAddress_eq, key]
  split
  · rfl
  · split
    · cases inetPton (afterEquals line) <;> rfl
    · split <;> rfl

theorem loadLine_serverIp (cfg : TtlSubstitutionCfg) (line : ByteString) :
    some (loadLine cfg line).serverIp =
      (shownAddress (literal "server_ip") line).or (some cfg.serverIp) := by
  by_cases client : strstr line (literal "client_ip = ") = true
  · rw [no_server_of_client client, loadLine, if_pos client]
    split <;> rfl
  · have key : literal "server_ip" ++ [space] ++ equals :: [space] = literal "server_ip = " := rfl
    rw [loadLine, if_neg client, shownAddress_eq, key]
    split
    · rfl
    · split
      · cases inetPton (afterEquals line) <;> rfl
      · rfl

theorem loadLine_isActive (cfg : TtlSubstitutionCfg) (line : ByteString) :
    (loadLine cfg line).isActive =
      (strstr line (literal "enabled = true") || cfg.isActive) := by
  rw [loadLine]
  split
  case isTrue enabled => rw [enabled, Bool.true_or]
  case isFalse enabled =>
    rw [Bool.not_eq_true] at enabled
    rw [enabled, Bool.false_or]
    split
    · rfl
    · split <;> rfl

theorem foldl_loadLine_isActive (cfg : TtlSubstitutionCfg) (all : List ByteString) :
    (all.foldl loadLine cfg).isActive =
      (all.any (strstr · (literal "enabled = true")) || cfg.isActive) := by
  induction all generalizing cfg with
  | nil => rfl
  | cons line rest ih =>
    rw [List.foldl_cons, ih, loadLine_isActive, List.any_cons]
    cases strstr line (literal "enabled = true") <;> simp

theorem eq_getD_of_or {x initial : Address} {last : Option Address}
    (stored : some x = last.or (some initial)) : x = last.getD initial := by
  cases last with
  | none => exact Option.some.inj stored
  | some read => exact Option.some.inj stored

/-- The last address shown for a key, zero without one. -/
def lastShown (key : ByteString) (pieces : List ByteString) : Address :=
  (pieces.filterMap (shownAddress key)).getLast?.getD fun _ => 0

/-- The three fields after the pieces of a file, from a zeroed config. -/
theorem foldl_loadLine (all : List ByteString) :
    all.foldl loadLine zeroed = ⟨all.any (strstr · (literal "enabled = true")),
      lastShown (literal "client_ip") all, lastShown (literal "server_ip") all⟩ := by
  have active := foldl_loadLine_isActive zeroed all
  have client := foldl_last (fun cfg => some cfg.clientIp) (shownAddress (literal "client_ip"))
    (fun line (_ : line ∈ all) cfg => loadLine_clientIp cfg line) zeroed
  have server := foldl_last (fun cfg => some cfg.serverIp) (shownAddress (literal "server_ip"))
    (fun line (_ : line ∈ all) cfg => loadLine_serverIp cfg line) zeroed
  generalize all.foldl loadLine zeroed = cfg at active client server ⊢
  obtain ⟨isActive, clientIp, serverIp⟩ := cfg
  congr 1
  · simpa [zeroed] using active
  · exact eq_getD_of_or client
  · exact eq_getD_of_or server

/-- What stands behind the `=` of a whole line is no address, for the newline at its end. -/
theorem inetPton_afterEquals {line : ByteString} (no_nul : 0 ∉ line)
    (ends : line.getLast? = some newline) : inetPton (afterEquals line) = none := by
  have rest : afterEquals line <:+ line := by
    rw [afterEquals, (cString_eq_self_iff _).mpr no_nul]
    exact (List.drop_suffix _ _).trans (List.dropWhile_suffix _)
  cases read : inetPton (afterEquals line) with
  | none => rfl
  | some address =>
    have nonempty : afterEquals line ≠ [] := by
      intro empty
      rw [empty] at read
      cases read
    have no_newline : newline ∉ afterEquals line :=
      not_mem_of_inetPton read (fun mem => no_nul (rest.mem mem)) (by decide) (by decide)
    obtain ⟨front, split⟩ := rest
    rw [← split, List.getLast?_append_of_ne_nil front nonempty] at ends
    exact absurd (List.mem_of_getLast? ends) no_newline

theorem shownAddress_eq_none (key : ByteString) {line : ByteString} (no_nul : 0 ∉ line)
    (ends : line.getLast? = some newline) : shownAddress key line = none := by
  rw [shownAddress_eq, inetPton_afterEquals no_nul ends, ite_self, ite_self]

/-- The loader takes nothing from this piece. -/
structure Silent (line : ByteString) : Prop where
  not_enabled : strstr line (literal "enabled = true") = false
  no_address : ∀ key, shownAddress key line = none

theorem Silent.of_no_equals {line : ByteString} (free : equals ∉ line) : Silent line := by
  have absent : equals ∉ cString line := fun mem => free ((List.takeWhile_sublist _).subset mem)
  constructor
  · exact strstr_eq_false (b := equals) (by decide) absent
  · intro key
    simp [shownAddress, cut_eq_none_iff.mpr absent]

/-- A line that sets an address does not enable anything, and stores nothing. -/
theorem silent_address {lead : ByteString} (quad : Quad) (no_nul : 0 ∉ lead) (no_b : 98 ∉ lead) :
    Silent (lead ++ quad.text ++ [newline]) := by
  have clean : 0 ∉ lead ++ quad.text ++ [newline] := by
    have apart : (0 : UInt8) ≠ newline := by decide
    simp [no_nul, quad.no_nul, apart]
  have absent : 98 ∉ lead ++ quad.text ++ [newline] := by
    have letter : 98 ∉ quad.text := quad.not_mem (by decide) (by decide)
    have apart : (98 : UInt8) ≠ newline := by decide
    simp [no_b, letter, apart]
  constructor
  · rw [← (cString_eq_self_iff _).mpr clean] at absent
    exact strstr_eq_false (b := 98) (by decide) absent
  · exact fun key => shownAddress_eq_none key clean List.getLast?_concat

theorem mem_of_mem_fgetsPieces {size : Nat} {read text piece : ByteString} {b : UInt8}
    (mem : piece ∈ fgetsPieces size read text) (byte : b ∈ piece) : b ∈ read ++ text := by
  induction text generalizing read with
  | nil =>
    rw [fgetsPieces] at mem
    split at mem
    · cases mem
    · rw [List.mem_singleton.mp mem] at byte
      exact List.mem_append_left _ byte
  | cons c rest ih =>
    rw [fgetsPieces] at mem
    split at mem
    · rcases List.mem_cons.mp mem with rfl | later
      · rw [List.append_cons]
        exact List.mem_append_left _ byte
      · exact List.mem_append_right _ (List.mem_cons_of_mem c (ih later))
    · rw [List.append_cons]
      exact ih mem

theorem Entry.pieces_of_short {e : Entry} (short : e.text.length < lineSize) :
    e.pieces = [e.text ++ [newline]] := by
  rw [pieces, fgetsPieces_line e.one_line (by rwa [List.length_nil, Nat.zero_add])]
  rfl

/-- The line of an address fits the buffer. -/
theorem Quad.short_line {lead : ByteString} (q : Quad) (short : lead.length ≤ 100) :
    (lead ++ q.text).length < lineSize := by
  have length := q.length_le
  rw [List.length_append, lineSize]
  omega

/-- Only comments can make the loader store an address. -/
structure FromComments (e : Entry) : Prop where
  enabled : e.pieces.any (strstr · (literal "enabled = true")) =
    (e.enabledSet == some true || e.commentPieces.any (strstr · (literal "enabled = true")))
  address : ∀ key, e.pieces.filterMap (shownAddress key) =
    e.commentPieces.filterMap (shownAddress key)

theorem FromComments.of_silent {e : Entry} (silent : ∀ piece ∈ e.pieces, Silent piece)
    (uncommented : e.commentPieces = []) (not_enabled : e.enabledSet ≠ some true) :
    FromComments e where
  enabled := by
    rw [uncommented, List.any_nil, Bool.or_false, beq_eq_false_iff_ne.mpr not_enabled,
      List.any_eq_false]
    intro piece mem
    rw [(silent piece mem).not_enabled]
    exact Bool.false_ne_true
  address key := by
    rw [uncommented, List.filterMap_nil, List.filterMap_eq_nil_iff]
    exact fun piece mem => (silent piece mem).no_address key

theorem fromComments (e : Entry) : FromComments e := by
  cases e with
  | enabled value =>
    have only : (Entry.enabled value).pieces =
        [literal "enabled = " ++ Entry.boolText value ++ [newline]] := by
      cases value <;> rfl
    have no_address : ∀ key, shownAddress key
        (literal "enabled = " ++ Entry.boolText value ++ [newline]) = none := by
      have clean : 0 ∉ literal "enabled = " ++ Entry.boolText value ++ [newline] := by
        cases value <;> decide
      exact fun key => shownAddress_eq_none key clean List.getLast?_concat
    constructor
    · cases value <;> rfl
    · intro key
      rw [only, List.filterMap_cons_none (no_address key)]
      rfl
  | clientIp quad =>
    refine .of_silent ?_ rfl (by simp [Entry.enabledSet])
    rw [Entry.pieces_of_short (quad.short_line (by decide)), List.forall_mem_singleton]
    exact silent_address quad (by decide) (by decide)
  | serverIp quad =>
    refine .of_silent ?_ rfl (by simp [Entry.enabledSet])
    rw [Entry.pieces_of_short (quad.short_line (by decide)), List.forall_mem_singleton]
    exact silent_address quad (by decide) (by decide)
  | blank text blank =>
    refine .of_silent (fun piece mem => .of_no_equals fun byte => ?_) rfl
      (by simp [Entry.enabledSet])
    rcases List.mem_append.mp (mem_of_mem_fgetsPieces mem byte) with h | h
    · cases h
    · rcases List.mem_append.mp h with inside | last
      · exact equals_not_mem blank.spaces inside
      · exact absurd (List.mem_singleton.mp last) (by decide)
  | comment indent text front one_line => exact ⟨rfl, fun _ => rfl⟩

/-- Both loaders succeed on the file and store the same config. -/
def Agree (entries : List Entry) : Prop :=
  ∃ cfg, loadConfig (some (file entries)) = .loaded cfg ∧
    loadTtlConfig zeroed (some (file entries)) = (0, cfg)

/-- The pieces that `fgets` delivers of comment lines. -/
def comments (entries : List Entry) : List ByteString := entries.flatMap Entry.commentPieces

/-- Comment lines of text that fit the line buffer show no address to the loader. -/
theorem lastShown_of_plain (key : ByteString) {entries : List Entry}
    (plain : ∀ e ∈ entries, 0 ∉ e.text ∧ e.text.length < lineSize) :
    lastShown key (comments entries) = fun _ => 0 := by
  have nothing : (comments entries).filterMap (shownAddress key) = [] := by
    rw [List.filterMap_eq_nil_iff]
    intro piece mem
    obtain ⟨e, listed, delivered⟩ := List.mem_flatMap.mp mem
    obtain ⟨clean, short⟩ := plain e listed
    cases e with
    | comment indent text front one_line =>
      change piece ∈ (Entry.comment indent text front one_line).pieces at delivered
      rw [Entry.pieces_of_short short] at delivered
      rw [List.mem_singleton.mp delivered]
      refine shownAddress_eq_none key ?_ List.getLast?_concat
      rw [List.mem_append, not_or]
      exact ⟨clean, by decide⟩
    | _ => cases delivered
  rw [lastShown, nothing]
  rfl

/-- Some line of the file has the text `enabled = true`, be it in a comment. -/
def mentionsEnabled (entries : List Entry) : Bool :=
  entries.any (·.enabledSet == some true) ||
    (comments entries).any (strstr · (literal "enabled = true"))

theorem loadTtlConfig_file (entries : List Entry) :
    loadTtlConfig zeroed (some (file entries)) =
      (0, ⟨mentionsEnabled entries, lastShown (literal "client_ip") (comments entries),
        lastShown (literal "server_ip") (comments entries)⟩) := by
  have enabled : (entries.flatMap Entry.pieces).any (strstr · (literal "enabled = true")) =
      mentionsEnabled entries := by
    rw [mentionsEnabled, comments, List.any_flatMap, List.any_flatMap]
    induction entries with
    | nil => rfl
    | cons e rest ih =>
      simp only [List.any_cons, ih, (fromComments e).enabled]
      ac_rfl
  have address : ∀ key, lastShown key (entries.flatMap Entry.pieces) =
      lastShown key (comments entries) := by
    intro key
    rw [lastShown, lastShown, comments, List.filterMap_flatMap, List.filterMap_flatMap,
      List.flatMap_congr fun e _ => (fromComments e).address key]
  rw [loadTtlConfig, fgetsPieces_file, foldl_loadLine, enabled, address, address]

/-- The loaders agree exactly when the substitution is enabled last or nowhere, in comments
neither, and the addresses set last are those shown last in comments: zero, as a rule. -/
theorem loaders_agree_iff {entries : List Entry} {enabled : Bool} {client server : Quad}
    (lastEnabled : (entries.filterMap Entry.enabledSet).getLast? = some enabled)
    (lastClient : (entries.filterMap Entry.clientSet).getLast? = some client)
    (lastServer : (entries.filterMap Entry.serverSet).getLast? = some server) :
    Agree entries ↔ (enabled = true ∨ mentionsEnabled entries = false) ∧
      client.address = lastShown (literal "client_ip") (comments entries) ∧
      server.address = lastShown (literal "server_ip") (comments entries) := by
  have mentioned : enabled = true → mentionsEnabled entries = true := by
    rintro rfl
    obtain ⟨e, mem, set⟩ := List.mem_filterMap.mp (List.mem_of_getLast? lastEnabled)
    have found : entries.any (·.enabledSet == some true) = true :=
      List.any_eq_true.mpr ⟨e, mem, beq_iff_eq.mpr set⟩
    rw [mentionsEnabled, found, Bool.true_or]
  have flags : enabled = mentionsEnabled entries ↔
      (enabled = true ∨ mentionsEnabled entries = false) := by
    cases enabled with
    | true => exact iff_of_true (mentioned rfl).symm (Or.inl rfl)
    | false => cases mentionsEnabled entries <;> decide
  rw [Agree, loadConfig_file lastEnabled lastClient lastServer, loadTtlConfig_file]
  simp only [Loading.loaded.injEq, exists_eq_left', Prod.mk.injEq, true_and,
    TtlSubstitutionCfg.mk.injEq]
  rw [eq_comm (a := mentionsEnabled entries), flags, eq_comm (b := client.address),
    eq_comm (b := server.address)]

def anyAddress : Quad where
  text := literal "0.0.0.0"
  address := ![0, 0, 0, 0]
  accepted := rfl
  no_nul := by decide

/-- Enabled last, with addresses that say nothing and a comment that does. -/
def unsetEntries : List Entry :=
  [.comment [] (literal "client_ip = 10.0.0.1") (List.forall_mem_nil _) (by decide),
    .enabled false, .clientIp anyAddress, .serverIp anyAddress, .enabled true]

theorem loaders_agree_unset : Agree unsetEntries := by
  have plain : ∀ e ∈ unsetEntries, 0 ∉ e.text ∧ e.text.length < lineSize := by
    simp only [unsetEntries, List.forall_mem_cons]
    exact ⟨by decide, by decide, by decide, by decide, by decide, List.forall_mem_nil _⟩
  have zero : anyAddress.address = fun _ => 0 := by decide
  have shown := fun key => zero.trans (lastShown_of_plain key plain).symm
  exact (@loaders_agree_iff unsetEntries true anyAddress anyAddress rfl rfl rfl).mpr
    ⟨Or.inl rfl, shown _, shown _⟩

def clientQuad : Quad where
  text := literal "192.168.3.9"
  address := ![192, 168, 3, 9]
  accepted := rfl
  no_nul := by decide

def serverQuad : Quad where
  text := literal "192.168.3.27"
  address := ![192, 168, 3, 27]
  accepted := rfl
  no_nul := by decide

/-- The file of the repository: `load_ttl_config` enables it for two zero addresses. -/
theorem repository_config_half_loaded :
    file [.enabled true, .clientIp clientQuad, .serverIp serverQuad] =
        literal "enabled = true\nclient_ip = 192.168.3.9\nserver_ip = 192.168.3.27\n" ∧
      (loadTtlConfig zeroed (some (file [.enabled true, .clientIp clientQuad,
        .serverIp serverQuad]))).2.clientIp = (fun _ => 0) ∧
      ¬ Agree [.enabled true, .clientIp clientQuad, .serverIp serverQuad] := by
  refine ⟨by decide, ?_, ?_⟩
  · rw [loadTtlConfig_file]
    rfl
  · rintro ⟨cfg, loaded, stored⟩
    rw [@loadConfig_file _ true clientQuad serverQuad rfl rfl rfl] at loaded
    rw [loadTtlConfig_file] at stored
    have same := (Loading.loaded.inj loaded).trans (congrArg Prod.snd stored).symm
    have first := congrFun (congrArg TtlSubstitutionCfg.clientIp same) 0
    revert first
    decide

end TtlConfig
