import Cursov.Utilities

/-!
# Configuring the client

`loadArgs` reads tokens that `main` cut out of a typed line, `load_config` reads a
file; both end in `setConfigValue`.
-/

namespace ClientConfig

open Bytes Text Bindings Utilities

abbrev Config := ConfigParser.Config

/-- The fields of `Client` that are configured. -/
structure Client where
  serverIp : ByteString
  serverPort : UInt16
  clientPort : UInt16
  protocol : Protocol
  deriving DecidableEq

/-- How a call ends: normally, with an exception, or with a line on `std::cerr`. -/
inductive Outcome where
  | configured
  | raised (failure : Failure)
  | reported (message : ByteString)
  deriving DecidableEq

/-- Field after field; an exception leaves the earlier ones assigned. -/
def setConfigValue (client : Client) (serverIp serverPort clientPort protocol : ByteString) :
    Client × Outcome :=
  let addressed := { client with serverIp := serverIp }
  match stoi serverPort with
  | .error failure => (addressed, .raised failure)
  | .ok port =>
    let aimed := { addressed with serverPort := UInt16.ofInt port }
    match stoi clientPort with
    | .error failure => (aimed, .raised failure)
    | .ok own =>
      let bound := { aimed with clientPort := UInt16.ofInt own }
      match parseProtocol protocol with
      | .error failure => (bound, .raised failure)
      | .ok spoken => ({ bound with protocol := spoken }, .configured)

/-- The four local variables of `loadArgs`. -/
structure Arguments where
  serverIp : ByteString
  serverPort : ByteString
  clientPort : ByteString
  protocol : ByteString
  deriving DecidableEq

/-- None of them is empty. -/
def Arguments.Given (arguments : Arguments) : Prop :=
  arguments.serverIp ≠ [] ∧ arguments.serverPort ≠ [] ∧ arguments.clientPort ≠ [] ∧
    arguments.protocol ≠ []

instance : DecidablePred Arguments.Given :=
  fun _ => inferInstanceAs (Decidable (_ ∧ _ ∧ _ ∧ _))

/-- One round of the loop of `loadArgs`. -/
def assign (arguments : Arguments) (arg : ByteString) : Arguments :=
  match cut equals (cString arg) with
  | none => arguments
  | some (key, value) =>
    if key = literal "server_ip" then { arguments with serverIp := value }
    else if key = literal "server_port" then { arguments with serverPort := value }
    else if key = literal "client_port" then { arguments with clientPort := value }
    else if key = literal "protocol" then { arguments with protocol := value }
    else arguments

def loadArgs (client : Client) (argv : List ByteString) : Client × Outcome :=
  let arguments := (argv.drop 1).foldl assign ⟨[], [], [], []⟩
  if arguments.Given then
    setConfigValue client arguments.serverIp arguments.serverPort arguments.clientPort
      arguments.protocol
  else (client, .reported (literal "Not all required arguments were provided."))

/-- The loop of `main` over `find(' ')`, and what is left of the line unless empty. -/
def splitArgs (inputLine : ByteString) : List ByteString :=
  literal "program" :: lines space inputLine

/-- `unordered_map::at`. -/
def valueAt (values : Config) (key : ByteString) : Except Failure ByteString :=
  match values.lookup key with
  | none => .error (.outOfRange (literal "_Map_base::at"))
  | some value => .ok value

/-- Every missing key raises the same exception, whichever argument is evaluated first. -/
def requested (values : Config) : Except Failure Arguments := do
  let serverIp ← valueAt values (literal "server_ip")
  let serverPort ← valueAt values (literal "server_port")
  let clientPort ← valueAt values (literal "client_port")
  let protocol ← valueAt values (literal "protocol")
  return ⟨serverIp, serverPort, clientPort, protocol⟩

def loadConfig (client : Client) (filename : ByteString) (file : Option ByteString) :
    Client × Outcome :=
  match readConfigFile filename file with
  | .error failure => (client, .raised failure)
  | .ok values => match requested values with
    | .error failure => (client, .raised failure)
    | .ok arguments => setConfigValue client arguments.serverIp arguments.serverPort
        arguments.clientPort arguments.protocol

/-- A character that can stand in a token. -/
def Visible (text : ByteString) : Prop := ∀ b ∈ text, isSpace b = false ∧ b ≠ 0

instance : DecidablePred Visible :=
  List.decidableBAll fun b => isSpace b = false ∧ b ≠ 0

theorem Visible.no_nul {text : ByteString} (visible : Visible text) : 0 ∉ text :=
  fun h => (visible 0 h).2 rfl

theorem Visible.not_mem {text : ByteString} (visible : Visible text) {b : UInt8}
    (blank : isSpace b = true) : b ∉ text := by
  intro h
  rw [(visible b h).1] at blank
  cases blank

theorem Visible.trim {text : ByteString} (visible : Visible text) :
    Text.trim isBlank text = text := by
  have kept : ∀ b ∈ text, isBlank b = false := by
    intro b hb
    by_contra blank
    exact visible.not_mem (isSpace_of_isBlank (Bool.not_eq_false _ ▸ blank)) hb
  apply trim_of_trimmed
  constructor
  · exact fun b hb => kept b (List.mem_of_head? hb)
  · exact fun b hb => kept b (List.mem_of_getLast? hb)

/-- A key and a value that can be typed as one token. -/
structure Setting where
  key : ByteString
  value : ByteString
  named : key ≠ []
  valued : value ≠ []
  no_equals : equals ∉ key
  key_visible : Visible key
  value_visible : Visible value

namespace Setting

def token (s : Setting) : ByteString := s.key ++ equals :: s.value

def entry (s : Setting) : Sigma fun _ : ByteString => ByteString := ⟨s.key, s.value⟩

theorem token_visible (s : Setting) : Visible s.token := by
  intro b hb
  rcases List.mem_append.mp hb with h | h
  · exact s.key_visible b h
  · rcases List.mem_cons.mp h with rfl | h
    · decide
    · exact s.value_visible b h

theorem bindLine (config : Config) (s : Setting) :
    Utilities.bindLine config s.token = config.insert s.key s.value := by
  have key := s.key_visible.trim
  have value := s.value_visible.trim
  have stored := bindLine_cut config s.no_equals (s.value_visible.not_mem (by decide))
    (key.symm ▸ s.named) (value.symm ▸ s.valued)
  rwa [key, value] at stored

end Setting

theorem bindLine_tokens (config : Config) (settings : List Setting) :
    (settings.map Setting.token).foldl Utilities.bindLine config =
      record config (settings.map Setting.entry) := by
  induction settings generalizing config with
  | nil => rfl
  | cons s rest ih =>
    rw [List.map_cons, List.foldl_cons, s.bindLine, ih]
    rfl

/-- What the four variables hold when the tokens read so far make up `values`. -/
def assigned (values : Config) : Arguments :=
  ⟨(values.lookup (literal "server_ip")).getD [], (values.lookup (literal "server_port")).getD [],
    (values.lookup (literal "client_port")).getD [], (values.lookup (literal "protocol")).getD []⟩

theorem getD_lookup_insert (values : Config) (key value name : ByteString) :
    ((values.insert key value).lookup name).getD [] =
      if name = key then value else (values.lookup name).getD [] := by
  by_cases same : name = key
  · subst name
    rw [AList.lookup_insert, if_pos rfl, Option.getD_some]
  · rw [AList.lookup_insert_ne same, if_neg same]

theorem assign_binding (values : Config) {key value : ByteString} (free : equals ∉ key)
    (no_nul : 0 ∉ key ++ equals :: value) :
    assign (assigned values) (key ++ equals :: value) = assigned (values.insert key value) := by
  simp only [assign, (cString_eq_self_iff _).mpr no_nul, cut_append free, assigned,
    getD_lookup_insert]
  by_cases ip : key = literal "server_ip"
  · subst key
    rfl
  by_cases port : key = literal "server_port"
  · subst key
    rfl
  by_cases own : key = literal "client_port"
  · subst key
    rfl
  by_cases spoken : key = literal "protocol"
  · subst key
    rfl
  · simp only [if_neg ip, if_neg port, if_neg own, if_neg spoken, if_neg (Ne.symm ip),
      if_neg (Ne.symm port), if_neg (Ne.symm own), if_neg (Ne.symm spoken)]

theorem assign_tokens (values : Config) (settings : List Setting) :
    (settings.map Setting.token).foldl assign (assigned values) =
      assigned (record values (settings.map Setting.entry)) := by
  induction settings generalizing values with
  | nil => rfl
  | cons s rest ih =>
    rw [List.map_cons, List.foldl_cons, Setting.token,
      assign_binding values s.no_equals s.token_visible.no_nul, ih]
    rfl

/-- Empty tokens change nothing. -/
theorem assign_replicate_nil (arguments : Arguments) (count : Nat) :
    (List.replicate count []).foldl assign arguments = arguments := by
  induction count with
  | zero => rfl
  | succ count ih => exact ih

/-- `lead` spaces, then every token with one space after it and `gap` more. -/
def typedLine (lead : Nat) (settings : List (Setting × Nat)) : ByteString :=
  List.replicate lead space ++
    settings.flatMap fun p => p.1.token ++ List.replicate (p.2 + 1) space

theorem lines_replicate_append (count : Nat) (text : ByteString) :
    lines space (List.replicate count space ++ text) =
      List.replicate count [] ++ lines space text := by
  induction count with
  | zero => rfl
  | succ count ih =>
    rw [List.replicate_succ, List.cons_append, lines, if_pos rfl, ih]
    rfl

theorem assign_typedLine (arguments : Arguments) (lead : Nat) (settings : List (Setting × Nat)) :
    (lines space (typedLine lead settings)).foldl assign arguments =
      ((settings.map Prod.fst).map Setting.token).foldl assign arguments := by
  rw [typedLine, lines_replicate_append, List.foldl_append, assign_replicate_nil]
  induction settings generalizing arguments with
  | nil => rfl
  | cons p rest ih =>
    have free : space ∉ p.1.token := p.1.token_visible.not_mem (by decide)
    rw [List.flatMap_cons, List.replicate_succ, List.append_assoc, List.cons_append,
      lines_append free, lines_replicate_append, List.foldl_cons, List.foldl_append,
      assign_replicate_nil, ih]
    rfl

theorem loadArgs_of_given (client : Client) {argv : List ByteString} {arguments : Arguments}
    (read : (argv.drop 1).foldl assign ⟨[], [], [], []⟩ = arguments) (given : arguments.Given) :
    loadArgs client argv = setConfigValue client arguments.serverIp arguments.serverPort
      arguments.clientPort arguments.protocol := by
  subst read
  exact if_pos given

theorem loadConfig_of_requested (client : Client) (filename : ByteString) {contents : ByteString}
    {values : Config} {arguments : Arguments}
    (read : (lines newline contents).foldl Utilities.bindLine ∅ = values)
    (found : requested values = .ok arguments) :
    loadConfig client filename (some contents) = setConfigValue client arguments.serverIp
      arguments.serverPort arguments.clientPort arguments.protocol := by
  simp only [loadConfig, readConfigFile_open, read, found]

/-- The keys without which the client is not configured. -/
def requiredKeys : List ByteString :=
  [literal "server_ip", literal "server_port", literal "client_port", literal "protocol"]

/-- All four required keys are bound, and no binding is empty. -/
theorem requested_of_complete {values : Config}
    (complete : ∀ name ∈ requiredKeys, ∃ value, values.lookup name = some value ∧ value ≠ []) :
    requested values = .ok (assigned values) ∧ (assigned values).Given := by
  simp only [requiredKeys, List.forall_mem_cons] at complete
  obtain ⟨⟨ip, hip, ipGiven⟩, ⟨port, hport, portGiven⟩, ⟨own, hown, ownGiven⟩,
    ⟨spoken, hspoken, spokenGiven⟩, _⟩ := complete
  simp only [requested, valueAt, assigned, hip, hport, hown, hspoken, Option.getD_some]
  exact ⟨rfl, ipGiven, portGiven, ownGiven, spokenGiven⟩

/-- A required key that is among the settings ends with a value that is not empty. -/
theorem bound_of_complete {settings : List Setting}
    (complete : ∀ name ∈ requiredKeys, ∃ s ∈ settings, s.key = name) :
    ∀ name ∈ requiredKeys, ∃ value,
      (record (∅ : Config) (settings.map Setting.entry)).lookup name = some value ∧ value ≠ [] := by
  intro name required
  obtain ⟨s, mem, named⟩ := complete name required
  obtain ⟨value, found, bound⟩ := exists_lookup_record (∅ : Config)
    ⟨s.entry, List.mem_map_of_mem mem, named⟩
  refine ⟨value, found, ?_⟩
  obtain ⟨other, _, same⟩ := List.mem_map.mp bound
  have body : other.value = value := by
    rw [Setting.entry, Sigma.mk.injEq] at same
    exact eq_of_heq same.2
  exact body ▸ other.valued

/-- Typing the settings and reading them from a file configures the client alike, whatever
the order and repetition of the keys, the unknown ones among them and the spaces between. -/
theorem loadArgs_eq_loadConfig (client : Client) (filename : ByteString)
    (settings : List (Setting × Nat)) (lead : Nat) (inputLine contents : ByteString)
    (complete : ∀ name ∈ requiredKeys, ∃ s ∈ settings.map Prod.fst, s.key = name)
    (typed : inputLine = typedLine lead settings ∨
      inputLine ++ [space] = typedLine lead settings)
    (written : contents = terminated newline ((settings.map Prod.fst).map Setting.token) ∨
      contents ++ [newline] = terminated newline ((settings.map Prod.fst).map Setting.token)) :
    loadArgs client (splitArgs inputLine) = loadConfig client filename (some contents) := by
  have fromLine : (lines space inputLine).foldl assign (assigned ∅) =
      assigned (record ∅ ((settings.map Prod.fst).map Setting.entry)) := by
    rw [← assign_tokens, ← assign_typedLine _ lead]
    rcases typed with rfl | more
    · rfl
    · rw [← more, foldl_lines_snoc fun _ => rfl]
  have fromFile : (lines newline contents).foldl Utilities.bindLine ∅ =
      record ∅ ((settings.map Prod.fst).map Setting.entry) := by
    have free : ∀ line ∈ (settings.map Prod.fst).map Setting.token, newline ∉ line := by
      intro line mem
      obtain ⟨s, _, rfl⟩ := List.mem_map.mp mem
      exact s.token_visible.not_mem (by decide)
    rw [← bindLine_tokens]
    rcases written with rfl | more
    · rw [lines_terminated free]
    · rw [← foldl_lines_snoc (fun _ => rfl) newline contents, more, lines_terminated free]
  obtain ⟨found, given⟩ := requested_of_complete (bound_of_complete complete)
  rw [loadConfig_of_requested client filename fromFile found]
  exact loadArgs_of_given client fromLine given

/-- Two servers are named, the later one wins; one key is unknown. -/
def typedSettings : List (Setting × Nat) :=
  [(⟨literal "server_ip", literal "10.0.0.1", by decide, by decide, by decide, by decide,
      by decide⟩, 0),
   (⟨literal "protocol", literal "udp", by decide, by decide, by decide, by decide, by decide⟩, 2),
   (⟨literal "color", literal "a=b", by decide, by decide, by decide, by decide, by decide⟩, 0),
   (⟨literal "server_port", literal "8080", by decide, by decide, by decide, by decide,
      by decide⟩, 0),
   (⟨literal "server_ip", literal "127.0.0.1", by decide, by decide, by decide, by decide,
      by decide⟩, 0),
   (⟨literal "client_port", literal "3000", by decide, by decide, by decide, by decide,
      by decide⟩, 0)]

theorem loadArgs_eq_loadConfig_repeated :
    loadArgs ⟨[], 0, 0, .tcp⟩ (splitArgs
        (literal " server_ip=10.0.0.1 protocol=udp   color=a=b " ++
          literal "server_port=8080 server_ip=127.0.0.1 client_port=3000")) =
      loadConfig ⟨[], 0, 0, .tcp⟩ (literal "udp_client.cfg") (some
        (literal "server_ip=10.0.0.1\nprotocol=udp\ncolor=a=b\n" ++
          literal "server_port=8080\nserver_ip=127.0.0.1\nclient_port=3000\n")) := by
  apply loadArgs_eq_loadConfig _ _ typedSettings 1
  · decide
  · exact Or.inr (by decide)
  · exact Or.inl (by decide)

end ClientConfig
