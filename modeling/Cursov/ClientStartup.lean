import Cursov.ClientConfig

/-!
# Starting the client

`main` configures a client from a typed line or a file and runs it. A conversion
that throws on the way leaves the fields before it assigned, and a line without all
four arguments is reported and nothing else.
-/

namespace ClientStartup

open Bytes Text Bindings Utilities ClientConfig

/-- The four fields hold what the four strings stand for. -/
def StoresAll (a : Arguments) (client : Client) : Prop :=
  client.serverIp = a.serverIp ∧
    (∃ port, stoi a.serverPort = .ok port ∧ client.serverPort = UInt16.ofInt port) ∧
    (∃ own, stoi a.clientPort = .ok own ∧ client.clientPort = UInt16.ofInt own) ∧
    parseProtocol a.protocol = .ok client.protocol

/-- Everything is stored, or an exception leaves the client as it was. -/
def AllOrNothing (client : Client) (stored : Client → Prop) (result : Client × Outcome) : Prop :=
  result.2 = .configured ∧ stored result.1 ∨ ∃ failure, result = (client, .raised failure)

/-- What is assigned before the first conversion that fails was there already. -/
def EarlierKept (client : Client) (a : Arguments) : Prop :=
  match stoi a.serverPort with
  | .error _ => client.serverIp = a.serverIp
  | .ok port => match stoi a.clientPort with
    | .error _ => client.serverIp = a.serverIp ∧ client.serverPort = UInt16.ofInt port
    | .ok own => match parseProtocol a.protocol with
      | .error _ => client.serverIp = a.serverIp ∧ client.serverPort = UInt16.ofInt port ∧
          client.clientPort = UInt16.ofInt own
      | .ok _ => True

theorem allOrNothing_raised (client changed : Client) (stored : Client → Prop) (failure : Failure) :
    AllOrNothing client stored (changed, .raised failure) ↔ changed = client := by
  constructor
  · rintro (⟨configured, _⟩ | ⟨_, same⟩)
    · cases configured
    · exact congrArg Prod.fst same
  · rintro rfl
    exact Or.inr ⟨failure, rfl⟩

theorem allOrNothing_configured (client changed : Client) (stored : Client → Prop) :
    AllOrNothing client stored (changed, .configured) ↔ stored changed := by
  constructor
  · rintro (⟨_, all⟩ | ⟨_, same⟩)
    · exact all
    · cases same
  · exact fun all => Or.inl ⟨rfl, all⟩

theorem setConfigValue_allOrNothing_iff (client : Client) (a : Arguments) :
    AllOrNothing client (StoresAll a)
        (setConfigValue client a.serverIp a.serverPort a.clientPort a.protocol) ↔
      EarlierKept client a := by
  obtain ⟨ip, sport, cport, spoken⟩ := client
  rw [EarlierKept, setConfigValue]
  cases port : stoi a.serverPort with
  | error failure => simp [allOrNothing_raised, eq_comm]
  | ok p =>
    cases own : stoi a.clientPort with
    | error failure => simp [allOrNothing_raised, eq_comm]
    | ok q =>
      cases protocol : parseProtocol a.protocol with
      | error failure => simp [allOrNothing_raised, eq_comm]
      | ok spoken =>
        simp only [allOrNothing_configured, iff_true]
        exact ⟨rfl, ⟨p, port, rfl⟩, ⟨q, own, rfl⟩, protocol⟩

/-- The same arguments, looked up in a file that can be read. -/
def Requests (filename : ByteString) (file : Option ByteString) (a : Arguments) : Prop :=
  ∃ values, readConfigFile filename file = .ok values ∧ requested values = .ok a

/-- Without arguments to store nothing is touched. -/
theorem loadConfig_cases (client : Client) (filename : ByteString) (file : Option ByteString) :
    (∃ a, (∀ b, Requests filename file b ↔ b = a) ∧ loadConfig client filename file =
        setConfigValue client a.serverIp a.serverPort a.clientPort a.protocol) ∨
      (∀ a, ¬ Requests filename file a) ∧
        ∃ failure, loadConfig client filename file = (client, .raised failure) := by
  unfold loadConfig Requests
  cases readConfigFile filename file with
  | error failure => exact Or.inr ⟨by simp, failure, rfl⟩
  | ok values =>
    simp only [Except.ok.injEq, exists_eq_left']
    cases requested values with
    | error failure => exact Or.inr ⟨by simp, failure, rfl⟩
    | ok a => exact Or.inl ⟨a, by simp [eq_comm], rfl⟩

/-- Configuring is all or nothing exactly when the fields before the first failing conversion
already hold the new values. -/
theorem configuration_atomic_iff (client : Client) :
    (∀ a : Arguments, AllOrNothing client (StoresAll a)
        (setConfigValue client a.serverIp a.serverPort a.clientPort a.protocol) ↔
      EarlierKept client a) ∧
    ∀ filename file, AllOrNothing client (fun c => ∃ a, Requests filename file a ∧ StoresAll a c)
        (loadConfig client filename file) ↔
      ∀ a, Requests filename file a → EarlierKept client a := by
  refine ⟨setConfigValue_allOrNothing_iff client, fun filename file => ?_⟩
  rcases loadConfig_cases client filename file with ⟨a, only, same⟩ | ⟨none, failure, same⟩
  · simp only [only, exists_eq_left, forall_eq, same]
    exact setConfigValue_allOrNothing_iff client a
  · rw [same, allOrNothing_raised]
    exact iff_of_true rfl fun a requests => absurd requests (none a)

/-- The own port is no number: the address and the server's port are already replaced. -/
theorem failed_conversion_half_configured :
    ¬ AllOrNothing ⟨literal "10.0.0.1", 8080, 3000, .udp⟩
      (StoresAll ⟨literal "127.0.0.1", literal "80", literal "x", literal "tcp"⟩)
      (setConfigValue ⟨literal "10.0.0.1", 8080, 3000, .udp⟩ (literal "127.0.0.1") (literal "80")
        (literal "x") (literal "tcp")) := by
  have half : setConfigValue ⟨literal "10.0.0.1", 8080, 3000, .udp⟩ (literal "127.0.0.1")
      (literal "80") (literal "x") (literal "tcp") =
      (⟨literal "127.0.0.1", 80, 3000, .udp⟩, .raised (.invalidArgument (literal "stoi"))) := by
    decide
  rw [half, allOrNothing_raised]
  decide

/-- `client.run()` is called, nothing catches an exception, or `main` returns. -/
inductive Startup where
  | ran (client : Client)
  | uncaught (failure : Failure)
  | exited (code : Int) (message : ByteString)
  deriving DecidableEq

/-- After the branches of `main`: nothing asks how the configuration ended. -/
def proceed : Client × Outcome → Startup
  | (_, .raised failure) => .uncaught failure
  | (client, .configured) => .ran client
  | (client, .reported _) => .ran client

/-- `main` up to `client.run()`. `line` is typed after the choice, `files` are those that can
be read, and `client` is what the constructor leaves in the fields. -/
def main (client : Client) (choice : Int) (line : ByteString)
    (files : ByteString → Option ByteString) : Startup :=
  if choice = 1 then proceed (loadArgs client (splitArgs line))
  else if choice = 2 then proceed (loadConfig client line (files line))
  else .exited 1 (utf8 "Неверный выбор. Завершение программы.\n")

/-- The token assigns `value` to `key`. -/
def Binds (arg key value : ByteString) : Prop :=
  cString arg = key ++ equals :: value ∧ equals ∉ key

/-- What a line assigns last to each of the four keys. -/
structure Assigns (line : ByteString) (a : Arguments) : Prop where
  serverIp : Prevails Binds (lines space line) (literal "server_ip") a.serverIp
  serverPort : Prevails Binds (lines space line) (literal "server_port") a.serverPort
  clientPort : Prevails Binds (lines space line) (literal "client_port") a.clientPort
  protocol : Prevails Binds (lines space line) (literal "protocol") a.protocol

/-- The loop of `loadArgs` as it would be with a map for its variables. -/
def store (values : Config) (arg : ByteString) : Config :=
  match cut equals (cString arg) with
  | none => values
  | some (key, value) => values.insert key value

theorem store_effect (values : Config) (arg : ByteString) :
    Effect Binds arg values (store values arg) := by
  by_cases present : equals ∈ cString arg
  · obtain ⟨key, value, split, free⟩ := List.eq_append_cons_of_mem present
    rw [store, split, cut_append free]
    refine .binds key value fun k v => ?_
    rw [Binds, split]
    constructor
    · rintro ⟨same, free'⟩
      obtain ⟨rfl, rfl⟩ := cut_unique free free' same
      exact ⟨rfl, rfl⟩
    · rintro ⟨rfl, rfl⟩
      exact ⟨rfl, free⟩
  · rw [store, cut_eq_none_iff.mpr present]
    refine .silent fun k v binds => present ?_
    rw [binds.1]
    simp

theorem assign_assigned (values : Config) (arg : ByteString) :
    assign (assigned values) arg = assigned (store values arg) := by
  by_cases present : equals ∈ cString arg
  · obtain ⟨key, value, split, free⟩ := List.eq_append_cons_of_mem present
    have no_nul : 0 ∉ key ++ equals :: value := split ▸ not_nul_mem_cString arg
    have bound := assign_binding values free no_nul
    rw [assign, (cString_eq_self_iff _).mpr no_nul] at bound
    rw [assign, split, bound, store, split, cut_append free]
  · rw [assign, store, cut_eq_none_iff.mpr present]

theorem foldl_assign (values : Config) (args : List ByteString) :
    args.foldl assign (assigned values) = assigned (args.foldl store values) := by
  induction args generalizing values with
  | nil => rfl
  | cons arg rest ih => rw [List.foldl_cons, List.foldl_cons, assign_assigned, ih]

/-- What the tokens of a line bind. -/
def typed (line : ByteString) : Config := (lines space line).foldl store ∅

theorem prevails_iff_lookup {line key value : ByteString} :
    Prevails Binds (lines space line) key value ↔ (typed line).lookup key = some value :=
  (lookup_foldl_iff fun arg _ values => store_effect values arg).symm

theorem eq_some_of_getD {value : Option ByteString} (given : value.getD [] ≠ []) :
    value = some (value.getD []) := by
  cases value with
  | none => exact absurd rfl given
  | some text => rfl

theorem assigned_eq {line : ByteString} {a : Arguments} (made : Assigns line a) :
    assigned (typed line) = a := by
  simp only [assigned, prevails_iff_lookup.mp made.serverIp, prevails_iff_lookup.mp made.serverPort,
    prevails_iff_lookup.mp made.clientPort, prevails_iff_lookup.mp made.protocol,
    Option.getD_some]

theorem assigns_of_given {line : ByteString} (given : (assigned (typed line)).Given) :
    Assigns line (assigned (typed line)) := by
  obtain ⟨ip, port, own, spoken⟩ := given
  constructor
  · exact prevails_iff_lookup.mpr (eq_some_of_getD ip)
  · exact prevails_iff_lookup.mpr (eq_some_of_getD port)
  · exact prevails_iff_lookup.mpr (eq_some_of_getD own)
  · exact prevails_iff_lookup.mpr (eq_some_of_getD spoken)

theorem loadArgs_splitArgs (client : Client) (line : ByteString) :
    loadArgs client (splitArgs line) =
      if (assigned (typed line)).Given then
        setConfigValue client (assigned (typed line)).serverIp (assigned (typed line)).serverPort
          (assigned (typed line)).clientPort (assigned (typed line)).protocol
      else (client, .reported (literal "Not all required arguments were provided.")) := by
  have read : ((splitArgs line).drop 1).foldl assign ⟨[], [], [], []⟩ = assigned (typed line) :=
    foldl_assign ∅ (lines space line)
  rw [loadArgs, read]

/-- Only a call that throws nothing gets to `run`, and it has stored all four. -/
theorem ran_iff_storesAll {client ran : Client} {a : Arguments} :
    proceed (setConfigValue client a.serverIp a.serverPort a.clientPort a.protocol) = .ran ran ↔
      StoresAll a ran := by
  obtain ⟨ip, sport, cport, spoken⟩ := ran
  rw [setConfigValue, StoresAll]
  cases stoi a.serverPort with
  | error failure => simp [proceed]
  | ok p =>
    cases stoi a.clientPort with
    | error failure => simp [proceed]
    | ok q =>
      cases parseProtocol a.protocol with
      | error failure => simp [proceed]
      | ok spoken => simp [proceed, eq_comm]

/-- A client that a file configures is run with all four entries of the file. -/
theorem main_file_configured {client ran : Client} {line : ByteString}
    {files : ByteString → Option ByteString} (started : main client 2 line files = .ran ran) :
    ∃ a, Requests line (files line) a ∧ StoresAll a ran := by
  rw [main, if_neg (by decide), if_pos rfl] at started
  rcases loadConfig_cases client line (files line) with ⟨a, only, same⟩ | ⟨_, failure, same⟩
  · rw [same] at started
    exact ⟨a, (only a).mpr rfl, ran_iff_storesAll.mp started⟩
  · rw [same] at started
    cases started

/-- The client is only run on what the typed line assigns, exactly when the line assigns to
each of the four keys and none is left empty. -/
theorem main_typed_configured_iff (client : Client) (line : ByteString)
    (files : ByteString → Option ByteString) :
    (∀ ran, main client 1 line files = .ran ran →
        ∃ a, Assigns line a ∧ a.Given ∧ StoresAll a ran) ↔
      ∃ a, Assigns line a ∧ a.Given := by
  rw [main, if_pos rfl, loadArgs_splitArgs]
  by_cases given : (assigned (typed line)).Given
  · rw [if_pos given]
    have made := assigns_of_given given
    exact iff_of_true (fun ran started => ⟨_, made, given, ran_iff_storesAll.mp started⟩)
      ⟨_, made, given⟩
  · rw [if_neg given]
    constructor
    · intro configured
      obtain ⟨a, made, all, _⟩ := configured client rfl
      exact ⟨a, made, all⟩
    · rintro ⟨a, made, all⟩
      exact absurd (assigned_eq made ▸ all) given

/-- No protocol is typed, so the memory of the new client decides between the two. Where it
holds neither, `run` would take its third branch, which is not modelled. -/
theorem missing_protocol_ran :
    main ⟨[], 0, 0, .tcp⟩ 1
        (literal "server_ip=127.0.0.1 server_port=8080 client_port=3000") (fun _ => none) =
      .ran ⟨[], 0, 0, .tcp⟩ ∧
    main ⟨[], 7, 7, .udp⟩ 1
        (literal "server_ip=127.0.0.1 server_port=8080 client_port=3000") (fun _ => none) =
      .ran ⟨[], 7, 7, .udp⟩ ∧
    ¬ ∀ ran, main ⟨[], 0, 0, .tcp⟩ 1
          (literal "server_ip=127.0.0.1 server_port=8080 client_port=3000") (fun _ => none) =
        .ran ran → ∃ a,
          Assigns (literal "server_ip=127.0.0.1 server_port=8080 client_port=3000") a ∧ a.Given ∧
            StoresAll a ran := by
  refine ⟨by decide, by decide, fun configured => ?_⟩
  obtain ⟨a, _, given, address, _⟩ := configured ⟨[], 0, 0, .tcp⟩ (by decide)
  exact given.1 address.symm

end ClientStartup
