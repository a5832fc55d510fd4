import Cursov.Console
import Cursov.PacketLog

/-!
# Starting the packet sniffer

`main` lists the devices, takes the name of one from its arguments or from the number that
is typed, opens it, installs a filter and hands the packets to `handler`. Every way out of
it gives back what it has of libpcap.
-/

namespace Monitor

open Bytes Text Terminal Console PacketLog

/-- The list of devices, the open device, and the compiled filter. -/
inductive Resource where
  | alldevs
  | handle
  | fp
  deriving DecidableEq

inductive Use where
  | acquire (r : Resource)
  | use (r : Resource)
  | release (r : Resource)
  deriving DecidableEq

/-- What is held after a use, if it is one of something that is held, or acquires something
that is not. -/
def Use.on (held : List Resource) : Use → Option (List Resource)
  | .acquire r => if r ∈ held then none else some (r :: held)
  | .use r => if r ∈ held then some held else none
  | .release r => if r ∈ held then some (held.erase r) else none

def holding (held : List Resource) (uses : List Use) : Option (List Resource) :=
  uses.foldlM Use.on held

/-- `pcap_if_t`. -/
structure Device where
  name : ByteString
  description : Option ByteString
  deriving DecidableEq

/-- What libpcap answers, with the texts of its errors, and the variable `inum`, which is not
initialised. `pcap_loop` returns behind the packets that it hands over. -/
structure Pcap where
  findalldevs : Except ByteString (List Device)
  openLive : ByteString → Except ByteString Unit
  compile : Except ByteString Unit
  setfilter : Except ByteString Unit
  packets : List Packet
  localtime : Int → Tm
  uninitialised : Int

/-- `main` returns, or reads behind the end of the list. -/
inductive Ending where
  | returned (code : Int)
  | undefined
  deriving DecidableEq

/-- `monitored` is the interface that `pcap_loop` was called for. -/
structure Session where
  uses : List Use
  monitored : Option ByteString
  screen : ByteString
  errors : ByteString
  ending : Ending

def Session.behind (s : Session) (uses : List Use) (screen : ByteString) : Session :=
  { s with uses := uses ++ s.uses, screen := screen ++ s.screen }

def filter : ByteString := literal "arp or ip"

/-- `main` from `pcap_open_live` on, while it has the list of devices. -/
def monitor (p : Pcap) (selectedInterface : ByteString) : Session :=
  match p.openLive selectedInterface with
  | .error errbuf =>
    { uses := [.release .alldevs]
      monitored := none
      screen := []
      errors := literal "Couldn't open interface " ++ selectedInterface ++ literal ": " ++ errbuf ++
        [newline]
      ending := .returned 1 }
  | .ok _ => match p.compile with
    | .error geterr =>
      { uses := [.acquire .handle, .use .handle, .release .handle, .release .alldevs]
        monitored := none
        screen := []
        errors := literal "Couldn't parse filter " ++ filter ++ literal ": " ++ geterr ++ [newline]
        ending := .returned 1 }
    | .ok _ => match p.setfilter with
      | .error geterr =>
        { uses := [.acquire .handle, .acquire .fp, .use .handle, .use .fp, .release .fp,
            .release .handle, .release .alldevs]
          monitored := none
          screen := []
          errors := literal "Couldn't install filter " ++ filter ++ literal ": " ++ geterr ++
            [newline]
          ending := .returned 1 }
      | .ok _ =>
        { uses := [.acquire .handle, .acquire .fp, .use .handle, .use .fp, .release .fp,
            .release .alldevs, .use .handle, .release .handle]
          monitored := some selectedInterface
          screen := literal "Starting packet monitoring on interface " ++ selectedInterface ++
            literal "...\nPress Ctrl+C to stop...\n" ++ log p.localtime p.packets
          errors := []
          ending := .returned 0 }

/-- The line of the device with this number. -/
def Device.line (d : Device) (i : Nat) : ByteString :=
  decimal i ++ literal ". " ++ d.name ++
    (match d.description with
      | none => []
      | some text => literal " (" ++ text ++ literal ")") ++ [newline]

def listing (devices : List Device) : ByteString :=
  (devices.zipIdx 1).flatMap fun (d, i) => d.line i

/-- The device that the loop stops at; it goes on from the end of a shorter list, and its
bound overflows for one number. -/
def selected (devices : List Device) (inum : Int) : Option Device :=
  if inum = -2147483648 then none else devices[(inum - 1).toNat]?

/-- `main`, with the first of its arguments; the prompt is on the screen while it waits. -/
def main (p : Pcap) (argument : Option ByteString) : Read UInt8 Session :=
  match p.findalldevs with
  | .error errbuf => pure
      ⟨[], none, [], literal "Error finding devices: " ++ errbuf ++ [newline], .returned 1⟩
  | .ok [] => pure ⟨[], none, [], literal "No network interfaces found!\n", .returned 1⟩
  | .ok devices =>
    match argument with
    | some name => pure
        ((monitor p name).behind [.acquire .alldevs, .use .alldevs] (listing devices))
    | none => do
      let inum ← extractInt p.uninitialised
      let prompted := listing devices ++ literal "Enter the interface number: "
      pure (match selected devices inum with
        | none => ⟨[.acquire .alldevs, .use .alldevs], none, prompted, [], .undefined⟩
        | some d => (monitor p d.name).behind [.acquire .alldevs, .use .alldevs] prompted)

theorem steady_main (p : Pcap) (argument : Option ByteString) : Steady (main p argument) := by
  rw [main]
  split
  · exact .pure _
  · exact .pure _
  · split
    · exact .pure _
    · exact (steady_extractInt _).bind fun _ => .pure _

/-- The interface can be opened and the filter installed. -/
def Accepts (p : Pcap) (name : ByteString) : Prop :=
  p.openLive name = .ok () ∧ p.compile = .ok () ∧ p.setfilter = .ok ()

theorem monitor_monitored (p : Pcap) (name : ByteString) {n : ByteString} :
    (monitor p name).monitored = some n ↔ n = name ∧ Accepts p name := by
  rw [monitor, Accepts]
  cases p.openLive name with
  | error errbuf => simp
  | ok _ =>
    cases p.compile with
    | error geterr => simp
    | ok _ =>
      cases p.setfilter with
      | error geterr => simp
      | ok _ => simp [eq_comm]

theorem monitor_gives_back (p : Pcap) (name : ByteString) :
    holding [.alldevs] (monitor p name).uses = some [] ∧
      (monitor p name).ending ≠ .undefined := by
  rw [monitor]
  cases p.openLive name with
  | error errbuf => exact ⟨rfl, nofun⟩
  | ok _ =>
    cases p.compile with
    | error geterr => exact ⟨rfl, nofun⟩
    | ok _ => cases p.setfilter <;> exact ⟨rfl, nofun⟩

/-- A session that has listed the devices and then monitors an interface. -/
theorem behind_gives_back (p : Pcap) (name screen : ByteString) :
    holding [] ((monitor p name).behind [.acquire .alldevs, .use .alldevs] screen).uses =
      some [] := (monitor_gives_back p name).1

theorem selected_eq_none_iff {devices : List Device} {inum : Int} (found : devices ≠ []) :
    selected devices inum = none ↔ inum = -2147483648 ∨ (devices.length : Int) < inum := by
  have some_device : 0 < devices.length := List.length_pos_iff.mpr found
  rw [selected]
  split
  case isTrue least => exact iff_of_true rfl (Or.inl least)
  case isFalse other =>
    rw [List.getElem?_eq_none_iff]
    omega

theorem listing_shows {devices : List Device} {d : Device} {k : Nat}
    (at_index : devices[k]? = some d) :
    ∃ before after, listing devices = before ++ (d.line (k + 1) ++ after) := by
  obtain ⟨inside, rfl⟩ := List.getElem?_eq_some_iff.mp at_index
  have mem : (devices[k], k + 1) ∈ devices.zipIdx 1 := by
    rw [List.mem_zipIdx_iff_le_and_getElem?_sub]
    simp
  obtain ⟨front, back, split⟩ := List.append_of_mem mem
  exact ⟨_, _, by rw [listing, split, List.flatMap_append, List.flatMap_cons]⟩

/-- The listing has the device under the number, or under 1 for a smaller one. -/
structure Offered (devices : List Device) (inum : Int) (d : Device) : Prop where
  at_index : selected devices inum = some d
  shown : ∃ before after, listing devices = before ++ (d.line (max inum 1).toNat ++ after)

theorem offered_of_selected {devices : List Device} {inum : Int} {d : Device}
    (at_index : selected devices inum = some d) : Offered devices inum d := by
  refine ⟨at_index, ?_⟩
  rw [selected, Option.ite_none_left_eq_some] at at_index
  have number : (max inum 1).toNat = (inum - 1).toNat + 1 := by omega
  rw [number]
  exact listing_shows at_index.2

/-- The interface that is asked for: by the argument, or by the number that has been typed. -/
inductive Chosen (p : Pcap) (typed : ByteString) (ended : Bool) (devices : List Device) :
    Option ByteString → ByteString → Prop where
  | argument (name : ByteString) : Chosen p typed ended devices (some name) name
  | number (inum : Int) (rest : ByteString) (sound : Bool) (d : Device)
      (extracts : Extracts p.uninitialised ended typed inum rest sound)
      (offered : Offered devices inum d) : Chosen p typed ended devices none d.name

/-- No device has the number that has been typed. -/
def Beyond (p : Pcap) (typed : ByteString) (ended : Bool) (devices : List Device) : Prop :=
  ∃ inum rest sound, Extracts p.uninitialised ended typed inum rest sound ∧
    (inum = -2147483648 ∨ (devices.length : Int) < inum)

/-- What one session of the sniffer comes to. -/
structure Monitors (p : Pcap) (argument : Option ByteString) (typed : ByteString) (ended : Bool)
    (session : Session) : Prop where
  monitored : ∀ name, session.monitored = some name ↔ Accepts p name ∧ ∃ devices,
    p.findalldevs = .ok devices ∧ devices ≠ [] ∧ Chosen p typed ended devices argument name
  undefined : session.ending = .undefined ↔ argument = none ∧ ∃ devices,
    p.findalldevs = .ok devices ∧ devices ≠ [] ∧ Beyond p typed ended devices
  gives_back : session.ending ≠ .undefined → holding [] session.uses = some []

theorem unfound_monitors {p : Pcap} {argument : Option ByteString} {typed : ByteString}
    {ended : Bool} (unfound : ∀ devices, p.findalldevs = .ok devices → devices = [])
    (errors : ByteString) (code : Int) :
    Monitors p argument typed ended ⟨[], none, [], errors, .returned code⟩ where
  monitored name := by
    refine iff_of_false nofun ?_
    rintro ⟨_, devices, found, nonempty, _⟩
    exact nonempty (unfound devices found)
  undefined := by
    refine iff_of_false nofun ?_
    rintro ⟨_, devices, found, nonempty, _⟩
    exact nonempty (unfound devices found)
  gives_back _ := rfl

theorem argument_monitors {p : Pcap} {name typed : ByteString} {ended : Bool}
    {devices : List Device} (found : p.findalldevs = .ok devices) (nonempty : devices ≠ []) :
    Monitors p (some name) typed ended
      ((monitor p name).behind [.acquire .alldevs, .use .alldevs] (listing devices)) where
  monitored n := by
    change (monitor p name).monitored = some n ↔ _
    rw [monitor_monitored]
    constructor
    · rintro ⟨rfl, accepts⟩
      exact ⟨accepts, devices, found, nonempty, .argument n⟩
    · rintro ⟨accepts, _, _, _, chosen⟩
      cases chosen
      exact ⟨rfl, accepts⟩
  undefined := iff_of_false (monitor_gives_back p name).2 nofun
  gives_back _ := behind_gives_back p name _

/-- With no argument the number decides, and it is read in one way only. -/
theorem number_monitors {p : Pcap} {typed rest : ByteString} {ended sound : Bool} {inum : Int}
    {devices : List Device} (screen : ByteString) (found : p.findalldevs = .ok devices)
    (nonempty : devices ≠ []) (extracts : Extracts p.uninitialised ended typed inum rest sound) :
    Monitors p none typed ended (match selected devices inum with
      | none => ⟨[.acquire .alldevs, .use .alldevs], none, screen, [], .undefined⟩
      | some d => (monitor p d.name).behind [.acquire .alldevs, .use .alldevs] screen) := by
  cases at_index : selected devices inum with
  | none =>
    refine ⟨fun name => iff_of_false nofun ?_, iff_of_true rfl ⟨rfl, devices, found, nonempty, inum,
      rest, sound, extracts, (selected_eq_none_iff nonempty).mp at_index⟩, fun defined =>
        absurd rfl defined⟩
    rintro ⟨_, devices', found', _, chosen⟩
    cases found.symm.trans found'
    cases chosen with
    | number _ _ _ d extracts' offered =>
      have some_device := offered.at_index
      rw [(extracts'.unique extracts).1, at_index] at some_device
      cases some_device
  | some d =>
    refine ⟨fun name => ?_, iff_of_false (monitor_gives_back p d.name).2 ?_, fun _ =>
      behind_gives_back p d.name _⟩
    · change (monitor p d.name).monitored = some name ↔ _
      rw [monitor_monitored]
      constructor
      · rintro ⟨rfl, accepts⟩
        exact ⟨accepts, devices, found, nonempty,
          .number inum rest sound d extracts (offered_of_selected at_index)⟩
      · rintro ⟨accepts, devices', found', _, chosen⟩
        cases found.symm.trans found'
        cases chosen with
        | number _ _ _ d' extracts' offered =>
          have same := offered.at_index
          rw [(extracts'.unique extracts).1, at_index] at same
          cases same
          exact ⟨rfl, accepts⟩
    · rintro ⟨-, devices', found', _, inum', rest', sound', extracts', beyond⟩
      cases found.symm.trans found'
      rw [(extracts'.unique extracts).1, ← selected_eq_none_iff nonempty, at_index] at beyond
      cases beyond

/-- Whatever is typed and whatever libpcap answers: exactly the interface is monitored that is
asked for and accepted, nothing typed later changes it, and everything is given back unless
the number is that of no device. -/
theorem monitors_as_typed {p : Pcap} {argument : Option ByteString} {typed : ByteString}
    {ended : Bool} {session : Session} {t : Source UInt8}
    (reads : (main p argument).run (Source.text typed ended) = some (session, t)) :
    Monitors p argument typed ended session ∧ (ended = false → ∀ more ended',
      (main p argument).run (Source.text (typed ++ more) ended') =
        some (session, t.later more ended')) := by
  refine ⟨?_, fun open_end more ended' =>
    (steady_main p argument).reads_text (open_end ▸ reads) more ended'⟩
  rw [main] at reads
  cases found : p.findalldevs with
  | error errbuf =>
    rw [found] at reads
    cases reads
    exact unfound_monitors (fun devices found' => by cases found.symm.trans found') _ _
  | ok devices =>
    rw [found] at reads
    cases devices with
    | nil =>
      cases reads
      refine unfound_monitors (fun devices found' => ?_) _ _
      cases found.symm.trans found'
      rfl
    | cons first others =>
      cases argument with
      | some name =>
        cases reads
        exact argument_monitors found (List.cons_ne_nil _ _)
      | none =>
        obtain ⟨inum, mid, extracted, finishes⟩ := run_bind_iff.mp reads
        cases finishes
        obtain ⟨rest, sound, extracts, rfl⟩ :=
          (extractInt_run_iff (s := Source.text typed ended) rfl).mp extracted
        exact number_monitors _ found (List.cons_ne_nil _ _) extracts

/-- Two devices, of which the second can be opened. -/
def twoDevices : Pcap where
  findalldevs := .ok [⟨literal "eth0", some (literal "Ethernet")⟩, ⟨literal "wlan0", none⟩]
  openLive := fun name =>
    if name = literal "wlan0" then .ok () else .error (literal "no such device")
  compile := .ok ()
  setfilter := .ok ()
  packets := []
  localtime := fun _ => ⟨124, 0, 1, 0, 0, 0, by decide⟩
  uninitialised := 0

theorem monitors_as_typed_second :
    ∃ session, session.monitored = some (literal "wlan0") ∧
      Monitors twoDevices none (literal "2\n") false session := by
  obtain ⟨session, t, reads, monitored⟩ : ∃ session t,
      (main twoDevices none).run (Source.text (literal "2\n") false) = some (session, t) ∧
        session.monitored = some (literal "wlan0") := ⟨_, _, rfl, rfl⟩
  exact ⟨session, monitored, (monitors_as_typed reads).1⟩

end Monitor
