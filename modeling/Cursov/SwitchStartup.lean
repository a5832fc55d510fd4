import Cursov.TtlConfig
import Cursov.Library.FirstOccurrences

/-!
# Starting the switch

`main` opens a handle on every interface whose name is typed and available. The
list of available interfaces holds no name twice; the list of typed ones is taken
as it is typed.
-/

namespace SwitchStartup

open Bytes Text Frame FirstOccurrences

def afPacket : Nat := 17

/-- An entry of the list of `getifaddrs`; the family is read of an address, if there is one. -/
structure Ifaddr where
  name : ByteString
  family : Option Nat
  deriving DecidableEq

/-- One round of the loop of `getAvailableInterfaces`. -/
def addInterface (interfaces : List ByteString) (ifa : Ifaddr) : List ByteString :=
  if ifa.family = some afPacket then
    if interfaces.any (· == ifa.name) then interfaces else interfaces ++ [ifa.name]
  else interfaces

/-- `utils::getAvailableInterfaces`, on the list that `getifaddrs` gives unless it fails. -/
def getAvailableInterfaces : Option (List Ifaddr) → List ByteString
  | none => []
  | some ifaddr => ifaddr.foldl addInterface []

/-- The words that `operator>>` reads of a line. -/
def words (line : ByteString) : List ByteString :=
  (line.splitOnP isSpace).filter fun word => word ≠ []

/-- `selectedInterfaces`. -/
def selectInterfaces (interfaces : List ByteString) (line : ByteString) : List ByteString :=
  (words line).filter fun iface => interfaces.any (· == iface)

/-- A handle of `pcap_open_live`: its interface, and which of the calls returned it. -/
structure PcapHandle where
  interface : ByteString
  call : Nat
  deriving DecidableEq

/-- The loop over the selected interfaces; `opens` says which calls succeed. -/
def openInterfaces (opens : Nat → Bool) (selected : List ByteString) : List PcapHandle :=
  selected.zipIdx.filterMap fun p => if opens p.2 then some ⟨p.1, p.2⟩ else none

/-- The threads are started, nothing catches an exception, or `main` returns. -/
inductive Startup where
  | running (handles : List PcapHandle) (cfg : TtlSubstitutionCfg)
  | uncaught (what : ByteString)
  | exited (code : Int) (message : ByteString)

/-- `main` of the switch up to the start of its threads. -/
def main (ifaddr : Option (List Ifaddr)) (line : ByteString) (opens : Nat → Bool)
    (configFile : Option ByteString) : Startup :=
  let interfaces := getAvailableInterfaces ifaddr
  if interfaces = [] then .exited 1 (literal "No network interfaces found!\n")
  else
    let handles := openInterfaces opens (selectInterfaces interfaces line)
    if handles = [] then .exited 1 (literal "No valid interfaces to listen on!\n")
    else match TtlConfig.loadConfig configFile with
      | .uncaught what => .uncaught what
      | .exited code message => .exited code message
      | .loaded cfg => .running handles cfg

/-- The interface that an entry is reported for. -/
def Ifaddr.packetName (ifa : Ifaddr) : Option ByteString :=
  if ifa.family = some afPacket then some ifa.name else none

theorem addInterface_eq_offer (interfaces : List ByteString) (ifa : Ifaddr) :
    addInterface interfaces ifa = ifa.packetName.elim interfaces (offer id interfaces) := by
  rw [addInterface, Ifaddr.packetName]
  by_cases packet : ifa.family = some afPacket
  · rw [if_pos packet, if_pos packet, Option.elim_some, offer, List.map_id]
    simp
  · rw [if_neg packet, if_neg packet, Option.elim_none]

/-- Every interface with a packet address is available, once, in the order of the list. -/
theorem getAvailableInterfaces_records (ifaddr : List Ifaddr) :
    Records (ifaddr.filterMap Ifaddr.packetName) (getAvailableInterfaces (some ifaddr)) := by
  have offers : ∀ known : List ByteString, ifaddr.foldl addInterface known =
      (ifaddr.filterMap Ifaddr.packetName).foldl (offer id) known := by
    induction ifaddr with
    | nil => exact fun known => rfl
    | cons ifa rest ih =>
      intro known
      rw [List.foldl_cons, addInterface_eq_offer]
      cases name : ifa.packetName with
      | none => rw [List.filterMap_cons_none name, Option.elim_none, ih]
      | some n => rw [List.filterMap_cons_some name, Option.elim_some, ih, List.foldl_cons]
  have recorded := records_foldl_offer id (ifaddr.filterMap Ifaddr.packetName)
  rwa [List.map_id, List.map_id, ← offers] at recorded

/-- Of two words that select the same interface at most one is opened. -/
def OpenedOnce (opens : Nat → Bool) (selected : List ByteString) : Prop :=
  ∀ i j name, i < j → selected[i]? = some name → selected[j]? = some name →
    ¬ (opens i = true ∧ opens j = true)

theorem mem_openInterfaces {opens : Nat → Bool} {selected : List ByteString} {h : PcapHandle} :
    h ∈ openInterfaces opens selected ↔
      selected[h.call]? = some h.interface ∧ opens h.call = true := by
  obtain ⟨interface, call⟩ := h
  rw [openInterfaces, List.mem_filterMap]
  constructor
  · rintro ⟨⟨name, i⟩, listed, opened⟩
    rw [Option.ite_none_right_eq_some, Option.some.injEq, PcapHandle.mk.injEq] at opened
    obtain ⟨success, rfl, rfl⟩ := opened
    exact ⟨List.mk_mem_zipIdx_iff_getElem?.mp listed, success⟩
  · rintro ⟨listed, success⟩
    exact ⟨(interface, call), List.mk_mem_zipIdx_iff_getElem?.mpr listed, if_pos success⟩

theorem nodup_interfaces_iff (opens : Nat → Bool) (selected : List ByteString) :
    ((openInterfaces opens selected).map PcapHandle.interface).Nodup ↔
      OpenedOnce opens selected := by
  rw [List.Nodup, List.pairwise_map, openInterfaces, List.pairwise_filterMap,
    List.pairwise_iff_getElem]
  simp only [List.getElem_zipIdx, Nat.zero_add, List.length_zipIdx, Option.ite_none_right_eq_some,
    Option.some.injEq]
  constructor
  · intro apart i j name before first second opened
    obtain ⟨hi, rfl⟩ := List.getElem?_eq_some_iff.mp first
    obtain ⟨hj, same⟩ := List.getElem?_eq_some_iff.mp second
    exact apart i j hi hj before _ ⟨opened.1, rfl⟩ _ ⟨opened.2, rfl⟩ same.symm
  · rintro once i j hi hj before _ ⟨first, rfl⟩ _ ⟨second, rfl⟩ same
    have again : selected[j]? = some selected[i] := by
      rw [List.getElem?_eq_getElem hj]
      exact congrArg some same.symm
    exact once i j _ before (List.getElem?_eq_getElem hi) again ⟨first, second⟩

/-- The ports of the switch are distinct available interfaces, one for each that is opened. -/
structure DistinctPorts (ifaddr : Option (List Ifaddr)) (line : ByteString) (opens : Nat → Bool)
    (handles : List PcapHandle) : Prop where
  distinct : (handles.map PcapHandle.interface).Nodup
  available : ∀ h ∈ handles, h.interface ∈ getAvailableInterfaces ifaddr
  one_handle : ∀ name ∈ words line, name ∈ getAvailableInterfaces ifaddr →
    (∃ call, (selectInterfaces (getAvailableInterfaces ifaddr) line)[call]? = some name ∧
      opens call = true) →
    (handles.map PcapHandle.interface).count name = 1

theorem openInterfaces_available {opens : Nat → Bool} {interfaces : List ByteString}
    {line : ByteString} {h : PcapHandle}
    (mem : h ∈ openInterfaces opens (selectInterfaces interfaces line)) :
    h.interface ∈ interfaces := by
  have selected := List.mem_of_getElem? (mem_openInterfaces.mp mem).1
  simpa using (List.mem_filter.mp selected).2

theorem main_running_iff {ifaddr : Option (List Ifaddr)} {line : ByteString} {opens : Nat → Bool}
    {configFile : Option ByteString} {handles : List PcapHandle} {cfg : TtlSubstitutionCfg} :
    main ifaddr line opens configFile = .running handles cfg ↔
      openInterfaces opens (selectInterfaces (getAvailableInterfaces ifaddr) line) = handles ∧
        handles ≠ [] ∧ TtlConfig.loadConfig configFile = .loaded cfg := by
  constructor
  · intro running
    rw [main] at running
    split at running
    · cases running
    · dsimp only at running
      split at running
      · cases running
      case isFalse opened =>
        split at running
        · cases running
        · cases running
        case h_3 loaded =>
          cases running
          exact ⟨rfl, opened, loaded⟩
  · rintro ⟨rfl, opened, loaded⟩
    have found : getAvailableInterfaces ifaddr ≠ [] := by
      intro empty
      obtain ⟨h, mem⟩ := List.exists_mem_of_ne_nil _ opened
      have listed := openInterfaces_available mem
      rw [empty] at listed
      cases listed
    simp only [main, if_neg found, if_neg opened, loaded]

theorem distinctPorts_iff (ifaddr : Option (List Ifaddr)) (line : ByteString)
    (opens : Nat → Bool) :
    DistinctPorts ifaddr line opens
        (openInterfaces opens (selectInterfaces (getAvailableInterfaces ifaddr) line)) ↔
      OpenedOnce opens (selectInterfaces (getAvailableInterfaces ifaddr) line) := by
  rw [← nodup_interfaces_iff]
  constructor
  · exact DistinctPorts.distinct
  · intro distinct
    refine ⟨distinct, fun h => openInterfaces_available, ?_⟩
    rintro name - - ⟨call, selected, opened⟩
    have opens_it : (⟨name, call⟩ : PcapHandle) ∈
        openInterfaces opens (selectInterfaces (getAvailableInterfaces ifaddr) line) :=
      mem_openInterfaces.mpr ⟨selected, opened⟩
    exact List.count_eq_one_of_mem distinct (List.mem_map_of_mem opens_it)

/-- The names that the system reports with a packet address. -/
def reported (ifaddr : Option (List Ifaddr)) : List ByteString :=
  (ifaddr.getD []).filterMap Ifaddr.packetName

/-- The typed words that name an interface: the n-th of them is opened by the n-th call. -/
def typed (ifaddr : Option (List Ifaddr)) (line : ByteString) : List ByteString :=
  (words line).filter fun word => (reported ifaddr).any (· == word)

theorem mem_getAvailableInterfaces (ifaddr : Option (List Ifaddr)) (name : ByteString) :
    name ∈ getAvailableInterfaces ifaddr ↔ name ∈ reported ifaddr := by
  cases ifaddr with
  | none => exact Iff.rfl
  | some list => exact (getAvailableInterfaces_records list).mem_iff name

theorem selectInterfaces_available (ifaddr : Option (List Ifaddr)) (line : ByteString) :
    selectInterfaces (getAvailableInterfaces ifaddr) line = typed ifaddr line := by
  refine List.filter_congr fun word _ => ?_
  rw [Bool.eq_iff_iff, List.any_beq', List.any_beq', List.contains_iff_mem, List.contains_iff_mem,
    mem_getAvailableInterfaces]

/-- The config of the repository. -/
def configEntries : List TtlConfig.Entry :=
  [.enabled true, .clientIp TtlConfig.clientQuad, .serverIp TtlConfig.serverQuad]

theorem loadConfig_entries : TtlConfig.loadConfig (some (TtlConfig.file configEntries)) =
    .loaded ⟨true, ![192, 168, 3, 9], ![192, 168, 3, 27]⟩ :=
  @TtlConfig.loadConfig_file configEntries true TtlConfig.clientQuad TtlConfig.serverQuad
    rfl rfl rfl

/-- The switch runs on distinct interfaces only, whatever its config, exactly when no two
words that name the same interface are both opened. -/
theorem ports_distinct_iff (ifaddr : Option (List Ifaddr)) (line : ByteString)
    (opens : Nat → Bool) :
    (∀ configFile handles cfg, main ifaddr line opens configFile = .running handles cfg →
        DistinctPorts ifaddr line opens handles) ↔
      OpenedOnce opens (typed ifaddr line) := by
  rw [← selectInterfaces_available, ← distinctPorts_iff]
  constructor
  · intro runs
    by_cases opened :
        openInterfaces opens (selectInterfaces (getAvailableInterfaces ifaddr) line) = []
    · rw [distinctPorts_iff, ← nodup_interfaces_iff, opened]
      exact List.nodup_nil
    · exact runs _ _ _ (main_running_iff.mpr ⟨rfl, opened, loadConfig_entries⟩)
  · intro distinct configFile handles cfg running
    obtain ⟨rfl, -, -⟩ := main_running_iff.mp running
    exact distinct

/-- One interface that is typed twice becomes two ports. -/
theorem eth0_typed_twice :
    main (some [⟨literal "eth0", some afPacket⟩]) (literal "eth0 eth0") (fun _ => true)
        (some (TtlConfig.file configEntries)) =
      .running [⟨literal "eth0", 0⟩, ⟨literal "eth0", 1⟩]
        ⟨true, ![192, 168, 3, 9], ![192, 168, 3, 27]⟩ ∧
    ¬ DistinctPorts (some [⟨literal "eth0", some afPacket⟩]) (literal "eth0 eth0") (fun _ => true)
        [⟨literal "eth0", 0⟩, ⟨literal "eth0", 1⟩] := by
  constructor
  · exact main_running_iff.mpr ⟨by decide, List.cons_ne_nil _ _, loadConfig_entries⟩
  · intro ports
    exact absurd ports.distinct (by decide)

end SwitchStartup
