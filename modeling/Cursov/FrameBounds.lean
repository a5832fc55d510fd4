import Cursov.Library.BoundedMemory
import Cursov.Substitution

/-!
# Where `processPacket` reads and writes

The accesses of `processPacket` to the frame and to its copy, each checked against
the size of the buffer. The checks fail exactly for the frames that are too short
for what their headers say.
-/

namespace FrameBounds

open Bytes CommutationTable Frame Substitution BoundedMemory

abbrev ByteBuffer := Buffer UInt8

def load16 (b : ByteBuffer) (addr : Nat) : Option Nat := do
  let low ← b.load addr
  let high ← b.load (addr + 1)
  some (low.toNat + 256 * high.toNat)

def store16 (b : ByteBuffer) (addr value : Nat) : Option ByteBuffer := do
  let stored ← b.store addr (UInt8.ofNat (value % 256))
  stored.store (addr + 1) (UInt8.ofNat (value / 256 % 256))

def checksumLoop (b : ByteBuffer) : (len addr sum : Nat) → Option Nat
  | 0, _, sum => some sum
  | 1, addr, sum => do
    let byte ← b.load addr
    some ((sum + byte.toNat) % 2 ^ 32)
  | len + 2, addr, sum => do
    let word ← load16 b addr
    checksumLoop b len (addr + 2) ((sum + word) % 2 ^ 32)

def checksum (b : ByteBuffer) (addr : Nat) (len : Int) : Option Nat := do
  let sum ← checksumLoop b len.toNat addr 0
  let folded := (sum / 2 ^ 16 + sum % 2 ^ 16) % 2 ^ 32
  some (2 ^ 16 - 1 - folded % 2 ^ 16)

/-- Both `memcmp` run, whatever the first one finds. -/
def isTargetIcmpPacket (b : ByteBuffer) (ip : Nat) (cfg : TtlSubstitutionCfg) : Option Bool := do
  let source ← b.loads 4 (ip + 12)
  let destination ← b.loads 4 (ip + 16)
  some (source = List.ofFn cfg.clientIp ∧ destination = List.ofFn cfg.serverIp)

def isIp (b : ByteBuffer) : Option Bool := do
  let etherType ← load16 b 12
  some (ntohs etherType = ethertypeIp)

def isIcmp (b : ByteBuffer) : Option Bool := do
  let protocol ← b.load (ipHeader + 9)
  some (protocol = ipprotoIcmp)

def isEchoReply (b : ByteBuffer) : Option Bool := do
  let first ← b.load ipHeader
  let type ← b.load (ipHeader + 4 * (first.toNat % 16))
  some (type = icmpEchoReply)

/-- The nested tests of the substitution. -/
def substitutes (cfg : TtlSubstitutionCfg) (b : ByteBuffer) : Option Bool :=
  both (some cfg.isActive) (both (isIp b) (both (isIcmp b)
    (both (isTargetIcmpPacket b ipHeader cfg) (isEchoReply b))))

/-- Type and code set, the ICMP checksum cleared. -/
def icmpCleared (copy : ByteBuffer) : Option ByteBuffer := do
  let first ← copy.load ipHeader
  let icmp := ipHeader + 4 * (first.toNat % 16)
  let typed ← copy.store icmp icmpEcho
  let coded ← typed.store (icmp + 1) 0
  store16 coded (icmp + 2) 0

def icmpWritten (copy : ByteBuffer) : Option ByteBuffer := do
  let first ← copy.load ipHeader
  let icmp := ipHeader + 4 * (first.toNat % 16)
  let cleared ← icmpCleared copy
  let total ← load16 cleared (ipHeader + 2)
  let header ← cleared.load ipHeader
  let sum ← checksum cleared icmp ((ntohs total : Int) - 4 * ((header.toNat % 16 : Nat) : Int))
  store16 cleared (icmp + 2) sum

def resealed (m : ByteBuffer) : Option ByteBuffer := do
  let unsealed ← store16 m ipSum 0
  let header ← unsealed.load ipHeader
  let sum ← checksum unsealed ipHeader (4 * ((header.toNat % 16 : Nat) : Int))
  store16 unsealed ipSum sum

/-- The copy of the frame and what is written into it. -/
def modifiedPacket (b : ByteBuffer) (packetLength : Nat) (scratch : Memory) :
    Option ByteBuffer := do
  let contents ← b.loads packetLength 0
  let written ← icmpWritten ⟨fun i => contents.getD i (scratch i), packetLength⟩
  resealed written

/-- `processPacket` up to the bytes it hands to `pcap_sendpacket`; no bytes for a frame
with two equal addresses. The addresses are read again for the table. -/
def processPacket (cfg : TtlSubstitutionCfg) (frame : ByteBuffer) (packetLength : Nat)
    (scratch : Memory) : Option (Option ByteString) := do
  let shost ← frame.loads 6 6
  let dhost ← frame.loads 6 0
  if shost = dhost then some none
  else do
    let _ ← frame.loads 6 6
    let rewrites ← substitutes cfg frame
    let toSend ← if rewrites = true then modifiedPacket frame packetLength scratch else some frame
    let _ ← frame.loads 6 0
    let bytes ← toSend.loads packetLength 0
    some (some bytes)

variable {b : ByteBuffer}

theorem holds_load16 {addr : Nat} {P : Nat → Prop} :
    Holds (load16 b addr) P ↔ addr + 1 < b.size ∧ P (read16 b.bytes addr) := by
  simp only [load16, holds_bind, holds_load, holds_some]
  constructor
  · rintro ⟨_, high, result⟩
    exact ⟨high, result⟩
  · rintro ⟨high, result⟩
    exact ⟨by omega, high, result⟩

theorem holds_store16 {addr value : Nat} {P : ByteBuffer → Prop} :
    Holds (store16 b addr value) P ↔
      addr + 1 < b.size ∧ P { b with bytes := write16 b.bytes addr value } := by
  simp only [store16, holds_bind, holds_store]
  constructor
  · rintro ⟨_, high, result⟩
    exact ⟨high, result⟩
  · rintro ⟨high, result⟩
    exact ⟨by omega, high, result⟩

theorem holds_checksumLoop {len addr sum : Nat} {P : Nat → Prop} :
    Holds (checksumLoop b len addr sum) P ↔
      (len = 0 ∨ addr + len ≤ b.size) ∧ P (Frame.checksumLoop b.bytes len addr sum) := by
  induction len, addr using InternetChecksum.words.induct generalizing sum with
  | case1 addr => simp [checksumLoop, Frame.checksumLoop, holds_some]
  | case2 addr =>
    simp only [checksumLoop, Frame.checksumLoop, holds_bind, holds_load, holds_some]
    exact and_congr_left fun _ => by omega
  | case3 len addr ih =>
    simp only [checksumLoop, Frame.checksumLoop, holds_bind, holds_load16, ih]
    constructor
    · rintro ⟨word, rest, result⟩
      exact ⟨by omega, result⟩
    · rintro ⟨inside, result⟩
      exact ⟨by omega, by omega, result⟩

theorem holds_checksum {addr : Nat} {len : Int} {P : Nat → Prop} :
    Holds (checksum b addr len) P ↔
      (len.toNat = 0 ∨ addr + len.toNat ≤ b.size) ∧ P (Frame.checksum b.bytes addr len) := by
  simp only [checksum, holds_bind, holds_checksumLoop, holds_some, Frame.checksum]

theorem map_range'_eq_ofFn_iff {m : Memory} {addr : Nat} {address : Fin 4 → UInt8} :
    (List.range' addr 4).map m = List.ofFn address ↔
      (fun i : Fin 4 => m (addr + i.val)) = address := by
  have loaded : (List.range' addr 4).map m = List.ofFn fun i : Fin 4 => m (addr + i.val) := by
    apply List.ext_getElem
    · rw [List.length_map, List.length_range', List.length_ofFn]
    · intro i _ _
      rw [List.getElem_map, List.getElem_range', List.getElem_ofFn, Nat.one_mul]
  rw [loaded, List.ofFn_inj]

theorem holds_isIp (P : Bool → Prop) :
    Holds (isIp b) P ↔ 14 ≤ b.size ∧ P (ntohs (etherType b.bytes) = ethertypeIp) := by
  simp only [isIp, holds_bind, holds_load16, holds_some]
  exact and_congr_left fun _ => by omega

theorem holds_isIcmp (P : Bool → Prop) :
    Holds (isIcmp b) P ↔ 24 ≤ b.size ∧ P (ipP b.bytes ipHeader = ipprotoIcmp) := by
  simp only [isIcmp, holds_bind, holds_load, holds_some, ipHeader, sizeofEtherHeader]
  exact and_congr_left fun _ => by omega

theorem holds_isTargetIcmpPacket {cfg : TtlSubstitutionCfg} (P : Bool → Prop) :
    Holds (isTargetIcmpPacket b ipHeader cfg) P ↔
      34 ≤ b.size ∧ P (Frame.isTargetIcmpPacket b.bytes ipHeader cfg) := by
  simp only [isTargetIcmpPacket, holds_bind, holds_loads, holds_some, map_range'_eq_ofFn_iff,
    Frame.isTargetIcmpPacket]
  constructor
  · rintro ⟨_, inside, result⟩
    refine ⟨?_, result⟩
    simp only [ipHeader, sizeofEtherHeader] at inside
    omega
  · rintro ⟨inside, result⟩
    refine ⟨?_, ?_, result⟩
    · simp only [ipHeader, sizeofEtherHeader]
      omega
    · simp only [ipHeader, sizeofEtherHeader]
      omega

theorem holds_isEchoReply (P : Bool → Prop) :
    Holds (isEchoReply b) P ↔
      icmpHeader b.bytes < b.size ∧ P (b.bytes (icmpHeader b.bytes) = icmpEchoReply) := by
  simp only [isEchoReply, holds_bind, holds_load, holds_some]
  constructor
  · rintro ⟨_, inside, result⟩
    exact ⟨inside, result⟩
  · rintro ⟨inside, result⟩
    refine ⟨?_, inside, result⟩
    rw [icmpHeader] at inside
    omega

/-- What the tests read of a frame of `size` bytes lies inside it. -/
def TestsFit (cfg : TtlSubstitutionCfg) (m : Memory) (size : Nat) : Prop :=
  cfg.isActive = true → 14 ≤ size ∧ (ntohs (etherType m) = ethertypeIp → 24 ≤ size ∧
    (ipP m ipHeader = ipprotoIcmp → 34 ≤ size ∧
      (Frame.isTargetIcmpPacket m ipHeader cfg = true → icmpHeader m < size)))

theorem holds_substitutes {cfg : TtlSubstitutionCfg} (P : Bool → Prop) :
    Holds (substitutes cfg b) P ↔
      TestsFit cfg b.bytes b.size ∧ P (Frame.substitutes cfg b.bytes) := by
  have active : ∀ P, Holds (some cfg.isActive) P ↔ True ∧ P cfg.isActive := by
    intro P
    rw [holds_some, true_and]
  rw [substitutes, holds_both active (holds_both holds_isIp (holds_both holds_isIcmp
    (holds_both holds_isTargetIcmpPacket holds_isEchoReply)))]
  simp only [TestsFit, decide_eq_true_eq, true_and, Frame.substitutes, Bool.and_assoc]
  rfl

theorem copy_eq (packetLength : Nat) (scratch : Memory) :
    (fun i => ((List.range' 0 packetLength).map b.bytes).getD i (scratch i)) =
      copied b.bytes packetLength scratch := by
  funext i
  by_cases inside : i < packetLength
  · simp [copied, inside]
  · simp [copied, inside]

/-- What the rewrite reads and writes of the copy lies inside it. With `ip_hl` zero the new
type and code land on the first two bytes of the IP header. -/
def RewriteFits (m : Memory) (size : Nat) : Prop :=
  icmpHeader m + 4 ≤ size ∧
    if ipHl m ipHeader = 0 then 46 ≤ size
    else ipHeader + ntohs (ipLen m ipHeader) ≤ size

/-- The copy between its first three writes and the first checksum. -/
def cleared (copy : Memory) : Memory :=
  write16 (Function.update (Function.update copy (icmpHeader copy) icmpEcho)
    (icmpHeader copy + 1) 0) (icmpHeader copy + 2) 0

/-- The length of the first checksum loop. -/
def icmpLength (copy : Memory) : Int :=
  (ntohs (ipLen (cleared copy) ipHeader) : Int) - 4 * (ipHl (cleared copy) ipHeader : Int)

theorem holds_icmpCleared {P : ByteBuffer → Prop} :
    Holds (icmpCleared b) P ↔
      icmpHeader b.bytes + 3 < b.size ∧ P ⟨cleared b.bytes, b.size⟩ := by
  simp only [icmpCleared, holds_bind, holds_load, holds_store, holds_store16]
  constructor
  · rintro ⟨_, _, _, inside, result⟩
    exact ⟨inside, result⟩
  · rintro ⟨inside, result⟩
    rw [icmpHeader, ipHl] at inside
    exact ⟨by omega, by omega, by omega, inside, result⟩

theorem holds_icmpWritten {P : ByteBuffer → Prop} :
    Holds (icmpWritten b) P ↔
      (icmpHeader b.bytes + 3 < b.size ∧ ((icmpLength b.bytes).toNat = 0 ∨
        icmpHeader b.bytes + (icmpLength b.bytes).toNat ≤ b.size)) ∧
        P ⟨Substitution.icmpWritten b.bytes, b.size⟩ := by
  simp only [icmpWritten, holds_bind, holds_load, holds_icmpCleared, holds_load16, holds_checksum,
    holds_store16]
  constructor
  · rintro ⟨_, inside, _, _, loop, _, result⟩
    exact ⟨⟨inside, loop⟩, result⟩
  · rintro ⟨⟨inside, loop⟩, result⟩
    have place : ipHeader ≤ icmpHeader b.bytes := by
      rw [icmpHeader]
      omega
    exact ⟨by omega, inside, by omega, by omega, loop, inside, result⟩

theorem holds_resealed {P : ByteBuffer → Prop} :
    Holds (resealed b) P ↔
      (ipSum + 1 < b.size ∧ icmpHeader b.bytes ≤ b.size) ∧
        P ⟨Substitution.resealed b.bytes, b.size⟩ := by
  have header : write16 b.bytes ipSum 0 ipHeader = b.bytes ipHeader :=
    InternetChecksum.write16_of_ne _ _ (by decide) (by decide)
  have length : (4 * (((write16 b.bytes ipSum 0 ipHeader).toNat % 16 : Nat) : Int)).toNat =
      4 * ipHl b.bytes ipHeader := by
    rw [header, ipHl]
    omega
  simp only [resealed, holds_bind, holds_store16, holds_load, holds_checksum, length]
  rw [icmpHeader]
  constructor
  · rintro ⟨field, _, loop, _, result⟩
    refine ⟨⟨field, ?_⟩, result⟩
    simp only [ipSum] at field
    omega
  · rintro ⟨⟨field, loop⟩, result⟩
    refine ⟨field, ?_, Or.inr loop, field, result⟩
    simp only [ipSum] at field
    omega

theorem cleared_of_ne (copy : Memory) {i : Nat} (type : i ≠ icmpHeader copy)
    (code : i ≠ icmpHeader copy + 1) (low : i ≠ icmpHeader copy + 2)
    (high : i ≠ icmpHeader copy + 3) : cleared copy i = copy i := by
  rw [cleared, InternetChecksum.write16_of_ne _ _ low high, Function.update_of_ne code,
    Function.update_of_ne type]

/-- With `ip_hl` at least one the length fields are not overwritten. -/
theorem icmpLength_of_headed {copy : Memory} (headed : ipHl copy ipHeader ≠ 0) :
    icmpLength copy = (ntohs (ipLen copy ipHeader) : Int) - 4 * (ipHl copy ipHeader : Int) := by
  have kept : ∀ i < ipHeader + 4, cleared copy i = copy i := by
    intro i early
    have place : ipHeader + 4 ≤ icmpHeader copy := by
      rw [icmpHeader]
      omega
    exact cleared_of_ne copy (by omega) (by omega) (by omega) (by omega)
  rw [icmpLength, ipLen, ipLen, read16, read16, ipHl, ipHl, kept _ (by omega), kept _ (by omega),
    kept _ (by omega)]

/-- With `ip_hl` zero the type lands on the first byte of the IP header and reads as a
length of 32 bytes, and the cleared checksum on the total length. -/
theorem lengths_of_unheaded {copy : Memory} (unheaded : ipHl copy ipHeader = 0) :
    icmpLength copy = -32 ∧ icmpHeader (Substitution.icmpWritten copy) = ipHeader + 32 := by
  have place : icmpHeader copy = ipHeader := by
    rw [icmpHeader, unheaded, Nat.mul_zero, Nat.add_zero]
  have type : cleared copy ipHeader = icmpEcho := by
    rw [cleared, InternetChecksum.write16_of_ne _ _ (by omega) (by omega),
      Function.update_of_ne (by omega), place, Function.update_self]
  have total : read16 (cleared copy) (ipHeader + 2) = 0 := by
    rw [cleared, place, InternetChecksum.read16_write16 _ _ (by decide)]
  have written : Substitution.icmpWritten copy ipHeader = icmpEcho := by
    have final := icmpWritten_type copy
    rwa [place] at final
  constructor
  · rw [icmpLength, ipLen, total, ipHl, type]
    decide
  · rw [icmpHeader, ipHl, written]
    rfl

theorem holds_modifiedPacket {scratch : Memory} {P : ByteBuffer → Prop}
    (addresses : 34 ≤ b.size) (icmp : icmpHeader b.bytes < b.size) :
    Holds (modifiedPacket b b.size scratch) P ↔
      RewriteFits b.bytes b.size ∧ P ⟨Frame.modifiedPacket b.bytes b.size scratch, b.size⟩ := by
  have inside : ∀ i < 34, copied b.bytes b.size scratch i = b.bytes i :=
    fun i early => copied_of_lt (by omega) scratch
  have place : icmpHeader (copied b.bytes b.size scratch) = icmpHeader b.bytes :=
    icmpHeader_copied b.bytes (by rw [ipHeader, sizeofEtherHeader]; omega) scratch
  have header : ipHl (copied b.bytes b.size scratch) ipHeader = ipHl b.bytes ipHeader := by
    rw [ipHl, ipHl, inside ipHeader (by decide)]
  have total : ipLen (copied b.bytes b.size scratch) ipHeader = ipLen b.bytes ipHeader := by
    rw [ipLen, ipLen, read16, read16, inside _ (by decide), inside _ (by decide)]
  simp only [modifiedPacket, holds_bind, holds_loads, holds_icmpWritten, holds_resealed, copy_eq,
    place, RewriteFits, modifiedPacket_eq]
  have fields : ipSum + 1 < b.size := by
    rw [ipSum, ipHeader, sizeofEtherHeader]
    omega
  by_cases unheaded : ipHl b.bytes ipHeader = 0
  · obtain ⟨length, sealed⟩ := lengths_of_unheaded (header.trans unheaded)
    rw [length, sealed, if_pos unheaded]
    simp only [ipHeader, sizeofEtherHeader]
    constructor
    · rintro ⟨_, ⟨written, _⟩, ⟨_, sum⟩, result⟩
      exact ⟨⟨by omega, sum⟩, result⟩
    · rintro ⟨⟨written, sum⟩, result⟩
      exact ⟨by omega, ⟨by omega, Or.inl (by decide)⟩, ⟨fields, sum⟩, result⟩
  · have length := icmpLength_of_headed (header ▸ unheaded)
    rw [header, total] at length
    have split : icmpHeader b.bytes = ipHeader + 4 * ipHl b.bytes ipHeader := rfl
    have sealed : icmpHeader (Substitution.icmpWritten (copied b.bytes b.size scratch)) =
        icmpHeader b.bytes := by
      have kept : Substitution.icmpWritten (copied b.bytes b.size scratch) ipHeader =
          b.bytes ipHeader := by
        rw [icmpWritten_of_ne, inside ipHeader (by decide)]
        all_goals omega
      rw [icmpHeader, ipHl, kept, split, ipHl]
    rw [length, sealed, if_neg unheaded]
    constructor
    · rintro ⟨_, ⟨written, loop⟩, _, result⟩
      exact ⟨⟨by omega, by omega⟩, result⟩
    · rintro ⟨⟨written, loop⟩, result⟩
      exact ⟨by omega, ⟨by omega, by omega⟩, ⟨fields, by omega⟩, result⟩

/-- The frame is long enough for what its headers say. -/
def Fits (cfg : TtlSubstitutionCfg) (m : Memory) (size : Nat) : Prop :=
  12 ≤ size ∧ (etherShost m ≠ etherDhost m →
    TestsFit cfg m size ∧ (Frame.substitutes cfg m = true → RewriteFits m size))

theorem addresses_eq_iff (m : Memory) :
    (List.range' 6 6).map m = bytesAt m 0 6 ↔ etherShost m = etherDhost m := by
  rw [List.range'_eq_map_range, List.map_map, bytesAt, List.map_inj_left]
  constructor
  · intro same
    funext i
    simpa [etherShost, etherDhost] using same i.val (List.mem_range.mpr i.isLt)
  · intro same i mem
    simpa [etherShost, etherDhost] using congrFun same ⟨i, List.mem_range.mp mem⟩

theorem map_range'_eq_bytesAt (m : Memory) (count : Nat) :
    (List.range' 0 count).map m = bytesAt m 0 count := by
  simp [bytesAt, List.range_eq_range']

theorem TestsFit.of_substitutes {cfg : TtlSubstitutionCfg} {m : Memory} {size : Nat}
    (fit : TestsFit cfg m size) (applies : Frame.substitutes cfg m = true) :
    34 ≤ size ∧ icmpHeader m < size := by
  simp only [Frame.substitutes, Bool.and_eq_true, decide_eq_true_eq] at applies
  obtain ⟨⟨active, ether⟩, ⟨protocol, target⟩, _⟩ := applies
  obtain ⟨addresses, icmp⟩ := ((fit active).2 ether).2 protocol
  exact ⟨addresses, icmp target⟩

/-- No access fails exactly when the frame fits, and then the bytes sent are those of the
unchecked model. -/
theorem holds_processPacket {cfg : TtlSubstitutionCfg} {scratch : Memory}
    {P : Option ByteString → Prop} :
    Holds (processPacket cfg b b.size scratch) P ↔ Fits cfg b.bytes b.size ∧
      P (if etherShost b.bytes = etherDhost b.bytes then none
        else some (bytesAt (packetToSend cfg b.bytes b.size scratch) 0 b.size)) := by
  simp only [processPacket, holds_bind, holds_loads, holds_ite, holds_some, addresses_eq_iff,
    holds_substitutes, map_range'_eq_bytesAt]
  by_cases same : etherShost b.bytes = etherDhost b.bytes
  · simp only [Fits, same, if_true]
    constructor
    · rintro ⟨addresses, _, result, _⟩
      exact ⟨⟨by omega, fun different => absurd rfl different⟩, result trivial⟩
    · rintro ⟨⟨addresses, _⟩, result⟩
      exact ⟨by omega, by omega, fun _ => result, fun different => absurd trivial different⟩
  · simp only [Fits, same, if_false]
    by_cases applies : Frame.substitutes cfg b.bytes = true
    · rw [packetToSend_of _ _ applies]
      constructor
      · rintro ⟨addresses, _, _, rest⟩
        obtain ⟨_, tests, rewritten, _⟩ := rest not_false
        obtain ⟨headers, icmp⟩ := tests.of_substitutes applies
        obtain ⟨fits, _, _, result⟩ := (holds_modifiedPacket headers icmp).mp (rewritten applies)
        exact ⟨⟨by omega, fun _ => ⟨tests, fun _ => fits⟩⟩, result⟩
      · rintro ⟨⟨addresses, fit⟩, result⟩
        obtain ⟨tests, rewritten⟩ := fit same
        obtain ⟨headers, icmp⟩ := tests.of_substitutes applies
        refine ⟨by omega, by omega, fun h => h.elim, fun _ => ⟨by omega, tests, fun _ => ?_,
          fun spared => absurd applies spared⟩⟩
        exact (holds_modifiedPacket headers icmp).mpr
          ⟨rewritten applies, by omega, Or.inr (Nat.zero_add _).le, result⟩
    · rw [packetToSend_of_not _ _ (Bool.not_eq_true _ ▸ applies)]
      constructor
      · rintro ⟨addresses, _, _, rest⟩
        obtain ⟨_, tests, _, spared⟩ := rest not_false
        exact ⟨⟨by omega, fun _ => ⟨tests, fun h => absurd h applies⟩⟩, (spared applies).2.2⟩
      · rintro ⟨⟨addresses, fit⟩, result⟩
        obtain ⟨tests, _⟩ := fit same
        exact ⟨by omega, by omega, fun h => h.elim, fun _ => ⟨by omega, tests,
          fun h => absurd h applies, fun _ => ⟨by omega, by omega, result⟩⟩⟩

/-- A call none of whose accesses fails hands out the bytes of the unchecked model. -/
theorem processPacket_eq_sentBytes {cfg : TtlSubstitutionCfg} {f : Capture} {scratch : Memory}
    (fits : Fits cfg f.packet f.len) :
    processPacket cfg ⟨f.packet, f.len⟩ f.len scratch =
      some (if f.shost = f.dhost then none else some (f.sentBytes cfg scratch)) := by
  have ran : Holds (processPacket cfg ⟨f.packet, f.len⟩ f.len scratch) fun bytes =>
      bytes = if f.shost = f.dhost then none else some (f.sentBytes cfg scratch) :=
    holds_processPacket.mpr ⟨fits, rfl⟩
  obtain ⟨_, result, rfl⟩ := ran
  exact result

/-- Every access to a completely captured frame of `L` bytes is inside it exactly when the
frame is long enough for what its headers say. -/
theorem accesses_inside_iff_fits (cfg : TtlSubstitutionCfg) (m : Memory) (L : Nat)
    (scratch : Memory) :
    (processPacket cfg ⟨m, L⟩ L scratch).isSome = true ↔ Fits cfg m L := by
  rw [isSome_iff_holds, holds_processPacket, and_true]

/-- A reply of 42 bytes whose IP header declares 1500. -/
def overlongFrame : Memory := fun i =>
  if i = 16 then 5 else if i = 17 then 220 else (replyFrame 0 0).packet i

theorem overlong_frame_overread :
    (processPacket replyCfg ⟨overlongFrame, 42⟩ 42 (fun _ => 0)).isSome = false := by
  decide

end FrameBounds
