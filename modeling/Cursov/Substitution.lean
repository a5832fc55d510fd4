import Cursov.InternetChecksum
import Cursov.Switch

/-!
# What the ICMP substitution does to a frame

`processPacket` rewrites a copy of the frame at six bytes: type, code and checksum
of the ICMP header and the checksum of the IP header. Where the first four lie
depends on `ip_hl`.
-/

namespace Substitution

open Bytes CommutationTable Frame Switch InternetChecksum OnesComplement

def ipHeader : Nat := sizeofEtherHeader
def ipSum : Nat := ipHeader + 10

/-- Where the code takes the ICMP header to start. -/
def icmpHeader (m : Memory) : Nat := ipHeader + 4 * ipHl m ipHeader

/-- The `memcpy` of the frame into fresh memory. -/
def copied (m : Memory) (packetLength : Nat) (scratch : Memory) : Memory :=
  fun i => if i < packetLength then m i else scratch i

/-- The offsets that the rewrite writes. -/
def writes (m : Memory) : List Nat :=
  [icmpHeader m, icmpHeader m + 1, icmpHeader m + 2, icmpHeader m + 3, ipSum, ipSum + 1]

/-- After the ICMP part of the rewrite. -/
def icmpWritten (copy : Memory) : Memory :=
  let cleared := write16 (Function.update (Function.update copy (icmpHeader copy) icmpEcho)
    (icmpHeader copy + 1) 0) (icmpHeader copy + 2) 0
  write16 cleared (icmpHeader copy + 2) (checksum cleared (icmpHeader copy)
    ((ntohs (ipLen cleared ipHeader) : Int) - 4 * (ipHl cleared ipHeader : Int)))

/-- The header checksum cleared and computed again. -/
def resealed (m : Memory) : Memory :=
  write16 (write16 m ipSum 0) ipSum
    (checksum (write16 m ipSum 0) ipHeader (4 * ipHl (write16 m ipSum 0) ipHeader))

theorem modifiedPacket_eq (m : Memory) (packetLength : Nat) (scratch : Memory) :
    modifiedPacket m packetLength scratch =
      resealed (icmpWritten (copied m packetLength scratch)) :=
  rfl

theorem resealed_of_ne (m : Memory) {i : Nat} (low : i ≠ ipSum) (high : i ≠ ipSum + 1) :
    resealed m i = m i := by
  rw [resealed, write16_of_ne _ _ low high, write16_of_ne _ _ low high]

theorem icmpWritten_of_ne (copy : Memory) {i : Nat} (type : i ≠ icmpHeader copy)
    (code : i ≠ icmpHeader copy + 1) (low : i ≠ icmpHeader copy + 2)
    (high : i ≠ icmpHeader copy + 3) : icmpWritten copy i = copy i := by
  rw [icmpWritten, write16_of_ne _ _ low high, write16_of_ne _ _ low high,
    Function.update_of_ne code, Function.update_of_ne type]

theorem icmpWritten_type (copy : Memory) : icmpWritten copy (icmpHeader copy) = icmpEcho := by
  rw [icmpWritten, write16_of_ne _ _ (by omega) (by omega), write16_of_ne _ _ (by omega) (by omega),
    Function.update_of_ne (by omega), Function.update_self]

theorem icmpWritten_code (copy : Memory) : icmpWritten copy (icmpHeader copy + 1) = 0 := by
  rw [icmpWritten, write16_of_ne _ _ (by omega) (by omega), write16_of_ne _ _ (by omega) (by omega),
    Function.update_self]

theorem copied_of_lt {m : Memory} {packetLength i : Nat} (inside : i < packetLength)
    (scratch : Memory) : copied m packetLength scratch i = m i := if_pos inside

/-- The copy has its ICMP header where the frame has it, if it has an IP header at all. -/
theorem icmpHeader_copied (m : Memory) {packetLength : Nat} (inside : ipHeader < packetLength)
    (scratch : Memory) : icmpHeader (copied m packetLength scratch) = icmpHeader m := by
  rw [icmpHeader, ipHl, copied_of_lt inside]
  rfl

/-- A byte of the frame that is not among the six stays. -/
theorem modifiedPacket_of_not_mem (m : Memory) {packetLength i : Nat} (scratch : Memory)
    (inside : i < packetLength) (other : i ∉ writes m) :
    modifiedPacket m packetLength scratch i = m i := by
  simp only [writes, List.mem_cons, List.not_mem_nil, or_false, not_or] at other
  obtain ⟨type, code, low, high, sumLow, sumHigh⟩ := other
  rw [modifiedPacket_eq, resealed_of_ne _ sumLow sumHigh]
  by_cases headed : ipHeader < packetLength
  · have place := icmpHeader_copied m headed scratch
    rw [icmpWritten_of_ne _ (place ▸ type) (place ▸ code) (place ▸ low) (place ▸ high),
      copied_of_lt inside]
  · have before : ∀ k, i ≠ icmpHeader (copied m packetLength scratch) + k := by
      intro k
      rw [icmpHeader]
      omega
    rw [icmpWritten_of_ne _ (before 0) (before 1) (before 2) (before 3), copied_of_lt inside]

/-- The type byte ends as an echo request: no later write reaches it. -/
theorem modifiedPacket_type (m : Memory) {packetLength : Nat} (scratch : Memory)
    (inside : icmpHeader m < packetLength) :
    modifiedPacket m packetLength scratch (icmpHeader m) = icmpEcho := by
  have headed : ipHeader < packetLength := by
    rw [icmpHeader] at inside
    omega
  have place := icmpHeader_copied m headed scratch
  have even : icmpHeader m ≠ ipSum ∧ icmpHeader m ≠ ipSum + 1 := by
    simp only [icmpHeader, ipSum, ipHeader, sizeofEtherHeader]
    omega
  rw [modifiedPacket_eq, resealed_of_ne _ even.1 even.2, ← place, icmpWritten_type]

theorem modifiedPacket_code (m : Memory) {packetLength : Nat} (scratch : Memory)
    (inside : icmpHeader m < packetLength) :
    modifiedPacket m packetLength scratch (icmpHeader m + 1) = 0 := by
  have headed : ipHeader < packetLength := by
    rw [icmpHeader] at inside
    omega
  have place := icmpHeader_copied m headed scratch
  have odd : icmpHeader m + 1 ≠ ipSum ∧ icmpHeader m + 1 ≠ ipSum + 1 := by
    simp only [icmpHeader, ipSum, ipHeader, sizeofEtherHeader]
    omega
  rw [modifiedPacket_eq, resealed_of_ne _ odd.1 odd.2, ← place, icmpWritten_code]

/-- The bytes `pcap_next` captured. -/
def captured (f : Capture) : ByteString := bytesAt f.packet 0 f.caplen

theorem length_bytesAt (m : Memory) (addr count : Nat) : (bytesAt m addr count).length = count := by
  simp [bytesAt]

theorem getElem?_bytesAt (m : Memory) {addr count i : Nat} (inside : i < count) :
    (bytesAt m addr count)[i]? = some (m (addr + i)) := by
  simp [bytesAt, inside]

theorem bytesAt_eq_iff {m m' : Memory} {count count' : Nat} :
    bytesAt m 0 count = bytesAt m' 0 count' ↔ count = count' ∧ ∀ i < count, m i = m' i := by
  constructor
  · intro h
    have lengths : count = count' := by
      have both := congrArg List.length h
      rwa [length_bytesAt, length_bytesAt] at both
    subst count'
    refine ⟨rfl, fun i inside => ?_⟩
    have both := congrArg (fun bytes : ByteString => bytes[i]?) h
    simpa [getElem?_bytesAt _ inside] using both
  · rintro ⟨rfl, same⟩
    rw [bytesAt, bytesAt, List.map_inj_left]
    intro i mem
    rw [Nat.zero_add]
    exact same i (List.mem_range.mp mem)

/-- A frame that the substitution is meant for. -/
structure EchoReply (cfg : TtlSubstitutionCfg) (f : Capture) : Prop where
  headed : ipHeader ≤ f.len
  etherType : ntohs (etherType f.packet) = ethertypeIp
  protocol : ipP f.packet ipHeader = ipprotoIcmp
  source : ipSrc f.packet ipHeader = cfg.clientIp
  destination : ipDst f.packet ipHeader = cfg.serverIp
  type : f.packet (icmpHeader f.packet) = icmpEchoReply

theorem substitutes_iff {cfg : TtlSubstitutionCfg} {f : Capture} (headed : ipHeader ≤ f.len) :
    substitutes cfg f.packet = true ↔ cfg.isActive = true ∧ EchoReply cfg f := by
  simp only [substitutes, isTargetIcmpPacket, Bool.and_eq_true, decide_eq_true_eq]
  constructor
  · rintro ⟨⟨active, ether⟩, ⟨protocol, source, destination⟩, type⟩
    exact ⟨active, headed, ether, protocol, source, destination, type⟩
  · rintro ⟨active, h⟩
    exact ⟨⟨active, h.etherType⟩, ⟨h.protocol, h.source, h.destination⟩, h.type⟩

/-- The lengths in the headers agree with each other and with the frame. -/
structure WellFormed (f : Capture) : Prop where
  options : 5 ≤ ipHl f.packet ipHeader
  icmp : icmpHeader f.packet + 8 ≤ f.len
  total : ipHeader + ntohs (ipLen f.packet ipHeader) ≤ f.len
  payload : 4 * ipHl f.packet ipHeader + 8 ≤ ntohs (ipLen f.packet ipHeader)

/-- The captured frame with type, code and the two checksums replaced: six distinct bytes of it. -/
structure Rewritten (f : Capture) (bytes : ByteString) : Prop where
  length : bytes.length = f.caplen
  apart : (writes f.packet).Nodup
  inside : ∀ i ∈ writes f.packet, i < f.caplen
  type : bytes[icmpHeader f.packet]? = some icmpEcho
  code : bytes[icmpHeader f.packet + 1]? = some 0
  kept : ∀ i < f.caplen, i ∉ writes f.packet → bytes[i]? = (captured f)[i]?

theorem writes_of_wellFormed {f : Capture} (h : WellFormed f) :
    (writes f.packet).Nodup ∧ ∀ i ∈ writes f.packet, i < f.len := by
  have options := h.options
  have icmp := h.icmp
  simp only [icmpHeader, ipHeader, sizeofEtherHeader] at icmp options
  constructor
  · simp only [writes, icmpHeader, ipSum, ipHeader, sizeofEtherHeader, List.nodup_cons,
      List.mem_cons, List.not_mem_nil, or_false, not_or, List.nodup_nil, not_false_eq_true,
      and_true]
    omega
  · intro i mem
    simp only [writes, icmpHeader, ipSum, ipHeader, sizeofEtherHeader, List.mem_cons,
      List.not_mem_nil, or_false] at mem
    omega

theorem packetToSend_of_not {cfg : TtlSubstitutionCfg} {m : Memory} (packetLength : Nat)
    (scratch : Memory) (h : substitutes cfg m = false) :
    packetToSend cfg m packetLength scratch = m := by
  simp [packetToSend, h]

theorem packetToSend_of {cfg : TtlSubstitutionCfg} {m : Memory} (packetLength : Nat)
    (scratch : Memory) (h : substitutes cfg m = true) :
    packetToSend cfg m packetLength scratch = modifiedPacket m packetLength scratch := by
  simp [packetToSend, h]

/-- A frame too short for an Ethernet header is sent as it is. -/
theorem packetToSend_of_short (cfg : TtlSubstitutionCfg) {m : Memory} {packetLength i : Nat}
    (scratch : Memory) (short : packetLength < ipHeader) (inside : i < packetLength) :
    packetToSend cfg m packetLength scratch i = m i := by
  by_cases h : substitutes cfg m = true
  · rw [packetToSend_of _ _ h]
    apply modifiedPacket_of_not_mem m scratch inside
    simp only [writes, icmpHeader, ipSum, ipHeader, sizeofEtherHeader, List.mem_cons,
      List.not_mem_nil, or_false, not_or] at short ⊢
    omega
  · rw [packetToSend_of_not _ _ (Bool.not_eq_true _ ▸ h)]

/-- `processPacket` sends nothing: the frame is dropped, or flooded to no other port. -/
def Unsent (handles port : Nat) (w : World) (f : Capture) : Prop :=
  f.shost = f.dhost ∨
    ¬ (getPortForMac w.tables.table f.dhost ≠ -1 ∧ getPortForMac w.tables.table f.dhost < handles) ∧
      ∀ q < handles, q = port

theorem targets_eq_nil_iff {handles port : Nat} {dest : Int} :
    targets handles port dest = [] ↔ ¬ (dest ≠ -1 ∧ dest < handles) ∧ ∀ q < handles, q = port := by
  by_cases known : dest ≠ -1 ∧ dest < handles
  · simp [targets, known]
  · simp [targets, known, List.filter_eq_nil_iff]

/-- Every transmission of a frame carries the same bytes, so a property of these bytes
holds of all transmissions exactly when it holds or there are none. -/
theorem all_sent_iff {handles port : Nat} (cfg : TtlSubstitutionCfg) (w : World) (f : Capture)
    (scratch : Memory) (duration : ℚ) (valid : port < handles) (P : ByteString → Prop) :
    (∀ t ∈ sentBy handles cfg w (.frame port f scratch duration), P t.bytes) ↔
      Unsent handles port w f ∨ P (f.sentBytes cfg scratch) := by
  rw [sentBy_frame cfg w f scratch duration valid, Unsent]
  by_cases same : f.shost = f.dhost
  · simp [same]
  · rw [if_neg same, ← targets_eq_nil_iff]
    cases ports : targets handles port (getPortForMac w.tables.table f.dhost) with
    | nil => simp
    | cons q rest =>
      simp only [same, reduceCtorEq, or_self, false_or]
      constructor
      · intro all
        exact all _ (List.mem_map_of_mem List.mem_cons_self)
      · intro holds t sent
        obtain ⟨_, _, rfl⟩ := List.mem_map.mp sent
        exact holds

/-- What a transmission of the frame has to carry: the captured bytes, but for an echo reply
that is substituted, where the six bytes are replaced. -/
structure TouchesNothingElse (cfg : TtlSubstitutionCfg) (f : Capture) (bytes : ByteString) :
    Prop where
  passed : ¬ (cfg.isActive = true ∧ EchoReply cfg f) → bytes = captured f
  rewritten : cfg.isActive = true ∧ EchoReply cfg f → Rewritten f bytes

theorem sentBytes_touches_nothing_else {cfg : TtlSubstitutionCfg} {f : Capture} (scratch : Memory)
    (wellFormed : ipHeader ≤ f.len → ntohs (etherType f.packet) = ethertypeIp → WellFormed f)
    (whole : f.len = f.caplen) : TouchesNothingElse cfg f (f.sentBytes cfg scratch) := by
  constructor
  · intro passed
    rw [Capture.sentBytes, captured, bytesAt_eq_iff]
    refine ⟨whole, fun i inside => ?_⟩
    by_cases headed : ipHeader ≤ f.len
    · have spared : substitutes cfg f.packet = false := by
        rw [← Bool.not_eq_true, substitutes_iff headed]
        exact passed
      rw [packetToSend_of_not _ _ spared]
    · exact packetToSend_of_short cfg scratch (Nat.lt_of_not_le headed) inside
  · rintro ⟨active, reply⟩
    have h := wellFormed reply.headed reply.etherType
    have icmp := h.icmp
    obtain ⟨apart, within⟩ := writes_of_wellFormed h
    have rewrites := (substitutes_iff reply.headed).mpr ⟨active, reply⟩
    rw [Capture.sentBytes, packetToSend_of _ _ rewrites]
    refine ⟨?_, apart, whole ▸ within, ?_, ?_, ?_⟩
    · rw [length_bytesAt, whole]
    · rw [getElem?_bytesAt _ (by omega), Nat.zero_add, modifiedPacket_type _ _ (by omega)]
    · rw [getElem?_bytesAt _ (by omega), Nat.zero_add, modifiedPacket_code _ _ (by omega)]
    · intro i inside other
      rw [captured, getElem?_bytesAt _ inside, getElem?_bytesAt _ (whole ▸ inside), Nat.zero_add,
        modifiedPacket_of_not_mem _ _ (whole ▸ inside) other]

/-- A transmission has the length of the frame, the captured bytes that of the capture. -/
theorem whole_of_touches_nothing_else {cfg : TtlSubstitutionCfg} {f : Capture} {scratch : Memory}
    (touches : TouchesNothingElse cfg f (f.sentBytes cfg scratch)) : f.len = f.caplen := by
  have sent : (f.sentBytes cfg scratch).length = f.len := length_bytesAt ..
  by_cases substituted : cfg.isActive = true ∧ EchoReply cfg f
  · exact sent.symm.trans (touches.rewritten substituted).length
  · rw [← sent, touches.passed substituted, captured, length_bytesAt]

/-- Pass-through frames leave as they were captured, and of a frame that is rewritten every copy
has the same six bytes replaced, exactly when the frame was captured whole or is not sent. -/
theorem transmissions_touch_nothing_else_iff {handles port : Nat} (cfg : TtlSubstitutionCfg)
    (w : World) (f : Capture) (scratch : Memory) (duration : ℚ) (valid : port < handles)
    (wellFormed : ipHeader ≤ f.len → ntohs (etherType f.packet) = ethertypeIp → WellFormed f) :
    (∀ t ∈ sentBy handles cfg w (.frame port f scratch duration),
      TouchesNothingElse cfg f t.bytes) ↔
      f.len = f.caplen ∨ Unsent handles port w f := by
  rw [all_sent_iff cfg w f scratch duration valid, or_comm]
  exact or_congr_left ⟨whole_of_touches_nothing_else, fun whole =>
    sentBytes_touches_nothing_else scratch wellFormed whole⟩

/-- An echo reply from 10.0.0.1 to 10.0.0.2 without options or payload. -/
def replyFrame (flags offset : UInt8) : Capture where
  packet := fun i => ([2, 0, 0, 0, 0, 2, 2, 0, 0, 0, 0, 1, 8, 0,
    0x45, 0, 0, 28, 0, 0, flags, offset, 64, 1, 0, 0, 10, 0, 0, 1, 10, 0, 0, 2,
    0, 0, 0, 0, 0, 1, 0, 1] : List UInt8).getD i 0
  caplen := 42
  len := 42

def replyCfg : TtlSubstitutionCfg := ⟨true, ![10, 0, 0, 1], ![10, 0, 0, 2]⟩

theorem transmissions_touch_nothing_else_reply :
    sentBy 3 replyCfg (initial 300 0) (.frame 0 (replyFrame 0 0) (fun _ => 0) 0) ≠ [] ∧
      ∀ t ∈ sentBy 3 replyCfg (initial 300 0) (.frame 0 (replyFrame 0 0) (fun _ => 0) 0),
        Rewritten (replyFrame 0 0) t.bytes := by
  constructor
  · rw [sentBy_frame _ _ _ _ _ (by decide)]
    decide
  · intro t sent
    refine ((transmissions_touch_nothing_else_iff replyCfg (initial 300 0) (replyFrame 0 0)
      (fun _ => 0) 0 (by decide) fun _ _ => ⟨by decide, by decide, by decide, by decide⟩).mpr
      (Or.inl rfl) t sent).rewritten ⟨rfl, ?_⟩
    exact ⟨by decide, by decide, by decide, by decide, by decide, by decide⟩

/-- A frame of 9014 bytes of which the first 8192 were captured. -/
def jumboFrame : Capture := { replyFrame 0 0 with caplen := 8192, len := 9014 }

/-- The switch passes it on with 822 bytes that were not captured. -/
theorem truncated_frame_altered :
    WellFormed jumboFrame ∧
      ¬ ∀ t ∈ sentBy 3 inactive (initial 300 0) (.frame 0 jumboFrame (fun _ => 0) 0),
        TouchesNothingElse inactive jumboFrame t.bytes := by
  refine ⟨⟨by decide, by decide, by decide, by decide⟩, fun touches => ?_⟩
  rcases (all_sent_iff inactive (initial 300 0) jumboFrame (fun _ => 0) 0 (by decide) _).mp
    touches with (same | ⟨_, alone⟩) | carried
  · revert same
    decide
  · exact absurd (alone 1 (by decide)) (by decide)
  · exact absurd (whole_of_touches_nothing_else carried) (by decide)

/-- A whole, unfragmented IPv4 packet with room for an ICMP header, inside the capture. -/
structure Genuine (f : Capture) : Prop where
  etherType : ntohs (etherType f.packet) = ethertypeIp
  version : (f.packet ipHeader).toNat / 16 = 4
  options : 5 ≤ ipHl f.packet ipHeader
  payload : 4 * ipHl f.packet ipHeader + 8 ≤ ntohs (ipLen f.packet ipHeader)
  total : ipHeader + ntohs (ipLen f.packet ipHeader) ≤ f.caplen
  whole : ntohs (read16 f.packet (ipHeader + 6)) % 2 ^ 14 = 0

theorem checksumLoop_congr {m m' : Memory} (len addr sum : Nat)
    (same : ∀ i, addr ≤ i → i < addr + len → m i = m' i) :
    checksumLoop m len addr sum = checksumLoop m' len addr sum := by
  induction len, addr using words.induct generalizing sum with
  | case1 addr => rfl
  | case2 addr => rw [checksumLoop, checksumLoop, same addr (by omega) (by omega)]
  | case3 len addr ih =>
    rw [checksumLoop, checksumLoop, read16, read16, same addr (by omega) (by omega),
      same (addr + 1) (by omega) (by omega), ih _ fun i low high => same i (by omega) (by omega)]

theorem write16_congr {m m' : Memory} {i : Nat} (same : m i = m' i) (a value : Nat) :
    write16 m a value i = write16 m' a value i := by
  by_cases high : i = a + 1
  · subst i
    rw [write16, write16, Function.update_self, Function.update_self]
  · by_cases low : i = a
    · subst i
      rw [write16, write16, Function.update_of_ne high, Function.update_of_ne high,
        Function.update_self, Function.update_self]
    · rw [write16_of_ne _ _ low high, write16_of_ne _ _ low high, same]

/-- The new header checksum depends on the header alone. -/
theorem resealed_congr {m m' : Memory} (first : m ipHeader = m' ipHeader)
    (header : ∀ i, ipHeader ≤ i → i < icmpHeader m → m i = m' i) {i : Nat} (same : m i = m' i) :
    resealed m i = resealed m' i := by
  have cleared : ∀ n : Memory, ipHl (write16 n ipSum 0) ipHeader = ipHl n ipHeader := by
    intro n
    rw [ipHl, write16_of_ne n 0 (by decide) (by decide)]
    rfl
  have words : ipHl m' ipHeader = ipHl m ipHeader := by
    rw [ipHl, ipHl, first]
  have sums : checksum (write16 m ipSum 0) ipHeader (4 * ipHl m ipHeader) =
      checksum (write16 m' ipSum 0) ipHeader (4 * ipHl m ipHeader) := by
    rw [checksum, checksum, checksumLoop_congr]
    intro j low high
    refine write16_congr (header j low ?_) ipSum 0
    rw [icmpHeader]
    omega
  rw [resealed, resealed, cleared, cleared, words, sums]
  exact write16_congr (write16_congr same ipSum 0) ipSum _

/-- Where the ICMP header lies behind the frame, only the header checksum is rewritten. -/
theorem modifiedPacket_of_cut (m : Memory) {packetLength i : Nat} (scratch : Memory)
    (cut : packetLength ≤ icmpHeader m) (inside : i < packetLength) :
    modifiedPacket m packetLength scratch i = resealed (copied m packetLength scratch) i := by
  rw [modifiedPacket_eq]
  by_cases headed : ipHeader < packetLength
  · have place := icmpHeader_copied m headed scratch
    have header : ∀ j, j < icmpHeader m → icmpWritten (copied m packetLength scratch) j =
        copied m packetLength scratch j := by
      intro j before
      exact icmpWritten_of_ne _ (by omega) (by omega) (by omega) (by omega)
    refine (resealed_congr (header ipHeader (by omega)).symm (fun j _ before => ?_)
      (header i (by omega)).symm).symm
    rw [place] at before
    exact (header j before).symm
  · have early : ∀ k, i ≠ ipHeader + k := by
      intro k
      omega
    have before : ∀ k, i ≠ icmpHeader (copied m packetLength scratch) + k := by
      intro k
      rw [icmpHeader]
      omega
    rw [resealed_of_ne _ (early 10) (early 11), resealed_of_ne _ (early 10) (early 11),
      icmpWritten_of_ne _ (before 0) (before 1) (before 2) (before 3)]

theorem modifiedPacket_same_iff (m : Memory) (packetLength : Nat) (scratch : Memory)
    (reply : m (icmpHeader m) = icmpEchoReply) :
    (∀ i < packetLength, modifiedPacket m packetLength scratch i = m i) ↔
      packetLength ≤ icmpHeader m ∧
        ∀ i < packetLength, resealed (copied m packetLength scratch) i = m i := by
  constructor
  · intro same
    have cut : packetLength ≤ icmpHeader m := by
      by_contra inside
      have type := same (icmpHeader m) (Nat.lt_of_not_le inside)
      rw [modifiedPacket_type m scratch (Nat.lt_of_not_le inside), reply] at type
      exact absurd type (by decide)
    refine ⟨cut, fun i inside => ?_⟩
    rw [← modifiedPacket_of_cut m scratch cut inside]
    exact same i inside
  · rintro ⟨cut, same⟩ i inside
    rw [modifiedPacket_of_cut m scratch cut inside]
    exact same i inside

/-- The complement of the sum of the header's words without its checksum field, the
carries folded once. -/
def headerChecksum (f : Capture) (scratch : Memory) : Nat :=
  let header := write16 (copied f.packet f.len scratch) ipSum 0
  2 ^ 16 - 1 - fold (2 ^ 16) (words header (4 * ipHl f.packet ipHeader) ipHeader).sum % 2 ^ 16

/-- The bytes of the checksum field that lie in the frame already have this value. -/
structure Sealed (f : Capture) (scratch : Memory) : Prop where
  low : ipSum < f.len → (f.packet ipSum).toNat = headerChecksum f scratch % 256
  high : ipSum + 1 < f.len → (f.packet (ipSum + 1)).toNat = headerChecksum f scratch / 256

/-- The copy has `ip_hl` from the frame, so its header is as long. -/
theorem resealed_copied (f : Capture) (scratch : Memory) (inside : ipSum < f.len) :
    resealed (copied f.packet f.len scratch) =
      write16 (write16 (copied f.packet f.len scratch) ipSum 0) ipSum
        (headerChecksum f scratch) := by
  have headed : ipHeader < f.len := by
    rw [ipSum] at inside
    omega
  have first : ipHl (write16 (copied f.packet f.len scratch) ipSum 0) ipHeader =
      ipHl f.packet ipHeader := by
    rw [ipHl, write16_of_ne _ 0 (by decide) (by decide), copied_of_lt headed]
    rfl
  have short : 4 * ipHl f.packet ipHeader ≤ 65535 := by
    rw [ipHl]
    omega
  rw [resealed, first]
  exact congrArg _ (checksum_eq _ ipHeader short)

theorem headerChecksum_lt (f : Capture) (scratch : Memory) :
    headerChecksum f scratch < 2 ^ 16 := by
  rw [headerChecksum]
  omega

theorem resealed_same_iff (f : Capture) (scratch : Memory) :
    (∀ i < f.len, resealed (copied f.packet f.len scratch) i = f.packet i) ↔
      Sealed f scratch := by
  have word := headerChecksum_lt f scratch
  constructor
  · intro same
    constructor
    · intro inside
      rw [← same ipSum inside, resealed_copied f scratch inside, write16_low, UInt8.toNat_ofNat']
      omega
    · intro inside
      rw [← same (ipSum + 1) inside, resealed_copied f scratch (Nat.lt_of_succ_lt inside),
        write16_high, UInt8.toNat_ofNat']
      omega
  · intro right i inside
    by_cases low : i = ipSum
    · subst i
      rw [resealed_copied f scratch inside, write16_low, ← right.low inside, UInt8.ofNat_toNat]
    · by_cases high : i = ipSum + 1
      · subst i
        have byte := right.high inside
        rw [resealed_copied f scratch (Nat.lt_of_succ_lt inside), write16_high,
          Nat.mod_eq_of_lt (by omega), ← byte, UInt8.ofNat_toNat]
      · rw [resealed_of_ne _ low high, copied_of_lt inside]

/-- Sending the frame changes none of its bytes: no substitution, or one that finds the ICMP
header behind the frame and the header checksum right already. -/
def Untouched (cfg : TtlSubstitutionCfg) (f : Capture) (scratch : Memory) : Prop :=
  substitutes cfg f.packet = false ∨ f.len ≤ icmpHeader f.packet ∧ Sealed f scratch

theorem sent_eq_captured_iff (cfg : TtlSubstitutionCfg) (f : Capture) (scratch : Memory) :
    f.sentBytes cfg scratch = captured f ↔ f.len = f.caplen ∧ Untouched cfg f scratch := by
  rw [Capture.sentBytes, captured, bytesAt_eq_iff, Untouched]
  refine and_congr_right fun _ => ?_
  by_cases h : substitutes cfg f.packet = true
  · have reply : f.packet (icmpHeader f.packet) = icmpEchoReply := by
      simp only [substitutes, Bool.and_eq_true, decide_eq_true_eq] at h
      exact h.2.2
    rw [packetToSend_of _ _ h, modifiedPacket_same_iff _ _ _ reply, resealed_same_iff, h]
    simp
  · have spared := Bool.not_eq_true _ ▸ h
    rw [packetToSend_of_not _ _ spared, spared]
    simp

/-- Bytes are changed only for genuine frames exactly when the frame is genuine, or nothing
is sent, or the frame was captured whole and is left untouched. -/
theorem only_genuine_rewritten_iff {handles port : Nat} (cfg : TtlSubstitutionCfg) (w : World)
    (f : Capture) (scratch : Memory) (duration : ℚ) (valid : port < handles) :
    (∀ t ∈ sentBy handles cfg w (.frame port f scratch duration),
      t.bytes ≠ captured f → Genuine f) ↔
      Genuine f ∨ Unsent handles port w f ∨ f.len = f.caplen ∧ Untouched cfg f scratch := by
  rw [all_sent_iff cfg w f scratch duration valid fun bytes => bytes ≠ captured f → Genuine f,
    ← sent_eq_captured_iff]
  by_cases genuine : Genuine f
  · simp [genuine]
  · simp [genuine]

theorem only_genuine_rewritten_reply :
    Genuine (replyFrame 0 0) ∧
      ∀ t ∈ sentBy 3 replyCfg (initial 300 0) (.frame 0 (replyFrame 0 0) (fun _ => 0) 0),
        t.bytes ≠ captured (replyFrame 0 0) → Genuine (replyFrame 0 0) := by
  have genuine : Genuine (replyFrame 0 0) :=
    ⟨by decide, by decide, by decide, by decide, by decide, by decide⟩
  exact ⟨genuine, (only_genuine_rewritten_iff replyCfg (initial 300 0) (replyFrame 0 0)
    (fun _ => 0) 0 (by decide)).mpr (Or.inl genuine)⟩

/-- A fragment that starts 8 bytes into its packet and whose payload starts with a zero. -/
theorem fragment_rewritten :
    ¬ ∀ t ∈ sentBy 3 replyCfg (initial 300 0) (.frame 0 (replyFrame 0 1) (fun _ => 0) 0),
      t.bytes ≠ captured (replyFrame 0 1) → Genuine (replyFrame 0 1) := by
  intro only
  have sent := (all_sent_iff replyCfg (initial 300 0) (replyFrame 0 1) (fun _ => 0) 0 (by decide)
    fun bytes => bytes ≠ captured (replyFrame 0 1) → Genuine (replyFrame 0 1)).mp only
  have changed : (replyFrame 0 1).sentBytes replyCfg (fun _ => 0) ≠ captured (replyFrame 0 1) := by
    intro same
    obtain ⟨_, spared | ⟨cut, _⟩⟩ := (sent_eq_captured_iff _ _ _).mp same
    · revert spared
      decide
    · revert cut
      decide
  have left : ¬ Unsent 3 0 (initial 300 0) (replyFrame 0 1) := by
    rintro (same | ⟨_, alone⟩)
    · revert same
      decide
    · exact absurd (alone 1 (by decide)) (by decide)
  have whole := (sent.resolve_left left changed).whole
  revert whole
  decide

/-- The length given to `memcpy`, where a copy is made. -/
def copyLength (cfg : TtlSubstitutionCfg) (f : Capture) : Option Nat :=
  if f.shost ≠ f.dhost ∧ substitutes cfg f.packet then some f.len else none

/-- Bytes that were captured, or that the rewrite has written. -/
structure Contained (cfg : TtlSubstitutionCfg) (f : Capture) (bytes : ByteString) : Prop where
  length : bytes.length ≤ f.caplen
  origin : ∀ i < bytes.length, bytes[i]? = some (f.packet i) ∨
    substitutes cfg f.packet = true ∧ i ∈ writes f.packet

theorem sentBytes_contained_iff (cfg : TtlSubstitutionCfg) (f : Capture) (scratch : Memory) :
    Contained cfg f (f.sentBytes cfg scratch) ↔ f.len ≤ f.caplen := by
  have length : (f.sentBytes cfg scratch).length = f.len := length_bytesAt ..
  constructor
  · intro h
    exact length ▸ h.length
  · intro whole
    refine ⟨length ▸ whole, fun i inside => ?_⟩
    rw [length] at inside
    rw [Capture.sentBytes, getElem?_bytesAt _ inside, Nat.zero_add]
    by_cases h : substitutes cfg f.packet = true
    · by_cases written : i ∈ writes f.packet
      · exact Or.inr ⟨h, written⟩
      · rw [packetToSend_of _ _ h, modifiedPacket_of_not_mem _ _ inside written]
        exact Or.inl rfl
    · rw [packetToSend_of_not _ _ (Bool.not_eq_true _ ▸ h)]
      exact Or.inl rfl

/-- No byte beyond the capture is copied or sent exactly when the frame was captured
whole, or nothing is copied or sent for it. -/
theorem contained_iff_whole {handles port : Nat} (cfg : TtlSubstitutionCfg) (w : World)
    (f : Capture) (scratch : Memory) (duration : ℚ) (valid : port < handles)
    (snapshot : f.caplen ≤ f.len) :
    ((∀ t ∈ sentBy handles cfg w (.frame port f scratch duration), Contained cfg f t.bytes) ∧
      ∀ n, copyLength cfg f = some n → n ≤ f.caplen) ↔
      f.len = f.caplen ∨ f.shost = f.dhost ∨
        Unsent handles port w f ∧ substitutes cfg f.packet = false := by
  rw [all_sent_iff cfg w f scratch duration valid, sentBytes_contained_iff]
  have copies : (∀ n, copyLength cfg f = some n → n ≤ f.caplen) ↔
      f.len ≤ f.caplen ∨ f.shost = f.dhost ∨ substitutes cfg f.packet = false := by
    by_cases copies : f.shost ≠ f.dhost ∧ substitutes cfg f.packet
    · simp [copyLength, copies]
    · rw [copyLength, if_neg copies]
      refine iff_of_true (by rintro n ⟨⟩) (Or.inr ?_)
      by_cases same : f.shost = f.dhost
      · exact Or.inl same
      · exact Or.inr (Bool.not_eq_true _ ▸ fun h => copies ⟨same, h⟩)
  rw [copies]
  constructor
  · rintro ⟨unsent | whole, whole' | same | spared⟩
    · exact Or.inl (Nat.le_antisymm whole' snapshot)
    · exact Or.inr (Or.inl same)
    · exact Or.inr (Or.inr ⟨unsent, spared⟩)
    all_goals exact Or.inl (Nat.le_antisymm whole snapshot)
  · rintro (whole | same | ⟨unsent, spared⟩)
    · exact ⟨Or.inr whole.le, Or.inl whole.le⟩
    · exact ⟨Or.inl (Or.inl same), Or.inr (Or.inl same)⟩
    · exact ⟨Or.inl unsent, Or.inr (Or.inr spared)⟩

theorem contained_whole_reply :
    (∀ t ∈ sentBy 3 replyCfg (initial 300 0) (.frame 0 (replyFrame 0 0) (fun _ => 0) 0),
      Contained replyCfg (replyFrame 0 0) t.bytes) ∧
      ∀ n, copyLength replyCfg (replyFrame 0 0) = some n → n ≤ (replyFrame 0 0).caplen :=
  (contained_iff_whole replyCfg (initial 300 0) (replyFrame 0 0) (fun _ => 0) 0 (by decide)
    (by decide)).mpr (Or.inl (by decide))

theorem truncated_frame_padded :
    ¬ ∀ t ∈ sentBy 3 replyCfg (initial 300 0) (.frame 0 jumboFrame (fun _ => 0) 0),
      Contained replyCfg jumboFrame t.bytes := by
  intro contained
  rcases (all_sent_iff replyCfg (initial 300 0) jumboFrame (fun _ => 0) 0 (by decide) _).mp
    contained with (same | ⟨_, alone⟩) | within
  · revert same
    decide
  · exact absurd (alone 1 (by decide)) (by decide)
  · exact absurd ((sentBytes_contained_iff _ _ _).mp within) (by decide)

end Substitution
