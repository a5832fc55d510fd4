import Cursov.Frame

/-!
# The packet sniffer

`PacketProcessor::handler` overlays header structures on the captured bytes and
prints their fields: the Ethernet header, the IP header, then one of three
transport headers. The functions below give the printed text.
-/

namespace PacketProcessor

open Bytes CommutationTable Frame

def ipprotoTcp : UInt8 := 6
def ipprotoUdp : UInt8 := 17
def sizeofIphdr : Nat := 20

/-- The offset of the IP header in the frame. -/
def ipPacket : Nat := sizeofEtherHeader

def read32 (m : Memory) (addr : Nat) : Nat := read16 m addr + 2 ^ 16 * read16 m (addr + 2)

/-- `ntohl` on a 32-bit value. -/
def ntohl (value : Nat) : Nat := 2 ^ 16 * ntohs (value % 2 ^ 16) + ntohs (value / 2 ^ 16)

structure EtherHeader where
  etherShost : Mac
  etherDhost : Mac
  etherType : Nat

def EtherHeader.overlay (m : Memory) : EtherHeader :=
  ⟨Frame.etherShost m, Frame.etherDhost m, Frame.etherType m⟩

structure Iphdr where
  saddr : Fin 4 → UInt8
  daddr : Fin 4 → UInt8
  protocol : UInt8
  ttl : UInt8
  totLen : Nat

def Iphdr.overlay (m : Memory) (ip : Nat) : Iphdr :=
  ⟨ipSrc m ip, ipDst m ip, ipP m ip, m (ip + 8), ipLen m ip⟩

structure Icmphdr where
  type : UInt8
  code : UInt8

def Icmphdr.overlay (m : Memory) (icmp : Nat) : Icmphdr := ⟨m icmp, m (icmp + 1)⟩

/-- `doff` counts 32-bit words; it is the high half of its byte. -/
structure Tcphdr where
  doff : Nat
  source : Nat
  dest : Nat
  seq : Nat
  ackSeq : Nat
  thFlags : UInt8
  window : Nat

def Tcphdr.overlay (m : Memory) (tcp : Nat) : Tcphdr :=
  ⟨(m (tcp + 12)).toNat / 16, read16 m tcp, read16 m (tcp + 2), read32 m (tcp + 4),
    read32 m (tcp + 8), m (tcp + 13), read16 m (tcp + 14)⟩

structure Udphdr where
  source : Nat
  dest : Nat
  len : Nat

def Udphdr.overlay (m : Memory) (udp : Nat) : Udphdr :=
  ⟨read16 m udp, read16 m (udp + 2), read16 m (udp + 4)⟩

def printEthernetInfo (eth : EtherHeader) (packetLen : Nat) : ByteString :=
  literal "\n=== Packet (" ++ decimal packetLen ++ literal " bytes) ===\n" ++
    literal "[L2] Ethernet: src = " ++ macToString eth.etherShost ++
    literal ", dst = " ++ macToString eth.etherDhost ++
    literal ", type: 0x" ++ hexadecimal (ntohs eth.etherType) ++ [newline]

def printIpInfo (ip : Iphdr) : ByteString :=
  literal "[L3] IP: src = " ++ dotted ip.saddr ++ literal ", dst = " ++ dotted ip.daddr ++
    literal ", proto = " ++ decimal ip.protocol.toNat ++
    literal ", ttl = " ++ decimal ip.ttl.toNat ++
    literal ", len = " ++ decimal (ntohs ip.totLen) ++ literal " bytes\n"

def printIcmpInfo (icmp : Icmphdr) (dataSize : UInt32) : ByteString :=
  literal "[L4] ICMP: type = " ++ decimal icmp.type.toNat ++
    literal ", code = " ++ decimal icmp.code.toNat ++
    literal ", size = " ++ decimal dataSize.toNat ++ literal " bytes\n"

/-- The flags in the order in which they are tested. -/
def flagNames (flags : UInt8) : ByteString :=
  (if flags &&& 0x02 ≠ 0 then literal "SYN " else []) ++
    (if flags &&& 0x10 ≠ 0 then literal "ACK " else []) ++
    (if flags &&& 0x01 ≠ 0 then literal "FIN " else []) ++
    (if flags &&& 0x04 ≠ 0 then literal "RST " else []) ++
    (if flags &&& 0x08 ≠ 0 then literal "PSH " else []) ++
    (if flags &&& 0x20 ≠ 0 then literal "URG " else [])

def printTcpInfo (tcp : Tcphdr) : ByteString :=
  literal "[L4] TCP: sport = " ++ decimal (ntohs tcp.source) ++
    literal ", dport = " ++ decimal (ntohs tcp.dest) ++
    literal ", seq = " ++ decimal (ntohl tcp.seq) ++
    literal ", ack = " ++ decimal (ntohl tcp.ackSeq) ++
    literal ", flags: " ++ flagNames tcp.thFlags ++
    literal ", win = " ++ decimal (ntohs tcp.window) ++
    literal ", header len = " ++ decimal (tcp.doff * 4) ++ literal " bytes\n"

/-- `ntohs(udp->len) - sizeof(udphdr)`, a `size_t`. -/
def udpDataSize (len : Nat) : UInt64 := UInt64.ofNat (ntohs len) - 8

def printUdpInfo (udp : Udphdr) : ByteString :=
  literal "[L4] UDP: sport = " ++ decimal (ntohs udp.source) ++
    literal ", dport = " ++ decimal (ntohs udp.dest) ++
    literal ", len = " ++ decimal (udpDataSize udp.len).toNat ++ literal " bytes\n"

/-- The size of the ICMP data: a difference of `size_t`, stored in 32 bits. -/
def icmpDataSize (totLen ihl : Nat) : UInt32 :=
  (UInt64.ofNat (ntohs totLen) - UInt64.ofNat (4 * ihl) - 8).toUInt32

/-- The print function that `handler` calls for the transport header, with its arguments. -/
inductive Call where
  | printIcmpInfo (icmp : Nat) (dataSize : UInt32)
  | printTcpInfo (tcp : Nat)
  | printUdpInfo (udp : Nat)
  deriving DecidableEq

/-- The inner `switch` of `handler`. -/
def transportCall (m : Memory) : Option Call :=
  if ipP m ipPacket = ipprotoIcmp then
    some (.printIcmpInfo (ipPacket + 4 * ipHl m ipPacket)
      (icmpDataSize (ipLen m ipPacket) (ipHl m ipPacket)))
  else if ipP m ipPacket = ipprotoTcp then
    some (.printTcpInfo (sizeofEtherHeader + sizeofIphdr))
  else if ipP m ipPacket = ipprotoUdp then
    some (.printUdpInfo (sizeofEtherHeader + sizeofIphdr))
  else none

def Call.text (m : Memory) : Call → ByteString
  | .printIcmpInfo icmp dataSize => PacketProcessor.printIcmpInfo (.overlay m icmp) dataSize
  | .printTcpInfo tcp => PacketProcessor.printTcpInfo (.overlay m tcp)
  | .printUdpInfo udp => PacketProcessor.printUdpInfo (.overlay m udp)

def printTransport (m : Memory) : ByteString :=
  match transportCall m with
  | some call => call.text m
  | none => []

/-- `handler`; the capture time is printed from the capture header alone. -/
def handler (m : Memory) (len : Nat) (captureTime : ByteString) : ByteString :=
  printEthernetInfo (.overlay m) len ++
    (if ntohs (etherType m) = ethertypeIp then
      printIpInfo (.overlay m ipPacket) ++ printTransport m
    else []) ++ captureTime

/-- The call that `handler` makes for a frame. -/
def Calls (m : Memory) (call : Call) : Prop :=
  ntohs (etherType m) = ethertypeIp ∧ transportCall m = some call

/-- Where the IP header says that it ends. -/
def transportHeader (m : Memory) : Nat := ipPacket + 4 * ipHl m ipPacket

def Call.header : Call → Nat
  | .printIcmpInfo icmp _ => icmp
  | .printTcpInfo tcp => tcp
  | .printUdpInfo udp => udp

/-- The three protocols whose headers are printed. -/
inductive Transport where
  | icmp
  | tcp
  | udp
  deriving DecidableEq

def Transport.number : Transport → UInt8
  | .icmp => ipprotoIcmp
  | .tcp => ipprotoTcp
  | .udp => ipprotoUdp

/-- The call for a protocol whose header is at this offset. -/
def Transport.call (m : Memory) (header : Nat) : Transport → Call
  | .icmp => .printIcmpInfo header (icmpDataSize (ipLen m ipPacket) (ipHl m ipPacket))
  | .tcp => .printTcpInfo header
  | .udp => .printUdpInfo header

theorem Transport.header_call (m : Memory) (header : Nat) (t : Transport) :
    (t.call m header).header = header := by
  cases t <;> rfl

/-- Where `handler` takes the transport header to start. -/
def Transport.assumedHeader (m : Memory) : Transport → Nat
  | .icmp => transportHeader m
  | .tcp => sizeofEtherHeader + sizeofIphdr
  | .udp => sizeofEtherHeader + sizeofIphdr

theorem transportCall_eq {m : Memory} {t : Transport} (protocol : ipP m ipPacket = t.number) :
    transportCall m = some (t.call m (t.assumedHeader m)) := by
  rw [transportCall, protocol]
  cases t <;> rfl

/-- A call is made for one of the three protocols. -/
theorem exists_transport {m : Memory} {call : Call} (made : transportCall m = some call) :
    ∃ t : Transport, ipP m ipPacket = t.number ∧ call = t.call m (t.assumedHeader m) := by
  obtain ⟨t, protocol⟩ : ∃ t : Transport, ipP m ipPacket = t.number := by
    by_contra other
    have icmp : ipP m ipPacket ≠ ipprotoIcmp := fun same => other ⟨.icmp, same⟩
    have tcp : ipP m ipPacket ≠ ipprotoTcp := fun same => other ⟨.tcp, same⟩
    have udp : ipP m ipPacket ≠ ipprotoUdp := fun same => other ⟨.udp, same⟩
    rw [transportCall, if_neg icmp, if_neg tcp, if_neg udp] at made
    cases made
  exact ⟨t, protocol, Option.some.inj (made.symm.trans (transportCall_eq protocol))⟩

/-- The transport header is decoded where the IP header ends, and what is printed of the
frame is what it says there. -/
structure DecodesTransport (m : Memory) (t : Transport) : Prop where
  offset : ∃ call, Calls m call ∧ call.header = transportHeader m
  printed : ∀ len captureTime, handler m len captureTime = printEthernetInfo (.overlay m) len ++
    (printIpInfo (.overlay m ipPacket) ++ (t.call m (transportHeader m)).text m) ++ captureTime

theorem decodesTransport_iff_assumed {m : Memory} {t : Transport}
    (etherType : ntohs (etherType m) = ethertypeIp) (protocol : ipP m ipPacket = t.number) :
    DecodesTransport m t ↔ t.assumedHeader m = transportHeader m := by
  have called := transportCall_eq protocol
  constructor
  · rintro ⟨⟨call, ⟨_, made⟩, header⟩, _⟩
    obtain rfl := Option.some.inj (called.symm.trans made)
    rwa [t.header_call] at header
  · intro place
    rw [place] at called
    refine ⟨⟨_, ⟨etherType, called⟩, t.header_call m _⟩, fun len captureTime => ?_⟩
    rw [handler, if_pos etherType, printTransport, called]

/-- The place behind a header of five words is where the IP header ends. -/
theorem fixedHeader_iff (m : Memory) :
    sizeofEtherHeader + sizeofIphdr = transportHeader m ↔ ipHl m ipPacket = 5 := by
  rw [transportHeader, ipPacket, sizeofIphdr]
  omega

/-- ICMP headers are always found; TCP and UDP headers exactly when there are no options. -/
theorem decodesTransport_iff {m : Memory} {t : Transport}
    (etherType : ntohs (etherType m) = ethertypeIp) (protocol : ipP m ipPacket = t.number) :
    DecodesTransport m t ↔ t = .icmp ∨ ipHl m ipPacket = 5 := by
  rw [decodesTransport_iff_assumed etherType protocol]
  cases t with
  | icmp => exact iff_of_true rfl (Or.inl rfl)
  | tcp => simpa [Transport.assumedHeader] using fixedHeader_iff m
  | udp => simpa [Transport.assumedHeader] using fixedHeader_iff m

/-- A frame from 10.0.0.1 to 10.0.0.2 with this first byte, total length and protocol of its
IP header, and these bytes behind the fixed part of it. -/
def frameOf (first length protocol : UInt8) (rest : List UInt8) : Memory :=
  fun i => ([2, 0, 0, 0, 0, 2, 2, 0, 0, 0, 0, 1, 8, 0, first, 0, 0, length, 0, 0, 0, 0, 64,
    protocol, 0, 0, 10, 0, 0, 1, 10, 0, 0, 2] ++ rest).getD i 0

/-- A TCP segment from port 80 to port 4000, behind these options. -/
def segment (first length : UInt8) (options : List UInt8) : Memory :=
  frameOf first length ipprotoTcp (options ++ [0, 80, 15, 160, 0, 0, 0, 1, 0, 0, 0, 2, 80, 2, 1, 0])

theorem decodesTransport_plain : DecodesTransport (segment 0x45 40 []) .tcp :=
  (decodesTransport_iff (by decide) (by decide)).mpr (Or.inr (by decide))

/-- Behind four bytes of options the source port is read from the options. -/
theorem options_decoded_as_ports :
    ntohs (read16 (segment 0x46 44 [1, 1, 1, 0]) 34) = 257 ∧
      ntohs (read16 (segment 0x46 44 [1, 1, 1, 0]) 38) = 80 ∧
      transportCall (segment 0x46 44 [1, 1, 1, 0]) = some (.printTcpInfo 34) ∧
      ¬ DecodesTransport (segment 0x46 44 [1, 1, 1, 0]) .tcp := by
  refine ⟨by decide, by decide, by decide, fun decodes => ?_⟩
  have place := (decodesTransport_iff_assumed (by decide) (by decide)).mp decodes
  revert place
  decide

/-- A printed size is not larger than the length field it is computed from, and is that
field less the headers where it covers them. -/
def SizeInRange (size field headers : Nat) : Prop :=
  size ≤ field ∧ (headers ≤ field → size = field - headers)

def Call.SizeInRange (m : Memory) : Call → Prop
  | .printIcmpInfo _ dataSize =>
    PacketProcessor.SizeInRange dataSize.toNat (ntohs (ipLen m ipPacket)) (4 * ipHl m ipPacket + 8)
  | .printTcpInfo _ => True
  | .printUdpInfo udp =>
    PacketProcessor.SizeInRange (udpDataSize (read16 m (udp + 4))).toNat
      (ntohs (read16 m (udp + 4))) 8

/-- The length field covers the headers. -/
def Call.Covers (m : Memory) : Call → Prop
  | .printIcmpInfo _ _ => 4 * ipHl m ipPacket + 8 ≤ ntohs (ipLen m ipPacket)
  | .printTcpInfo _ => True
  | .printUdpInfo udp => 8 ≤ ntohs (read16 m (udp + 4))

theorem ntohs_lt (value : Nat) : ntohs value < 2 ^ 16 := by
  rw [ntohs]
  omega

theorem ipHl_lt (m : Memory) (ip : Nat) : ipHl m ip < 16 := by
  rw [ipHl]
  omega

/-- A size that is exact where the headers are covered and wraps elsewhere. -/
theorem sizeInRange_iff {size field headers : Nat}
    (exact_of : headers ≤ field → size = field - headers)
    (wraps : field < headers → field < size) :
    SizeInRange size field headers ↔ headers ≤ field := by
  constructor
  · rintro ⟨bounded, _⟩
    by_contra short
    exact absurd bounded (Nat.not_le_of_lt (wraps (Nat.lt_of_not_le short)))
  · intro covers
    exact ⟨(exact_of covers).le.trans (Nat.sub_le _ _), exact_of⟩

theorem icmpSizeInRange_iff (totLen : Nat) {ihl : Nat} (words : ihl < 16) :
    SizeInRange (icmpDataSize totLen ihl).toNat (ntohs totLen) (4 * ihl + 8) ↔
      4 * ihl + 8 ≤ ntohs totLen := by
  have total := ntohs_lt totLen
  have eight : (8 : UInt64).toNat = 8 := rfl
  simp only [icmpDataSize, UInt64.toNat_toUInt32, UInt64.toNat_sub, UInt64.toNat_ofNat', eight]
  apply sizeInRange_iff
  · omega
  · omega

theorem udpSizeInRange_iff (len : Nat) :
    SizeInRange (udpDataSize len).toNat (ntohs len) 8 ↔ 8 ≤ ntohs len := by
  have field := ntohs_lt len
  have eight : (8 : UInt64).toNat = 8 := rfl
  simp only [udpDataSize, UInt64.toNat_sub, UInt64.toNat_ofNat', eight]
  apply sizeInRange_iff
  · omega
  · omega

theorem sizeInRange_iff_covers {m : Memory} {call : Call} (made : Calls m call) :
    call.SizeInRange m ↔ call.Covers m := by
  obtain ⟨t, _, rfl⟩ := exists_transport made.2
  cases t with
  | icmp => exact icmpSizeInRange_iff (ipLen m ipPacket) (ipHl_lt m ipPacket)
  | tcp => exact Iff.rfl
  | udp => exact udpSizeInRange_iff _

/-- The printed sizes of a frame are in range exactly when its length field covers its
headers. -/
theorem sizesInRange_iff_covers (m : Memory) :
    (∀ call, Calls m call → call.SizeInRange m) ↔ ∀ call, Calls m call → call.Covers m :=
  forall_congr' fun _ => imp_congr_right fun made => sizeInRange_iff_covers made

/-- A UDP header with length 0 and an ICMP packet whose total length is that of its header. -/
theorem inconsistent_lengths_wrap :
    (udpDataSize (read16 (frameOf 0x45 28 ipprotoUdp []) 38)).toNat = 18446744073709551608 ∧
      (icmpDataSize (ipLen (frameOf 0x45 20 ipprotoIcmp []) ipPacket) 5).toNat = 4294967288 ∧
      ¬ (∀ call, Calls (frameOf 0x45 28 ipprotoUdp []) call →
        call.SizeInRange (frameOf 0x45 28 ipprotoUdp [])) ∧
      ¬ (∀ call, Calls (frameOf 0x45 20 ipprotoIcmp []) call →
        call.SizeInRange (frameOf 0x45 20 ipprotoIcmp [])) := by
  refine ⟨by decide, by decide, fun small => ?_, fun small => ?_⟩
  · have size := (small (.printUdpInfo 34) ⟨by decide, by decide⟩).1
    revert size
    decide
  · have size := (small (.printIcmpInfo 34 4294967288) ⟨by decide, by decide⟩).1
    revert size
    decide

end PacketProcessor
