import Cursov.FrameBounds
import Cursov.PacketProcessor

/-!
# Where the packet sniffer reads

The header overlays of `handler` and of the print functions, with every byte they
read checked against the captured length. No length is passed to the print
functions, so the checks fail exactly for the captures that end inside a header.
-/

namespace PacketBounds

open Bytes Frame BoundedMemory FrameBounds PacketProcessor

def loadArray (b : ByteBuffer) (n addr : Nat) : Option (Fin n → UInt8) := do
  let bytes ← b.loads n addr
  some fun i => bytes.getD i.val 0

def load32 (b : ByteBuffer) (addr : Nat) : Option Nat := do
  let low ← load16 b addr
  let high ← load16 b (addr + 2)
  some (low + 2 ^ 16 * high)

def loadEtherHeader (b : ByteBuffer) : Option EtherHeader := do
  let shost ← loadArray b 6 6
  let dhost ← loadArray b 6 0
  let type ← load16 b 12
  some ⟨shost, dhost, type⟩

def loadIphdr (b : ByteBuffer) (ip : Nat) : Option Iphdr := do
  let saddr ← loadArray b 4 (ip + 12)
  let daddr ← loadArray b 4 (ip + 16)
  let protocol ← b.load (ip + 9)
  let ttl ← b.load (ip + 8)
  let totLen ← load16 b (ip + 2)
  some ⟨saddr, daddr, protocol, ttl, totLen⟩

def loadIcmphdr (b : ByteBuffer) (icmp : Nat) : Option Icmphdr := do
  let type ← b.load icmp
  let code ← b.load (icmp + 1)
  some ⟨type, code⟩

def loadTcphdr (b : ByteBuffer) (tcp : Nat) : Option Tcphdr := do
  let offset ← b.load (tcp + 12)
  let source ← load16 b tcp
  let dest ← load16 b (tcp + 2)
  let seq ← load32 b (tcp + 4)
  let ackSeq ← load32 b (tcp + 8)
  let flags ← b.load (tcp + 13)
  let window ← load16 b (tcp + 14)
  some ⟨offset.toNat / 16, source, dest, seq, ackSeq, flags, window⟩

def loadUdphdr (b : ByteBuffer) (udp : Nat) : Option Udphdr := do
  let source ← load16 b udp
  let dest ← load16 b (udp + 2)
  let len ← load16 b (udp + 4)
  some ⟨source, dest, len⟩

def printIcmp (b : ByteBuffer) : Option ByteString := do
  let first ← b.load ipPacket
  let totLen ← load16 b (ipPacket + 2)
  let icmp ← loadIcmphdr b (ipPacket + 4 * (first.toNat % 16))
  some (printIcmpInfo icmp (icmpDataSize totLen (first.toNat % 16)))

def printTcp (b : ByteBuffer) : Option ByteString := do
  let tcp ← loadTcphdr b (sizeofEtherHeader + sizeofIphdr)
  some (printTcpInfo tcp)

def printUdp (b : ByteBuffer) : Option ByteString := do
  let udp ← loadUdphdr b (sizeofEtherHeader + sizeofIphdr)
  some (printUdpInfo udp)

/-- The inner `switch`. -/
def printTransport (b : ByteBuffer) : Option ByteString := do
  let protocol ← b.load (ipPacket + 9)
  if protocol = ipprotoIcmp then printIcmp b
  else if protocol = ipprotoTcp then printTcp b
  else if protocol = ipprotoUdp then printUdp b
  else some []

def printIp (b : ByteBuffer) : Option ByteString := do
  let ip ← loadIphdr b ipPacket
  let transport ← printTransport b
  some (printIpInfo ip ++ transport)

/-- The outer `switch`. -/
def printNetwork (b : ByteBuffer) : Option ByteString := do
  let type ← load16 b 12
  if ntohs type = ethertypeIp then printIp b else some []

def handler (b : ByteBuffer) (len : Nat) (captureTime : ByteString) : Option ByteString := do
  let eth ← loadEtherHeader b
  let network ← printNetwork b
  some (printEthernetInfo eth len ++ network ++ captureTime)

variable {b : ByteBuffer}

theorem holds_loadArray {n addr : Nat} {P : (Fin n → UInt8) → Prop} :
    Holds (loadArray b n addr) P ↔
      (n = 0 ∨ addr + n ≤ b.size) ∧ P fun i => b.bytes (addr + i.val) := by
  have contents : (fun i : Fin n => ((List.range' addr n).map b.bytes).getD i.val 0) =
      fun i => b.bytes (addr + i.val) := by
    funext i
    simp
  simp only [loadArray, holds_bind, holds_loads, holds_some, contents]

theorem holds_load32 {addr : Nat} {P : Nat → Prop} :
    Holds (load32 b addr) P ↔ addr + 3 < b.size ∧ P (read32 b.bytes addr) := by
  simp only [load32, holds_bind, holds_load16, holds_some, read32]
  constructor
  · rintro ⟨_, high, result⟩
    exact ⟨high, result⟩
  · rintro ⟨high, result⟩
    exact ⟨by omega, high, result⟩

theorem holds_loadEtherHeader {P : EtherHeader → Prop} :
    Holds (loadEtherHeader b) P ↔ 14 ≤ b.size ∧ P (.overlay b.bytes) := by
  have overlay : (⟨fun i => b.bytes (6 + i.val), fun i => b.bytes (0 + i.val),
      read16 b.bytes 12⟩ : EtherHeader) = .overlay b.bytes := by
    simp only [Nat.zero_add]
    rfl
  simp only [loadEtherHeader, holds_bind, holds_loadArray, holds_load16, holds_some, overlay]
  constructor
  · rintro ⟨_, _, type, result⟩
    exact ⟨type, result⟩
  · rintro ⟨inside, result⟩
    exact ⟨by omega, by omega, inside, result⟩

theorem holds_loadIphdr {ip : Nat} {P : Iphdr → Prop} :
    Holds (loadIphdr b ip) P ↔ ip + 20 ≤ b.size ∧ P (.overlay b.bytes ip) := by
  simp only [loadIphdr, holds_bind, holds_loadArray, holds_load, holds_load16, holds_some]
  constructor
  · rintro ⟨_, daddr, _, _, _, result⟩
    exact ⟨by omega, result⟩
  · rintro ⟨inside, result⟩
    exact ⟨by omega, by omega, by omega, by omega, by omega, result⟩

theorem holds_loadIcmphdr {icmp : Nat} {P : Icmphdr → Prop} :
    Holds (loadIcmphdr b icmp) P ↔ icmp + 2 ≤ b.size ∧ P (.overlay b.bytes icmp) := by
  simp only [loadIcmphdr, holds_bind, holds_load, holds_some]
  constructor
  · rintro ⟨_, code, result⟩
    exact ⟨code, result⟩
  · rintro ⟨inside, result⟩
    exact ⟨by omega, inside, result⟩

theorem holds_loadTcphdr {tcp : Nat} {P : Tcphdr → Prop} :
    Holds (loadTcphdr b tcp) P ↔ tcp + 16 ≤ b.size ∧ P (.overlay b.bytes tcp) := by
  simp only [loadTcphdr, holds_bind, holds_load, holds_load16, holds_load32, holds_some]
  constructor
  · rintro ⟨_, _, _, _, _, _, window, result⟩
    exact ⟨window, result⟩
  · rintro ⟨inside, result⟩
    exact ⟨by omega, by omega, by omega, by omega, by omega, by omega, inside, result⟩

theorem holds_loadUdphdr {udp : Nat} {P : Udphdr → Prop} :
    Holds (loadUdphdr b udp) P ↔ udp + 6 ≤ b.size ∧ P (.overlay b.bytes udp) := by
  simp only [loadUdphdr, holds_bind, holds_load16, holds_some]
  constructor
  · rintro ⟨_, _, len, result⟩
    exact ⟨len, result⟩
  · rintro ⟨inside, result⟩
    exact ⟨by omega, by omega, inside, result⟩

/-- The fields printed of the transport header lie inside. -/
def TransportFits (m : Memory) (size : Nat) : Prop :=
  if ipP m ipPacket = ipprotoIcmp then transportHeader m + 2 ≤ size
  else if ipP m ipPacket = ipprotoTcp then 50 ≤ size
  else if ipP m ipPacket = ipprotoUdp then 40 ≤ size
  else True

/-- The capture is long enough for the headers that are decoded of it. -/
def Fits (m : Memory) (size : Nat) : Prop :=
  14 ≤ size ∧ (ntohs (etherType m) = ethertypeIp → 34 ≤ size ∧ TransportFits m size)

theorem holds_printIcmp {P : ByteString → Prop} (header : 34 ≤ b.size) :
    Holds (printIcmp b) P ↔ transportHeader b.bytes + 2 ≤ b.size ∧
      P ((Transport.icmp.call b.bytes (transportHeader b.bytes)).text b.bytes) := by
  simp only [printIcmp, holds_bind, holds_load, holds_load16, holds_loadIcmphdr, holds_some]
  constructor
  · rintro ⟨_, _, inside, result⟩
    exact ⟨inside, result⟩
  · rintro ⟨inside, result⟩
    have fields : ipPacket + 3 < b.size := by
      rw [ipPacket, sizeofEtherHeader]
      omega
    exact ⟨by omega, fields, inside, result⟩

theorem holds_printTcp {P : ByteString → Prop} :
    Holds (printTcp b) P ↔ 50 ≤ b.size ∧
      P ((Transport.tcp.call b.bytes (sizeofEtherHeader + sizeofIphdr)).text b.bytes) := by
  simp only [printTcp, holds_bind, holds_loadTcphdr, holds_some]
  rfl

theorem holds_printUdp {P : ByteString → Prop} :
    Holds (printUdp b) P ↔ 40 ≤ b.size ∧
      P ((Transport.udp.call b.bytes (sizeofEtherHeader + sizeofIphdr)).text b.bytes) := by
  simp only [printUdp, holds_bind, holds_loadUdphdr, holds_some]
  rfl

theorem holds_printTransport {P : ByteString → Prop} (header : 34 ≤ b.size) :
    Holds (printTransport b) P ↔
      TransportFits b.bytes b.size ∧ P (PacketProcessor.printTransport b.bytes) := by
  have inside : ipPacket + 9 < b.size := by
    rw [ipPacket, sizeofEtherHeader]
    omega
  have field : b.bytes (ipPacket + 9) = ipP b.bytes ipPacket := rfl
  simp only [printTransport, holds_bind, holds_load, inside, true_and, field, TransportFits,
    PacketProcessor.printTransport, transportCall]
  by_cases icmp : ipP b.bytes ipPacket = ipprotoIcmp
  · simp only [if_pos icmp]
    exact holds_printIcmp header
  by_cases tcp : ipP b.bytes ipPacket = ipprotoTcp
  · simp only [if_neg icmp, if_pos tcp]
    exact holds_printTcp
  by_cases udp : ipP b.bytes ipPacket = ipprotoUdp
  · simp only [if_neg icmp, if_neg tcp, if_pos udp]
    exact holds_printUdp
  · simp only [if_neg icmp, if_neg tcp, if_neg udp, holds_some, true_and]

theorem holds_printIp {P : ByteString → Prop} :
    Holds (printIp b) P ↔ (34 ≤ b.size ∧ TransportFits b.bytes b.size) ∧
      P (printIpInfo (.overlay b.bytes ipPacket) ++ PacketProcessor.printTransport b.bytes) := by
  simp only [printIp, holds_bind, holds_loadIphdr, holds_some]
  constructor
  · rintro ⟨header, rest⟩
    obtain ⟨transport, result⟩ := (holds_printTransport header).mp rest
    exact ⟨⟨header, transport⟩, result⟩
  · rintro ⟨⟨header, transport⟩, result⟩
    exact ⟨header, (holds_printTransport header).mpr ⟨transport, result⟩⟩

theorem holds_printNetwork {P : ByteString → Prop} (ethernet : 14 ≤ b.size) :
    Holds (printNetwork b) P ↔
      (ntohs (etherType b.bytes) = ethertypeIp → 34 ≤ b.size ∧ TransportFits b.bytes b.size) ∧
        P (if ntohs (etherType b.bytes) = ethertypeIp then
          printIpInfo (.overlay b.bytes ipPacket) ++ PacketProcessor.printTransport b.bytes
        else []) := by
  have inside : 12 + 1 < b.size := by omega
  have field : read16 b.bytes 12 = etherType b.bytes := rfl
  simp only [printNetwork, holds_bind, holds_load16, inside, true_and, field]
  by_cases ip : ntohs (etherType b.bytes) = ethertypeIp
  · rw [if_pos ip, if_pos ip, holds_printIp]
    exact and_congr_left fun _ => ⟨fun fits _ => fits, fun fits => fits ip⟩
  · rw [if_neg ip, if_neg ip, holds_some]
    exact (and_iff_right fun h => absurd h ip).symm

/-- No read fails exactly when the capture fits, and then the text is that of the
unchecked model. -/
theorem holds_handler {len : Nat} {captureTime : ByteString} {P : ByteString → Prop} :
    Holds (handler b len captureTime) P ↔
      Fits b.bytes b.size ∧ P (PacketProcessor.handler b.bytes len captureTime) := by
  simp only [handler, holds_bind, holds_loadEtherHeader, holds_some]
  constructor
  · rintro ⟨ethernet, rest⟩
    obtain ⟨fits, result⟩ := (holds_printNetwork ethernet).mp rest
    exact ⟨⟨ethernet, fits⟩, result⟩
  · rintro ⟨⟨ethernet, fits⟩, result⟩
    exact ⟨ethernet, (holds_printNetwork ethernet).mpr ⟨fits, result⟩⟩

/-- All bytes that are decoded of a capture were captured exactly when the capture is long
enough for the headers that are decoded of it. -/
theorem reads_captured_iff_fits (f : Capture) (captureTime : ByteString) :
    (handler ⟨f.packet, f.caplen⟩ f.len captureTime).isSome = true ↔ Fits f.packet f.caplen := by
  rw [isSome_iff_holds, holds_handler, and_true]

/-- A UDP frame of 38 bytes, captured whole: it ends before the length field of its header. -/
theorem cut_capture_overread :
    (handler ⟨frameOf 0x45 24 ipprotoUdp [0, 80, 15, 160], 38⟩ 38 []).isSome = false := by
  decide

end PacketBounds
