import Cursov.CommutationTable

/-!
# Captured frames and the ICMP substitution

A frame is the memory at the packet pointer together with the two lengths of its
capture header. The header overlays read fixed offsets of that memory, so a
frame shorter than its headers yields whatever bytes follow it. The host is
little-endian.
-/

namespace Frame

open Bytes CommutationTable

abbrev Memory := Nat → UInt8

/-- What `pcap_next` delivers: `caplen` captured bytes of a frame of `len` bytes.
Bytes from `caplen` on are those that happen to follow the capture. -/
structure Capture where
  packet : Memory
  caplen : Nat
  len : Nat

def bytesAt (m : Memory) (addr count : Nat) : ByteString :=
  (List.range count).map fun i => m (addr + i)

def read16 (m : Memory) (addr : Nat) : Nat :=
  (m addr).toNat + 256 * (m (addr + 1)).toNat

def write16 (m : Memory) (addr value : Nat) : Memory :=
  Function.update (Function.update m addr (UInt8.ofNat (value % 256))) (addr + 1)
    (UInt8.ofNat (value / 256 % 256))

/-- `ntohs` on a 16-bit value. -/
def ntohs (value : Nat) : Nat :=
  256 * (value % 256) + value / 256 % 256

def sizeofEtherHeader : Nat := 14
def ethertypeIp : Nat := 0x0800
def ipprotoIcmp : UInt8 := 1
def icmpEchoReply : UInt8 := 0
def icmpEcho : UInt8 := 8

def etherDhost (m : Memory) : Mac := fun i => m i.val
def etherShost (m : Memory) : Mac := fun i => m (6 + i.val)
def etherType (m : Memory) : Nat := read16 m 12

/-- `ip_hl`, the low half of the first header byte. -/
def ipHl (m : Memory) (ip : Nat) : Nat := (m ip).toNat % 16
def ipLen (m : Memory) (ip : Nat) : Nat := read16 m (ip + 2)
def ipP (m : Memory) (ip : Nat) : UInt8 := m (ip + 9)
def ipSrc (m : Memory) (ip : Nat) : Fin 4 → UInt8 := fun i => m (ip + 12 + i.val)
def ipDst (m : Memory) (ip : Nat) : Fin 4 → UInt8 := fun i => m (ip + 16 + i.val)

/-- `while (len > 1)` over 16-bit words and the odd last byte, in a 32-bit sum. -/
def checksumLoop (m : Memory) : (len addr sum : Nat) → Nat
  | 0, _, sum => sum
  | 1, addr, sum => (sum + (m addr).toNat) % 2 ^ 32
  | len + 2, addr, sum => checksumLoop m len (addr + 2) ((sum + read16 m addr) % 2 ^ 32)

/-- A negative length sums nothing. The carries are folded once. -/
def checksum (m : Memory) (addr : Nat) (len : Int) : Nat :=
  let sum := checksumLoop m len.toNat addr 0
  let folded := (sum / 2 ^ 16 + sum % 2 ^ 16) % 2 ^ 32
  2 ^ 16 - 1 - folded % 2 ^ 16

/-- `ttl_substitution_cfg`; the addresses are in network order. -/
structure TtlSubstitutionCfg where
  isActive : Bool
  clientIp : Fin 4 → UInt8
  serverIp : Fin 4 → UInt8

def isTargetIcmpPacket (m : Memory) (ip : Nat) (cfg : TtlSubstitutionCfg) : Bool :=
  ipSrc m ip = cfg.clientIp ∧ ipDst m ip = cfg.serverIp

/-- The condition under which `processPacket` sends a modified copy. -/
def substitutes (cfg : TtlSubstitutionCfg) (m : Memory) : Bool :=
  cfg.isActive && ntohs (etherType m) = ethertypeIp &&
    (ipP m sizeofEtherHeader = ipprotoIcmp && isTargetIcmpPacket m sizeofEtherHeader cfg &&
      m (sizeofEtherHeader + 4 * ipHl m sizeofEtherHeader) = icmpEchoReply)

/-- The copy in fresh memory and its rewritten fields, in the order of the writes.
`scratch` is what the heap held there; the lengths are read from the copy again. -/
def modifiedPacket (m : Memory) (packetLength : Nat) (scratch : Memory) : Memory :=
  let copy : Memory := fun i => if i < packetLength then m i else scratch i
  let modIph := sizeofEtherHeader
  let modIcmp := modIph + 4 * ipHl copy modIph
  let typed := Function.update copy modIcmp icmpEcho
  let coded := Function.update typed (modIcmp + 1) 0
  let cleared := write16 coded (modIcmp + 2) 0
  let icmpLen : Int := (ntohs (ipLen cleared modIph) : Int) - 4 * (ipHl cleared modIph : Int)
  let summed := write16 cleared (modIcmp + 2) (checksum cleared modIcmp icmpLen)
  let unsealed := write16 summed (modIph + 10) 0
  write16 unsealed (modIph + 10) (checksum unsealed modIph (4 * ipHl unsealed modIph))

def packetToSend (cfg : TtlSubstitutionCfg) (m : Memory) (packetLength : Nat)
    (scratch : Memory) : Memory :=
  if substitutes cfg m then modifiedPacket m packetLength scratch else m

namespace Capture

def shost (f : Capture) : Mac := etherShost f.packet
def dhost (f : Capture) : Mac := etherDhost f.packet

/-- The bytes handed to `pcap_sendpacket`; `captureThread` passes `header.len`. -/
def sentBytes (f : Capture) (cfg : TtlSubstitutionCfg) (scratch : Memory) : ByteString :=
  bytesAt (packetToSend cfg f.packet f.len scratch) 0 f.len

end Capture

end Frame
