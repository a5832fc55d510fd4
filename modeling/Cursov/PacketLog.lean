import Cursov.PacketProcessor
import Cursov.PrintedFields

/-!
# The log of the packet sniffer

`pcap_loop` passes every captured packet to `handler`, so a session prints the texts of
its packets one after the other. What this log tells of the packets is what can be read
back from it, also while the sniffer is still running.
-/

namespace PacketLog

open Bytes Utilities CommutationTable Frame PacketProcessor Formats PrintedFields

/-- `struct tm` as `localtime` fills it; years are counted from 1900. -/
structure Tm where
  tmYear : Nat
  tmMon : Fin 12
  tmMday : Fin 32
  tmHour : Fin 24
  tmMin : Fin 60
  tmSec : Fin 61
  tmYear_lt : tmYear < 2 ^ 31

/-- `strftime` with `"%Y-%m-%d %H:%M:%S"`. -/
def strftime (tm : Tm) : ByteString :=
  decimal (tm.tmYear + 1900) ++ literal "-" ++ padded 2 (tm.tmMon + 1) ++
    literal "-" ++ padded 2 tm.tmMday ++ literal " " ++ padded 2 tm.tmHour ++
    literal ":" ++ padded 2 tm.tmMin ++ literal ":" ++ padded 2 tm.tmSec

def sizeofTimeStr : Nat := 32

/-- The text and its NUL fit the buffer. -/
theorem strftime_fits (tm : Tm) : (strftime tm).length < sizeofTimeStr := by
  have year : (decimal (tm.tmYear + 1900)).length ≤ 10 := by
    rw [decimal, List.length_map, Nat.length_toDigits_le_iff (by decide) (by decide)]
    have bound := tm.tmYear_lt
    omega
  have two (n : Nat) (small : n < 100) : (padded 2 n).length = 2 :=
    length_padded (by decide) small
  have sizes : (literal "-").length = 1 ∧ (literal " ").length = 1 ∧ (literal ":").length = 1 :=
    ⟨rfl, rfl, rfl⟩
  simp only [strftime, List.length_append, sizes, sizeofTimeStr]
  rw [two _ (by omega), two _ (by omega), two _ (by omega), two _ (by omega), two _ (by omega)]
  omega

/-- A captured packet with the time stamp of its header. -/
structure Packet where
  capture : Capture
  tvSec : Int
  tvUsec : Nat

def printPacketCaptureTime (localtime : Int → Tm) (p : Packet) : ByteString :=
  literal "Capture time: " ++ strftime (localtime p.tvSec) ++ literal "." ++
    padded 6 p.tvUsec ++ [newline]

/-- The header, its type in host order. -/
def EtherHeader.told (eth : EtherHeader) : EtherHeader :=
  { eth with etherType := ntohs eth.etherType }

def Iphdr.told (ip : Iphdr) : Iphdr := { ip with totLen := ntohs ip.totLen }

/-- The bits of the flags that are tested. -/
def testedFlags : UInt8 := 0x3f

def Tcphdr.told (tcp : Tcphdr) : Tcphdr where
  doff := tcp.doff
  source := ntohs tcp.source
  dest := ntohs tcp.dest
  seq := ntohl tcp.seq
  ackSeq := ntohl tcp.ackSeq
  thFlags := tcp.thFlags &&& testedFlags
  window := ntohs tcp.window

/-- The length is told as the size of the data. -/
def Udphdr.told (udp : Udphdr) : Udphdr where
  source := ntohs udp.source
  dest := ntohs udp.dest
  len := (udpDataSize udp.len).toNat

theorem ethernet_shows : Shows (fun p : EtherHeader × Nat => printEthernetInfo p.1 p.2) Anything
    fun p => (EtherHeader.told p.1, p.2) := by
  have mac (f : EtherHeader × Nat → Mac) : Shows (fun p => macToString (f p))
      (StartsOutside isDigit) f := (macToString_shows.comap f).mono fun _ _ => trivial
  have type := hexadecimal_shows.comap fun p : EtherHeader × Nat => ntohs p.1.etherType
  have format := ((decimal_shows.comap Prod.snd).separated
    (literal " bytes) ===\n" ++ literal "[L2] Ethernet: src = ") rfl <|
      (mac fun p => p.1.etherShost).separated (literal ", dst = ") rfl <|
      (mac fun p => p.1.etherDhost).separated (literal ", type: 0x") rfl <|
      type.closed [newline] rfl).behind (literal "\n=== Packet (")
  refine (format.of_iff fun p q => ?_).of_eq fun p => ?_
  · simp only [Prod.mk.injEq, EtherHeader.told, EtherHeader.mk.injEq, id]
    tauto
  · simp only [printEthernetInfo, List.append_assoc]

theorem ip_shows : Shows printIpInfo Anything Iphdr.told := by
  have format := ((dotted_shows.comap Iphdr.saddr).separated (literal ", dst = ") rfl <|
    (dotted_shows.comap Iphdr.daddr).separated (literal ", proto = ") rfl <|
    (byte_shows.comap Iphdr.protocol).separated (literal ", ttl = ") rfl <|
    (byte_shows.comap Iphdr.ttl).separated (literal ", len = ") rfl <|
    (decimal_shows.comap fun ip : Iphdr => ntohs ip.totLen).closed
      (literal " bytes\n") rfl).behind (literal "[L3] IP: src = ")
  refine (format.of_iff fun a b => ?_).of_eq fun a => ?_
  · simp only [Prod.mk.injEq, Iphdr.told, Iphdr.mk.injEq, id]
  · simp only [printIpInfo, List.append_assoc]

theorem icmp_shows :
    Shows (fun p : Icmphdr × UInt32 => printIcmpInfo p.1 p.2) Anything id := by
  have size : Shows (fun p : Icmphdr × UInt32 => decimal p.2.toNat) (StartsOutside isDigit)
      Prod.snd := (decimal_shows.comap fun p : Icmphdr × UInt32 => p.2.toNat).of_iff
        fun _ _ => UInt32.toNat_inj
  have format := ((byte_shows.comap fun p : Icmphdr × UInt32 => p.1.type).separated
    (literal ", code = ") rfl <|
    (byte_shows.comap fun p => p.1.code).separated (literal ", size = ") rfl <|
    size.closed (literal " bytes\n") rfl).behind (literal "[L4] ICMP: type = ")
  refine (format.of_iff fun ⟨⟨_, _⟩, _⟩ ⟨⟨_, _⟩, _⟩ => ?_).of_eq fun p => ?_
  · simp only [Prod.mk.injEq, Icmphdr.mk.injEq, id, and_assoc]
  · simp only [printIcmpInfo, List.append_assoc]

/-- The masks with the names, in the order in which they are printed. -/
def flagWords : List (Word UInt8 UInt8) :=
  [(0x02, 83, [89, 78, 32]), (0x10, 65, [67, 75, 32]), (0x01, 70, [73, 78, 32]),
    (0x04, 82, [83, 84, 32]), (0x08, 80, [83, 72, 32]), (0x20, 85, [82, 71, 32])].map
      fun (mask, first, others) => ⟨fun flags => decide (flags &&& mask ≠ 0), first, others⟩

theorem flagNames_eq (flags : UInt8) : flagNames flags = words flagWords flags := by
  simp only [words, flagWords, List.map_cons, List.map_nil, List.flatMap_cons, List.flatMap_nil,
    Word.text, decide_eq_true_eq, List.append_nil, flagNames, List.append_assoc]
  rfl

/-- Of a mask with one bit a byte has all or nothing. -/
theorem single_bit (flags : UInt8) (i : Fin 8) :
    flags &&& (1 <<< UInt8.ofNat i) = 0 ∨
      flags &&& (1 <<< UInt8.ofNat i) = 1 <<< UInt8.ofNat i := by
  have all : ∀ n : Fin 256, ∀ i : Fin 8, UInt8.ofNat n &&& (1 <<< UInt8.ofNat i) = 0 ∨
      UInt8.ofNat n &&& (1 <<< UInt8.ofNat i) = 1 <<< UInt8.ofNat i := by decide +kernel
  have bits := all ⟨flags.toNat, flags.toNat_lt⟩ i
  rwa [UInt8.ofNat_toNat] at bits

theorem masked_eq {a b : UInt8} (mask : UInt8) (i : Fin 8) (single : mask = 1 <<< UInt8.ofNat i)
    (same : decide (a &&& mask ≠ 0) = decide (b &&& mask ≠ 0)) : a &&& mask = b &&& mask := by
  subst single
  rw [decide_eq_decide] at same
  rcases single_bit a i with ha | ha
  · by_contra other
    exact same.mpr (fun hb => other (ha.trans hb.symm)) ha
  · rcases single_bit b i with hb | hb
    · by_contra other
      exact same.mp (fun ha => other (ha.trans hb.symm)) hb
    · exact ha.trans hb.symm

/-- The tested bits are six single ones. -/
theorem tested_eq (flags : UInt8) : flags &&& testedFlags =
    (flags &&& 0x02) ||| (flags &&& 0x10) ||| (flags &&& 0x01) ||| (flags &&& 0x04) |||
      (flags &&& 0x08) ||| (flags &&& 0x20) := by
  have all : ∀ n : Fin 256, UInt8.ofNat n &&& testedFlags =
      (UInt8.ofNat n &&& 0x02) ||| (UInt8.ofNat n &&& 0x10) ||| (UInt8.ofNat n &&& 0x01) |||
        (UInt8.ofNat n &&& 0x04) ||| (UInt8.ofNat n &&& 0x08) ||| (UInt8.ofNat n &&& 0x20) := by
    decide +kernel
  have bits := all ⟨flags.toNat, flags.toNat_lt⟩
  rwa [UInt8.ofNat_toNat] at bits

def isUpper (b : UInt8) : Bool := 65 ≤ b && b ≤ 90

theorem flags_shows :
    Shows flagNames (StartsOutside isUpper) (fun flags => flags &&& testedFlags) := by
  have upper : ∀ c ∈ flagWords.map Word.first, isUpper c = true := by
    simp [flagWords, isUpper]
  have distinct : (flagWords.map Word.first).Nodup := by
    simp [flagWords]
  have format : Shows (words flagWords) (StartsOutside isUpper) _ :=
    (shows_words distinct).mono fun rest outside c first =>
      decide_eq_false fun mem => Bool.noConfusion ((outside c first).symm.trans (upper c mem))
  refine (format.of_iff fun a b => ?_).of_eq flagNames_eq
  simp only [flagWords, List.map_cons, List.map_nil, List.cons.injEq, and_true]
  constructor
  · rintro ⟨syn, ack, fin, rst, psh, urg⟩
    rw [tested_eq, tested_eq, masked_eq 0x02 1 rfl syn, masked_eq 0x10 4 rfl ack,
      masked_eq 0x01 0 rfl fin, masked_eq 0x04 2 rfl rst, masked_eq 0x08 3 rfl psh,
      masked_eq 0x20 5 rfl urg]
  · intro same
    have bit (mask : UInt8) (tested : testedFlags &&& mask = mask) :
        decide (a &&& mask ≠ 0) = decide (b &&& mask ≠ 0) := by
      rw [← tested, ← UInt8.and_assoc, ← UInt8.and_assoc, same]
    exact ⟨bit _ rfl, bit _ rfl, bit _ rfl, bit _ rfl, bit _ rfl, bit _ rfl⟩

theorem tcp_shows : Shows printTcpInfo Anything Tcphdr.told := by
  have format := ((decimal_shows.comap fun tcp : Tcphdr => ntohs tcp.source).separated
    (literal ", dport = ") rfl <|
    (decimal_shows.comap fun tcp => ntohs tcp.dest).separated (literal ", seq = ") rfl <|
    (decimal_shows.comap fun tcp => ntohl tcp.seq).separated (literal ", ack = ") rfl <|
    (decimal_shows.comap fun tcp => ntohl tcp.ackSeq).separated (literal ", flags: ") rfl <|
    (flags_shows.comap Tcphdr.thFlags).separated (literal ", win = ") rfl <|
    (decimal_shows.comap fun tcp => ntohs tcp.window).separated (literal ", header len = ") rfl <|
    (decimal_shows.comap fun tcp => tcp.doff * 4).closed
      (literal " bytes\n") rfl).behind (literal "[L4] TCP: sport = ")
  refine (format.of_iff fun a b => ?_).of_eq fun a => ?_
  · simp only [Prod.mk.injEq, Tcphdr.told, Tcphdr.mk.injEq, id,
      Nat.mul_left_inj (by decide : 4 ≠ 0)]
    tauto
  · simp only [printTcpInfo, List.append_assoc]

theorem udp_shows : Shows printUdpInfo Anything Udphdr.told := by
  have format := ((decimal_shows.comap fun udp : Udphdr => ntohs udp.source).separated
    (literal ", dport = ") rfl <|
    (decimal_shows.comap fun udp => ntohs udp.dest).separated (literal ", len = ") rfl <|
    (decimal_shows.comap fun udp => (udpDataSize udp.len).toNat).closed
      (literal " bytes\n") rfl).behind (literal "[L4] UDP: sport = ")
  refine (format.of_iff fun a b => ?_).of_eq fun a => ?_
  · simp only [Prod.mk.injEq, Udphdr.told, Udphdr.mk.injEq, id]
  · simp only [printUdpInfo, List.append_assoc]

/-- The transport headers that are printed; the size of the ICMP data is computed for it. -/
abbrev TransportHeader := Icmphdr × UInt32 ⊕ Tcphdr ⊕ Udphdr

def transportHeader (m : Memory) : Option TransportHeader :=
  (transportCall m).map fun
    | .printIcmpInfo icmp dataSize => Sum.inl (Icmphdr.overlay m icmp, dataSize)
    | .printTcpInfo tcp => Sum.inr (Sum.inl (Tcphdr.overlay m tcp))
    | .printUdpInfo udp => Sum.inr (Sum.inr (Udphdr.overlay m udp))

def transportText : TransportHeader → ByteString :=
  Sum.elim (fun p => printIcmpInfo p.1 p.2) (Sum.elim printTcpInfo printUdpInfo)

def toldTransport : TransportHeader → TransportHeader :=
  Sum.map id (Sum.map Tcphdr.told Udphdr.told)

theorem printTransport_eq (m : Memory) :
    printTransport m = (transportHeader m).elim [] transportText := by
  rw [printTransport, transportHeader]
  cases transportCall m with
  | none => rfl
  | some call => cases call <;> rfl

/-- The three kinds differ in the first letter of the protocol. -/
theorem transport_shows : Shows transportText Anything toldTransport := by
  apply icmp_shows.sum
  · apply tcp_shows.sum udp_shows
    intro a b rest rest'
    simp only [printTcpInfo, printUdpInfo, List.append_assoc]
    exact append_ne_append 5 rfl rfl (by decide) _ _
  · rintro a (b | b) rest rest'
    · simp only [printIcmpInfo, Sum.elim_inl, printTcpInfo, List.append_assoc]
      exact append_ne_append 5 rfl rfl (by decide) _ _
    · simp only [printIcmpInfo, Sum.elim_inr, printUdpInfo, List.append_assoc]
      exact append_ne_append 5 rfl rfl (by decide) _ _

theorem strftime_shows : Shows strftime (StartsOutside isDigit) id := by
  have two (f : Tm → Nat) : Shows (fun tm => padded 2 (f tm)) (StartsOutside isDigit) f :=
    (padded_shows 2).comap f
  have format := (decimal_shows.comap fun tm : Tm => tm.tmYear + 1900).separated
    (literal "-") rfl <|
    (two fun tm => tm.tmMon + 1).separated (literal "-") rfl <|
    (two fun tm => tm.tmMday).separated (literal " ") rfl <|
    (two fun tm => tm.tmHour).separated (literal ":") rfl <|
    (two fun tm => tm.tmMin).separated (literal ":") rfl (two fun tm => tm.tmSec)
  refine (format.of_iff fun a b => ?_).of_eq fun a => ?_
  · cases a; cases b
    simp only [Prod.mk.injEq, Tm.mk.injEq, id, Nat.add_right_cancel_iff, Fin.val_inj]
  · simp only [strftime, List.append_assoc]

theorem captureTime_shows (localtime : Int → Tm) :
    Shows (printPacketCaptureTime localtime) Anything fun p => (localtime p.tvSec, p.tvUsec) := by
  have format := ((strftime_shows.comap fun p : Packet => localtime p.tvSec).separated
    (literal ".") rfl <|
    ((padded_shows 6).comap Packet.tvUsec).closed [newline] rfl).behind (literal "Capture time: ")
  refine format.of_eq fun p => ?_
  simp only [printPacketCaptureTime, List.append_assoc]

/-- The IP part of a frame, if it has one. -/
def network (m : Memory) : Option (Iphdr × Option TransportHeader) :=
  if ntohs (etherType m) = ethertypeIp then some (Iphdr.overlay m ipPacket, transportHeader m)
  else none

def networkText (p : Iphdr × Option TransportHeader) : ByteString :=
  printIpInfo p.1 ++ p.2.elim [] transportText

def toldNetwork (p : Iphdr × Option TransportHeader) : Iphdr × Option TransportHeader :=
  (Iphdr.told p.1, p.2.map toldTransport)

/-- The lines of the upper layers start with a bracket, that of the capture time does not. -/
def isBracket (b : UInt8) : Bool := b == 91

theorem network_shows :
    Shows (fun o : Option _ => o.elim [] networkText) (StartsOutside isBracket)
      (fun o => o.map toldNetwork) := by
  have transport := (transport_shows.mono fun _ _ => trivial).option (p := isBracket) fun h => by
    rcases h with p | h | h
    · simp only [transportText, Sum.elim_inl, printIcmpInfo, List.append_assoc]
      rfl
    · simp only [transportText, Sum.elim_inr, Sum.elim_inl, printTcpInfo, List.append_assoc]
      rfl
    · simp only [transportText, Sum.elim_inr, printUdpInfo, List.append_assoc]
      rfl
  refine Shows.option ?_ fun p => ?_
  · exact (ip_shows.comap Prod.fst).append (transport.comap Prod.snd) fun _ _ _ => trivial
  · simp only [networkText, printIpInfo, List.append_assoc]
    rfl

/-- Everything that a session tells of one packet: the printed fields of its headers, the
size of the ICMP data among them. -/
structure Report where
  len : Nat
  ethernet : EtherHeader
  network : Option (Iphdr × Option TransportHeader)
  time : Tm
  tvUsec : Nat

def report (localtime : Int → Tm) (p : Packet) : Report where
  len := p.capture.len
  ethernet := EtherHeader.told (.overlay p.capture.packet)
  network := (network p.capture.packet).map toldNetwork
  time := localtime p.tvSec
  tvUsec := p.tvUsec

/-- What `handler` prints for the packet. -/
def Packet.text (localtime : Int → Tm) (p : Packet) : ByteString :=
  handler p.capture.packet p.capture.len (printPacketCaptureTime localtime p)

theorem packet_shows (localtime : Int → Tm) :
    Shows (Packet.text localtime) Anything (report localtime) := by
  have format := (ethernet_shows.comap fun p : Packet =>
    (EtherHeader.overlay p.capture.packet, p.capture.len)).append
      ((network_shows.comap fun p : Packet => network p.capture.packet).append
        (captureTime_shows localtime) fun p rest _ => by
          simp only [printPacketCaptureTime, List.append_assoc]
          exact startsOutside_of_head rfl _)
      fun _ _ _ => trivial
  refine (format.of_iff fun a b => ?_).of_eq fun p => ?_
  · simp only [Prod.mk.injEq, report, Report.mk.injEq]
    tauto
  · rw [Packet.text, handler, network, List.append_assoc]
    split
    · rw [Option.elim_some, networkText, printTransport_eq]
    · rw [Option.elim_none]

/-- What `pcap_loop` prints of the packets that it passes to `handler`. -/
def log (localtime : Int → Tm) (packets : List Packet) : ByteString :=
  packets.flatMap (Packet.text localtime)

theorem text_ne_nil (localtime : Int → Tm) (p : Packet) : Packet.text localtime p ≠ [] := by
  simp only [Packet.text, handler, printEthernetInfo, List.append_assoc]
  exact List.cons_ne_nil _ _

/-- A log that goes on like another one reports the same packets first, and conversely. -/
theorem log_prefix_iff (localtime : Int → Tm) (packets packets' : List Packet) :
    log localtime packets <+: log localtime packets' ↔
      packets.map (report localtime) <+: packets'.map (report localtime) :=
  (packet_shows localtime).flatMap_prefix_iff (text_ne_nil localtime) packets packets'

end PacketLog
