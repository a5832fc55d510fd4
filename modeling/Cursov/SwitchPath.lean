import Cursov.Substitution

/-!
# A frame on its way through several switches

Every switch on the way may have a substitution of its own. A reply that one of them has
turned into a request is none for the later ones, so the whole way acts like its first
switch that rewrites the frame. All of this is for frames that every switch captures whole;
what becomes of a truncated capture is in `Substitution`.
-/

namespace SwitchPath

open Bytes CommutationTable Frame Switch InternetChecksum Substitution

/-- A switch on the way: its ports, its configuration and its state when the frame is
captured on `port`, and the memory that the copy is made in. -/
structure Hop where
  handles : Nat
  cfg : TtlSubstitutionCfg
  world : World
  port : Nat
  scratch : Memory
  duration : ℚ

def Hop.rewrites (h : Hop) (f : Capture) : Bool := substitutes h.cfg f.packet

/-- What the switch transmits for the frame. -/
def Hop.sends (h : Hop) (f : Capture) : List Transmission :=
  sentBy h.handles h.cfg h.world (.frame h.port f h.scratch h.duration)

/-- The tests and the rewrite find what they look at inside the frame. -/
structure Headed (f : Capture) : Prop where
  addresses : ipHeader + 20 ≤ f.len
  header : 1 ≤ ipHl f.packet ipHeader
  icmp : icmpHeader f.packet < f.len

/-- A frame that was captured to its end, with its headers inside it. -/
structure Whole (f : Capture) : Prop where
  complete : f.caplen = f.len
  ethernet : ipHeader ≤ f.len
  headed : ntohs (etherType f.packet) = ethertypeIp → Headed f

theorem icmpHeader_congr {m m' : Memory} (same : m ipHeader = m' ipHeader) :
    icmpHeader m = icmpHeader m' := by
  rw [icmpHeader, icmpHeader, ipHl, ipHl, same]

theorem Headed.congr {f g : Capture} (h : Headed f) (size : g.len = f.len)
    (first : f.packet ipHeader = g.packet ipHeader) : Headed g where
  addresses := size ▸ h.addresses
  header := by
    have header := h.header
    rwa [ipHl, first] at header
  icmp := by
    rw [← icmpHeader_congr first, size]
    exact h.icmp

def rewritten (h : Hop) (f : Capture) : ByteString :=
  bytesAt (modifiedPacket f.packet f.len h.scratch) 0 f.len

/-- The frame that is captured whole with these bytes. -/
def arrival (bytes : ByteString) : Capture :=
  ⟨fun i => bytes.getD i 0, bytes.length, bytes.length⟩

def onward (f : Capture) (h : Hop) : Capture := arrival (f.sentBytes h.cfg h.scratch)

end SwitchPath
