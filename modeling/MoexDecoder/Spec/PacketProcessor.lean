import MoexDecoder.Spec.SimbaDecoder

/-!
# Frames: `PacketProcessor::process_packet`

The IP header of a captured frame, and the step from the frame to the UDP payload. The
Ethernet header is parsed and then used for nothing: only its slice is here. The processor
is generic in its UDP handler, as in the source.
-/

namespace MoexDecoder

/-- `IPPacket`. -/
structure IPPacket where
  versionIhl : UInt8
  totalLength : List UInt8
  timeToLive : UInt8
  protocol : UInt8
  version : UInt8
  ihl : UInt8
deriving DecidableEq

/-- `IPPacket::IPPacket`. -/
def IPPacket.ofBuffer (packet : Mem) : IPPacket where
  versionIhl := packet 0
  totalLength := packet.read 2 2
  timeToLive := packet 8
  protocol := packet 9
  version := packet 0 >>> 4
  ihl := packet 0 &&& 0xF

/-- `IPPacket::header_length`. -/
def IPPacket.headerLength (ip : IPPacket) : ℕ := ip.ihl.toNat * 4

def ETH_PACKET_SIZE : ℕ := 14
def UDP_HEADER_SIZE : ℕ := 8
def UDP_PROTOCOL : UInt8 := 0x11

/-- A UDP handler over a state: the state after the call, and the exception that
leaves it. -/
abbrev UDPPacketHandler (δ : Type) := Span → δ → δ × Option Exception

/-- `PacketProcessor`, with the state its handler works on. -/
structure PacketProcessor (δ : Type) where
  handlerState : δ
  packetProcessed : ℕ := 1

/-- The spans that `process_packet` forms over a frame. -/
inductive FrameSpan
  /-- `off, n` -/
  | subspan (off n : ℕ)
  /-- everything from `off` on -/
  | rest (off : ℕ)
deriving DecidableEq

variable {δ : Type}

/-- What `process_packet` did with a frame. -/
structure Processed (δ : Type) where
  processor : PacketProcessor δ
  spans : List FrameSpan
  exception : Option Exception

/-- `PacketProcessor::process_packet`. -/
def processPacket (handler : UDPPacketHandler δ) (packet : Span) (pr : PacketProcessor δ) : Processed δ :=
  let ipPacket := IPPacket.ofBuffer fun i => packet.mem (ETH_PACKET_SIZE + i)
  let spans := [.subspan 0 ETH_PACKET_SIZE, .subspan ETH_PACKET_SIZE 80]
  let offset := ETH_PACKET_SIZE + ipPacket.headerLength
  if ipPacket.protocol ≠ UDP_PROTOCOL then
    ⟨pr, spans, none⟩
  else
    let offset := offset + UDP_HEADER_SIZE
    let (st, exception) := handler (packet.subspan offset) pr.handlerState
    let packetProcessed := if exception = none then pr.packetProcessed + 1 else pr.packetProcessed
    ⟨⟨st, packetProcessed⟩, spans ++ [.rest offset], exception⟩

end MoexDecoder
