import MoexDecoder.Spec.PacketProcessor

/-!
# What a frame says

The header fields in the bytes of a frame, and frames of IPv4 datagrams as they are
sent. A `noting` handler keeps a list of the payloads it was given.
-/

namespace MoexDecoder

/-- The span lies inside a frame of `len` bytes. -/
def FrameSpan.Inside (len : ℕ) : FrameSpan → Prop
  | subspan off n => off + n ≤ len
  | rest off => off ≤ len

instance (len : ℕ) (s : FrameSpan) : Decidable (s.Inside len) := by
  cases s <;> unfold FrameSpan.Inside <;> infer_instance

/-! ## Header fields -/

variable (frame : List UInt8)

def frameEtherType : List UInt8 := (frame.drop 12).take 2

def frameVersion : UInt8 := frame.getD ETH_PACKET_SIZE 0 >>> 4

/-- The length of the IP header in words. -/
def frameIhl : ℕ := (frame.getD ETH_PACKET_SIZE 0 &&& 0xF).toNat

def frameProtocol : UInt8 := frame.getD (ETH_PACKET_SIZE + 9) 0

/-- Where the UDP header starts, by the IP header. -/
def frameUdpOffset : ℕ := ETH_PACKET_SIZE + frameIhl frame * 4

/-- The length of the UDP header and the data, as the UDP header says. -/
def frameUdpLength : ℕ := (frame.getD (frameUdpOffset frame + 4) 0).toNat * 256 +
  (frame.getD (frameUdpOffset frame + 5) 0).toNat

/-- What stands behind the UDP header, to the end of the frame. -/
def framePayload : List UInt8 := frame.drop (frameUdpOffset frame + UDP_HEADER_SIZE)

/-- The UDP data, as long as the UDP header says. -/
def frameUdpData : List UInt8 := (framePayload frame).take (frameUdpLength frame - UDP_HEADER_SIZE)

/-- The EtherType of IPv4, a header of that version, of at least five words. -/
def IsIpv4 : Prop := frameEtherType frame = [0x08, 0x00] ∧ frameVersion frame = 4 ∧ 5 ≤ frameIhl frame

instance : Decidable (IsIpv4 frame) := inferInstanceAs (Decidable (_ ∧ _ ∧ _))

/-- **A complete frame** of Ethernet, IPv4 and UDP headers and a payload. -/
structure IsComplete : Prop where
  ipv4 : IsIpv4 frame
  protocol : frameProtocol frame = UDP_PROTOCOL
  headers : frameUdpOffset frame + UDP_HEADER_SIZE ≤ frame.length

/-! ## Frames as they are sent -/

/-- A frame of an IPv4 datagram, with any fields and options. Where the datagram is not
of UDP, `udp` is the first of its data. -/
structure Ipv4Frame where
  ethernet : List UInt8
  ip : List UInt8
  udp : List UInt8
  payload : List UInt8
  ethernet_length : ethernet.length = ETH_PACKET_SIZE
  version : ip.getD 0 0 >>> 4 = 4
  ihl : 5 ≤ (ip.getD 0 0 &&& 0xF).toNat
  ip_length : ip.length = (ip.getD 0 0 &&& 0xF).toNat * 4
  udp_length : udp.length = UDP_HEADER_SIZE

namespace Ipv4Frame

def encode (x : Ipv4Frame) : List UInt8 := x.ethernet ++ (x.ip ++ (x.udp ++ x.payload))

def protocol (x : Ipv4Frame) : UInt8 := x.ip.getD 9 0

end Ipv4Frame

/-! ## Handlers that take notes -/

variable {δ : Type}

/-- The handler, with the payloads it is given added to a list. -/
def noting (handler : UDPPacketHandler δ) : UDPPacketHandler (δ × List (List UInt8)) := fun udpPayload s =>
  let (st, exception) := handler udpPayload s.1
  ((st, s.2 ++ [udpPayload.bytes]), exception)

/-- The payloads that the handler of a processor was given. -/
def PacketProcessor.given (pr : PacketProcessor (δ × List (List UInt8))) : List (List UInt8) :=
  pr.handlerState.2

/-- A processor after it was given packets, whatever became of each call. -/
def PacketProcessor.after (handler : UDPPacketHandler δ) (pr : PacketProcessor δ) (packets : List Span) :
    PacketProcessor δ :=
  packets.foldl (fun pr packet => (processPacket handler packet pr).processor) pr

end MoexDecoder
