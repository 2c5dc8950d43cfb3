import MoexDecoder.Spec.Frames
import MoexDecoder.Spec.Packet
import MoexDecoder.Spec.Program

/-!
# Captures of a feed

What a capture of a market data feed is, and what is to be written of it. A `Datagram` is
a frame of a packet as it is sent, in UDP; a feed holds other frames besides.

`feedFiles` says what is in the files of a feed without saying how they come about: the
CSV has a line for each order, the book a text for each snapshot, in the order they were
sent.
-/

namespace MoexDecoder

/-- The frame of a market data packet. -/
structure Datagram where
  /-- the Ethernet, IP and UDP headers -/
  head : List UInt8
  packet : Packet
  /-- what stands behind the packet -/
  trailing : List UInt8
  ihl : 5 ≤ (head.getD ETH_PACKET_SIZE 0 &&& 0xF).toNat
  head_length : head.length =
    ETH_PACKET_SIZE + (head.getD ETH_PACKET_SIZE 0 &&& 0xF).toNat * 4 + UDP_HEADER_SIZE
  protocol : head.getD (ETH_PACKET_SIZE + 9) 0 = UDP_PROTOCOL

namespace Datagram

def payload (d : Datagram) : List UInt8 := d.packet.encode ++ d.trailing

def frame (d : Datagram) : List UInt8 := d.head ++ d.payload

def messages (d : Datagram) : List Message := d.packet.messages.map (·.message)

end Datagram

/-- A captured frame of a feed. -/
inductive FeedFrame
  | datagram (d : Datagram)
  /-- a frame of another protocol -/
  | other (frame : List UInt8) (long : 24 ≤ frame.length) (protocol : frameProtocol frame ≠ UDP_PROTOCOL)

namespace FeedFrame

def bytes : FeedFrame → List UInt8
  | datagram d => d.frame
  | other frame _ _ => frame

def messages : FeedFrame → List Message
  | datagram d => d.messages
  | other _ _ _ => []

end FeedFrame

/-- The messages of a feed. -/
def feedMessages (frames : List FeedFrame) : List Message := frames.flatMap FeedFrame.messages

/-! ## What is to be written -/

namespace Message

/-- The message goes to the CSV. -/
def isOrder : Message → Bool
  | orderUpdate _ | orderExecution _ => true
  | orderBookSnapshot _ _ => false

/-- The side of an order, and the action of an update, have a name. -/
def Printable : Message → Prop
  | orderUpdate u => IsAction u.action.toByte ∧ IsSide u.side.toByte
  | orderExecution x => IsSide x.side.toByte
  | orderBookSnapshot _ _ => True

instance : DecidablePred Printable
  | orderUpdate _ => inferInstanceAs (Decidable (_ ∧ _))
  | orderExecution x => inferInstanceAs (Decidable (IsSide x.side.toByte))
  | orderBookSnapshot _ _ => isTrue trivial

variable (f : Printing)

/-- The line of a message that is printable. -/
def text (m : Message) : String :=
  match m.told.line f with
  | .ok line => line
  | .error _ => ""

end Message

end MoexDecoder
