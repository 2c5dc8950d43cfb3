import MoexDecoder.Spec.Messages
import MoexDecoder.Spec.PacketProcessor

/-!
# Captured UDP records

A `UdpRecord` is the captured frame of a UDP datagram: Ethernet, IP and UDP headers and
the payload, whose decoding stays inside it. A `Replacement` is another payload for the
record. Of the 80 bytes that `process_packet` slices for the IP header it reads the first
ten, so that a frame may be shorter than the slice.
-/

namespace MoexDecoder

/-- A payload, without what lies behind it. -/
def payloadSpan (payload : List UInt8) : Span := ⟨payload, fun _ => 0⟩

/-- Every entry of every snapshot of the payload is without a price or of a named side. -/
def Clean (payload : List UInt8) : Prop :=
  ∀ v ∈ visits (payloadSpan payload), ∀ header entries,
    v.message = some (.orderBookSnapshot header entries) → ∀ e ∈ entries, e.Accepted

/-- The captured frame of a UDP datagram. -/
structure UdpRecord where
  /-- the Ethernet, IP and UDP headers -/
  head : List UInt8
  payload : List UInt8
  /-- an IP header has at least five words -/
  ihl : 5 ≤ (head.getD ETH_PACKET_SIZE 0 &&& 0xF).toNat
  head_length : head.length =
    ETH_PACKET_SIZE + (head.getD ETH_PACKET_SIZE 0 &&& 0xF).toNat * 4 + UDP_HEADER_SIZE
  protocol : head.getD (ETH_PACKET_SIZE + 9) 0 = UDP_PROTOCOL
  inside : AccessesInside (payloadSpan payload)

namespace UdpRecord

def frame (r : UdpRecord) : List UInt8 := r.head ++ r.payload

/-- Another payload for a record, of the same length. -/
structure Replacement (r : UdpRecord) where
  payload : List UInt8
  length_eq : payload.length = r.payload.length
  inside : AccessesInside (payloadSpan payload)

/-- The record with its payload replaced. -/
def Replacement.record {r : UdpRecord} (x : r.Replacement) : UdpRecord :=
  { r with payload := x.payload, inside := x.inside }

end UdpRecord

end MoexDecoder
