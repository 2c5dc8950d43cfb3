import MoexDecoder.Spec.Frames

/-!
# From frames to payloads

* `processPacket_udp`, `processPacket_other`: what `process_packet` does, by the protocol
  byte of the frame.
* `unwrapped`: of IPv4 frames the handler is given the payloads of those of UDP, in order.
* `udp_given`: of any frame the handler is given what stands behind the headers exactly
  when the protocol byte says UDP, whatever else the headers say.
* `sliced_iff`: the frames that are sliced inside their bounds.
-/

namespace MoexDecoder

variable {δ : Type} {packet : Span}

/-! ## One frame -/

/-- The fields that are read of a frame. -/
theorem ofBuffer_frame (h : 24 ≤ packet.bytes.length) :
    (IPPacket.ofBuffer fun i => packet.mem (ETH_PACKET_SIZE + i)).headerLength = frameIhl packet.bytes * 4 ∧
      (IPPacket.ofBuffer fun i => packet.mem (ETH_PACKET_SIZE + i)).protocol = frameProtocol packet.bytes := by
  have h14 : ETH_PACKET_SIZE = 14 := rfl
  have hfirst : packet.mem (ETH_PACKET_SIZE + 0) = packet.bytes.getD ETH_PACKET_SIZE 0 :=
    packet.mem_eq_getD (by omega)
  have hninth : packet.mem (ETH_PACKET_SIZE + 9) = packet.bytes.getD (ETH_PACKET_SIZE + 9) 0 :=
    packet.mem_eq_getD (by omega)
  refine ⟨?_, hninth⟩
  rw [IPPacket.headerLength, IPPacket.ofBuffer, hfirst, frameIhl]

/-- The spans over the headers. -/
def headerSpans : List FrameSpan := [.subspan 0 ETH_PACKET_SIZE, .subspan ETH_PACKET_SIZE 80]

/-- **A frame of another protocol** is left alone. -/
theorem processPacket_other (handler : UDPPacketHandler δ) (h : 24 ≤ packet.bytes.length)
    (hp : frameProtocol packet.bytes ≠ UDP_PROTOCOL) (pr : PacketProcessor δ) :
    processPacket handler packet pr = ⟨pr, headerSpans, none⟩ := by
  obtain ⟨-, hprotocol⟩ := ofBuffer_frame h
  unfold processPacket
  simp only [hprotocol]
  rw [if_pos hp]
  rfl

/-- **A frame of UDP** is handed over from behind its headers. -/
theorem processPacket_udp (handler : UDPPacketHandler δ) (h : 24 ≤ packet.bytes.length)
    (hp : frameProtocol packet.bytes = UDP_PROTOCOL) (pr : PacketProcessor δ) :
    let off := frameUdpOffset packet.bytes + UDP_HEADER_SIZE
    let r := handler (packet.subspan off) pr.handlerState
    processPacket handler packet pr =
      ⟨⟨r.1, if r.2 = none then pr.packetProcessed + 1 else pr.packetProcessed⟩,
        headerSpans ++ [.rest off], r.2⟩ := by
  obtain ⟨hlen, hprotocol⟩ := ofBuffer_frame h
  unfold processPacket
  simp only [hprotocol, hlen]
  rw [if_neg (not_not.2 hp)]
  rfl

theorem headerSpans_inside {len : ℕ} : (∀ s ∈ headerSpans, s.Inside len) ↔ 94 ≤ len := by
  simp only [headerSpans, List.forall_mem_cons, List.not_mem_nil, false_imp_iff, implies_true, and_true]
  constructor
  · rintro ⟨-, h⟩
    exact h
  · intro h
    exact ⟨le_trans (by decide) h, h⟩

/-- An IP header has at most fifteen words. -/
theorem frameIhl_le (frame : List UInt8) : frameIhl frame ≤ 15 := by
  rw [frameIhl, UInt8.toNat_and]
  exact Nat.and_le_right

/-- Behind the slice for the IP header, all headers are inside. -/
theorem payloadOffset_le {frame : List UInt8} (h : 94 ≤ frame.length) :
    frameUdpOffset frame + UDP_HEADER_SIZE ≤ frame.length := by
  have h14 : ETH_PACKET_SIZE = 14 := rfl
  have h8 : UDP_HEADER_SIZE = 8 := rfl
  have hihl := frameIhl_le frame
  rw [frameUdpOffset]
  omega

/-- What a handler that takes notes is given of one frame. -/
structure Handed (handler : UDPPacketHandler δ) (packet : Span)
    (pr : PacketProcessor (δ × List (List UInt8))) (payloads : List (List UInt8)) : Prop where
  inside : ∀ s ∈ (processPacket (noting handler) packet pr).spans, s.Inside packet.bytes.length
  given : (processPacket (noting handler) packet pr).processor.given = pr.given ++ payloads
  /-- where nothing is handed over, nothing changes -/
  unchanged : payloads = [] → (processPacket (noting handler) packet pr).processor = pr ∧
    (processPacket (noting handler) packet pr).exception = none

/-- **What becomes of a frame** that is not shorter than the slices. -/
theorem handed (handler : UDPPacketHandler δ) (h : 94 ≤ packet.bytes.length)
    (pr : PacketProcessor (δ × List (List UInt8))) :
    Handed handler packet pr
      (if frameProtocol packet.bytes = UDP_PROTOCOL then [framePayload packet.bytes] else []) := by
  have hspans := headerSpans_inside.2 h
  by_cases hp : frameProtocol packet.bytes = UDP_PROTOCOL
  · have hout := processPacket_udp (noting handler) (by omega) hp pr
    rw [if_pos hp]
    refine ⟨?_, ?_, ?_⟩
    · intro s hs
      rw [hout] at hs
      rcases List.mem_append.1 hs with hs | hs
      · exact hspans s hs
      · rw [List.mem_singleton.1 hs]
        exact payloadOffset_le h
    · rw [hout]
      rfl
    · intro hnil
      exact absurd hnil (List.cons_ne_nil _ _)
  · have hout := processPacket_other (noting handler) (by omega) hp pr
    rw [if_neg hp]
    refine ⟨?_, ?_, ?_⟩
    · intro s hs
      rw [hout] at hs
      exact hspans s hs
    · rw [hout, List.append_nil]
    · intro _
      rw [hout]
      exact ⟨rfl, rfl⟩

/-! ## IPv4 frames -/

namespace Ipv4Frame

variable (x : Ipv4Frame)

theorem ip_length_ge : 20 ≤ x.ip.length := by
  have h := x.ihl
  rw [x.ip_length]
  omega

/-- The bytes of the IP header, in the frame. -/
theorem encode_getD {k : ℕ} (hk : k < x.ip.length) :
    x.encode.getD (ETH_PACKET_SIZE + k) 0 = x.ip.getD k 0 := by
  have hlen := x.ethernet_length
  rw [encode, List.getD_eq_getElem?_getD, List.getD_eq_getElem?_getD, List.getElem?_append_right (by omega),
    List.getElem?_append_left (by omega), hlen, Nat.add_sub_cancel_left]

theorem frameProtocol_encode : frameProtocol x.encode = x.protocol := by
  have h20 := x.ip_length_ge
  exact x.encode_getD (by omega)

theorem frameIhl_encode : frameIhl x.encode * 4 = x.ip.length := by
  have h20 := x.ip_length_ge
  have hfirst := x.encode_getD (k := 0) (by omega)
  rw [Nat.add_zero] at hfirst
  rw [frameIhl, hfirst, x.ip_length]

theorem framePayload_encode : framePayload x.encode = x.payload := by
  have hsplit : x.encode = x.ethernet ++ x.ip ++ x.udp ++ x.payload := by simp [encode]
  have hoff : frameUdpOffset x.encode + UDP_HEADER_SIZE = (x.ethernet ++ x.ip ++ x.udp).length := by
    simp only [frameUdpOffset, frameIhl_encode, List.length_append, x.ethernet_length, x.udp_length]
  rw [framePayload, hoff, hsplit, List.drop_left]

end Ipv4Frame

/-- What the handler is to be given of a frame. -/
def Ipv4Frame.udpPayload (x : Ipv4Frame) : List (List UInt8) :=
  if x.protocol = UDP_PROTOCOL then [x.payload] else []

theorem handed_frame (handler : UDPPacketHandler δ) {x : Ipv4Frame} (hb : packet.bytes = x.encode)
    (h : 94 ≤ x.encode.length) (pr : PacketProcessor (δ × List (List UInt8))) :
    Handed handler packet pr x.udpPayload := by
  have hhanded := handed handler (by rw [hb]; exact h) pr
  rwa [hb, x.frameProtocol_encode, x.framePayload_encode] at hhanded

theorem given_after (handler : UDPPacketHandler δ) {xs : List Ipv4Frame} {packets : List Span}
    (hb : packets.map (·.bytes) = xs.map (·.encode)) (h : ∀ x ∈ xs, 94 ≤ x.encode.length)
    (pr : PacketProcessor (δ × List (List UInt8))) :
    (pr.after (noting handler) packets).given = pr.given ++ xs.flatMap Ipv4Frame.udpPayload := by
  induction xs generalizing packets pr with
  | nil =>
    obtain rfl : packets = [] := List.map_eq_nil_iff.1 hb
    rw [List.flatMap_nil, List.append_nil]
    rfl
  | cons x xs ih =>
    obtain ⟨packet, packets, rfl, hpacket, hrest⟩ := List.map_eq_cons_iff.1 hb
    rw [List.forall_mem_cons] at h
    have hfirst := handed_frame handler hpacket h.1 pr
    have hothers := ih hrest h.2 (processPacket (noting handler) packet pr).processor
    rw [hfirst.given, List.append_assoc] at hothers
    exact hothers

theorem flatMap_udpPayload (xs : List Ipv4Frame) :
    xs.flatMap Ipv4Frame.udpPayload = (xs.filter (·.protocol = UDP_PROTOCOL)).map (·.payload) := by
  induction xs with
  | nil => rfl
  | cons x xs ih =>
    rw [List.flatMap_cons, ih, Ipv4Frame.udpPayload]
    by_cases hp : x.protocol = UDP_PROTOCOL
    · rw [if_pos hp, List.filter_cons_of_pos (by simpa using hp), List.map_cons, List.singleton_append]
    · rw [if_neg hp, List.filter_cons_of_neg (by simpa using hp), List.nil_append]

/-- **UDP frames are unwrapped**, one by one and over any list of frames. -/
theorem unwrapped (handler : UDPPacketHandler δ) :
    (∀ (x : Ipv4Frame) (packet : Span) (pr : PacketProcessor (δ × List (List UInt8))),
      packet.bytes = x.encode → 94 ≤ x.encode.length →
        Handed handler packet pr (if x.protocol = UDP_PROTOCOL then [x.payload] else [])) ∧
    ∀ (xs : List Ipv4Frame) (packets : List Span) (pr : PacketProcessor (δ × List (List UInt8))),
      packets.map (·.bytes) = xs.map (·.encode) → (∀ x ∈ xs, 94 ≤ x.encode.length) →
        (pr.after (noting handler) packets).given =
          pr.given ++ (xs.filter (·.protocol = UDP_PROTOCOL)).map (·.payload) := by
  constructor
  · intro x packet pr hb h
    exact handed_frame handler hb h pr
  · intro xs packets pr hb h
    rw [given_after handler hb h, flatMap_udpPayload]

/-- A frame with options in the IP header, and 48 bytes of data. -/
def optionsFrame (protocol : UInt8) : Ipv4Frame where
  ethernet := List.replicate 12 0 ++ [0x08, 0x00]
  ip := [0x46, 0, 0, 80, 0, 0, 0, 0, 64, protocol] ++ List.replicate 14 0
  udp := [0, 1, 0, 2, 0, 56, 0, 0]
  payload := List.replicate 48 protocol
  ethernet_length := rfl
  version := by simp; decide
  ihl := by simp
  ip_length := by simp
  udp_length := rfl

/-- A handler that does nothing. -/
def idle : UDPPacketHandler Unit := fun _ s => (s, none)

/-- A frame of TCP, and one of UDP. -/
theorem optionsFrame_unwrapped :
    (PacketProcessor.after (noting idle) ⟨((), []), 1⟩
      [⟨(optionsFrame 6).encode, fun _ => 0⟩, ⟨(optionsFrame 0x11).encode, fun _ => 0⟩]).given =
        [List.replicate 48 0x11] :=
  (unwrapped idle).2 [optionsFrame 6, optionsFrame 0x11] _ ⟨((), []), 1⟩ rfl (by decide)

/-! ## Any frames -/

/-- **What reaches the decoder**: of the frames whose protocol byte says UDP what stands
behind the headers, once, to the end of the frame; of others nothing. -/
theorem udp_given (handler : UDPPacketHandler δ) (packet : Span)
    (pr : PacketProcessor (δ × List (List UInt8))) (h : 94 ≤ packet.bytes.length) :
    Handed handler packet pr
        (if frameProtocol packet.bytes = UDP_PROTOCOL then [framePayload packet.bytes] else []) ∧
      (frameUdpOffset packet.bytes + frameUdpLength packet.bytes = packet.bytes.length →
        framePayload packet.bytes = frameUdpData packet.bytes) := by
  refine ⟨handed handler h pr, ?_⟩
  intro hlen
  have hdata : (framePayload packet.bytes).length ≤ frameUdpLength packet.bytes - UDP_HEADER_SIZE := by
    rw [framePayload, List.length_drop]
    omega
  rw [frameUdpData, List.take_of_length_le hdata]

/-- An ARP frame with 17 where an IP header has its protocol. -/
def arpFrame : List UInt8 :=
  List.replicate 12 0 ++ [0x08, 0x06] ++ List.replicate 9 0 ++ [0x11] ++ List.replicate 80 5

/-- A UDP frame of two bytes of data, with a trailer of 60. -/
def paddedFrame : List UInt8 :=
  List.replicate 12 0 ++ [0x08, 0x00] ++ [0x45, 0, 0, 30, 0, 0, 0, 0, 64, 0x11] ++ List.replicate 10 0 ++
    [0, 1, 0, 2, 0, 10, 0, 0] ++ [7, 7] ++ List.replicate 60 0

/-- Both are handed over, to their ends. -/
theorem arpFrame_given :
    (94 ≤ arpFrame.length ∧ ¬ IsIpv4 arpFrame ∧
      (processPacket (noting idle) ⟨arpFrame, fun _ => 0⟩ ⟨((), []), 1⟩).processor.given =
        [framePayload arpFrame]) ∧
    94 ≤ paddedFrame.length ∧ framePayload paddedFrame ≠ frameUdpData paddedFrame ∧
      (processPacket (noting idle) ⟨paddedFrame, fun _ => 0⟩ ⟨((), []), 1⟩).processor.given =
        [framePayload paddedFrame] := by
  refine ⟨?_, ?_⟩ <;> decide

theorem paddedFrame_handed :
    Handed idle ⟨paddedFrame, fun _ => 0⟩ ⟨((), []), 1⟩ [framePayload paddedFrame] :=
  (udp_given idle ⟨paddedFrame, fun _ => 0⟩ ⟨((), []), 1⟩ (by decide)).1

/-! ## Records of any length -/

/-- **A record sliced inside its bounds**: a complete frame is handed over, any other record
is dropped. -/
structure Sliced (handler : UDPPacketHandler δ) (packet : Span)
    (pr : PacketProcessor (δ × List (List UInt8))) : Prop where
  inside : ∀ s ∈ (processPacket (noting handler) packet pr).spans, s.Inside packet.bytes.length
  handed : IsComplete packet.bytes →
    (processPacket (noting handler) packet pr).processor.given = pr.given ++ [framePayload packet.bytes]
  dropped : ¬ IsComplete packet.bytes → (processPacket (noting handler) packet pr).processor = pr

/-- The slices of the headers are made of every record. -/
theorem headerSpans_subset (handler : UDPPacketHandler δ) (packet : Span) (pr : PacketProcessor δ) :
    headerSpans ⊆ (processPacket handler packet pr).spans := by
  unfold processPacket
  dsimp only
  split
  · exact List.Subset.refl _
  · exact List.subset_append_left _ _

/-- **When a record is sliced inside its bounds**: exactly when it has 94 bytes, and is of
IPv4 where its protocol byte says UDP. -/
theorem sliced_iff (handler : UDPPacketHandler δ) (packet : Span)
    (pr : PacketProcessor (δ × List (List UInt8))) :
    Sliced handler packet pr ↔
      94 ≤ packet.bytes.length ∧ (frameProtocol packet.bytes = UDP_PROTOCOL → IsIpv4 packet.bytes) := by
  constructor
  · intro hsliced
    have hlen : 94 ≤ packet.bytes.length := by
      apply headerSpans_inside.1
      intro s hs
      exact hsliced.inside s (headerSpans_subset _ packet pr hs)
    refine ⟨hlen, ?_⟩
    intro hp
    by_contra hipv4
    -- a frame of another kind is handed over all the same
    have hgiven := (handed handler hlen pr).given
    rw [hsliced.dropped fun hc => hipv4 hc.ipv4, if_pos hp] at hgiven
    exact List.cons_ne_nil _ _ (List.self_eq_append_right.1 hgiven)
  · rintro ⟨hlen, hipv4⟩
    have hhanded := handed handler hlen pr
    refine ⟨hhanded.inside, ?_, ?_⟩
    · intro hc
      rw [hhanded.given, if_pos hc.protocol]
    · intro hc
      have hp : frameProtocol packet.bytes ≠ UDP_PROTOCOL := by
        intro hp
        exact hc ⟨hipv4 hp, hp, payloadOffset_le hlen⟩
      exact (hhanded.unchanged (if_neg hp)).1

/-- A complete frame of 60 bytes. -/
def shortFrame : List UInt8 :=
  List.replicate 12 0 ++ [0x08, 0x00] ++ [0x45, 0, 0, 46, 0, 0, 0, 0, 64, 0x11] ++ List.replicate 10 0 ++
    [0, 1, 0, 2, 0, 26, 0, 0] ++ List.replicate 18 7

/-- The slice for its IP header is not inside. -/
theorem shortFrame_sliced_past :
    IsComplete shortFrame ∧
      .subspan 14 80 ∈ (processPacket (noting idle) ⟨shortFrame, fun _ => 0⟩ ⟨((), []), 1⟩).spans ∧
      ¬ Sliced idle ⟨shortFrame, fun _ => 0⟩ ⟨((), []), 1⟩ := by
  have hslice : .subspan 14 80 ∈
      (processPacket (noting idle) ⟨shortFrame, fun _ => 0⟩ ⟨((), []), 1⟩).spans := by
    decide
  refine ⟨⟨by decide, by decide, by decide⟩, hslice, ?_⟩
  intro h
  exact absurd (h.inside _ hslice) (by decide)

end MoexDecoder
