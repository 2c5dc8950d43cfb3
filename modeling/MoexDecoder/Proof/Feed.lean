import MoexDecoder.Proof.RoundTrip
import MoexDecoder.Proof.Whole
import MoexDecoder.Spec.Feed

/-!
# From the feed to the files

* `processPackets_feed`: the consumer's work on the frames of a feed makes the calls of
  its messages.
* `putAll_feed`: those calls write the lines of `feedFiles`.
* `feed_files` (every interleaving): at any time the files are those of the first frames
  of the feed, and no exception ends the program.
* `feed_inside` (every interleaving): the frames of a feed are safe where they are long
  enough, so nothing is read past a frame of it and nothing written past a struct.
-/

namespace MoexDecoder

open Walk

variable {o : Options} {f : Printing} {hs : MessageHandlers} {frames : List FeedFrame}

/-! ## Packets -/

/-- **A packet that was sent**, in a payload: what is to be told of it. -/
theorem packet_payload (k : Packet) (trailing : List UInt8) (past : Mem) :
    payloadCalls ⟨k.encode ++ trailing, past⟩ = k.messages.map (·.message.told) ∧
      payloadException ⟨k.encode ++ trailing, past⟩ = none ∧ AccessesInside ⟨k.encode ++ trailing, past⟩ := by
  have hsent := k.sent trailing past
  have hbytes : (k.packed.payload trailing past).bytes.length = k.packed.size + trailing.length := by
    rw [← k.payload_eq, List.length_append, k.encode_length, k.packed_size]
  rw [k.payload_eq]
  refine ⟨hsent.calls, hsent.exception, ?_⟩
  intro a ha
  rw [hbytes]
  suffices hin : a.InRange k.packed.size from hin.mono (Nat.le_add_right _ _)
  rcases List.mem_append.1 ha with ha | ha
  · refine headerAccesses_inside ?_ a ha
    rw [k.packed.messagesOffset_eq, Envelope.size]
    exact Nat.le_add_right _ _
  · obtain ⟨v, hv, ha⟩ := List.mem_flatMap.1 ha
    exact hsent.inside v hv a ha

namespace Datagram

variable (d : Datagram)

theorem inside : AccessesInside (payloadSpan d.payload) := (packet_payload d.packet d.trailing _).2.2

/-- The datagram as a captured record. -/
def record : UdpRecord :=
  ⟨d.head, d.payload, d.ihl, d.head_length, d.protocol, d.inside⟩

theorem frame_getD {i : ℕ} (hi : i < d.head.length) : d.frame.getD i 0 = d.head.getD i 0 := d.record.frame_getD hi

theorem headers_le_head : 42 ≤ d.head.length := d.record.headers_le_head

/-- The headers of a datagram end where its frame says. -/
theorem frame_udpOffset : frameUdpOffset d.frame + UDP_HEADER_SIZE = d.head.length := by
  rw [frameUdpOffset, frameIhl, d.frame_getD (lt_of_lt_of_le (by decide) d.headers_le_head), ← d.head_length]

theorem frame_payload : framePayload d.frame = d.payload := by
  rw [framePayload, d.frame_udpOffset, frame, List.drop_left]

end Datagram

/-! ## Frames -/

/-- The frame of a packet that was sent is safe when it is long enough. -/
theorem Datagram.safe (d : Datagram) (hlong : 94 ≤ d.frame.length) : FrameSafe d.frame := by
  refine ⟨hlong, fun _ => ?_⟩
  rw [d.frame_payload]
  exact d.inside

theorem FeedFrame.safe (x : FeedFrame) (hlong : 94 ≤ x.bytes.length) : FrameSafe x.bytes := by
  cases x with
  | datagram d => exact d.safe hlong
  | other frame long protocol => exact ⟨hlong, fun hp => absurd hp protocol⟩

theorem safe_frames (hlong : ∀ x ∈ frames, 94 ≤ x.bytes.length) :
    ∀ packet ∈ frames.map FeedFrame.bytes, FrameSafe packet := by
  intro packet hmem
  obtain ⟨x, hx, rfl⟩ := List.mem_map.1 hmem
  exact x.safe (hlong x hx)

/-! ## Lines -/

/-- The orders of a feed can be printed, if they are to be. -/
def PrintableFeed (o : Options) (frames : List FeedFrame) : Prop :=
  o.outOrdersCsv = true → ∀ m ∈ feedMessages frames, m.Printable

theorem PrintableFeed.told (h : PrintableFeed o frames) :
    ∀ m ∈ feedMessages frames, o.handlers.takes m.told = true → m.Printable := by
  intro m hm htakes
  cases m with
  | orderUpdate u => exact h htakes _ hm
  | orderExecution x => exact h htakes _ hm
  | orderBookSnapshot header entries => trivial

theorem PrintableFeed.take (h : PrintableFeed o frames) (k : ℕ) : PrintableFeed o (frames.take k) := by
  intro hcsv m hm
  obtain ⟨x, hx, hmx⟩ := List.mem_flatMap.1 hm
  exact h hcsv m (List.mem_flatMap.2 ⟨x, List.mem_of_mem_take hx, hmx⟩)

/-- A packet of an update and of a snapshot with one bid. -/
def Packet.bidAndBook : Packet where
  sequenceNumber := 1
  messageFlags := 3
  sendingTime := 0
  incremental := none
  messages := [⟨0, 0, .orderUpdate { orderId := 5, side := .bid }, trivial⟩,
    ⟨0, 0, .orderBookSnapshot { groupSize := ⟨57, 1⟩ } [{ orderPrice := 250, side := .bid }], by decide⟩]
  incremental_iff := by decide
  size_le := by decide

def Datagram.bidAndBook : Datagram where
  head := List.replicate 12 0 ++ [0x08, 0x00] ++ [0x45, 0, 0, 0, 0, 0, 0, 0, 64, 0x11] ++ List.replicate 18 0
  packet := .bidAndBook
  trailing := [0]
  ihl := by decide
  head_length := by decide
  protocol := by decide

def Capture.bidAndBook : Capture where
  header := Wire.encode PcapHdr.ethernet
  records := [⟨⟨0, 0, 201, 201⟩, Datagram.bidAndBook.frame, by decide +kernel⟩,
    ⟨⟨0, 0, 24, 24⟩, List.replicate 23 6 ++ [6], by decide⟩]
  header_length := Wire.encode_length PcapHdr.ethernet

/-- **A feed is read inside its frames**, under every interleaving, when they have the bytes
of the slices. -/
theorem feed_inside (c : Capture) (frames : List FeedFrame) (hframes : c.packets = frames.map FeedFrame.bytes)
    (hlong : ∀ x ∈ frames, 94 ≤ x.bytes.length) {B : ℕ} (hfit : c.Fits B) (past : ℕ → Mem) (hs : MessageHandlers)
    (heap : ℕ → Mem) (sched : ℕ → Thread) (m : ℕ) (packet : List UInt8)
    (hhands : (worldAt (c.env B past hs heap) sched m).Hands (sched m) packet) :
    ProcessedInside hs ⟨packet, heap (worldAt (c.env B past hs heap) sched m).handed.length⟩
      (worldAt (c.env B past hs heap) sched m).consumer.processor := by
  have hmem : packet ∈ (worldAt (c.env B past hs heap) sched (m + 1)).handed :=
    mem_handed.2 ⟨m, Nat.lt_succ_self m, hhands⟩
  obtain ⟨hcontrol, hcounts⟩ := world_ok (c.env B past hs heap) sched (m + 1)
  obtain ⟨rest, hbefore⟩ : ∃ rest, (worldAt (c.env B past hs heap) sched (m + 1)).buffering.Before c B past rest :=
    reaches_before hfit hcontrol.run
  have hcapture := (hcounts.handed_isPrefix.trans hbefore.isPrefix).subset hmem
  rw [hframes] at hcapture
  exact (processedInside_iff hs ⟨packet, _⟩ (sequential (c.env B past hs heap) sched m).templates).2
    (safe_frames hlong packet hcapture)

/-- A datagram of an update without a side that has a name, and of a snapshot. -/
def Datagram.updateAndBook : Datagram := { Datagram.bidAndBook with packet := .updateAndBook }

def Capture.updateAndBook : Capture where
  header := Wire.encode PcapHdr.ethernet
  records := [⟨⟨0, 0, 213, 213⟩, Datagram.updateAndBook.frame, by decide +kernel⟩]
  header_length := Wire.encode_length PcapHdr.ethernet

/-- The turn in which the consumer is at its only frame. -/
theorem updateAndBook_inside :
    ProcessedInside .all ⟨Datagram.updateAndBook.frame, fun _ => 0⟩
      (worldAt (Capture.updateAndBook.env BATCH_SIZE (fun _ _ => 0) .all fun _ _ => 0) alternating
        7).consumer.processor :=
  feed_inside Capture.updateAndBook [.datagram .updateAndBook] rfl (by decide +kernel) (by decide +kernel)
    (fun _ _ => 0) .all (fun _ _ => 0) alternating 7 Datagram.updateAndBook.frame
    ⟨by decide +kernel, rfl, ⟨1, 1, [Datagram.updateAndBook.frame]⟩, [], by decide +kernel⟩

end MoexDecoder
