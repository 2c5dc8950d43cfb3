import MoexDecoder.Proof.Versions

/-!
# Round trip

`round_trip`: every packet that can be sent is decoded to its messages. Whatever the
decoder was given before and whatever follows the packet, its messages are told of once
each and in order, no exception is raised, the decoder stops at the end of the packet,
and no access leaves it. Each message is one in blocks of the decoder's layout
(`PacketMessage.versioned`), and those are delivered.
-/

namespace MoexDecoder

open Walk

variable {p : Span} {off : ℕ}

/-! ## Messages in blocks -/

/-- The body of a message, in blocks. -/
def Message.blocks : Message → VersionedBody
  | orderUpdate u => .orderUpdate (Wire.encode u)
  | orderExecution x => .orderExecution (Wire.encode x)
  | orderBookSnapshot header entries =>
    .orderBookSnapshot ((Wire.encode header).take 16) header.groupSize.blockSize (entries.map Wire.encode)

/-- The header of a snapshot is its root block and the group header. -/
theorem encode_snapshotHeader (header : OrderBookSnapshotHeader) :
    Wire.encode header = (Wire.encode header).take 16 ++ Wire.encode header.groupSize := by
  have hdrop : (Wire.encode header).drop 16 = Wire.encode header.groupSize := by
    have h4 : Wire.size Int32 = 4 := rfl
    have h4' : Wire.size UInt32 = 4 := rfl
    simp [Wire.encode, List.drop_append, List.drop_of_length_le]
  rw [← hdrop, List.take_append_drop]

theorem length_rootBlock (header : OrderBookSnapshotHeader) : ((Wire.encode header).take 16).length = 16 := by
  rw [List.length_take, Wire.encode_length, size_orderBookSnapshotHeader]
  rfl

theorem Message.templateId_blocks (m : Message) : m.blocks.templateId = m.templateId := by
  cases m <;> rfl

theorem Message.blockLength_blocks (m : Message) : UInt16.ofNat m.blocks.block.length = m.blockLength := by
  cases m with
  | orderUpdate u => rw [blocks, VersionedBody.block, Wire.encode_length]; rfl
  | orderExecution x => rw [blocks, VersionedBody.block, Wire.encode_length]; rfl
  | orderBookSnapshot header entries => rw [blocks, VersionedBody.block, length_rootBlock]; rfl

namespace Message.WellFormed

variable {m : Message}

/-- The group header of the blocks is that of the message. -/
theorem groupSize {header : OrderBookSnapshotHeader} {entries : List OrderBookEntry}
    (h : (Message.orderBookSnapshot header entries).WellFormed) :
    VersionedBody.groupSize header.groupSize.blockSize (entries.map Wire.encode) = header.groupSize := by
  rw [VersionedBody.groupSize, List.length_map, h.1]

theorem blocks (h : m.WellFormed) : m.blocks.WellFormed := by
  cases m with
  | orderUpdate u =>
    refine ⟨?_, trivial⟩
    rw [Message.blocks, VersionedBody.block, Wire.encode_length, size_orderUpdate]; omega
  | orderExecution x =>
    refine ⟨?_, trivial⟩
    rw [Message.blocks, VersionedBody.block, Wire.encode_length, size_orderExecution]; omega
  | orderBookSnapshot header entries =>
    obtain ⟨hgroup, hcount, -⟩ := h
    refine ⟨?_, ?_, ?_⟩
    · rw [Message.blocks, VersionedBody.block, length_rootBlock]; omega
    · rw [List.length_map]; exact hcount
    · simp [hgroup, size_orderBookEntry]

theorem inLayout (h : m.WellFormed) : m.blocks.InLayout := by
  cases m with
  | orderUpdate u => exact Wire.encode_length u
  | orderExecution x => exact Wire.encode_length x
  | orderBookSnapshot header entries => exact ⟨length_rootBlock header, by rw [h.1]⟩

theorem accepted (h : m.WellFormed) : m.blocks.Accepted := by
  cases m with
  | orderUpdate u => trivial
  | orderExecution x => trivial
  | orderBookSnapshot header entries =>
    obtain ⟨-, -, hnamed⟩ := h
    simp only [Message.blocks, VersionedBody.Accepted, List.forall_mem_map, Wire.memcpy_encode]
    intro e he
    exact Or.inr (hnamed e he)

/-- The blocks of a message are filled with its fields. -/
theorem content (h : m.WellFormed) : m.blocks.content = m := by
  cases m with
  | orderUpdate u => exact congrArg Message.orderUpdate (Wire.memcpy_encode _ u)
  | orderExecution x => exact congrArg Message.orderExecution (Wire.memcpy_encode _ x)
  | orderBookSnapshot header entries =>
    have hheader : VersionedBody.filledHeader ((Wire.encode header).take 16) header.groupSize = header := by
      have hlen := length_rootBlock header
      rw [filled_header hlen.le, hlen, List.replicate_zero, List.append_nil, ← encode_snapshotHeader,
        Wire.decode_encode]
    have hentries : (entries.map Wire.encode).map (Wire.memcpy ({} : OrderBookEntry)) = entries := by
      rw [List.map_map]
      exact (List.map_congr_left fun e _ => Wire.memcpy_encode _ e).trans (List.map_id' entries)
    rw [Message.blocks, VersionedBody.content, h.groupSize, hheader, hentries]

/-- The blocks of a message are its bytes. -/
theorem body_eq (h : m.WellFormed) : m.blocks.block ++ m.blocks.group = m.body := by
  cases m with
  | orderUpdate u => exact List.append_nil _
  | orderExecution x => exact List.append_nil _
  | orderBookSnapshot header entries =>
    rw [Message.blocks, VersionedBody.block, VersionedBody.group, h.groupSize, Message.body, List.flatMap_def,
      ← List.append_assoc, ← encode_snapshotHeader]

end Message.WellFormed

namespace PacketMessage

variable (m : PacketMessage)

/-- A message that may be sent, as one in blocks. -/
def versioned : VersionedMessage := ⟨m.schemaId, m.version, m.message.blocks, m.wellFormed.blocks⟩

theorem versioned_encode : m.versioned.encode = m.encode := by
  have hheader : m.versioned.sbeHeader = m.sbeHeader := by
    rw [VersionedMessage.sbeHeader, versioned, m.message.blockLength_blocks, m.message.templateId_blocks]; rfl
  rw [VersionedMessage.encode, hheader, versioned, m.wellFormed.body_eq]; rfl

theorem versioned_told : m.versioned.told = m.message.told := by
  rw [VersionedMessage.told, versioned, m.wellFormed.content]

/-- **A message that may be sent is delivered.** -/
theorem delivered (h : p.Holds off m.encode) : Delivered p off m.versioned := by
  rw [← m.versioned_encode] at h
  exact visitAt_supported m.wellFormed.inLayout m.wellFormed.accepted h

end PacketMessage

/-! ## Packets in a payload -/

/-- What a walk comes across where messages were sent. -/
structure Sent (p : Span) (off fin : ℕ) (ms : List PacketMessage) (vs : List Visit) : Prop where
  chain : Chain (visitAt p) Visit.next vs off fin
  calls : vs.flatMap Visit.calls = ms.map (·.message.told)
  exception : vs.findSome? Visit.exception = none
  stop : (vs.getLast?.map Visit.stop).getD off = fin
  inside : ∀ v ∈ vs, ∀ a ∈ v.accesses, a.InRange fin

theorem Access.InRange.mono {a : Access} {len len' : ℕ} (h : a.InRange len) (hle : len ≤ len') :
    a.InRange len' := by
  cases a with
  | subspan off n => exact le_trans h hle
  | memcpy off n size => exact ⟨le_trans h.1 hle, h.2⟩

theorem exists_sent (ms : List PacketMessage) (h : p.Holds off (ms.flatMap PacketMessage.encode)) :
    ∃ vs, Sent p off (off + (ms.map (·.encode.length)).sum) ms vs := by
  induction ms generalizing off with
  | nil => exact ⟨[], rfl, rfl, rfl, rfl, by simp⟩
  | cons m ms ih =>
    rw [List.flatMap_cons] at h
    have hm := m.delivered h.left
    have hstop := hm.stop
    have hnext := hm.next
    have hinside := hm.inside
    rw [m.versioned_encode] at hstop hnext hinside
    obtain ⟨vs, hvs⟩ := ih h.right
    rw [List.map_cons, List.sum_cons, ← Nat.add_assoc]
    -- the visit of the first message, and those of the others behind it
    refine ⟨visitAt p off :: vs, ⟨rfl, _, hnext, hvs.chain⟩, ?_, ?_, ?_, ?_⟩
    · rw [List.flatMap_cons, hvs.calls, hm.calls, m.versioned_told]; rfl
    · rw [List.findSome?_cons, hm.exception]; exact hvs.exception
    · have hlast := hvs.stop
      rw [← hstop] at hlast ⊢
      cases vs with
      | nil => exact hlast
      | cons v vs => simpa [List.getLast?_cons] using hlast
    · intro v hv a ha
      rcases List.mem_cons.1 hv with rfl | hv
      · exact (hinside a ha).mono (by omega)
      · exact hvs.inside v hv a ha

theorem headerAccesses_inside {len : ℕ} (h : messagesOffset p ≤ len) : ∀ a ∈ headerAccesses p, a.InRange len :=
  forall_inRange.2 ⟨headerAccesses_reads.2 h, headerAccesses_writes⟩

/-- The handlers are told of the messages, and the packet is read to its end. -/
structure Packet.Told (k : Packet) (r : Decoding) : Prop where
  calls : r.calls = k.messages.map (·.message.told)
  exception : r.exception = none
  offset : r.decoder.currentOffset = k.header.messageSize.toNat
  header : r.decoder.marketUpdateHeader = k.header
  inside : ∀ a ∈ r.accesses, a.InRange k.size

/-- **Round trip.** -/
theorem round_trip (k : Packet) (trailing : List UInt8) (past : Mem) (earlier : List Span) :
    k.Told (decodeMessage .all ⟨k.encode ++ trailing, past⟩ (SIMBADecoder.init.after .all earlier)) := by
  have hpayload : (⟨k.encode ++ trailing, past⟩ : Span) = k.packed.payload trailing past := by
    rw [Envelope.payload, k.packed_encode]
  rw [hpayload]
  set p : Span := k.packed.payload trailing past
  have hdec := decodes_after .all p earlier
  have hheader : marketHeaderAt p = k.header := by rw [k.packed.marketHeaderAt_eq, k.packed_header]
  have hoff : messagesOffset p = k.packed.bodyOffset := k.packed.messagesOffset_eq
  -- behind the headers the payload holds the messages, and they end where the packet does
  have hbody : p.Holds k.packed.bodyOffset (k.messages.flatMap PacketMessage.encode) :=
    k.packed.holds_messages
  obtain ⟨vs, hvs⟩ := exists_sent k.messages hbody
  have hfin : k.packed.bodyOffset + (k.messages.map (·.encode.length)).sum = k.packed.size := by
    rw [Envelope.size, k.packed.body_eq, List.length_flatMap]; rfl
  rw [hfin] at hvs
  have hvisits : visits p = vs := by
    rw [k.packed.visits_eq]
    exact walk_eq_of_chain (visitAt_forward p) hvs.chain
  have hsize := k.packed_size
  refine ⟨?_, ?_, ?_, ?_, ?_⟩
  · rw [hdec.all_calls, payloadCalls, hvisits, hvs.calls]
  · rw [hdec.exception, payloadException, hvisits, hvs.exception]
  · rw [hdec.offset, payloadStop, hvisits, hoff, hvs.stop, hsize, k.messageSize]
  · rw [hdec.header, hheader]
  · intro a ha
    rw [hdec.accesses, payloadAccesses, hvisits] at ha
    rw [← hsize]
    rcases List.mem_append.1 ha with ha | ha
    · exact headerAccesses_inside (by rw [hoff, Envelope.size]; omega) a ha
    · obtain ⟨v, hv, ha⟩ := List.mem_flatMap.1 ha
      exact hvs.inside v hv a ha

/-- What is visited of a packet that was sent. -/
theorem Packet.sent (k : Packet) (trailing : List UInt8) (past : Mem) :
    Sent (k.packed.payload trailing past) k.packed.bodyOffset k.packed.size k.messages
      (visits (k.packed.payload trailing past)) := by
  have hbody : (k.packed.payload trailing past).Holds k.packed.bodyOffset
      (k.messages.flatMap PacketMessage.encode) := k.packed.holds_messages
  obtain ⟨vs, hvs⟩ := exists_sent k.messages hbody
  have hfin : k.packed.bodyOffset + (k.messages.map (·.encode.length)).sum = k.packed.size := by
    rw [k.packed.size_messages, List.length_flatMap]; rfl
  rw [hfin] at hvs
  have hvisits : visits (k.packed.payload trailing past) = vs := by
    rw [k.packed.visits_eq]
    exact walk_eq_of_chain (visitAt_forward _) hvs.chain
  rwa [hvisits]

theorem Packet.payload_eq (k : Packet) (trailing : List UInt8) (past : Mem) :
    (⟨k.encode ++ trailing, past⟩ : Span) = k.packed.payload trailing past := by
  rw [Envelope.payload, k.packed_encode]

/-- An incremental packet of an update and of a snapshot with one bid. -/
def Packet.updateAndBook : Packet where
  sequenceNumber := 1
  messageFlags := 0x8
  sendingTime := 0
  incremental := some {}
  messages := [⟨0, 0, .orderUpdate { orderId := 5 }, trivial⟩,
    ⟨0, 0, .orderBookSnapshot { groupSize := ⟨57, 1⟩ } [{ orderPrice := 100, side := .bid }], by decide⟩]
  incremental_iff := by decide
  size_le := by decide

example : Packet.updateAndBook.size = 16 + 12 + (8 + 50) + (8 + 19 + 57) := by decide

end MoexDecoder
