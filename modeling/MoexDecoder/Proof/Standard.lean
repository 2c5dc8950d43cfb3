import MoexDecoder.Lib.Blocks
import MoexDecoder.Proof.RoundTrip

/-!
# The payloads that hold a packet

The other half of the round trip: what the decoder reads to its end is well formed.

* `StandardAt.exists_message`: a standard message inside the payload is one that may be sent.
* `packet_iff`: a payload starts with a packet, with one only, and its messages are told of,
  exactly when the decoder stops at the end that the header states and the messages on the
  way are standard.
-/

namespace MoexDecoder

open Walk

variable {p : Span} {off : ℕ}

/-! ## Standard messages -/

/-- **A standard message** has the lengths of the types of the decoder, and as a snapshot
entries of named sides. -/
def StandardAt (p : Span) (off : ℕ) : Prop :=
  match typeAt p off with
  | .orderUpdateType => blockLengthAt p off = Wire.size OrderUpdate
  | .orderExecutionType => blockLengthAt p off = Wire.size OrderExecution
  | .orderBookSnapshotType => blockLengthAt p off = 16 ∧ (groupSizeAt p off).blockSize = 57 ∧
      ∀ e ∈ entriesAt p off, e.side.Named
  | .messageUnknown => False

theorem named_accepted {es : List OrderBookEntry} (h : ∀ e ∈ es, e.side.Named) : ∀ e ∈ es, e.Accepted :=
  fun e he => Or.inr (h e he)

/-- What a copy of a whole object was made from. -/
theorem holds_copyFrom {α : Type} [Wire α] [Wire.Exact α] (h : off + Wire.size α ≤ p.bytes.length) (x : α) :
    p.Holds off (Wire.encode (copyFrom p off (Wire.size α) x)) := by
  have hlen : (p.mem.read off (Wire.size α)).length = Wire.size α := Mem.read_length _ _ _
  rw [copyFrom, Wire.memcpy_of_length x hlen, Wire.Exact.encode_decode _ hlen]
  exact p.holds_read h

/-- A group that a book takes has as many entries as stated. -/
theorem length_groupAt {blockSize k : ℕ} (hacc : ∀ e ∈ groupAt p blockSize k off, e.Accepted) :
    (groupAt p blockSize k off).length = k := by
  induction k generalizing off with
  | zero => rfl
  | succ k ih =>
    by_cases hfirst : (copyFrom p off blockSize ({} : OrderBookEntry)).Accepted
    · rw [groupAt_accepted hfirst] at hacc ⊢
      rw [List.length_cons, ih fun e he => hacc e (List.mem_cons_of_mem _ he)]
    · rw [groupAt_refused hfirst] at hacc
      exact absurd (hacc _ (List.mem_singleton_self _)) hfirst

/-- The entries of a group inside the payload stand in it. -/
theorem holds_groupAt {k : ℕ}
    (h : off + (groupAt p (Wire.size OrderBookEntry) k off).length * Wire.size OrderBookEntry ≤ p.bytes.length) :
    p.Holds off ((groupAt p (Wire.size OrderBookEntry) k off).flatMap Wire.encode) := by
  have hentry : ∀ off, off + Wire.size OrderBookEntry ≤ p.bytes.length →
      p.Holds off (Wire.encode (copyFrom p off (Wire.size OrderBookEntry) ({} : OrderBookEntry))) :=
    fun _ hle => holds_copyFrom hle _
  induction k generalizing off with
  | zero =>
    have hzero : off + 0 ≤ p.bytes.length := by simpa [groupAt] using h
    exact p.holds_read hzero
  | succ k ih =>
    by_cases hfirst : (copyFrom p off (Wire.size OrderBookEntry) ({} : OrderBookEntry)).Accepted
    · rw [groupAt_accepted hfirst, List.length_cons, Nat.succ_mul] at h
      rw [groupAt_accepted hfirst, List.flatMap_cons]
      refine (hentry off (by omega)).append ?_
      rw [Wire.encode_length]
      exact ih (by omega)
    · rw [groupAt_refused hfirst, List.length_singleton, Nat.one_mul] at h
      rw [groupAt_refused hfirst, List.flatMap_singleton]
      exact hentry off h

/-! ## One message -/

namespace PacketMessage

variable {m m' : PacketMessage}

/-- A message is found in a payload that holds it. -/
theorem found (h : p.Holds off m.encode) :
    sbeHeaderAt p off = m.sbeHeader ∧ (visitAt p off).message = some m.message := by
  rw [← m.versioned_encode] at h
  have hheader := sbeHeaderAt_versioned h
  have hcontent : m.versioned.body.content = m.message := m.wellFormed.content
  have hread : m.versioned.body.Readable :=
    (VersionedBody.readable_iff m.wellFormed.inLayout).2 m.wellFormed.accepted
  refine ⟨?_, ?_⟩
  · rw [hheader, VersionedMessage.sbeHeader, versioned, m.message.blockLength_blocks, m.message.templateId_blocks]
    rfl
  · rw [← hcontent]
    by_cases htype : m.versioned.body.content.type = .orderBookSnapshotType
    · cases hb : m.versioned.body with
      | orderUpdate block => rw [hb] at htype; cases htype
      | orderExecution block => rw [hb] at htype; cases htype
      | orderBookSnapshot root blockSize entries => rw [← hb]; exact (snapshot_of_readable hb h hread).2
    · exact (message_order h htype).1

/-- At an offset a payload holds one message at most. -/
theorem unique (h : p.Holds off m.encode) (h' : p.Holds off m'.encode) : m = m' := by
  obtain ⟨hheader, hmessage⟩ := found h
  obtain ⟨hheader', hmessage'⟩ := found h'
  rw [hheader] at hheader'
  rw [hmessage] at hmessage'
  obtain ⟨-, -, hschema, hversion⟩ := SBEHeader.mk.inj hheader'
  obtain ⟨schemaId, version, message, wellFormed⟩ := m
  obtain ⟨schemaId', version', message', wellFormed'⟩ := m'
  cases hschema
  cases hversion
  cases hmessage'
  rfl

/-- Behind a message the walk goes on at its end. -/
theorem next (h : p.Holds off m.encode) : (visitAt p off).next = some (off + m.encode.length) := by
  rw [← m.versioned_encode]
  exact (m.delivered h).next

theorem encode_pos (m : PacketMessage) : 0 < m.encode.length := by
  rw [encode, List.length_append, Wire.encode_length, size_sbeHeader]
  omega

/-- What may be sent is standard. -/
theorem standardAt (h : p.Holds off m.encode) : StandardAt p off := by
  obtain ⟨hheader, hmessage⟩ := found h
  obtain ⟨schemaId, version, message, wellFormed⟩ := m
  cases message with
  | orderUpdate u =>
    have htype : typeAt p off = .orderUpdateType := by rw [typeAt, hheader]; rfl
    rw [StandardAt, htype, blockLengthAt, hheader]; rfl
  | orderExecution x =>
    have htype : typeAt p off = .orderExecutionType := by rw [typeAt, hheader]; rfl
    rw [StandardAt, htype, blockLengthAt, hheader]; rfl
  | orderBookSnapshot header entries =>
    have htype : typeAt p off = .orderBookSnapshotType := by rw [typeAt, hheader]; rfl
    have hlen : blockLengthAt p off = 16 := by rw [blockLengthAt, hheader]; rfl
    -- the header and the entries that were sent are those that are read
    rw [message_snapshot p htype] at hmessage
    obtain ⟨hcopy, hentries⟩ := Message.orderBookSnapshot.inj (Option.some.inj hmessage)
    have hgroup : groupSizeAt p off = header.groupSize := congrArg OrderBookSnapshotHeader.groupSize hcopy
    obtain ⟨hsize, -, hnamed⟩ := wellFormed
    rw [StandardAt, htype]
    exact ⟨hlen, by rw [hgroup, hsize], by rw [hentries]; exact hnamed⟩

end PacketMessage

/-- The template of a type. -/
theorem Message.templateId_of_type {m : Message} {t : UInt16} (h : templateType t.toNat = m.type) :
    t = m.templateId := by
  unfold templateType at h
  rw [← UInt16.toNat_inj]
  split at h <;> rename_i ht <;> cases m <;> first | exact ht | cases h

/-- A message stands in the payload when its header says so and its body is behind it. -/
theorem exists_holds {m : Message} (hm : m.WellFormed) (htype : typeAt p off = m.type)
    (hlen : blockLengthAt p off = m.blockLength.toNat) (hbody : p.Holds (blockAt off) m.body) :
    ∃ k : PacketMessage, p.Holds off k.encode := by
  have hle := hbody.le
  have hheader : p.Holds off (Wire.encode (sbeHeaderAt p off)) :=
    holds_copyFrom (le_trans (Nat.le_add_right _ _) hle) _
  let k : PacketMessage := ⟨(sbeHeaderAt p off).schemaId, (sbeHeaderAt p off).version, m, hm⟩
  have hk : k.sbeHeader = sbeHeaderAt p off := by
    have hblock : (sbeHeaderAt p off).blockLength = m.blockLength := UInt16.toNat_inj.1 hlen
    have htemplate : (sbeHeaderAt p off).templateId = m.templateId := Message.templateId_of_type htype
    rw [PacketMessage.sbeHeader, ← hblock, ← htemplate]
  refine ⟨k, ?_⟩
  rw [PacketMessage.encode, hk]
  refine hheader.append ?_
  rwa [Wire.encode_length]

namespace StandardAt

theorem stop (h : StandardAt p off) : (visitAt p off).stop = messageEnd p off := by
  unfold StandardAt at h
  rw [visitAt_eq, messageEnd]
  cases htype : typeAt p off with
  | orderUpdateType | orderExecutionType =>
    rw [htype] at h
    rw [show blockLengthAt p off = _ from h]; rfl
  | orderBookSnapshotType => rfl
  | messageUnknown => rfl

/-- Behind a standard message the walk goes on at its end. -/
theorem next (h : StandardAt p off) : (visitAt p off).next = some (messageEnd p off) := by
  have hstop := h.stop
  unfold StandardAt at h
  have hgoes : (visitAt p off).exception = none ∧ typeAt p off ≠ .messageUnknown := by
    cases htype : typeAt p off with
    | orderUpdateType | orderExecutionType =>
      refine ⟨?_, by simp⟩
      rw [visitAt_eq, htype]; rfl
    | orderBookSnapshotType =>
      rw [htype] at h
      refine ⟨?_, by simp⟩
      have hbook : ∀ header, bookOf header (entriesAt p off) = .ok (.ofEntries header (entriesAt p off)) :=
        fun _ => bookOf_accepted (named_accepted h.2.2)
      exact (Visit.of_call (message_snapshot p htype) (by rw [Message.call, hbook]; rfl)).2.1
    | messageUnknown => rw [htype] at h; exact absurd h id
  rcases messageAt_next p (typeAt p off) off with ⟨-, -, hnext⟩ | ⟨hnot, -⟩
  · exact hnext.trans (congrArg some hstop)
  · exact absurd hgoes hnot

/-- A snapshot in the lengths of the decoder that lies inside the payload. -/
theorem exists_snapshot (htype : typeAt p off = .orderBookSnapshotType) (hlen : blockLengthAt p off = 16)
    (hsize : (groupSizeAt p off).blockSize = 57) (hnamed : ∀ e ∈ entriesAt p off, e.side.Named)
    (hend : messageEnd p off ≤ p.bytes.length) : ∃ m : PacketMessage, p.Holds off m.encode := by
  rw [messageEnd, htype] at hend
  have hblockSize : (groupSizeAt p off).blockSize.toNat = Wire.size OrderBookEntry := by rw [hsize]; rfl
  set header : OrderBookSnapshotHeader := copyFrom p (blockAt off) (Wire.size OrderBookSnapshotHeader) {}
  have hheader : p.Holds (blockAt off) (Wire.encode header) :=
    holds_copyFrom (le_trans (by rw [hlen]; exact Nat.le_add_right _ _) hend) _
  have hgroup : groupSizeAt p off = header.groupSize := by rw [groupSizeAt, hlen]; rfl
  have hcount : (entriesAt p off).length = (groupSizeAt p off).numInGroup.toNat :=
    length_groupAt (named_accepted hnamed)
  have hentries : p.Holds (blockAt off + Wire.size OrderBookSnapshotHeader)
      ((entriesAt p off).flatMap Wire.encode) := by
    rw [hblockSize, hlen, entriesAt, hblockSize, hlen] at hend
    rw [entriesAt, hblockSize, hlen]
    exact holds_groupAt hend
  have hwf : (Message.orderBookSnapshot header (entriesAt p off)).WellFormed := by
    refine ⟨?_, ?_, hnamed⟩
    · rw [← hgroup, hcount, UInt8.ofNat_toNat, ← hsize]
    · have := (groupSizeAt p off).numInGroup.toNat_lt
      omega
  exact exists_holds hwf htype hlen (hheader.append (by rw [Wire.encode_length]; exact hentries))

/-- A standard message that lies inside the payload is one that may be sent. -/
theorem exists_message (h : StandardAt p off) (hend : messageEnd p off ≤ p.bytes.length) :
    ∃ m : PacketMessage, p.Holds off m.encode := by
  unfold StandardAt at h
  cases htype : typeAt p off with
  | orderUpdateType =>
    rw [htype] at h
    have hlen : blockLengthAt p off = Wire.size OrderUpdate := h
    rw [messageEnd, htype, hlen] at hend
    have hblock := holds_copyFrom hend ({} : OrderUpdate)
    exact exists_holds (m := .orderUpdate _) trivial htype hlen hblock
  | orderExecutionType =>
    rw [htype] at h
    have hlen : blockLengthAt p off = Wire.size OrderExecution := h
    rw [messageEnd, htype, hlen] at hend
    have hblock := holds_copyFrom hend ({} : OrderExecution)
    exact exists_holds (m := .orderExecution _) trivial htype hlen hblock
  | orderBookSnapshotType =>
    rw [htype] at h
    obtain ⟨hlen, hsize, hnamed⟩ := h
    exact exists_snapshot htype hlen hsize hnamed hend
  | messageUnknown => rw [htype] at h; exact absurd h id

end StandardAt

/-! ## The messages of a payload -/

/-- Where messages that may be sent follow each other, what the walk comes across is standard. -/
theorem starts_standard {ms : List PacketMessage} {size : ℕ} (h : p.Holds off (ms.flatMap PacketMessage.encode))
    (hsize : size = off + (ms.flatMap PacketMessage.encode).length) :
    ∀ o ∈ Walk.starts (visitAt p) Visit.next size off, StandardAt p o := by
  induction ms generalizing off with
  | nil => rw [starts_of_ge (by rw [hsize]; simp)]; simp
  | cons m ms ih =>
    rw [List.flatMap_cons] at h hsize
    have hpos := m.encode_pos
    have hnext := PacketMessage.next h.left
    rw [List.length_append, ← Nat.add_assoc] at hsize
    rw [starts_some (visitAt_forward p) (by omega) hnext]
    exact List.forall_mem_cons.2 ⟨PacketMessage.standardAt h.left, ih h.right hsize⟩

/-- A walk over standard messages that stops where it is to stop has come across messages that
may be sent. -/
theorem exists_messages (size : ℕ) (off : ℕ) (hle : size ≤ p.bytes.length)
    (hstd : ∀ o ∈ Walk.starts (visitAt p) Visit.next size off, StandardAt p o)
    (hstop : ((walk (visitAt p) Visit.next size off).getLast?.map Visit.stop).getD off = size) :
    ∃ ms : List PacketMessage, p.Holds off (ms.flatMap PacketMessage.encode) ∧
      off + (ms.flatMap PacketMessage.encode).length = size := by
  have hf := visitAt_forward p
  induction off using walk_rec size hf with
  | done off hge =>
    rw [walk_of_ge hge] at hstop
    have heq : off = size := hstop
    have hzero : off + 0 ≤ p.bytes.length := by omega
    exact ⟨[], p.holds_read hzero, heq⟩
  | last off hlt hnext =>
    rw [starts_none hf hlt hnext] at hstd
    have hgoes := (hstd off (List.mem_singleton_self _)).next
    rw [hnext] at hgoes
    cases hgoes
  | more off off' hlt hnext ih =>
    rw [starts_some hf hlt hnext, List.forall_mem_cons] at hstd
    obtain ⟨hhere, hrest⟩ := hstd
    have hend : messageEnd p off = off' := Option.some.inj (hhere.next.symm.trans hnext)
    rw [walk_some hf hlt hnext] at hstop
    have hstop' : ((walk (visitAt p) Visit.next size off').getLast?.map Visit.stop).getD off' = size := by
      rw [← hend, ← hhere.stop] at hstop ⊢
      generalize walk (visitAt p) Visit.next size (visitAt p off).stop = vs at hstop ⊢
      cases vs with
      | nil => exact hstop
      | cons v vs => simpa [List.getLast?_cons] using hstop
    obtain ⟨ms, hms, hsize⟩ := ih hrest hstop'
    -- what follows the message lies inside, so it does too
    obtain ⟨m, hm⟩ := hhere.exists_message (by omega)
    have hoff : off + m.encode.length = off' := Option.some.inj ((PacketMessage.next hm).symm.trans hnext)
    rw [← hoff] at hms hsize
    refine ⟨m :: ms, ?_, ?_⟩
    · rw [List.flatMap_cons]; exact hm.append hms
    · rw [List.flatMap_cons, List.length_append, ← Nat.add_assoc]; exact hsize

/-- The bytes of messages that follow each other are those of one list of messages. -/
theorem PacketMessage.delimited : Blocks.Delimited PacketMessage.encode where
  ne_nil m := List.ne_nil_of_length_pos m.encode_pos
  eq {m m' t t'} h := by
    have hm : (⟨m.encode ++ t, fun _ => 0⟩ : Span).Holds 0 m.encode := Span.holds_zero.2 ⟨t, rfl⟩
    have hm' : (⟨m.encode ++ t, fun _ => 0⟩ : Span).Holds 0 m'.encode := Span.holds_zero.2 ⟨t', h.symm⟩
    exact PacketMessage.unique hm hm'

/-! ## Packets -/

namespace Packet

variable {k k' : Packet}

/-- What is read of a payload that starts with a packet. -/
theorem read (h : k.encode <+: p.bytes) : marketHeaderAt p = k.header ∧
    payloadCalls p = k.messages.map (·.message.told) ∧ payloadStop p = k.header.messageSize.toNat ∧
      ∀ off ∈ messageStarts p, StandardAt p off := by
  obtain ⟨bytes, past⟩ := p
  obtain ⟨trailing, rfl⟩ := h
  have hsent := k.sent trailing past
  rw [k.payload_eq]
  refine ⟨by rw [k.packed.marketHeaderAt_eq, k.packed_header], hsent.calls, ?_, ?_⟩
  · rw [payloadStop, k.packed.messagesOffset_eq, hsent.stop, k.packed_size, k.messageSize]
  · rw [k.packed.messageStarts_eq]
    exact starts_standard k.packed.holds_messages k.packed.size_messages

/-- A payload starts with one packet at most. -/
theorem unique (h : k.encode <+: p.bytes) (h' : k'.encode <+: p.bytes) : k = k' := by
  have hheader : k.header = k'.header := (read h).1.symm.trans (read h').1
  have hsize : k.size = k'.size := by rw [← k.messageSize, ← k'.messageSize, hheader]
  obtain ⟨hnumber, -, hflags, htime⟩ := MarketDataPacketHeader.mk.inj hheader
  rw [← Span.holds_zero, encode] at h h'
  have hinc : k.incremental = k'.incremental := by
    have hsome : k.incremental.isSome ↔ k'.incremental.isSome := by
      rw [k.incremental_iff, k'.incremental_iff, hflags]
    cases hi : k.incremental with
    | none => cases hi' : k'.incremental <;> simp [hi, hi'] at hsome ⊢
    | some inc =>
      cases hi' : k'.incremental with
      | none => simp [hi, hi'] at hsome
      | some inc' =>
        rw [hi] at h
        rw [hi', ← hheader] at h'
        exact congrArg some ((copyFrom_holds h.right.left {}).symm.trans (copyFrom_holds h'.right.left {}))
  have hmessages : k.messages = k'.messages := by
    rw [k.size_eq, k'.size_eq, hinc] at hsize
    rw [hinc] at h
    rw [← hheader] at h'
    exact PacketMessage.delimited.flatMap_inj (h.right.right.eq_of_length h'.right.right (Nat.add_left_cancel hsize))
  cases k
  cases k'
  cases hnumber
  cases hflags
  cases htime
  cases hinc
  cases hmessages
  rfl

end Packet

/-- Headers with messages behind them that end where the header says are a packet. -/
theorem exists_packet {ms : List PacketMessage}
    (hms : p.Holds (messagesOffset p) (ms.flatMap PacketMessage.encode))
    (hfin : messagesOffset p + (ms.flatMap PacketMessage.encode).length = (marketHeaderAt p).messageSize.toNat) :
    ∃ k : Packet, k.encode <+: p.bytes := by
  set header := marketHeaderAt p
  have hoff : messagesOffset p = Wire.size MarketDataPacketHeader +
      if header.Incremental then Wire.size IncrementalPacketHeader else 0 := rfl
  let inc : Option IncrementalPacketHeader := if header.Incremental then some (incrementalHeaderAt p) else none
  have hinc : inc.isSome ↔ header.Incremental := by
    by_cases h : header.Incremental <;> simp [inc, h]
  have hpacket : packetSize inc ms = header.messageSize.toNat := by
    rw [← hfin, hoff, packetSize, List.length_flatMap]
    simp only [hinc]
  let k : Packet := {
    sequenceNumber := header.sequenceNumber
    messageFlags := header.messageFlags
    sendingTime := header.sendingTime
    incremental := inc
    messages := ms
    incremental_iff := hinc
    size_le := by have := header.messageSize.toNat_lt; omega }
  have hk : k.header = header := by
    have hsize : UInt16.ofNat k.size = header.messageSize := by
      rw [Packet.size, hpacket, UInt16.ofNat_toNat]
    rw [Packet.header, hsize]
  refine ⟨k, ?_⟩
  rw [← Span.holds_zero, Packet.encode, hk]
  have hle := hms.le
  have hhead : p.Holds 0 (Wire.encode header) := holds_copyFrom (by omega) _
  refine hhead.append ?_
  rw [Wire.encode_length, Nat.zero_add]
  change p.Holds _ (inc.elim [] Wire.encode ++ ms.flatMap PacketMessage.encode)
  by_cases h : header.Incremental
  · rw [hoff, if_pos h] at hms hle
    have hinc' : inc = some (incrementalHeaderAt p) := if_pos h
    have hheld' : p.Holds (Wire.size MarketDataPacketHeader) (Wire.encode (incrementalHeaderAt p)) :=
      holds_copyFrom (by omega) _
    rw [hinc']
    refine hheld'.append ?_
    rwa [Wire.encode_length]
  · rw [hoff, if_neg h, Nat.add_zero] at hms
    have hinc' : inc = none := if_neg h
    rw [hinc']
    exact hms

/-- The decoder goes through a payload to the end that its header states, and the messages
on the way are standard. -/
structure ReadWhole (p : Span) (r : Decoding) : Prop where
  held : r.messageSize ≤ p.bytes.length
  ended : r.decoder.currentOffset = r.messageSize
  standard : ∀ off ∈ messageStarts p, StandardAt p off

theorem decoded_messageSize (hs : MessageHandlers) (p : Span) (earlier : List Span) :
    (decodeMessage hs p (SIMBADecoder.init.after hs earlier)).messageSize = (marketHeaderAt p).messageSize.toNat := by
  rw [Decoding.messageSize, (decodes_after hs p earlier).header]

/-- A payload that starts with a packet is read whole. -/
theorem Packet.readWhole {k : Packet} (h : k.encode <+: p.bytes) (hs : MessageHandlers) (earlier : List Span) :
    ReadWhole p (decodeMessage hs p (SIMBADecoder.init.after hs earlier)) := by
  obtain ⟨hheader, -, hstop, hstd⟩ := k.read h
  refine ⟨?_, ?_, hstd⟩
  · rw [decoded_messageSize, hheader, k.messageSize, ← k.encode_length]
    exact h.length_le
  · rw [decoded_messageSize, (decodes_after hs p earlier).offset, hheader, hstop]

/-- A payload that is read whole starts with a packet. -/
theorem ReadWhole.exists_packet {hs : MessageHandlers} {earlier : List Span}
    (h : ReadWhole p (decodeMessage hs p (SIMBADecoder.init.after hs earlier))) :
    ∃ k : Packet, k.encode <+: p.bytes := by
  obtain ⟨hheld, hended, hstd⟩ := h
  rw [decoded_messageSize] at hheld hended
  rw [(decodes_after hs p earlier).offset] at hended
  obtain ⟨ms, hms, hfin⟩ := exists_messages _ (messagesOffset p) hheld hstd hended
  exact MoexDecoder.exists_packet hms hfin

/-- The packet is the only one that the payload starts with, and the handlers were told of
its messages. -/
structure Packet.ReadFrom (k : Packet) (hs : MessageHandlers) (p : Span) (r : Decoding) : Prop where
  starts : k.encode <+: p.bytes
  only : ∀ k' : Packet, k'.encode <+: p.bytes → k' = k
  calls : r.calls = (k.messages.map (·.message.told)).filter hs.takes

/-- **What is read whole is a packet**, and nothing else is. -/
theorem packet_iff (hs : MessageHandlers) (p : Span) (earlier : List Span) :
    (∃ k : Packet, k.ReadFrom hs p (decodeMessage hs p (SIMBADecoder.init.after hs earlier))) ↔
      ReadWhole p (decodeMessage hs p (SIMBADecoder.init.after hs earlier)) := by
  constructor
  · rintro ⟨k, hk, -, -⟩
    exact Packet.readWhole hk hs earlier
  · intro h
    obtain ⟨k, hk⟩ := h.exists_packet
    obtain ⟨-, hcalls, -⟩ := k.read hk
    refine ⟨k, hk, fun k' hk' => Packet.unique hk' hk, ?_⟩
    rw [(decodes_after hs p earlier).calls, hcalls]

end MoexDecoder
