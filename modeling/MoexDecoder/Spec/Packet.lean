import MoexDecoder.Spec.Envelope

/-!
# Packets as they are sent

A `Packet` is a market data packet with its messages, and `Packet.encode` its bytes:
packed, little endian, each message behind its SBE header, the entries of a snapshot
behind its group header. What may not be sent cannot be built: `message_size` is the
length of the packet and fits its field, the incremental header is there when the flags
say so, and a snapshot has at most 255 entries, all of a named side.
-/

namespace MoexDecoder

namespace Message

def templateId : Message → UInt16
  | orderUpdate _ => 15
  | orderExecution _ => 16
  | orderBookSnapshot _ _ => 17

/-- The length of the root block. -/
def blockLength : Message → UInt16
  | orderUpdate _ => 50
  | orderExecution _ => 74
  | orderBookSnapshot _ _ => 16

/-- What follows the SBE header. -/
def body : Message → List UInt8
  | orderUpdate u => Wire.encode u
  | orderExecution x => Wire.encode x
  | orderBookSnapshot header entries => Wire.encode header ++ entries.flatMap Wire.encode

/-- The group header counts the entries, and the book has a place for each. -/
def WellFormed : Message → Prop
  | orderBookSnapshot header entries =>
    header.groupSize = ⟨57, UInt8.ofNat entries.length⟩ ∧ entries.length ≤ 255 ∧
      ∀ e ∈ entries, e.side.Named
  | _ => True

instance : DecidablePred WellFormed
  | orderUpdate _ | orderExecution _ => isTrue trivial
  | orderBookSnapshot _ _ => inferInstanceAs (Decidable (_ ∧ _ ∧ ∀ _ ∈ _, _))

end Message

/-- A message with the rest of its SBE header. -/
structure PacketMessage where
  schemaId : UInt16
  version : UInt16
  message : Message
  wellFormed : message.WellFormed

namespace PacketMessage

def sbeHeader (m : PacketMessage) : SBEHeader :=
  ⟨m.message.blockLength, m.message.templateId, m.schemaId, m.version⟩

def encode (m : PacketMessage) : List UInt8 := Wire.encode m.sbeHeader ++ m.message.body

end PacketMessage

/-- The length of a packet. -/
def packetSize (incremental : Option IncrementalPacketHeader) (messages : List PacketMessage) : ℕ :=
  Wire.size MarketDataPacketHeader + (if incremental.isSome then Wire.size IncrementalPacketHeader else 0) +
    (messages.map (·.encode.length)).sum

/-- One market data packet. -/
structure Packet where
  sequenceNumber : UInt32
  messageFlags : UInt16
  sendingTime : UInt64
  incremental : Option IncrementalPacketHeader
  messages : List PacketMessage
  incremental_iff : incremental.isSome ↔ messageFlags &&& 0x8 ≠ 0
  size_le : packetSize incremental messages ≤ 65535

namespace Packet

def size (k : Packet) : ℕ := packetSize k.incremental k.messages

def header (k : Packet) : MarketDataPacketHeader :=
  ⟨k.sequenceNumber, UInt16.ofNat k.size, k.messageFlags, k.sendingTime⟩

def encode (k : Packet) : List UInt8 :=
  Wire.encode k.header ++ ((k.incremental.elim [] Wire.encode) ++ k.messages.flatMap PacketMessage.encode)

/-- `message_size` is the total length. -/
theorem encode_length (k : Packet) : k.encode.length = k.size := by
  have hinc : (k.incremental.elim [] Wire.encode).length =
      if k.incremental.isSome then Wire.size IncrementalPacketHeader else 0 := by
    cases k.incremental <;> simp
  simp [encode, size, packetSize, hinc, List.length_flatMap, Nat.add_assoc]

theorem messageSize (k : Packet) : k.header.messageSize.toNat = k.size := by
  have := k.size_le
  exact Nat.mod_eq_of_lt (by rw [size]; omega)

theorem size_eq (k : Packet) : k.size = Wire.size MarketDataPacketHeader +
    (k.incremental.elim [] Wire.encode).length + (k.messages.flatMap PacketMessage.encode).length := by
  rw [← k.encode_length, encode, List.length_append, List.length_append, Wire.encode_length, Nat.add_assoc]

/-- The packet as an envelope of its messages. -/
def packed (k : Packet) : Packed PacketMessage.encode where
  sequenceNumber := k.sequenceNumber
  messageFlags := k.messageFlags
  sendingTime := k.sendingTime
  incremental := k.incremental
  body := k.messages.flatMap PacketMessage.encode
  incremental_iff := k.incremental_iff
  size_le := by rw [← k.size_eq]; exact k.size_le
  messages := k.messages
  body_eq := rfl

theorem packed_size (k : Packet) : k.packed.size = k.size := k.size_eq.symm

theorem packed_encode (k : Packet) : k.packed.encode = k.encode := by
  rw [Envelope.encode, Envelope.header, k.packed_size]; rfl

theorem packed_header (k : Packet) : k.packed.header = k.header := by
  rw [Envelope.header, k.packed_size]; rfl

end Packet

/-! ## The books of snapshots -/

/-- The book of a snapshot: for each side and price the first entry. -/
def OrderBookSnapshot.ofEntries (header : OrderBookSnapshotHeader) (entries : List OrderBookEntry) :
    OrderBookSnapshot where
  snapshotHeader := header
  bidBook := (entries.filter (·.isLevel .bid)).foldl (fun b e => b.insertIfNew e.orderPrice e) {}
  askBook := (entries.filter (·.isLevel .offer)).foldl (fun b e => b.insertIfNew e.orderPrice e) {}

/-- What a handler is told of a message. -/
def Message.told : Message → Call
  | orderUpdate u => .orderUpdate u
  | orderExecution x => .orderExecution x
  | orderBookSnapshot header entries => .orderBookSnapshot (.ofEntries header entries)

end MoexDecoder
