import MoexDecoder.Spec.Packet

/-!
# Messages that are not of the decoder's layout

What a decoder of one schema version meets on the wire:

* A `VersionedMessage` has a type the decoder knows, in blocks of any length. Fields that
  a block does not reach keep their defaults, bytes behind the fields mean nothing.
* A `MixedMessage` is such a message in blocks as long as the decoder's types, or one of a
  template that the decoder does not support.
-/

namespace MoexDecoder

/-! ## Blocks of another length -/

/-- What follows the SBE header of a message in another version of the schema. -/
inductive VersionedBody
  | orderUpdate (block : List UInt8)
  | orderExecution (block : List UInt8)
  | orderBookSnapshot (root : List UInt8) (blockSize : UInt16) (entries : List (List UInt8))

namespace VersionedBody

def templateId : VersionedBody → UInt16
  | orderUpdate _ => 15
  | orderExecution _ => 16
  | orderBookSnapshot _ _ _ => 17

/-- The root block. -/
def block : VersionedBody → List UInt8
  | orderUpdate block => block
  | orderExecution block => block
  | orderBookSnapshot root _ _ => root

/-- The group header behind the root block of a snapshot. -/
def groupSize (blockSize : UInt16) (entries : List (List UInt8)) : GroupSize :=
  ⟨blockSize, UInt8.ofNat entries.length⟩

/-- What follows the root block. -/
def group : VersionedBody → List UInt8
  | orderUpdate _ => []
  | orderExecution _ => []
  | orderBookSnapshot _ blockSize entries => Wire.encode (groupSize blockSize entries) ++ entries.flatten

/-- The lengths fit their fields, and the entries have the length that is stated. -/
def WellFormed (m : VersionedBody) : Prop :=
  m.block.length < 65536 ∧
    match m with
    | orderBookSnapshot _ blockSize entries =>
      entries.length ≤ 255 ∧ ∀ e ∈ entries, e.length = blockSize.toNat
    | _ => True

instance : DecidablePred WellFormed
  | orderUpdate _ | orderExecution _ => inferInstanceAs (Decidable (_ ∧ True))
  | orderBookSnapshot _ _ _ => inferInstanceAs (Decidable (_ ∧ _ ∧ ∀ _ ∈ _, _))

/-- The header of a snapshot, with the fields the root block fills. -/
def filledHeader (root : List UInt8) (g : GroupSize) : OrderBookSnapshotHeader :=
  let header : OrderBookSnapshotHeader := Wire.memcpy {} root
  { header with groupSize := g }

/-- The fields that a block fills, from its first bytes. -/
def content : VersionedBody → Message
  | orderUpdate block => .orderUpdate (Wire.memcpy {} block)
  | orderExecution block => .orderExecution (Wire.memcpy {} block)
  | orderBookSnapshot root blockSize entries =>
    .orderBookSnapshot (filledHeader root (groupSize blockSize entries)) (entries.map (Wire.memcpy {}))

/-- The decoder reads the message as it was sent: its blocks are not longer than the
types, and a book takes the entries. A root block of a snapshot is not shorter either,
unless the group header behind it is zero. -/
def Readable : VersionedBody → Prop
  | orderUpdate block => block.length ≤ Wire.size OrderUpdate
  | orderExecution block => block.length ≤ Wire.size OrderExecution
  | orderBookSnapshot root blockSize entries =>
    (root.length = 16 ∨ root.length < 16 ∧ blockSize = 0 ∧ entries = []) ∧
      ∀ e ∈ entries, e.length ≤ Wire.size OrderBookEntry ∧ (Wire.memcpy ({} : OrderBookEntry) e).Accepted

/-- The decoder finds the end of the message: for orders, that of the type. -/
def Standard : VersionedBody → Prop
  | orderUpdate block => block.length = Wire.size OrderUpdate
  | orderExecution block => block.length = Wire.size OrderExecution
  | orderBookSnapshot _ _ _ => True

/-- The blocks are those of the decoder's types. -/
def InLayout : VersionedBody → Prop
  | orderUpdate block => block.length = Wire.size OrderUpdate
  | orderExecution block => block.length = Wire.size OrderExecution
  | orderBookSnapshot root blockSize _ => root.length = 16 ∧ blockSize = 57

/-- A book takes the entries of the message. -/
def Accepted : VersionedBody → Prop
  | orderBookSnapshot _ _ entries => ∀ e ∈ entries, (Wire.memcpy ({} : OrderBookEntry) e).Accepted
  | _ => True

instance : DecidablePred Accepted
  | orderUpdate _ | orderExecution _ => isTrue trivial
  | orderBookSnapshot _ _ _ => inferInstanceAs (Decidable (∀ _ ∈ _, _))

end VersionedBody

/-- A message with the rest of its SBE header. -/
structure VersionedMessage where
  schemaId : UInt16
  version : UInt16
  body : VersionedBody
  wellFormed : body.WellFormed

namespace VersionedMessage

def sbeHeader (m : VersionedMessage) : SBEHeader :=
  ⟨UInt16.ofNat m.body.block.length, m.body.templateId, m.schemaId, m.version⟩

def encode (m : VersionedMessage) : List UInt8 := Wire.encode m.sbeHeader ++ (m.body.block ++ m.body.group)

/-- What a handler is to be told. -/
def told (m : VersionedMessage) : Call := m.body.content.told

end VersionedMessage

/-- A packet of messages in blocks of any length. -/
abbrev VersionedPacket := Packed VersionedMessage.encode

/-- **The packets whose messages the decoder tells apart**: each message is readable, and
each but the last one is as long as its type. -/
def Packed.ToldApart (k : VersionedPacket) : Prop :=
  (∀ m ∈ k.messages, m.body.Readable) ∧ ∀ m ∈ k.messages.dropLast, m.body.Standard

/-! ## Templates that are not supported -/

/-- A message of a template the decoder supports, in its layout, or of another template. -/
inductive MixedMessage
  | supported (m : VersionedMessage) (inLayout : m.body.InLayout)
  | unsupported (templateId schemaId version : UInt16) (body : List UInt8)
      (unknown : templateId ≠ 15 ∧ templateId ≠ 16 ∧ templateId ≠ 17) (length_lt : body.length < 65536)

namespace MixedMessage

def encode : MixedMessage → List UInt8
  | supported m _ => m.encode
  | unsupported templateId schemaId version body _ _ =>
    Wire.encode (⟨UInt16.ofNat body.length, templateId, schemaId, version⟩ : SBEHeader) ++ body

def isSupported : MixedMessage → Bool
  | supported _ _ => true
  | unsupported _ _ _ _ _ _ => false

/-- What a handler is to be told, if it is told at all. -/
def told : MixedMessage → Option Call
  | supported m _ => some m.told
  | unsupported _ _ _ _ _ _ => none

/-- A book takes the entries of the message, if it is a snapshot. -/
def Accepted : MixedMessage → Prop
  | supported m _ => m.body.Accepted
  | unsupported _ _ _ _ _ _ => True

instance : DecidablePred Accepted
  | supported m _ => inferInstanceAs (Decidable m.body.Accepted)
  | unsupported _ _ _ _ _ _ => isTrue trivial

end MixedMessage

/-- A packet of supported and unsupported messages. -/
abbrev MixedPacket := Packed MixedMessage.encode

end MoexDecoder
