import MoexDecoder.Spec.Messages

/-!
# The lengths a payload states

What the headers in a payload say of its messages, without a copy being made:
`messageStarts` are the offsets where a message is looked for, `messageEnd` is where the
one at an offset ends by its own header. `Complete` payloads hold all the bytes their
headers speak of; the lengths of a payload that `LengthsFit` are those of types the
decoder knows, or shorter.
-/

namespace MoexDecoder

open Walk

variable (p : Span)

/-- Where the messages of a payload start. -/
def messageStarts : List ℕ :=
  starts (visitAt p) Visit.next (marketHeaderAt p).messageSize.toNat (messagesOffset p)

/-- The type of the message at `off`. -/
def typeAt (off : ℕ) : Messages := templateType (sbeHeaderAt p off).templateId.toNat

/-- `block_length` of the message at `off`. -/
def blockLengthAt (off : ℕ) : ℕ := (sbeHeaderAt p off).blockLength.toNat

/-- The block of the message at `off`. -/
def blockAt (off : ℕ) : ℕ := off + Wire.size SBEHeader

/-- The group header of the snapshot at `off`, at its place in the struct. -/
def groupSizeAt (off : ℕ) : GroupSize :=
  (copyFrom p (blockAt off) (blockLengthAt p off + Wire.size GroupSize) ({} : OrderBookSnapshotHeader)).groupSize

/-- The entries of the snapshot at `off`. -/
def entriesAt (off : ℕ) : List OrderBookEntry :=
  groupAt p (groupSizeAt p off).blockSize.toNat (groupSizeAt p off).numInGroup.toNat
    (blockAt off + (blockLengthAt p off + Wire.size GroupSize))

/-- Where the message at `off` ends, by the lengths its headers state. A snapshot ends
behind the first entry that no book takes. -/
def messageEnd (off : ℕ) : ℕ :=
  match typeAt p off with
  | .orderUpdateType | .orderExecutionType => blockAt off + blockLengthAt p off
  | .orderBookSnapshotType => blockAt off + (blockLengthAt p off + Wire.size GroupSize) +
      (entriesAt p off).length * (groupSizeAt p off).blockSize.toNat
  | .messageUnknown => blockAt off

/-- The handler of a type. -/
def Messages.handler : Messages → Option Handler
  | .orderUpdateType => some .orderUpdateHandler
  | .orderExecutionType => some .orderExecutionHandler
  | .orderBookSnapshotType => some .orderBookSnapshotHandler
  | .messageUnknown => none

/-- The message at `off` has a handler that is installed, and raises no exception. -/
def ToldAt (hs : MessageHandlers) (off : ℕ) : Prop :=
  (∃ h, (typeAt p off).handler = some h ∧ hs.installed h = true) ∧
    (typeAt p off = .orderBookSnapshotType → ∀ e ∈ entriesAt p off, e.Accepted)

/-- **A complete payload**: it holds the headers, and each message it states to its end,
a message that is told of in the first `message_size` bytes. -/
structure Complete (hs : MessageHandlers) (p : Span) : Prop where
  headers : messagesOffset p ≤ p.bytes.length
  held : ∀ off ∈ messageStarts p, messageEnd p off ≤ p.bytes.length
  announced : ∀ off ∈ messageStarts p, ToldAt p hs off →
    messageEnd p off ≤ (marketHeaderAt p).messageSize.toNat

/-- The lengths the message at `off` states are at most those of the types the decoder has. -/
def LengthsFitAt (off : ℕ) : Prop :=
  match typeAt p off with
  | .orderUpdateType => blockLengthAt p off ≤ Wire.size OrderUpdate
  | .orderExecutionType => blockLengthAt p off ≤ Wire.size OrderExecution
  | .orderBookSnapshotType =>
    blockLengthAt p off + Wire.size GroupSize ≤ Wire.size OrderBookSnapshotHeader ∧
      ((groupSizeAt p off).numInGroup ≠ 0 → (groupSizeAt p off).blockSize.toNat ≤ Wire.size OrderBookEntry)
  | .messageUnknown => True

/-- **The lengths fit** at every message. -/
def LengthsFit : Prop := ∀ off ∈ messageStarts p, LengthsFitAt p off

instance (off : ℕ) : Decidable (LengthsFitAt p off) := by
  unfold LengthsFitAt
  cases typeAt p off <;> infer_instance

instance : Decidable (LengthsFit p) := inferInstanceAs (Decidable (∀ off ∈ _, _))

end MoexDecoder
