import MoexDecoder.Spec.Lengths

/-!
# Packets around any messages

An `Envelope` is the part of a market data packet that does not depend on what its
messages are: the packet headers and the bytes behind them. `Packed encode` is an
envelope of messages laid one behind the other.
-/

namespace MoexDecoder

/-- The packet headers, and the bytes of the messages. -/
structure Envelope where
  sequenceNumber : UInt32
  messageFlags : UInt16
  sendingTime : UInt64
  incremental : Option IncrementalPacketHeader
  body : List UInt8
  incremental_iff : incremental.isSome ↔ messageFlags &&& 0x8 ≠ 0
  size_le : Wire.size MarketDataPacketHeader + (incremental.elim [] Wire.encode).length + body.length ≤ 65535

namespace Envelope

/-- Where the messages start. -/
def bodyOffset (k : Envelope) : ℕ :=
  Wire.size MarketDataPacketHeader + (k.incremental.elim [] Wire.encode).length

def size (k : Envelope) : ℕ := k.bodyOffset + k.body.length

def header (k : Envelope) : MarketDataPacketHeader :=
  ⟨k.sequenceNumber, UInt16.ofNat k.size, k.messageFlags, k.sendingTime⟩

def encode (k : Envelope) : List UInt8 :=
  Wire.encode k.header ++ (k.incremental.elim [] Wire.encode ++ k.body)

theorem messageSize (k : Envelope) : k.header.messageSize.toNat = k.size := by
  have := k.size_le
  exact Nat.mod_eq_of_lt (by rw [size, bodyOffset]; omega)

/-- The packet in memory, with bytes behind it in the payload and behind the payload. -/
def payload (k : Envelope) (trailing : List UInt8) (past : Mem) : Span := ⟨k.encode ++ trailing, past⟩

end Envelope

/-- An envelope of messages that follow each other. -/
structure Packed {μ : Type} (encode : μ → List UInt8) extends Envelope where
  messages : List μ
  body_eq : body = messages.flatMap encode

/-- Where messages that follow each other start. -/
def offsets {μ : Type} (encode : μ → List UInt8) : ℕ → List μ → List ℕ
  | _, [] => []
  | off, m :: ms => off :: offsets encode (off + (encode m).length) ms

/-- Where the messages of a packet start. -/
def Packed.starts {μ : Type} {encode : μ → List UInt8} (k : Packed encode) : List ℕ :=
  offsets encode k.bodyOffset k.messages

end MoexDecoder
