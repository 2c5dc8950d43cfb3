import MoexDecoder.Lib.Walk
import MoexDecoder.Spec.SimbaDecoder

/-!
# What a payload says

A payload read without a decoder: the messages that a walk over it comes across, each
with what a handler is to be told of it. Nothing here depends on the handlers that are
installed or on what a decoder has seen before; that `SIMBADecoder` does no more than
this walk is proved of it.
-/

namespace MoexDecoder

open Walk

/-- The content of a message. -/
inductive Message
  | orderUpdate (u : OrderUpdate)
  | orderExecution (x : OrderExecution)
  | orderBookSnapshot (header : OrderBookSnapshotHeader) (entries : List OrderBookEntry)

/-- The book made of the entries, or the exception of the first that has no place in it. -/
def bookOf (header : OrderBookSnapshotHeader) (entries : List OrderBookEntry) :
    Except Exception OrderBookSnapshot :=
  entries.foldlM OrderBookSnapshot.insert { snapshotHeader := header }

/-- The call that tells a handler of a message. -/
def Message.call : Message → Except Exception Call
  | orderUpdate u => .ok (.orderUpdate u)
  | orderExecution x => .ok (.orderExecution x)
  | orderBookSnapshot header entries => (bookOf header entries).map .orderBookSnapshot

/-- A book takes entries without a price, and entries of a named side. -/
def OrderBookEntry.Accepted (e : OrderBookEntry) : Prop := isNullPrice e.orderPrice = true ∨ e.side.Named

instance (e : OrderBookEntry) : Decidable e.Accepted := inferInstanceAs (Decidable (_ ∨ _))

/-- The entry is a price level of this side. -/
def OrderBookEntry.isLevel (side : MDEntryType) (e : OrderBookEntry) : Bool :=
  !isNullPrice e.orderPrice && e.side = side

/-- What a walk comes across at an offset. -/
structure Visit where
  /-- `none` for a template without a handler -/
  message : Option Message
  accesses : List Access
  /-- where the reading stopped -/
  stop : ℕ

namespace Visit

/-- The call, or what becomes of it. -/
def outcome (v : Visit) : Option (Except Exception Call) := v.message.map Message.call

def calls (v : Visit) : List Call :=
  match v.outcome with
  | some (.ok c) => [c]
  | _ => []

def exception (v : Visit) : Option Exception :=
  match v.outcome with
  | some (.error e) => some e
  | _ => none

/-- The walk goes on behind a message that was told of. -/
def next (v : Visit) : Option ℕ :=
  match v.outcome with
  | some (.ok _) => some v.stop
  | _ => none

end Visit

variable (p : Span)

/-- The fixed-size object a message of `blockLength` bytes fills. -/
def blockAccesses (off n size : ℕ) : List Access := [.subspan off n, .memcpy off n size]

/-- The entries of a group, up to the first that no book takes. -/
def groupAt (blockSize : ℕ) : ℕ → ℕ → List OrderBookEntry
  | 0, _ => []
  | k + 1, off =>
    let entry := copyFrom p off blockSize ({} : OrderBookEntry)
    if entry.Accepted then entry :: groupAt blockSize k (off + blockSize) else [entry]

section group
variable {p} {blockSize k off : ℕ}

theorem groupAt_accepted (h : (copyFrom p off blockSize ({} : OrderBookEntry)).Accepted) :
    groupAt p blockSize (k + 1) off =
      copyFrom p off blockSize {} :: groupAt p blockSize k (off + blockSize) :=
  if_pos h

theorem groupAt_refused (h : ¬ (copyFrom p off blockSize ({} : OrderBookEntry)).Accepted) :
    groupAt p blockSize (k + 1) off = [copyFrom p off blockSize {}] :=
  if_neg h

end group

/-- The accesses to the first `k` entries of a group. -/
def groupAccesses (blockSize : ℕ) : ℕ → ℕ → List Access
  | 0, _ => []
  | k + 1, off => blockAccesses off blockSize (Wire.size OrderBookEntry) ++
      groupAccesses blockSize k (off + blockSize)

/-- A snapshot whose root block of `n` bytes is at `off`. -/
def snapshotAt (off n : ℕ) : Visit :=
  let header := copyFrom p off (n + Wire.size GroupSize) ({} : OrderBookSnapshotHeader)
  let blockSize := header.groupSize.blockSize.toNat
  let group := off + (n + Wire.size GroupSize)
  let entries := groupAt p blockSize header.groupSize.numInGroup.toNat group
  { message := some (.orderBookSnapshot header entries)
    accesses := [.subspan off n, .memcpy off (n + Wire.size GroupSize) (Wire.size OrderBookSnapshotHeader)] ++
      groupAccesses blockSize entries.length group
    stop := group + entries.length * blockSize }

/-- The type of a template. -/
def templateType : ℕ → Messages
  | 15 => .orderUpdateType
  | 16 => .orderExecutionType
  | 17 => .orderBookSnapshotType
  | _ => .messageUnknown

/-- The body at `off` of a message of type `t` whose header says `n` bytes. -/
def bodyAt (t : Messages) (n off : ℕ) : Visit :=
  match t with
  | .orderUpdateType =>
    ⟨some (.orderUpdate (copyFrom p off n {})), blockAccesses off n (Wire.size OrderUpdate),
      off + Wire.size OrderUpdate⟩
  | .orderExecutionType =>
    ⟨some (.orderExecution (copyFrom p off n {})), blockAccesses off n (Wire.size OrderExecution),
      off + Wire.size OrderExecution⟩
  | .orderBookSnapshotType => snapshotAt p off n
  | .messageUnknown => ⟨none, [], off⟩

/-- The header of a message at `off`. -/
def sbeHeaderAt (off : ℕ) : SBEHeader := copyFrom p off (Wire.size SBEHeader) {}

/-- A message of type `t` with its header at `off`. -/
def messageAt (t : Messages) (off : ℕ) : Visit :=
  let v := bodyAt p t (sbeHeaderAt p off).blockLength.toNat (off + Wire.size SBEHeader)
  { v with accesses := blockAccesses off (Wire.size SBEHeader) (Wire.size SBEHeader) ++ v.accesses }

/-- The message at `off`. -/
def visitAt (off : ℕ) : Visit := messageAt p (templateType (sbeHeaderAt p off).templateId.toNat) off

/-! ## A whole payload -/

/-- The header of a payload. -/
def marketHeaderAt : MarketDataPacketHeader := copyFrom p 0 (Wire.size MarketDataPacketHeader) {}

/-- An incremental header stands between the header and the messages. -/
def MarketDataPacketHeader.Incremental (h : MarketDataPacketHeader) : Prop := h.messageFlags &&& 0x8 ≠ 0

instance (h : MarketDataPacketHeader) : Decidable h.Incremental := inferInstanceAs (Decidable (_ ≠ _))

def incrementalHeaderAt : IncrementalPacketHeader :=
  copyFrom p (Wire.size MarketDataPacketHeader) (Wire.size IncrementalPacketHeader) {}

/-- The accesses to the headers of a payload. -/
def headerAccesses : List Access :=
  let size := Wire.size MarketDataPacketHeader
  let incSize := Wire.size IncrementalPacketHeader
  blockAccesses 0 size size ++
    if (marketHeaderAt p).Incremental then blockAccesses size incSize incSize else []

/-- Where the messages start. -/
def messagesOffset : ℕ :=
  Wire.size MarketDataPacketHeader +
    if (marketHeaderAt p).Incremental then Wire.size IncrementalPacketHeader else 0

/-- The messages a walk over a payload comes across. -/
def visits : List Visit :=
  walk (visitAt p) Visit.next (marketHeaderAt p).messageSize.toNat (messagesOffset p)

/-- The calls a payload asks for. -/
def payloadCalls : List Call := (visits p).flatMap Visit.calls

/-- The exception it raises. -/
def payloadException : Option Exception := (visits p).findSome? Visit.exception

def payloadAccesses : List Access := headerAccesses p ++ (visits p).flatMap Visit.accesses

/-- Where the reading of a payload stops. -/
def payloadStop : ℕ := ((visits p).getLast?.map Visit.stop).getD (messagesOffset p)

/-- Every access to the payload stays inside it. -/
def AccessesInside : Prop := ∀ a ∈ payloadAccesses p, a.InRange p.bytes.length

instance : Decidable (AccessesInside p) := inferInstanceAs (Decidable (∀ a ∈ _, _))

/-- Everything that is sliced or read of the payload lies inside it. -/
def PayloadReadsInside : Prop := ∀ a ∈ payloadAccesses p, a.ReadsInside p.bytes.length

variable {p} in
theorem AccessesInside.reads (h : AccessesInside p) : PayloadReadsInside p :=
  fun a ha => (Access.inRange_iff.1 (h a ha)).1

end MoexDecoder
