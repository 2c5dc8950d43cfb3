import MoexDecoder.Lib.Loop
import MoexDecoder.Lib.Memory
import MoexDecoder.Spec.SimbaTypes

/-!
# The decoder: `SIMBADecoder`

`decodeMessage` is `SIMBADecoder::decode_message` on one UDP payload. A `Decoding` is
the decoder in the middle of a call, with what the call has done so far: the handler
calls, the accesses to the payload (recorded, not checked, as in the source), and the
exception that is leaving it. Handlers do not throw.
-/

namespace MoexDecoder

/-- `MessageHandlers`: which of the `std::function`s hold a target. -/
structure MessageHandlers where
  orderExecutionHandler : Bool
  orderUpdateHandler : Bool
  orderBookSnapshotHandler : Bool
deriving DecidableEq

/-- A call of a handler. -/
inductive Call
  | orderUpdate (u : OrderUpdate)
  | orderExecution (x : OrderExecution)
  | orderBookSnapshot (s : OrderBookSnapshot)

/-- The three handlers. -/
inductive Handler
  | orderExecutionHandler
  | orderUpdateHandler
  | orderBookSnapshotHandler
deriving DecidableEq

/-- The handler a call is a call of. -/
def Call.handler : Call → Handler
  | orderUpdate _ => .orderUpdateHandler
  | orderExecution _ => .orderExecutionHandler
  | orderBookSnapshot _ => .orderBookSnapshotHandler

namespace MessageHandlers

def installed (hs : MessageHandlers) : Handler → Bool
  | .orderExecutionHandler => hs.orderExecutionHandler
  | .orderUpdateHandler => hs.orderUpdateHandler
  | .orderBookSnapshotHandler => hs.orderBookSnapshotHandler

/-- One handler, and no other. -/
def only (h : Handler) : MessageHandlers :=
  ⟨h == .orderExecutionHandler, h == .orderUpdateHandler, h == .orderBookSnapshotHandler⟩

def all : MessageHandlers := ⟨true, true, true⟩

/-- The handler of the call is installed. -/
def takes (hs : MessageHandlers) (c : Call) : Bool := hs.installed c.handler

@[simp] theorem all_takes (c : Call) : all.takes c = true := by cases c <;> rfl

theorem only_takes (h : Handler) (c : Call) : (only h).takes c = (c.handler == h) := by
  cases c <;> cases h <;> rfl

end MessageHandlers

/-- An access to a payload. -/
inductive Access
  /-- `udp_payload.subspan(off, n)` -/
  | subspan (off n : ℕ)
  /-- `n` bytes at `off` copied into an object of `size` bytes -/
  | memcpy (off n size : ℕ)
deriving DecidableEq

/-- The access stays inside a payload of `len` bytes, and inside its destination. -/
def Access.InRange (len : ℕ) : Access → Prop
  | subspan off n => off + n ≤ len
  | memcpy off n size => off + n ≤ len ∧ n ≤ size

instance (len : ℕ) (a : Access) : Decidable (a.InRange len) := by
  cases a <;> unfold Access.InRange <;> infer_instance

/-- What is sliced or read lies inside the first `len` bytes. -/
def Access.ReadsInside (len : ℕ) : Access → Prop
  | subspan off n => off + n ≤ len
  | memcpy off n _ => off + n ≤ len

/-- What is written lies inside the destination. -/
def Access.WritesInside : Access → Prop
  | subspan _ _ => True
  | memcpy _ n size => n ≤ size

instance (len : ℕ) (a : Access) : Decidable (a.ReadsInside len) := by
  cases a <;> unfold Access.ReadsInside <;> infer_instance

instance (a : Access) : Decidable a.WritesInside := by
  cases a <;> unfold Access.WritesInside <;> infer_instance

section access
variable {len off n size : ℕ}

@[simp] theorem Access.readsInside_subspan : (subspan off n).ReadsInside len ↔ off + n ≤ len := Iff.rfl

@[simp] theorem Access.readsInside_memcpy : (memcpy off n size).ReadsInside len ↔ off + n ≤ len := Iff.rfl

@[simp] theorem Access.writesInside_subspan : (subspan off n).WritesInside := trivial

@[simp] theorem Access.writesInside_memcpy : (memcpy off n size).WritesInside ↔ n ≤ size := Iff.rfl

end access

theorem Access.inRange_iff {len : ℕ} {a : Access} : a.InRange len ↔ a.ReadsInside len ∧ a.WritesInside := by
  cases a <;> simp [InRange, ReadsInside, WritesInside]

structure SIMBADecoder where
  currentOffset : ℕ
  marketUpdateHeader : MarketDataPacketHeader
  incrementalHeader : Option IncrementalPacketHeader
  sbeHeader : SBEHeader
  /-- `mapping_`, an unordered map -/
  mapping : List (ℕ × Messages)

/-- A decoder as it is made. -/
def SIMBADecoder.init : SIMBADecoder where
  currentOffset := 0
  marketUpdateHeader := {}
  incrementalHeader := none
  sbeHeader := {}
  mapping := [(15, .orderUpdateType), (16, .orderExecutionType), (17, .orderBookSnapshotType)]

/-- `mapping_[template_id]`: a missing key is inserted with the value `0`. -/
def fromIdToType (mapping : List (ℕ × Messages)) (templateId : ℕ) : Messages × List (ℕ × Messages) :=
  match mapping.lookup templateId with
  | some t => (t, mapping)
  | none => (.messageUnknown, (templateId, .messageUnknown) :: mapping)

/-- A call of `decode_message` under way. -/
structure Decoding where
  decoder : SIMBADecoder
  calls : List Call := []
  accesses : List Access := []
  exception : Option Exception := none

namespace Decoding

def touch (s : Decoding) (as : List Access) : Decoding := { s with accesses := s.accesses ++ as }

def advance (s : Decoding) (n : ℕ) : Decoding :=
  { s with decoder := { s.decoder with currentOffset := s.decoder.currentOffset + n } }

/-- `if (handler) handler(message)`. -/
def call (s : Decoding) (installed : Bool) (c : Call) : Decoding :=
  if installed then { s with calls := s.calls ++ [c] } else s

end Decoding

/-- `memcpy(&x, udp_payload.data() + off, n)`. -/
def copyFrom {α : Type} [Wire α] (p : Span) (off n : ℕ) (x : α) : α := Wire.memcpy x (p.mem.read off n)

variable (hs : MessageHandlers) (p : Span)

/-- `handle_order_update`: the size it returns, and the state it leaves. -/
def handleOrderUpdate (sbeHeader : SBEHeader) (s : Decoding) : ℕ × Decoding :=
  let off := s.decoder.currentOffset
  let n := sbeHeader.blockLength.toNat
  let orderUpdate := copyFrom p off n ({} : OrderUpdate)
  let s := s.touch [.subspan off n, .memcpy off n (Wire.size OrderUpdate)]
  (Wire.size OrderUpdate, s.call hs.orderUpdateHandler (.orderUpdate orderUpdate))

/-- `handle_order_execution`. -/
def handleOrderExecution (sbeHeader : SBEHeader) (s : Decoding) : ℕ × Decoding :=
  let off := s.decoder.currentOffset
  let n := sbeHeader.blockLength.toNat
  let orderExecution := copyFrom p off n ({} : OrderExecution)
  let s := s.touch [.subspan off n, .memcpy off n (Wire.size OrderExecution)]
  (Wire.size OrderExecution, s.call hs.orderExecutionHandler (.orderExecution orderExecution))

/-- The group loop of a snapshot, with the entries still to be read. An exception of
`insert` leaves it at once. -/
def readEntries (blockSize : ℕ) : ℕ → Decoding → OrderBookSnapshot → Decoding × OrderBookSnapshot
  | 0, s, snapshot => (s, snapshot)
  | k + 1, s, snapshot =>
    let off := s.decoder.currentOffset
    let entry := copyFrom p off blockSize ({} : OrderBookEntry)
    let s := s.touch [.subspan off blockSize, .memcpy off blockSize (Wire.size OrderBookEntry)]
    let s := s.advance blockSize
    match snapshot.insert entry with
    | .error e => ({ s with exception := some e }, snapshot)
    | .ok snapshot => readEntries blockSize k s snapshot

/-- `handle_order_book_snapshot`. -/
def handleOrderBookSnapshot (s : Decoding) : Decoding :=
  let off := s.decoder.currentOffset
  let n := s.decoder.sbeHeader.blockLength.toNat
  -- the group header is copied with the root block, past the end of `message_span`
  let header := copyFrom p off (n + Wire.size GroupSize) ({} : OrderBookSnapshotHeader)
  let s := s.touch [.subspan off n,
    .memcpy off (n + Wire.size GroupSize) (Wire.size OrderBookSnapshotHeader)]
  let s := s.advance (n + Wire.size GroupSize)
  let (s, snapshot) := readEntries p header.groupSize.blockSize.toNat
    header.groupSize.numInGroup.toNat s { snapshotHeader := header }
  if s.exception = none then s.call hs.orderBookSnapshotHandler (.orderBookSnapshot snapshot) else s

/-- The body of the message loop: the state after it, and `to_be_skipped`. -/
def handleMessage (s : Decoding) : Decoding × Bool :=
  let off := s.decoder.currentOffset
  let sbeHeader := copyFrom p off (Wire.size SBEHeader) s.decoder.sbeHeader
  let s := s.touch [.subspan off (Wire.size SBEHeader),
    .memcpy off (Wire.size SBEHeader) (Wire.size SBEHeader)]
  let (templateType, mapping) := fromIdToType s.decoder.mapping sbeHeader.templateId.toNat
  let s := { s with decoder := { s.decoder with
    sbeHeader := sbeHeader, currentOffset := off + Wire.size SBEHeader, mapping := mapping } }
  match templateType with
  | .orderUpdateType =>
    let (n, s) := handleOrderUpdate hs p sbeHeader s
    (s.advance n, false)
  | .orderExecutionType =>
    let (n, s) := handleOrderExecution hs p sbeHeader s
    (s.advance n, false)
  | .orderBookSnapshotType => (handleOrderBookSnapshot hs p s, false)
  | .messageUnknown => (s, true)

/-- `message_size` of the packet being decoded. -/
def Decoding.messageSize (s : Decoding) : ℕ := s.decoder.marketUpdateHeader.messageSize.toNat

/-- One pass of the message loop over a state and `to_be_skipped`. -/
def messageStep (s : Decoding × Bool) : Option (Decoding × Bool) :=
  if s.1.exception = none ∧ s.1.decoder.currentOffset < s.1.messageSize ∧ s.2 = false then
    some (handleMessage hs p s.1)
  else
    none

/-- The message loop. Every pass moves `current_offset_` up. -/
def messageLoop (s : Decoding) : Decoding :=
  (Loop.run (messageStep hs p) (fun s => s.1.messageSize - s.1.decoder.currentOffset) (s, false)).1

/-- The part of `decode_message` before the message loop. -/
def readHeaders (d : SIMBADecoder) : Decoding :=
  let size := Wire.size MarketDataPacketHeader
  let header := copyFrom p 0 size d.marketUpdateHeader
  let s : Decoding := {
    decoder := { d with currentOffset := size, marketUpdateHeader := header }
    accesses := [.subspan 0 size, .memcpy 0 size size] }
  if header.messageFlags &&& 0x8 ≠ 0 then
    let incSize := Wire.size IncrementalPacketHeader
    let incHeader := copyFrom p size incSize ({} : IncrementalPacketHeader)
    let s := (s.touch [.subspan size incSize, .memcpy size incSize incSize]).advance incSize
    { s with decoder := { s.decoder with incrementalHeader := some incHeader } }
  else
    s

/-- `SIMBADecoder::decode_message`. -/
def decodeMessage (d : SIMBADecoder) : Decoding := messageLoop hs p (readHeaders p d)

/-! ## The group loop, pass by pass -/

/-- The state of the group loop of `handle_order_book_snapshot`. -/
structure GroupLoop where
  decoding : Decoding
  snapshot : OrderBookSnapshot
  entryNr : ℕ

/-- The group loop when it is entered. -/
def GroupLoop.init (s : Decoding) (header : OrderBookSnapshotHeader) : GroupLoop :=
  ⟨s, { snapshotHeader := header }, 0⟩

/-- The entry that a pass of the group loop reads. -/
def GroupLoop.entry (group : GroupSize) (g : GroupLoop) : OrderBookEntry :=
  copyFrom p g.decoding.decoder.currentOffset group.blockSize.toNat {}

/-- The call behind that entry. -/
def GroupLoop.behindEntry (group : GroupSize) (g : GroupLoop) : Decoding :=
  let off := g.decoding.decoder.currentOffset
  let blockSize := group.blockSize.toNat
  (g.decoding.touch [.subspan off blockSize, .memcpy off blockSize (Wire.size OrderBookEntry)]).advance blockSize

/-- One pass of the group loop. An exception of `insert` leaves it before `++entry_nr`. -/
def groupStep (group : GroupSize) (g : GroupLoop) : Option GroupLoop :=
  if g.decoding.exception = none ∧ g.entryNr < group.numInGroup.toNat then
    match g.snapshot.insert (g.entry p group) with
    | .error e => some { g with decoding := { g.behindEntry group with exception := some e } }
    | .ok snapshot => some ⟨g.behindEntry group, snapshot, g.entryNr + 1⟩
  else
    none

/-! ## A decoder's life -/

/-- A decoder after it was given payloads, whatever became of each call. -/
def SIMBADecoder.after (d : SIMBADecoder) (ps : List Span) : SIMBADecoder :=
  ps.foldl (fun d p => (decodeMessage hs p d).decoder) d

/-- The handler calls of a decoder that is given payloads, in order. -/
def SIMBADecoder.calls (d : SIMBADecoder) : List Span → List Call
  | [] => []
  | p :: ps => (decodeMessage hs p d).calls ++ SIMBADecoder.calls (decodeMessage hs p d).decoder ps

end MoexDecoder
