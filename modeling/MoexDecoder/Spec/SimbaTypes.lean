import MoexDecoder.Lib.Wire

/-!
# The SIMBA types: `simba_types.h`

The packed structures of the wire format with the values their bytes stand for, and
`OrderBookSnapshot`, the book a snapshot message is turned into. An enumeration of
the source holds any value of its underlying type, so each has a constructor for the
values without a name.
-/

namespace MoexDecoder

/-- `NULL_VALUE`: the mantissa of a missing price, as an unsigned constant. -/
def NULL_VALUE : UInt64 := 9223372036854775807

/-- `price == NULL_VALUE`: the signed operand is converted to unsigned. -/
def isNullPrice (price : Int64) : Bool := price.toUInt64 == NULL_VALUE

/-! ## Enumerations -/

/-- `MDEntryType`, over `char`. -/
inductive MDEntryType
  | bid
  | offer
  | emptyBook
  | unnamed (c : { c : UInt8 // c ≠ 0x30 ∧ c ≠ 0x31 ∧ c ≠ 0x4A })
deriving DecidableEq

namespace MDEntryType

def toByte : MDEntryType → UInt8
  | bid => 0x30
  | offer => 0x31
  | emptyBook => 0x4A
  | unnamed c => c.1

def ofByte (c : UInt8) : MDEntryType :=
  if h0 : c = 0x30 then bid
  else if h1 : c = 0x31 then offer
  else if h2 : c = 0x4A then emptyBook
  else unnamed ⟨c, h0, h1, h2⟩

theorem ofByte_toByte (s : MDEntryType) : ofByte s.toByte = s := by
  cases s with
  | unnamed c => simp [ofByte, toByte, c.2.1, c.2.2.1, c.2.2.2]
  | _ => rfl

theorem toByte_ofByte (c : UInt8) : (ofByte c).toByte = c := by
  unfold ofByte
  split_ifs <;> simp_all [toByte]

instance : Wire MDEntryType := .ofEquiv ⟨toByte, ofByte, ofByte_toByte, toByte_ofByte⟩

/-- The sides the source has a name for. -/
def Named (s : MDEntryType) : Prop := s = bid ∨ s = offer ∨ s = emptyBook

instance (s : MDEntryType) : Decidable s.Named := inferInstanceAs (Decidable (_ ∨ _))

end MDEntryType

/-- `MDUpdateAction`, over `uint8_t`. -/
inductive MDUpdateAction
  | new
  | update
  | delete
  | unnamed (c : { c : UInt8 // c ≠ 0 ∧ c ≠ 1 ∧ c ≠ 2 })
deriving DecidableEq

namespace MDUpdateAction

def toByte : MDUpdateAction → UInt8
  | new => 0
  | update => 1
  | delete => 2
  | unnamed c => c.1

def ofByte (c : UInt8) : MDUpdateAction :=
  if h0 : c = 0 then new
  else if h1 : c = 1 then update
  else if h2 : c = 2 then delete
  else unnamed ⟨c, h0, h1, h2⟩

theorem ofByte_toByte (a : MDUpdateAction) : ofByte a.toByte = a := by
  cases a with
  | unnamed c => simp [ofByte, toByte, c.2.1, c.2.2.1, c.2.2.2]
  | _ => rfl

theorem toByte_ofByte (c : UInt8) : (ofByte c).toByte = c := by
  unfold ofByte
  split_ifs <;> simp_all [toByte]

instance : Wire MDUpdateAction := .ofEquiv ⟨toByte, ofByte, ofByte_toByte, toByte_ofByte⟩

end MDUpdateAction

/-- `Messages`; only the named values are ever made. -/
inductive Messages
  | messageUnknown
  | orderUpdateType
  | orderExecutionType
  | orderBookSnapshotType
deriving DecidableEq

/-! ## Packed structures -/

structure OrderUpdate where
  orderId : Int64 := 0
  orderPrice : Int64 := 0
  orderVolume : Int64 := 0
  mdFlagsSet : UInt64 := 0
  mdFlagsSet2 : UInt64 := 0
  securityId : Int32 := 0
  rptSeq : UInt32 := 0
  action : MDUpdateAction := .ofByte 0
  side : MDEntryType := .ofByte 0
deriving DecidableEq

instance : Wire OrderUpdate := .ofEquiv
  (β := Int64 × Int64 × Int64 × UInt64 × UInt64 × Int32 × UInt32 × MDUpdateAction × MDEntryType)
  ⟨fun u => (u.orderId, u.orderPrice, u.orderVolume, u.mdFlagsSet, u.mdFlagsSet2, u.securityId,
      u.rptSeq, u.action, u.side),
    fun (a, b, c, d, e, f, g, h, i) => ⟨a, b, c, d, e, f, g, h, i⟩, fun _ => rfl, fun _ => rfl⟩

structure OrderExecution where
  orderId : Int64 := 0
  orderPrice : Int64 := 0
  remainingQuantity : Int64 := 0
  tradePrice : Int64 := 0
  tradeVolume : Int64 := 0
  traderId : Int64 := 0
  mdFlagsSet : UInt64 := 0
  mdFlagsSet2 : UInt64 := 0
  securityId : Int32 := 0
  rptSeq : UInt32 := 0
  action : MDUpdateAction := .ofByte 0
  side : MDEntryType := .ofByte 0
deriving DecidableEq

instance : Wire OrderExecution := .ofEquiv
  (β := Int64 × Int64 × Int64 × Int64 × Int64 × Int64 × UInt64 × UInt64 × Int32 × UInt32 ×
    MDUpdateAction × MDEntryType)
  ⟨fun x => (x.orderId, x.orderPrice, x.remainingQuantity, x.tradePrice, x.tradeVolume, x.traderId,
      x.mdFlagsSet, x.mdFlagsSet2, x.securityId, x.rptSeq, x.action, x.side),
    fun (a, b, c, d, e, f, g, h, i, j, k, l) => ⟨a, b, c, d, e, f, g, h, i, j, k, l⟩,
    fun _ => rfl, fun _ => rfl⟩

/-- The header of the repeating group of a snapshot. -/
structure GroupSize where
  blockSize : UInt16 := 0
  numInGroup : UInt8 := 0
deriving DecidableEq

instance : Wire GroupSize := .ofEquiv (β := UInt16 × UInt8)
  ⟨fun g => (g.blockSize, g.numInGroup), fun (a, b) => ⟨a, b⟩, fun _ => rfl, fun _ => rfl⟩

/-- The root block of a snapshot with the group header behind it. -/
structure OrderBookSnapshotHeader where
  securityId : Int32 := 0
  lastMsgSeqNumProcessed : UInt32 := 0
  rptSeq : UInt32 := 0
  exchangeTradingSessionId : UInt32 := 0
  groupSize : GroupSize := {}
deriving DecidableEq

instance : Wire OrderBookSnapshotHeader := .ofEquiv (β := Int32 × UInt32 × UInt32 × UInt32 × GroupSize)
  ⟨fun h => (h.securityId, h.lastMsgSeqNumProcessed, h.rptSeq, h.exchangeTradingSessionId, h.groupSize),
    fun (a, b, c, d, e) => ⟨a, b, c, d, e⟩, fun _ => rfl, fun _ => rfl⟩

structure OrderBookEntry where
  orderId : Int64 := 0
  transactTime : UInt64 := 0
  orderPrice : Int64 := 0
  orderVolume : Int64 := 0
  tradeId : Int64 := 0
  mdFlagsSet : UInt64 := 0
  mdFlagsSet2 : UInt64 := 0
  side : MDEntryType := .ofByte 0
deriving DecidableEq

instance : Wire OrderBookEntry := .ofEquiv
  (β := Int64 × UInt64 × Int64 × Int64 × Int64 × UInt64 × UInt64 × MDEntryType)
  ⟨fun e => (e.orderId, e.transactTime, e.orderPrice, e.orderVolume, e.tradeId, e.mdFlagsSet,
      e.mdFlagsSet2, e.side),
    fun (a, b, c, d, e, f, g, h) => ⟨a, b, c, d, e, f, g, h⟩, fun _ => rfl, fun _ => rfl⟩

structure MarketDataPacketHeader where
  sequenceNumber : UInt32 := 0
  messageSize : UInt16 := 0
  messageFlags : UInt16 := 0
  sendingTime : UInt64 := 0
deriving DecidableEq

instance : Wire MarketDataPacketHeader := .ofEquiv (β := UInt32 × UInt16 × UInt16 × UInt64)
  ⟨fun h => (h.sequenceNumber, h.messageSize, h.messageFlags, h.sendingTime),
    fun (a, b, c, d) => ⟨a, b, c, d⟩, fun _ => rfl, fun _ => rfl⟩

structure IncrementalPacketHeader where
  transactTime : UInt64 := 0
  exchangeSessionId : UInt32 := 0
deriving DecidableEq

instance : Wire IncrementalPacketHeader := .ofEquiv (β := UInt64 × UInt32)
  ⟨fun h => (h.transactTime, h.exchangeSessionId), fun (a, b) => ⟨a, b⟩, fun _ => rfl, fun _ => rfl⟩

structure SBEHeader where
  blockLength : UInt16 := 0
  templateId : UInt16 := 0
  schemaId : UInt16 := 0
  version : UInt16 := 0
deriving DecidableEq

instance : Wire SBEHeader := .ofEquiv (β := UInt16 × UInt16 × UInt16 × UInt16)
  ⟨fun h => (h.blockLength, h.templateId, h.schemaId, h.version), fun (a, b, c, d) => ⟨a, b, c, d⟩,
    fun _ => rfl, fun _ => rfl⟩

-- the source's `static_assert`s
theorem size_orderUpdate : Wire.size OrderUpdate = 50 := rfl
theorem size_orderExecution : Wire.size OrderExecution = 74 := rfl
theorem size_groupSize : Wire.size GroupSize = 3 := rfl
theorem size_orderBookSnapshotHeader : Wire.size OrderBookSnapshotHeader = 19 := rfl
theorem size_orderBookEntry : Wire.size OrderBookEntry = 57 := rfl
theorem size_marketDataPacketHeader : Wire.size MarketDataPacketHeader = 16 := rfl
theorem size_incrementalPacketHeader : Wire.size IncrementalPacketHeader = 12 := rfl
theorem size_sbeHeader : Wire.size SBEHeader = 8 := rfl

/-! ## The order book -/

/-- An exception that left a function of the decoder. -/
abbrev Exception := String

/-- `OrderBookSnapshot::to_index`. -/
def toIndex : MDEntryType → Except Exception UInt8
  | .bid => .ok 0
  | .offer => .ok 1
  | .emptyBook => .ok 2
  | .unnamed _ => .error "Cannot convert into index the book side"

/-- `OrderBookSnapshot`: the bid book is ordered by falling price, the ask book by
rising price. -/
structure OrderBookSnapshot where
  snapshotHeader : OrderBookSnapshotHeader
  bidBook : Std.TreeMap Int64 OrderBookEntry (fun a b => compare b a) := {}
  askBook : Std.TreeMap Int64 OrderBookEntry := {}

/-- `OrderBookSnapshot::insert`; `emplace` keeps the entry a price already has. -/
def OrderBookSnapshot.insert (s : OrderBookSnapshot) (entry : OrderBookEntry) :
    Except Exception OrderBookSnapshot :=
  if isNullPrice entry.orderPrice then .ok s
  else do
    let _index ← toIndex entry.side
    if entry.side = .emptyBook then .ok s
    else if entry.side = .bid then
      .ok { s with bidBook := s.bidBook.insertIfNew entry.orderPrice entry }
    else
      .ok { s with askBook := s.askBook.insertIfNew entry.orderPrice entry }

end MoexDecoder
