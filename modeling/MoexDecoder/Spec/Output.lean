import MoexDecoder.Spec.Lengths

/-!
# What is written to the output files

The CSV lines and the printed book of `simba_types.h`, and the handlers that `main`
installs to write them. Floating point is left out: a `double` is the price it was made
of, and a parameter says what a stream prints of it.
-/

namespace MoexDecoder

/-- A `double`: `to_normalized_price` of a mantissa, or `nan`. -/
abbrev Double := Option Int64

def toNormalizedPrice (price : Int64) : Double := some price

/-- `entry_side_to_string`. -/
def entrySideToString : MDEntryType → Except Exception String
  | .bid => .ok "BUY"
  | .offer => .ok "SELL"
  | .emptyBook => .ok "EMPTY_BOOK"
  | .unnamed _ => .error "Unexpected entry"

/-- `update_action_to_string`. -/
def updateActionToString : MDUpdateAction → Except Exception String
  | .new => .ok "NEW"
  | .update => .ok "UPDATE"
  | .delete => .ok "DELETE"
  | .unnamed _ => .error "Unexpected MDUpdateAction entry"

/-! ## CSV -/

/-- What a stream prints of a `double`, as it is set up for the CSV and for the book. -/
structure Printing where
  csv : Double → String
  book : Double → String

variable (f : Printing)

/-- `normalized_order_price` of an order. -/
def normalizedOrderPrice (price : Int64) : Double :=
  if isNullPrice price then none else toNormalizedPrice price

/-- `OrderUpdate::to_csv_string`. The function is `noexcept`: an exception ends the program. -/
def OrderUpdate.toCsvString (u : OrderUpdate) : Except Exception String := do
  let action ← updateActionToString u.action
  let side ← entrySideToString u.side
  .ok (", ".intercalate [toString u.orderId, f.csv (normalizedOrderPrice u.orderPrice), toString u.orderVolume,
    toString u.mdFlagsSet, toString u.mdFlagsSet2, toString u.securityId, toString u.rptSeq, action, side])

/-- `OrderExecution::to_csv_string`. The trade price is not compared with `NULL_VALUE`,
and the action is not printed. -/
def OrderExecution.toCsvString (x : OrderExecution) : Except Exception String := do
  let side ← entrySideToString x.side
  .ok (", ".intercalate [toString x.orderId, f.csv (normalizedOrderPrice x.orderPrice),
    toString x.remainingQuantity, f.csv (toNormalizedPrice x.tradePrice), toString x.tradeVolume,
    toString x.mdFlagsSet, toString x.mdFlagsSet2, toString x.securityId, toString x.rptSeq, side])

/-! ## The printed book -/

/-- `GroupSize::to_string`. -/
def GroupSize.toString (g : GroupSize) : String :=
  "repeating group: ( block_size: " ++ ToString.toString g.blockSize ++
    ", num_in_group: " ++ ToString.toString g.numInGroup ++ ")"

/-- `OrderBookSnapshotHeader::to_string`. -/
def OrderBookSnapshotHeader.toString (h : OrderBookSnapshotHeader) : String :=
  "order_book_snapshot_header : security_id: " ++ ToString.toString h.securityId ++
    ", last_msg_seq_num_processed: " ++ ToString.toString h.lastMsgSeqNumProcessed ++
    ", rpt_seq: " ++ ToString.toString h.rptSeq ++
    ", exchange_trading_session_id: " ++ ToString.toString h.exchangeTradingSessionId ++
    ", " ++ h.groupSize.toString

/-- `std::setw`, on a stream that aligns to the right. -/
def setw (width : ℕ) (s : String) : String := String.ofList (s.toList.leftpad width ' ')

/-- A line of the printed book: one price of one side. -/
structure Row where
  side : MDEntryType
  price : Int64
  volume : Int64
deriving DecidableEq

/-- A line of the ask loop, or of the bid loop. -/
def Row.toString (r : Row) : String :=
  if r.side = .offer then
    "|" ++ setw 4 " " ++ setw 10 "  " ++ f.book (toNormalizedPrice r.price) ++
      setw 12 (ToString.toString r.volume) ++ setw 8 "|" ++ "\n"
  else
    "|" ++ setw 3 (ToString.toString r.volume) ++ setw 11 " " ++ f.book (toNormalizedPrice r.price) ++
      setw 20 "|" ++ "\n"

namespace OrderBookSnapshot

/-- The ask loop, from `rbegin` to `rend`. -/
def askRows (s : OrderBookSnapshot) : List Row :=
  s.askBook.toList.reverse.map fun q => ⟨.offer, q.1, q.2.orderVolume⟩

/-- The bid loop, from `begin` to `end`. -/
def bidRows (s : OrderBookSnapshot) : List Row := s.bidBook.toList.map fun q => ⟨.bid, q.1, q.2.orderVolume⟩

def rows (s : OrderBookSnapshot) : List Row := s.askRows ++ s.bidRows

/-- `OrderBookSnapshot::to_string`. -/
def toString (s : OrderBookSnapshot) : String :=
  let rule := "----------------------------------------------" ++ "\n"
  s.snapshotHeader.toString ++ "\n" ++ rule ++
    setw 3 "| Volume " ++ " |       Price      | " ++ setw 3 " " ++ "Volume" ++ "     |" ++ "\n" ++ rule ++
    String.join (s.rows.map (Row.toString f)) ++ rule

end OrderBookSnapshot

/-! ## The handlers of `main` -/

/-- The line that is written when a handler is called. -/
def Call.line : Call → Except Exception String
  | orderUpdate u => (u.toCsvString f).map fun s => "ORDER_UPDATE, " ++ s ++ "\n"
  | orderExecution x => (x.toCsvString f).map fun s => "ORDER_EXECUTION, " ++ s ++ "\n"
  | orderBookSnapshot s => .ok (s.toString f ++ "\n")

/-! ## What a payload asks to be written -/

/-- The sides and the actions that have a name, as bytes. -/
def IsSide (c : UInt8) : Prop := c = 0x30 ∨ c = 0x31 ∨ c = 0x4A

def IsAction (c : UInt8) : Prop := c = 0 ∨ c = 1 ∨ c = 2

instance (c : UInt8) : Decidable (IsSide c) := inferInstanceAs (Decidable (_ ∨ _))

instance (c : UInt8) : Decidable (IsAction c) := inferInstanceAs (Decidable (_ ∨ _))

/-- Where the message at `off` is an order that a handler is told of: its block is as long
as the type, and ends in a named side, behind a named action if it is an update. -/
def PrintableAt (p : Span) (hs : MessageHandlers) (off : ℕ) : Prop :=
  (typeAt p off = .orderUpdateType → hs.orderUpdateHandler = true →
    blockLengthAt p off = Wire.size OrderUpdate ∧
      IsAction (p.bytes.getD (blockAt off + 48) 0) ∧ IsSide (p.bytes.getD (blockAt off + 49) 0)) ∧
  (typeAt p off = .orderExecutionType → hs.orderExecutionHandler = true →
    blockLengthAt p off = Wire.size OrderExecution ∧ IsSide (p.bytes.getD (blockAt off + 73) 0))

instance (p : Span) (hs : MessageHandlers) (off : ℕ) : Decidable (PrintableAt p hs off) :=
  inferInstanceAs (Decidable ((_ → _) ∧ (_ → _)))

/-! ## What a book says -/

/-- The volume that the rows show for a side and price: none counts as zero. -/
def volumeShown (rows : List Row) (side : MDEntryType) (price : Int64) : ℤ :=
  (rows.find? fun r => r.side = side ∧ r.price = price).elim 0 fun r => r.volume.toInt

/-- The entry is at this price level. -/
def OrderBookEntry.isAt (side : MDEntryType) (price : Int64) (e : OrderBookEntry) : Bool :=
  e.isLevel side && e.orderPrice = price

/-- The volume of all orders at a price level. -/
def totalVolume (es : List OrderBookEntry) (side : MDEntryType) (price : Int64) : ℤ :=
  ((es.filter (·.isAt side price)).map fun e => e.orderVolume.toInt).sum

/-- Two entries of one side of the book, at one price. -/
def OrderBookEntry.SharesLevel (e e' : OrderBookEntry) : Prop :=
  (e.isLevel .bid ∨ e.isLevel .offer) ∧ e'.side = e.side ∧ e'.orderPrice = e.orderPrice

instance (e e' : OrderBookEntry) : Decidable (e.SharesLevel e') := inferInstanceAs (Decidable (_ ∧ _ ∧ _))

/-- Entries that share a level have no volume. -/
def VolumesApart (es : List OrderBookEntry) : Prop :=
  es.Pairwise fun e e' => e.SharesLevel e' → e.orderVolume = 0 ∧ e'.orderVolume = 0

instance (es : List OrderBookEntry) : Decidable (VolumesApart es) := inferInstanceAs (Decidable (es.Pairwise _))

/-- **The book keeps every order's volume**: whatever the order of the entries, what is
printed for each side and price is their total volume, and the text is the same. -/
structure KeepsVolumes (header : OrderBookSnapshotHeader) (es : List OrderBookEntry) : Prop where
  taken : ∀ es', es'.Perm es → ∃ b, bookOf header es' = .ok b
  shown : ∀ es' b, es'.Perm es → bookOf header es' = .ok b →
    ∀ side price, side = .bid ∨ side = .offer → volumeShown b.rows side price = totalVolume es side price
  text : ∀ es' b b', es'.Perm es → bookOf header es = .ok b → bookOf header es' = .ok b' →
    ∀ f : Printing, b'.toString f = b.toString f

end MoexDecoder
