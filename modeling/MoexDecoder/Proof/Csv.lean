import Mathlib.Data.List.GetD
import MoexDecoder.Proof.Lengths
import MoexDecoder.Spec.Output

/-!
# The lines of the CSV

* `line_update_ok`, `line_execution_ok`: the orders a line is printed of.
* `copyFrom_block`: the bytes of an order whose block was copied.
* `printed_iff`: every order that is told of is printed, without an exception, exactly when
  each block is as long as its type and ends in a named side.
-/

namespace MoexDecoder

open Walk

variable {f : Printing} {hs : MessageHandlers} {p : Span} {off n : ℕ}

/-! ## What can be printed -/

theorem entrySideToString_ok (s : MDEntryType) : (∃ t, entrySideToString s = .ok t) ↔ IsSide s.toByte := by
  cases s with
  | unnamed c =>
    have hside : ¬ IsSide c.1 := by
      rintro (h | h | h)
      · exact c.2.1 h
      · exact c.2.2.1 h
      · exact c.2.2.2 h
    simp [entrySideToString, MDEntryType.toByte, hside]
  | _ => simp [entrySideToString, MDEntryType.toByte, IsSide]

theorem updateActionToString_ok (a : MDUpdateAction) :
    (∃ t, updateActionToString a = .ok t) ↔ IsAction a.toByte := by
  cases a with
  | unnamed c =>
    have haction : ¬ IsAction c.1 := by
      rintro (h | h | h)
      · exact c.2.1 h
      · exact c.2.2.1 h
      · exact c.2.2.2 h
    simp [updateActionToString, MDUpdateAction.toByte, haction]
  | _ => simp [updateActionToString, MDUpdateAction.toByte, IsAction]

theorem line_update_ok (u : OrderUpdate) :
    (∃ t, (Call.orderUpdate u).line f = .ok t) ↔ IsAction u.action.toByte ∧ IsSide u.side.toByte := by
  rw [← updateActionToString_ok, ← entrySideToString_ok, Call.line, OrderUpdate.toCsvString]
  cases updateActionToString u.action <;> cases entrySideToString u.side <;>
    simp [Except.map, bind, Except.bind]

theorem line_execution_ok (x : OrderExecution) :
    (∃ t, (Call.orderExecution x).line f = .ok t) ↔ IsSide x.side.toByte := by
  rw [← entrySideToString_ok, Call.line, OrderExecution.toCsvString]
  cases entrySideToString x.side <;> simp [Except.map, bind, Except.bind]

/-! ## The last bytes of a block -/

theorem update_action_byte (bs : List UInt8) :
    (Wire.decode bs : OrderUpdate).action.toByte = bs.getD 48 0 := by
  have haction : (Wire.decode bs : OrderUpdate).action = .ofByte (Wire.decode ((bs.drop 48).take 1)) := by
    simp [Wire.decode]; rfl
  rw [haction, MDUpdateAction.toByte_ofByte, Wire.decode_uInt8]
  simp

theorem update_side_byte (bs : List UInt8) : (Wire.decode bs : OrderUpdate).side.toByte = bs.getD 49 0 := by
  have hside : (Wire.decode bs : OrderUpdate).side = .ofByte (Wire.decode (bs.drop 49)) := by
    simp [Wire.decode]; rfl
  rw [hside, MDEntryType.toByte_ofByte, Wire.decode_uInt8]
  simp

theorem execution_side_byte (bs : List UInt8) :
    (Wire.decode bs : OrderExecution).side.toByte = bs.getD 73 0 := by
  have hside : (Wire.decode bs : OrderExecution).side = .ofByte (Wire.decode (bs.drop 73)) := by
    simp [Wire.decode]; rfl
  rw [hside, MDEntryType.toByte_ofByte, Wire.decode_uInt8]
  simp

/-- The bytes of an object whose first `n` were copied from a payload, over zeros. -/
theorem copyFrom_block {α : Type} [Wire α] {x : α} (h0 : Wire.encode x = List.replicate (Wire.size α) 0)
    (hn : n ≤ Wire.size α) (hlen : off + n ≤ p.bytes.length) :
    ∃ bs, copyFrom p off n x = Wire.decode bs ∧
      ∀ i, bs.getD i 0 = if i < n then p.bytes.getD (off + i) 0 else 0 := by
  have hread : (p.mem.read off n).length = n := p.mem.read_length off n
  refine ⟨p.mem.read off n ++ List.replicate (Wire.size α - n) 0, ?_, ?_⟩
  · have hcopy := Wire.memcpy_zeros h0 (le_trans (le_of_eq hread) hn)
    rwa [hread] at hcopy
  · intro i
    by_cases hi : i < n
    · rw [if_pos hi, List.getD_append _ _ _ _ (by omega), Mem.read_getD _ hi, p.mem_eq_getD (by omega)]
    · rw [if_neg hi, List.getD_append_right _ _ _ _ (by omega)]
      by_cases hrest : i - (p.mem.read off n).length < Wire.size α - n
      · exact List.getD_replicate 0 hrest
      · exact List.getD_eq_default _ _ (by rw [List.length_replicate]; omega)

/-! ## The messages of a payload -/

/-- Zero is not the byte of a side. -/
theorem not_isSide_zero : ¬ IsSide 0 := by decide

/-- **An update is printed** when its block is long enough, and ends as it should. -/
theorem printed_update (hn : n ≤ Wire.size OrderUpdate) (hlen : off + n ≤ p.bytes.length) :
    (∃ t, (Call.orderUpdate (copyFrom p off n {})).line f = .ok t) ↔
      n = Wire.size OrderUpdate ∧ IsAction (p.bytes.getD (off + 48) 0) ∧ IsSide (p.bytes.getD (off + 49) 0) := by
  obtain ⟨bs, hcopy, hbytes⟩ := copyFrom_block (x := ({} : OrderUpdate)) rfl hn hlen
  have h50 := size_orderUpdate
  rw [line_update_ok, hcopy, update_action_byte, update_side_byte, hbytes, hbytes]
  by_cases hfull : n = Wire.size OrderUpdate
  · rw [if_pos (by omega), if_pos (by omega)]
    simp [hfull]
  · -- the side is left as it was made
    rw [if_neg (show ¬ 49 < n by omega)]
    simp [hfull, not_isSide_zero]

theorem printed_execution (hn : n ≤ Wire.size OrderExecution) (hlen : off + n ≤ p.bytes.length) :
    (∃ t, (Call.orderExecution (copyFrom p off n {})).line f = .ok t) ↔
      n = Wire.size OrderExecution ∧ IsSide (p.bytes.getD (off + 73) 0) := by
  obtain ⟨bs, hcopy, hbytes⟩ := copyFrom_block (x := ({} : OrderExecution)) rfl hn hlen
  have h74 := size_orderExecution
  rw [line_execution_ok, hcopy, execution_side_byte, hbytes]
  by_cases hfull : n = Wire.size OrderExecution
  · rw [if_pos (by omega)]
    simp [hfull]
  · rw [if_neg (show ¬ 73 < n by omega)]
    simp [hfull, not_isSide_zero]

/-- **A message is printed** when it is printable. -/
theorem visitAt_printed (hin : ∀ a ∈ (visitAt p off).accesses, a.InRange p.bytes.length) :
    (∀ c ∈ (visitAt p off).calls, hs.takes c = true → ∃ t, c.line f = .ok t) ↔ PrintableAt p hs off := by
  obtain ⟨hreads, hwrites⟩ := forall_inRange.1 hin
  have hend := visitAt_reads.1 hreads
  have hfit := visitAt_writes.1 hwrites
  rw [messageEnd] at hend
  rw [LengthsFitAt] at hfit
  rw [PrintableAt]
  cases htype : typeAt p off with
  | orderUpdateType =>
    rw [htype] at hend hfit
    have hcalls : (visitAt p off).calls =
        [.orderUpdate (copyFrom p (blockAt off) (blockLengthAt p off) {})] := by
      rw [visitAt_eq, htype]; rfl
    rw [hcalls, List.forall_mem_singleton, printed_update hfit hend]
    simp only [forall_const, reduceCtorEq, false_imp_iff, and_true]
    rfl
  | orderExecutionType =>
    rw [htype] at hend hfit
    have hcalls : (visitAt p off).calls =
        [.orderExecution (copyFrom p (blockAt off) (blockLengthAt p off) {})] := by
      rw [visitAt_eq, htype]; rfl
    rw [hcalls, List.forall_mem_singleton, printed_execution hfit hend]
    simp only [forall_const, reduceCtorEq, false_imp_iff, true_and]
    rfl
  | orderBookSnapshotType =>
    obtain ⟨header, hmessage⟩ : ∃ header,
        (visitAt p off).message = some (.orderBookSnapshot header (entriesAt p off)) := by
      rw [visitAt_eq, htype]; exact ⟨_, rfl⟩
    simp only [reduceCtorEq, false_imp_iff, and_self, iff_true]
    -- a book is always printed
    intro c hc _
    obtain ⟨-, rfl⟩ := (Visit.calls_snapshot hmessage c).1 hc
    exact ⟨_, rfl⟩
  | messageUnknown =>
    have hcalls : (visitAt p off).calls = [] := by
      rw [visitAt_eq, htype]; rfl
    simp [hcalls]

/-- **When every order is printed**: exactly when all of them are printable. -/
theorem printed_iff (f : Printing) (hs : MessageHandlers) (p : Span) (earlier : List Span)
    (h : AccessesInside p) :
    (∀ c ∈ (decodeMessage hs p (SIMBADecoder.init.after hs earlier)).calls, ∃ t, c.line f = .ok t) ↔
      ∀ off ∈ messageStarts p, PrintableAt p hs off := by
  have hdec := decodes_after hs p earlier
  have hin := (forall_payloadAccesses.1 h).2
  rw [hdec.calls, payloadCalls, visits, ← map_starts (visitAt_forward p), ← messageStarts]
  constructor
  · intro hall off hoff
    apply (visitAt_printed (hin off hoff)).1
    intro c hc htakes
    apply hall c
    exact List.mem_filter.2 ⟨List.mem_flatMap.2 ⟨_, List.mem_map.2 ⟨off, hoff, rfl⟩, hc⟩, htakes⟩
  · intro hall c hc
    obtain ⟨hmem, htakes⟩ := List.mem_filter.1 hc
    obtain ⟨v, hv, hmem⟩ := List.mem_flatMap.1 hmem
    obtain ⟨off, hoff, rfl⟩ := List.mem_map.1 hv
    exact (visitAt_printed (hin off hoff)).2 (hall off hoff) c hmem htakes

/-- A packet of one update, of this side. -/
def updateOf (side : MDEntryType) : Span := oneMessage 15 { orderId := 5, side := side }

/-- Nothing of a `double` is printed. -/
def noDoubles : Printing := ⟨fun _ => "", fun _ => ""⟩

theorem updateOf_bid_printed :
    AccessesInside (updateOf .bid) ∧
      ∀ c ∈ (decodeMessage .all (updateOf .bid) (SIMBADecoder.init.after .all [])).calls,
        ∃ t, c.line noDoubles = .ok t :=
  ⟨by decide, (printed_iff noDoubles .all (updateOf .bid) [] (by decide)).2 (by decide)⟩

/-- **An update of side `'2'`** is told of, and ends the program when it is to be printed. -/
theorem updateOf_unnamed :
    AccessesInside (updateOf (.ofByte 0x32)) ∧
      ¬ ∀ c ∈ (decodeMessage .all (updateOf (.ofByte 0x32)) (SIMBADecoder.init.after .all [])).calls,
        ∃ t, c.line noDoubles = .ok t := by
  refine ⟨by decide, ?_⟩
  intro h
  have hcalls : (decodeMessage .all (updateOf (.ofByte 0x32)) .init).calls =
    [.orderUpdate { orderId := 5, side := .ofByte 0x32 }] := rfl
  have hline := h (.orderUpdate { orderId := 5, side := .ofByte 0x32 }) (by
    rw [SIMBADecoder.after, List.foldl_nil, hcalls]; exact List.mem_singleton_self _)
  exact absurd ((line_update_ok _).1 hline).2 (by decide)

end MoexDecoder
