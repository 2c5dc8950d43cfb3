import MoexDecoder.Spec.Prices

/-!
# Prices in the CSV

* `streamDouble_order`, `streamDouble_trade`: which prices have one text.
* `update_columns`, `execution_columns`: the price columns of a row.
* `prices_faithful_iff`: two rows are faithful to the prices of their orders exactly when
  the prices that look alike are equal, and no trade price is missing.
-/

namespace MoexDecoder

open Fields

variable {f : Printing} {book : Double → String} {row row' : String}

/-! ## The text of a price -/

theorem plain_streamDouble (d : Double) : Plain (streamDouble d) := by
  cases d with
  | none => decide
  | some price =>
    intro c hc
    rcases Decimal.mem_printG hc with hdigit | hmark
    · constructor <;> rintro rfl <;> simp at hdigit
    · constructor <;> rintro rfl <;> simp at hmark

theorem streamDouble_eq_nan (d : Double) : streamDouble d = "nan" ↔ d = none := by
  cases d with
  | none => simp [streamDouble]
  | some price =>
    -- no number has an `n` in its text
    have hnan : streamDouble (some price) ≠ "nan" := by
      intro h
      have hn : 'n' ∈ (streamDouble (some price)).toList := by rw [h]; decide
      rcases Decimal.mem_printG hn with hdigit | hmark
      · simp at hdigit
      · simp at hmark
    simp [hnan]

/-- **Two trade prices have one text** when they have the same digits. -/
theorem streamDouble_trade (price price' : Int64) :
    streamDouble (toNormalizedPrice price) = streamDouble (toNormalizedPrice price') ↔ SameDigits price price' :=
  Decimal.printG_eq_iff (by decide) 5 _ _

theorem streamDouble_order_nan (price : Int64) :
    streamDouble (normalizedOrderPrice price) = "nan" ↔ isNullPrice price = true := by
  rw [streamDouble_eq_nan, normalizedOrderPrice]
  split <;> simp_all [toNormalizedPrice]

theorem streamDouble_trade_nan (price : Int64) : streamDouble (toNormalizedPrice price) ≠ "nan" := by
  rw [ne_eq, streamDouble_eq_nan]
  exact Option.some_ne_none _

/-- **Two order prices have one text** when they are alike. -/
theorem streamDouble_order (price price' : Int64) :
    streamDouble (normalizedOrderPrice price) = streamDouble (normalizedOrderPrice price') ↔
      Alike price price' := by
  have hnan := streamDouble_order_nan price
  have hnan' := streamDouble_order_nan price'
  by_cases h : isNullPrice price = true <;> by_cases h' : isNullPrice price' = true
  · simp [hnan.2 h, hnan'.2 h', Alike, h, h']
  · have hne : streamDouble (normalizedOrderPrice price') ≠ "nan" := fun heq => h' (hnan'.1 heq)
    simp [hnan.2 h, hne.symm, Alike, h, h']
  · have hne : streamDouble (normalizedOrderPrice price) ≠ "nan" := fun heq => h (hnan.1 heq)
    simp [hnan'.2 h', hne, Alike, h, h']
  · rw [normalizedOrderPrice, normalizedOrderPrice, if_neg h, if_neg h', streamDouble_trade]
    simp [Alike, h, h']

/-! ## The columns of a row -/

theorem plain_entrySide {s : MDEntryType} {t : String} (h : entrySideToString s = .ok t) : Plain t := by
  cases s <;> cases h <;> decide

theorem plain_updateAction {a : MDUpdateAction} {t : String} (h : updateActionToString a = .ok t) : Plain t := by
  cases a <;> cases h <;> decide

theorem bind_ok {α β : Type} {x : Except Exception α} {g : α → Except Exception β} {b : β} (h : x >>= g = .ok b) :
    ∃ a, x = .ok a ∧ g a = .ok b := by
  cases x with
  | error e => cases h
  | ok a => exact ⟨a, rfl, h⟩

/-- **The fields of an update's row** are its columns, if the prices have no commas or blanks. -/
theorem update_fields (hf : ∀ d, Plain (f.csv d)) {u : OrderUpdate} (h : u.toCsvString f = .ok row) :
    ∃ action side, updateActionToString u.action = .ok action ∧ entrySideToString u.side = .ok side ∧
      fields row = [toString u.orderId, f.csv (normalizedOrderPrice u.orderPrice), toString u.orderVolume,
        toString u.mdFlagsSet, toString u.mdFlagsSet2, toString u.securityId, toString u.rptSeq, action, side] := by
  obtain ⟨action, haction, h⟩ := bind_ok h
  obtain ⟨side, hside, h⟩ := bind_ok h
  rw [← Except.ok.inj h]
  refine ⟨action, side, haction, hside, fields_intercalate (List.cons_ne_nil _ _) ?_⟩
  simp only [List.forall_mem_cons, List.not_mem_nil, false_imp_iff, implies_true, and_true]
  exact ⟨plain_int _, hf _, plain_int _, plain_nat _, plain_nat _, plain_int _, plain_nat _,
    plain_updateAction haction, plain_entrySide hside⟩

theorem execution_fields (hf : ∀ d, Plain (f.csv d)) {x : OrderExecution} (h : x.toCsvString f = .ok row) :
    ∃ side, entrySideToString x.side = .ok side ∧
      fields row = [toString x.orderId, f.csv (normalizedOrderPrice x.orderPrice),
        toString x.remainingQuantity, f.csv (toNormalizedPrice x.tradePrice), toString x.tradeVolume,
        toString x.mdFlagsSet, toString x.mdFlagsSet2, toString x.securityId, toString x.rptSeq, side] := by
  obtain ⟨side, hside, h⟩ := bind_ok h
  rw [← Except.ok.inj h]
  refine ⟨side, hside, fields_intercalate (List.cons_ne_nil _ _) ?_⟩
  simp only [List.forall_mem_cons, List.not_mem_nil, false_imp_iff, implies_true, and_true]
  exact ⟨plain_int _, hf _, plain_int _, hf _, plain_int _, plain_nat _,
    plain_nat _, plain_int _, plain_nat _, plain_entrySide hside⟩

theorem update_columns {u : OrderUpdate} (h : u.toCsvString (csvPrinting book) = .ok row) :
    OrderUpdate.priceColumns row = [streamDouble (normalizedOrderPrice u.orderPrice)] := by
  obtain ⟨_, _, -, -, hfields⟩ := update_fields (f := csvPrinting book) plain_streamDouble h
  simp [OrderUpdate.priceColumns, field, hfields, csvPrinting]

theorem execution_columns {x : OrderExecution} (h : x.toCsvString (csvPrinting book) = .ok row) :
    OrderExecution.priceColumns row =
      [streamDouble (normalizedOrderPrice x.orderPrice), streamDouble (toNormalizedPrice x.tradePrice)] := by
  obtain ⟨_, -, hfields⟩ := execution_fields (f := csvPrinting book) plain_streamDouble h
  simp [OrderExecution.priceColumns, field, hfields, csvPrinting]

/-! ## Faithful rows -/

/-- The order price is marked, and an update has no other price. -/
theorem update_marksNulls {u : OrderUpdate} (h : u.toCsvString (csvPrinting book) = .ok row) :
    MarksNulls (OrderUpdate.priceColumns row) u.prices := by
  rw [update_columns h]
  exact .cons (streamDouble_order_nan _) .nil

/-- **A missing trade price is not marked.** -/
theorem execution_marksNulls {x : OrderExecution} (h : x.toCsvString (csvPrinting book) = .ok row) :
    MarksNulls (OrderExecution.priceColumns row) x.prices ↔ isNullPrice x.tradePrice = false := by
  rw [execution_columns h, MarksNulls, OrderExecution.prices, List.forall₂_cons, List.forall₂_cons]
  simp [streamDouble_order_nan, streamDouble_trade_nan]

/-- Prices of six digits look alike only when they are equal. -/
theorem SameDigits.eq {price price' : Int64} (h : SameDigits price price')
    (hsix : Decimal.Significant 6 price.toInt) (hsix' : Decimal.Significant 6 price'.toInt) : price = price' := by
  obtain ⟨r, hr, hr'⟩ := h
  apply Int64.toInt_inj.1
  rw [hsix.nearest_self.unique hr, hsix'.nearest_self.unique hr']

/-- Rows of updates are faithful when they tell the order prices apart. -/
theorem update_faithful_iff {u u' : OrderUpdate} (h : u.toCsvString (csvPrinting book) = .ok row)
    (h' : u'.toCsvString (csvPrinting book) = .ok row') :
    PricesFaithful (OrderUpdate.priceColumns row) (OrderUpdate.priceColumns row') u.prices u'.prices ↔
      (Alike u.orderPrice u'.orderPrice → u.orderPrice = u'.orderPrice) := by
  have happart : (u.prices ≠ u'.prices → OrderUpdate.priceColumns row ≠ OrderUpdate.priceColumns row') ↔
      (Alike u.orderPrice u'.orderPrice → u.orderPrice = u'.orderPrice) := by
    rw [not_imp_not, update_columns h, update_columns h']
    simp [OrderUpdate.prices, streamDouble_order]
  rw [← happart]
  exact ⟨fun hf => hf.apart, fun ha => ⟨ha, update_marksNulls h, update_marksNulls h'⟩⟩

/-- Rows of executions have to mark their trade prices too. -/
theorem execution_faithful_iff {x x' : OrderExecution} (h : x.toCsvString (csvPrinting book) = .ok row)
    (h' : x'.toCsvString (csvPrinting book) = .ok row') :
    PricesFaithful (OrderExecution.priceColumns row) (OrderExecution.priceColumns row') x.prices x'.prices ↔
      (Alike x.orderPrice x'.orderPrice → SameDigits x.tradePrice x'.tradePrice →
        x.orderPrice = x'.orderPrice ∧ x.tradePrice = x'.tradePrice) ∧
      isNullPrice x.tradePrice = false ∧ isNullPrice x'.tradePrice = false := by
  have happart : (x.prices ≠ x'.prices →
      OrderExecution.priceColumns row ≠ OrderExecution.priceColumns row') ↔
      (Alike x.orderPrice x'.orderPrice → SameDigits x.tradePrice x'.tradePrice →
        x.orderPrice = x'.orderPrice ∧ x.tradePrice = x'.tradePrice) := by
    rw [not_imp_not, execution_columns h, execution_columns h']
    simp [OrderExecution.prices, streamDouble_order, streamDouble_trade]
  rw [← happart, ← execution_marksNulls h, ← execution_marksNulls h']
  exact ⟨fun hf => ⟨hf.apart, hf.nulls, hf.nulls'⟩, fun ⟨ha, hn, hn'⟩ => ⟨ha, hn, hn'⟩⟩

/-- **When the price columns are faithful**: prices that look alike are equal, and every
execution has a trade price. -/
theorem prices_faithful_iff (book : Double → String) :
    (∀ (u u' : OrderUpdate) (row row' : String),
      u.toCsvString (csvPrinting book) = .ok row → u'.toCsvString (csvPrinting book) = .ok row' →
      (PricesFaithful (OrderUpdate.priceColumns row) (OrderUpdate.priceColumns row') u.prices u'.prices ↔
        (Alike u.orderPrice u'.orderPrice → u.orderPrice = u'.orderPrice))) ∧
    ∀ (x x' : OrderExecution) (row row' : String),
      x.toCsvString (csvPrinting book) = .ok row → x'.toCsvString (csvPrinting book) = .ok row' →
      (PricesFaithful (OrderExecution.priceColumns row) (OrderExecution.priceColumns row') x.prices x'.prices ↔
        (Alike x.orderPrice x'.orderPrice → SameDigits x.tradePrice x'.tradePrice →
          x.orderPrice = x'.orderPrice ∧ x.tradePrice = x'.tradePrice) ∧
        isNullPrice x.tradePrice = false ∧ isNullPrice x'.tradePrice = false) := by
  refine ⟨?_, ?_⟩
  · intro u u' row row' h h'
    exact update_faithful_iff h h'
  · intro x x' row row' h h'
    exact execution_faithful_iff h h'

/-- An update of this price. -/
def updateAt (price : Int64) : OrderUpdate := { orderPrice := price, side := .bid }

def executionAt (price : Int64) : OrderExecution := { tradePrice := price, side := .bid }

theorem five_digits_faithful :
    PricesFaithful (OrderUpdate.priceColumns "0, 98.828, 0, 0, 0, 0, 0, NEW, BUY")
        (OrderUpdate.priceColumns "0, 98.829, 0, 0, 0, 0, 0, NEW, BUY")
        (updateAt 9882800).prices (updateAt 9882900).prices ∧
      PricesFaithful (OrderExecution.priceColumns "0, 0, 0, 98.828, 0, 0, 0, 0, 0, BUY")
        (OrderExecution.priceColumns "0, 0, 0, 98.829, 0, 0, 0, 0, 0, BUY")
        (executionAt 9882800).prices (executionAt 9882900).prices := by
  have hiff := prices_faithful_iff fun _ => ""
  exact ⟨(hiff.1 _ _ _ _ (by decide) (by decide)).2 (by decide),
    (hiff.2 _ _ _ _ (by decide) (by decide)).2 (by decide)⟩

/-- **Two prices of seven digits** are printed alike, and a missing trade price as a number. -/
theorem seven_digits_alike :
    (∃ row, (updateAt 9882812).toCsvString (csvPrinting fun _ => "") = .ok row ∧
      (updateAt 9882813).toCsvString (csvPrinting fun _ => "") = .ok row ∧
      ¬ PricesFaithful (OrderUpdate.priceColumns row) (OrderUpdate.priceColumns row)
        (updateAt 9882812).prices (updateAt 9882813).prices) ∧
    ∃ row, (executionAt 9223372036854775807).toCsvString (csvPrinting fun _ => "") = .ok row ∧
      isNullPrice (executionAt 9223372036854775807).tradePrice = true ∧
      OrderExecution.priceColumns row = ["0", "9.22337e+13"] := by
  refine ⟨⟨"0, 98.8281, 0, 0, 0, 0, 0, NEW, BUY", by decide, by decide, ?_⟩,
    "0, 0, 0, 9.22337e+13, 0, 0, 0, 0, 0, BUY", by decide, by decide, by decide⟩
  intro hfaithful
  exact hfaithful.apart (by decide) rfl

end MoexDecoder
