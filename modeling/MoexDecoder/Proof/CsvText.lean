import MoexDecoder.Lib.Numerals
import MoexDecoder.Proof.Options
import MoexDecoder.Proof.Prices

/-!
# What the CSV says

* `streamBinary_eq_iff`: two prices have one text exactly when they look alike, as the
  doubles that they become.
* `Call.LooksLike`: two orders that differ at most in what a row does not show: their
  prices look alike, and of executions the trader and the action may be any.
* `row_eq_iff`: two orders have one row exactly when they look alike.
* `csv_alike_iff`: two runs of the program have one CSV exactly when the orders they have
  printed look alike, one by one. So the CSV can be read back, up to that.
-/

namespace MoexDecoder

open Blocks Fields

variable {f : Printing} {book book' : Double → String}

/-! ## Prices -/

/-- What a price becomes is a number. -/
theorem binaryPrice_ne_nan (price : Int64) : (binaryPrice price).unpack ≠ .notANumber :=
  Doubles.div_ne_nan (Doubles.ofInt64_ne_nan price) ⟨.positive, _, _, by decide, rfl⟩

/-- **Two prices have one text** exactly when they look alike. -/
theorem streamBinary_eq_iff (d d' : Double) : streamBinary d = streamBinary d' ↔ LooksAlike d d' := by
  have hnan : ∀ price, streamBinary (some price) ≠ "nan" := by
    intro price h
    exact binaryPrice_ne_nan price ((Doubles.text_eq_nan (by decide)).1 h)
  cases d with
  | none =>
    cases d' with
    | none => exact iff_of_true rfl trivial
    | some price' => exact iff_of_false (hnan price').symm id
  | some price =>
    cases d' with
    | none => exact iff_of_false (hnan price) id
    | some price' => exact Doubles.text_eq_iff (by decide) _ _

theorem mem_streamBinary {ch : Char} {d : Double} (h : ch ∈ (streamBinary d).toList) :
    ch.isDigit ∨ ch ∈ ['-', '+', '.', 'e', 'n', 'a', 'i', 'f'] := by
  cases d with
  | none => exact Doubles.words_chars "nan" (by simp [Doubles.words]) ch h
  | some price => exact Doubles.mem_text h

theorem plain_streamBinary (d : Double) : Plain (streamBinary d) := by
  intro ch h
  rcases mem_streamBinary h with hdigit | hmark
  · constructor <;> rintro rfl <;> simp at hdigit
  · constructor <;> rintro rfl <;> simp at hmark

-- a tie of the mantissas goes to the side of the double: 94.70085 is above the half
example : streamBinary (some 9470085) = streamBinary (some 9470090) ∧
    streamBinary (some 9470085) ≠ streamBinary (some 9470080) := by decide +kernel

/-! ## Orders -/

/-- Two orders whose rows show the same. -/
def Call.LooksLike : Call → Call → Prop
  | orderUpdate u, orderUpdate u' =>
    LooksAlike (normalizedOrderPrice u.orderPrice) (normalizedOrderPrice u'.orderPrice) ∧
      { u with orderPrice := 0 } = { u' with orderPrice := 0 }
  | orderExecution x, orderExecution x' =>
    LooksAlike (normalizedOrderPrice x.orderPrice) (normalizedOrderPrice x'.orderPrice) ∧
      LooksAlike (toNormalizedPrice x.tradePrice) (toNormalizedPrice x'.tradePrice) ∧
      { x with orderPrice := 0, tradePrice := 0, traderId := 0, action := .new } =
        { x' with orderPrice := 0, tradePrice := 0, traderId := 0, action := .new }
  | _, _ => False

/-! ## Columns -/

theorem entrySideToString_inj {s s' : MDEntryType} {t : String} (h : entrySideToString s = .ok t)
    (h' : entrySideToString s' = .ok t) : s = s' := by
  cases s <;> cases s' <;> cases h <;> simp_all [entrySideToString]

theorem updateActionToString_inj {a a' : MDUpdateAction} {t : String} (h : updateActionToString a = .ok t)
    (h' : updateActionToString a' = .ok t) : a = a' := by
  cases a <;> cases a' <;> cases h <;> simp_all [updateActionToString]

theorem toString_int64_inj {a b : Int64} (h : toString a = toString b) : a = b :=
  Int64.toInt_inj.1 (Numerals.int_inj h)

theorem toString_int32_inj {a b : Int32} (h : toString a = toString b) : a = b :=
  Int32.toInt_inj.1 (Numerals.int_inj h)

theorem toString_uInt64_inj {a b : UInt64} (h : toString a = toString b) : a = b :=
  UInt64.toNat_inj.1 (Numerals.nat_inj h)

theorem toString_uInt32_inj {a b : UInt32} (h : toString a = toString b) : a = b :=
  UInt32.toNat_inj.1 (Numerals.nat_inj h)

/-- **The columns of an update.** -/
theorem update_columns_iff {u u' : OrderUpdate} {row row' : String}
    (h : u.toCsvString (binaryPrinting book) = .ok row) (h' : u'.toCsvString (binaryPrinting book') = .ok row') :
    row = row' ↔ (Call.orderUpdate u).LooksLike (.orderUpdate u') := by
  obtain ⟨action, side, haction, hside, hfields⟩ := update_fields (f := binaryPrinting book) plain_streamBinary h
  obtain ⟨action', side', haction', hside', hfields'⟩ :=
    update_fields (f := binaryPrinting book') plain_streamBinary h'
  constructor
  · rintro rfl
    rw [hfields] at hfields'
    simp only [List.cons.injEq, and_true] at hfields'
    obtain ⟨hid, hprice, hvolume, hflags, hflags2, hsecurity, hseq, rfl, rfl⟩ := hfields'
    refine ⟨(streamBinary_eq_iff _ _).1 hprice, ?_⟩
    simp only [OrderUpdate.mk.injEq, true_and]
    exact ⟨toString_int64_inj hid, toString_int64_inj hvolume, toString_uInt64_inj hflags,
      toString_uInt64_inj hflags2, toString_int32_inj hsecurity, toString_uInt32_inj hseq,
      updateActionToString_inj haction haction', entrySideToString_inj hside hside'⟩
  · rintro ⟨hprice, hrest⟩
    simp only [OrderUpdate.mk.injEq, true_and] at hrest
    obtain ⟨hid, hvolume, hflags, hflags2, hsecurity, hseq, hact, hsd⟩ := hrest
    have htext := (streamBinary_eq_iff _ _).2 hprice
    have hrow : u.toCsvString (binaryPrinting book) = u'.toCsvString (binaryPrinting book') := by
      simp only [OrderUpdate.toCsvString, binaryPrinting, htext, hid, hvolume, hflags, hflags2, hsecurity, hseq, hact,
        hsd]
    rw [h, h'] at hrow
    exact Except.ok.inj hrow

/-- **The columns of an execution.** -/
theorem execution_columns_iff {x x' : OrderExecution} {row row' : String}
    (h : x.toCsvString (binaryPrinting book) = .ok row) (h' : x'.toCsvString (binaryPrinting book') = .ok row') :
    row = row' ↔ (Call.orderExecution x).LooksLike (.orderExecution x') := by
  obtain ⟨side, hside, hfields⟩ := execution_fields (f := binaryPrinting book) plain_streamBinary h
  obtain ⟨side', hside', hfields'⟩ := execution_fields (f := binaryPrinting book') plain_streamBinary h'
  constructor
  · rintro rfl
    rw [hfields] at hfields'
    simp only [List.cons.injEq, and_true] at hfields'
    obtain ⟨hid, hprice, hremaining, htrade, hvolume, hflags, hflags2, hsecurity, hseq, rfl⟩ := hfields'
    refine ⟨(streamBinary_eq_iff _ _).1 hprice, (streamBinary_eq_iff _ _).1 htrade, ?_⟩
    simp only [OrderExecution.mk.injEq, true_and]
    exact ⟨toString_int64_inj hid, toString_int64_inj hremaining, toString_int64_inj hvolume,
      toString_uInt64_inj hflags, toString_uInt64_inj hflags2, toString_int32_inj hsecurity,
      toString_uInt32_inj hseq, entrySideToString_inj hside hside'⟩
  · rintro ⟨hprice, htrade, hrest⟩
    simp only [OrderExecution.mk.injEq, true_and] at hrest
    obtain ⟨hid, hremaining, hvolume, hflags, hflags2, hsecurity, hseq, hsd⟩ := hrest
    have htext := (streamBinary_eq_iff _ _).2 hprice
    have htext' := (streamBinary_eq_iff _ _).2 htrade
    have hrow : x.toCsvString (binaryPrinting book) = x'.toCsvString (binaryPrinting book') := by
      simp only [OrderExecution.toCsvString, binaryPrinting, htext, htext', hid, hremaining, hvolume, hflags, hflags2,
        hsecurity, hseq, hsd]
    rw [h, h'] at hrow
    exact Except.ok.inj hrow

/-! ## Lines -/

/-- The characters of a row are those of its fields, and what is between them. -/
theorem mem_row {ch : Char} {row : String} (h : ch ∈ row.toList) :
    ch = ',' ∨ ch = ' ' ∨ ∃ s ∈ fields row, ch ∈ s.toList := by
  have hsplit : [','].intercalate (row.toList.splitOn ',') = row.toList := List.intercalate_splitOn ','
  rw [← hsplit] at h
  rcases mem_intercalate h with h | ⟨l, hl, h⟩
  · exact Or.inl (List.mem_singleton.1 h)
  · rw [← List.takeWhile_append_dropWhile (p := (· = ' ')) (l := l), List.mem_append] at h
    rcases h with h | h
    · have hblank := List.mem_takeWhile_imp h
      exact Or.inr (Or.inl (by simpa using hblank))
    · exact Or.inr (Or.inr ⟨_, List.mem_map.2 ⟨l, hl, rfl⟩, by rwa [String.toList_ofList]⟩)

/-- A row is one line if its fields are. -/
theorem row_one_line {row : String} (h : ∀ s ∈ fields row, '\n' ∉ s.toList) : '\n' ∉ row.toList := by
  intro hmem
  rcases mem_row hmem with heq | heq | ⟨s, hs, hmem⟩
  · cases heq
  · cases heq
  · exact h s hs hmem

theorem not_newline_of_digits {s : String}
    (h : ∀ ch ∈ s.toList, ch.isDigit ∨ ch ∈ ['-', '+', '.', 'e', 'n', 'a', 'i', 'f']) : '\n' ∉ s.toList := by
  intro hmem
  have hnewline := h _ hmem
  simp at hnewline

theorem nat_one_line (n : ℕ) : '\n' ∉ (toString n).toList :=
  not_newline_of_digits fun _ hc => Or.inl (isDigit_of_mem_nat hc)

theorem int_one_line (m : ℤ) : '\n' ∉ (toString m).toList :=
  not_newline_of_digits fun _ hc => (mem_int hc).imp_right fun h => by simp [h]

theorem streamBinary_one_line (d : Double) : '\n' ∉ (streamBinary d).toList :=
  not_newline_of_digits fun _ => mem_streamBinary

theorem entrySide_one_line {s : MDEntryType} {t : String} (h : entrySideToString s = .ok t) : '\n' ∉ t.toList := by
  cases s <;> cases h <;> decide

theorem updateAction_one_line {a : MDUpdateAction} {t : String} (h : updateActionToString a = .ok t) :
    '\n' ∉ t.toList := by
  cases a <;> cases h <;> decide

theorem update_one_line {u : OrderUpdate} {row : String} (h : u.toCsvString (binaryPrinting book) = .ok row) :
    '\n' ∉ row.toList := by
  obtain ⟨action, side, haction, hside, hfields⟩ := update_fields (f := binaryPrinting book) plain_streamBinary h
  apply row_one_line
  rw [hfields]
  simp only [List.forall_mem_cons, List.not_mem_nil, false_imp_iff, implies_true, and_true]
  exact ⟨int_one_line _, streamBinary_one_line _, int_one_line _, nat_one_line _, nat_one_line _, int_one_line _,
    nat_one_line _, updateAction_one_line haction, entrySide_one_line hside⟩

theorem execution_one_line {x : OrderExecution} {row : String} (h : x.toCsvString (binaryPrinting book) = .ok row) :
    '\n' ∉ row.toList := by
  obtain ⟨side, hside, hfields⟩ := execution_fields (f := binaryPrinting book) plain_streamBinary h
  apply row_one_line
  rw [hfields]
  simp only [List.forall_mem_cons, List.not_mem_nil, false_imp_iff, implies_true, and_true]
  exact ⟨int_one_line _, streamBinary_one_line _, int_one_line _, streamBinary_one_line _, int_one_line _,
    nat_one_line _, nat_one_line _, int_one_line _, nat_one_line _, entrySide_one_line hside⟩

/-- The row of an order, with its tag. -/
def Call.row (f : Printing) : Call → Except Exception String
  | orderUpdate u => (u.toCsvString f).map ("ORDER_UPDATE, " ++ ·)
  | orderExecution x => (x.toCsvString f).map ("ORDER_EXECUTION, " ++ ·)
  | orderBookSnapshot _ => .ok ""

theorem line_eq_row {c : Call} (hc : c.isOrder = true) : c.line f = (c.row f).map (· ++ "\n") := by
  cases c with
  | orderUpdate u => rw [Call.line, Call.row]; cases u.toCsvString f <;> rfl
  | orderExecution x => rw [Call.line, Call.row]; cases x.toCsvString f <;> rfl
  | orderBookSnapshot s => cases hc

theorem map_ok {α β : Type} {x : Except Exception α} {g : α → β} {b : β} (h : x.map g = .ok b) :
    ∃ a, x = .ok a ∧ g a = b := by
  cases x with
  | error e => cases h
  | ok a => exact ⟨a, rfl, Except.ok.inj h⟩

/-- **A row is one line.** -/
theorem row_newline {c : Call} {row : String} (hc : c.isOrder = true) (h : c.row (binaryPrinting book) = .ok row) :
    '\n' ∉ row.toList := by
  cases c with
  | orderUpdate u =>
    obtain ⟨columns, hcolumns, rfl⟩ := map_ok h
    rw [String.toList_append, List.mem_append, not_or]
    exact ⟨by decide, update_one_line hcolumns⟩
  | orderExecution x =>
    obtain ⟨columns, hcolumns, rfl⟩ := map_ok h
    rw [String.toList_append, List.mem_append, not_or]
    exact ⟨by decide, execution_one_line hcolumns⟩
  | orderBookSnapshot s => cases hc

/-- **Two orders have one row** exactly when they look alike. -/
theorem row_eq_iff {c c' : Call} {row row' : String} (hc : c.isOrder = true) (hc' : c'.isOrder = true)
    (h : c.row (binaryPrinting book) = .ok row) (h' : c'.row (binaryPrinting book') = .ok row') :
    row = row' ↔ c.LooksLike c' := by
  have htags : ∀ s t : String, "ORDER_UPDATE, " ++ s ≠ "ORDER_EXECUTION, " ++ t := by
    intro s t heq
    have hlists := congrArg String.toList heq
    simp at hlists
  cases c with
  | orderUpdate u =>
    obtain ⟨columns, hcolumns, rfl⟩ := map_ok h
    cases c' with
    | orderUpdate u' =>
      obtain ⟨columns', hcolumns', rfl⟩ := map_ok h'
      rw [String.append_right_inj]
      exact update_columns_iff hcolumns hcolumns'
    | orderExecution x' =>
      obtain ⟨columns', -, rfl⟩ := map_ok h'
      exact iff_of_false (htags _ _) id
    | orderBookSnapshot s => cases hc'
  | orderExecution x =>
    obtain ⟨columns, hcolumns, rfl⟩ := map_ok h
    cases c' with
    | orderUpdate u' =>
      obtain ⟨columns', -, rfl⟩ := map_ok h'
      exact iff_of_false (htags _ _).symm id
    | orderExecution x' =>
      obtain ⟨columns', hcolumns', rfl⟩ := map_ok h'
      rw [String.append_right_inj]
      exact execution_columns_iff hcolumns hcolumns'
    | orderBookSnapshot s => cases hc'
  | orderBookSnapshot s => cases hc

/-! ## What is printed -/

/-- The order has a named side, and an update a named action. -/
def Call.hasLine : Call → Bool
  | orderUpdate u => IsAction u.action.toByte ∧ IsSide u.side.toByte
  | orderExecution x => IsSide x.side.toByte
  | orderBookSnapshot _ => true

theorem hasLine_iff {c : Call} : c.hasLine = true ↔ ∃ line, c.line f = .ok line := by
  cases c with
  | orderUpdate u => rw [line_update_ok, Call.hasLine, decide_eq_true_iff]
  | orderExecution x => rw [line_execution_ok, Call.hasLine, decide_eq_true_iff]
  | orderBookSnapshot s => exact iff_of_true rfl ⟨_, rfl⟩

/-- The calls whose lines are in the files. -/
def Program.printed (s : Program) : List Call := s.world.calls.takeWhile (·.hasLine)

/-- The orders printed. -/
def Program.orders (s : Program) : List Call := s.printed.filter (·.isOrder)

theorem putAll_printed (F : Files) (cs : List Call) :
    F.putAll f (cs.takeWhile (·.hasLine)) = ((F.putAll f cs).1, none) := by
  induction cs generalizing F with
  | nil => rfl
  | cons c cs ih =>
    cases hline : c.line f with
    | error e =>
      have hno : ¬ c.hasLine = true := by simp [hasLine_iff (f := f), hline]
      rw [List.takeWhile_cons_of_neg hno, Files.putAll, Files.putAll, Files.put, hline]
      rfl
    | ok line =>
      have hyes : c.hasLine = true := (hasLine_iff (f := f)).2 ⟨line, hline⟩
      rw [List.takeWhile_cons_of_pos hyes, Files.putAll, Files.putAll, Files.put, hline]
      exact ih _

/-- **The files** hold the lines of what is printed. -/
theorem Program.Ok.files_printed {J : Job} {s : Program} (h : s.Ok J) :
    s.files.csv = (linesOf J.printing s.orders).1 ∧
      s.files.book = (linesOf J.printing (s.printed.filter (!·.isOrder))).1 := by
  have hall := putAll_printed (f := J.printing) {} s.world.calls
  rw [h.written] at hall
  obtain ⟨hcsv, -⟩ := putAll_csv (f := J.printing) {} s.printed
  obtain ⟨more, hbook, hmore⟩ := putAll_book (f := J.printing) {} s.printed
  rw [Program.printed, hall] at hcsv hbook hmore
  rw [hmore rfl, String.append_empty] at hbook
  exact ⟨hcsv.trans String.empty_append, (hbook.symm.trans String.empty_append)⟩

/-! ## The whole file -/

/-- The lines of orders are their rows. -/
theorem linesOf_rows {cs : List Call} (h : ∀ c ∈ cs, c.isOrder = true ∧ c.hasLine = true) :
    ∃ rows, List.Forall₂ (fun c row => c.row f = .ok row) cs rows ∧ (linesOf f cs).1 = unlines rows := by
  induction cs with
  | nil => exact ⟨[], .nil, rfl⟩
  | cons c cs ih =>
    obtain ⟨⟨hc, hyes⟩, hcs⟩ := List.forall_mem_cons.1 h
    obtain ⟨line, hline⟩ := (hasLine_iff (f := f)).1 hyes
    rw [linesOf, hline]
    rw [line_eq_row hc] at hline
    obtain ⟨row, hrow, rfl⟩ := map_ok hline
    obtain ⟨rows, hrows, htext⟩ := ih hcs
    exact ⟨row :: rows, .cons hrow hrows, by rw [unlines_cons, htext]⟩

theorem mem_orders {s : Program} {c : Call} (h : c ∈ s.orders) : c.isOrder = true ∧ c.hasLine = true := by
  obtain ⟨hprinted, horder⟩ := List.mem_filter.1 h
  exact ⟨horder, List.mem_takeWhile_imp hprinted⟩

/-- The job with the streams of `to_csv_string` as they are, on the doubles of binary64. -/
def Job.streaming (J : Job) (book : Double → String) : Job := { J with printing := binaryPrinting book }

/-- The CSV is the rows of the orders, each on a line. -/
theorem csv_rows (J : Job) (book : Double → String) (sched : ℕ → ProgramThread) (n : ℕ) :
    ∃ rows, List.Forall₂ (fun c row => c.row (binaryPrinting book) = .ok row)
        (programAt (J.streaming book) sched n).orders rows ∧
      (∀ row ∈ rows, '\n' ∉ row.toList) ∧ (programAt (J.streaming book) sched n).files.csv = unlines rows := by
  obtain ⟨rows, hrows, htext⟩ := linesOf_rows (f := binaryPrinting book) fun c hc =>
    mem_orders (s := programAt (J.streaming book) sched n) hc
  refine ⟨rows, hrows, ?_, (program_ok (J.streaming book) sched n).files_printed.1.trans htext⟩
  intro row hrow
  obtain ⟨c, hc, hcrow⟩ := forall₂_mem hrows hrow
  exact row_newline (mem_orders hc).1 hcrow

/-- **When two runs have one CSV**, of whatever capture files, options and interleavings:
exactly when the orders they have printed look alike, one by one. -/
theorem csv_alike_iff (J J' : Job) (book book' : Double → String) (sched sched' : ℕ → ProgramThread) (n n' : ℕ) :
    (programAt (J.streaming book) sched n).files.csv = (programAt (J'.streaming book') sched' n').files.csv ↔
      List.Forall₂ Call.LooksLike (programAt (J.streaming book) sched n).orders
        (programAt (J'.streaming book') sched' n').orders := by
  obtain ⟨rows, hrows, hlines, htext⟩ := csv_rows J book sched n
  obtain ⟨rows', hrows', hlines', htext'⟩ := csv_rows J' book' sched' n'
  have hunlines : unlines rows = unlines rows' ↔ rows = rows' := ⟨unlines_inj hlines hlines', congrArg unlines⟩
  rw [htext, htext', hunlines]
  apply forall₂_eq_iff hrows hrows'
  intro c hc c' hc' row row' hrow hrow'
  exact row_eq_iff (mem_orders hc).1 (mem_orders hc').1 hrow hrow'

-- the trader of an execution is not printed
example : (Call.orderExecution { traderId := 1, side := .bid }).LooksLike
    (.orderExecution { traderId := 2, side := .bid }) :=
  ⟨(streamBinary_eq_iff _ _).1 rfl, (streamBinary_eq_iff _ _).1 rfl, rfl⟩

end MoexDecoder
