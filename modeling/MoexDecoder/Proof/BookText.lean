import MoexDecoder.Proof.CsvText

/-!
# What the printed book says

* `header_inj`, `row_inj`: a header line is that of one header, and the line of a row whose
  price has all its digits is that of one row.
* `books_alike_iff`: two runs of the program that print the prices with all digits have one
  book exactly when the snapshots they have printed have the same headers and the same rows,
  one by one. So the ladders can be read back.
-/

namespace MoexDecoder

open Blocks Fields Numerals

variable {f f' : Printing} {r r' : Row}

/-! ## The header -/

theorem toString_int32 (x : Int32) : toString x = toString x.toInt := rfl

theorem toString_int64 (x : Int64) : toString x = toString x.toInt := rfl

theorem toString_uInt32 (x : UInt32) : toString x = toString x.toNat := rfl

theorem toString_uInt16 (x : UInt16) : toString x = toString x.toNat := rfl

theorem toString_uInt8 (x : UInt8) : toString x = toString x.toNat := rfl

/-- **The header line says the header.** -/
theorem header_inj {h h' : OrderBookSnapshotHeader} (heq : h.toString = h'.toString) : h = h' := by
  have hlists := congrArg String.toList heq
  unfold OrderBookSnapshotHeader.toString GroupSize.toString at hlists
  simp only [String.toList_append, List.append_assoc, toString_int32, toString_uInt32, toString_uInt16,
    toString_uInt8, List.append_cancel_left_eq] at hlists
  -- each number ends at the text that is between it and the next
  obtain ⟨hsecurity, h1⟩ := int_append_inj (by simp [isNumeral]) (by simp [isNumeral]) hlists
  rw [List.append_cancel_left_eq] at h1
  obtain ⟨hseq, h2⟩ := nat_append_inj (by simp [isNumeral]) (by simp [isNumeral]) h1
  rw [List.append_cancel_left_eq] at h2
  obtain ⟨hrpt, h3⟩ := nat_append_inj (by simp [isNumeral]) (by simp [isNumeral]) h2
  rw [List.append_cancel_left_eq] at h3
  obtain ⟨hsession, h4⟩ := nat_append_inj (by simp [isNumeral]) (by simp [isNumeral]) h3
  rw [List.append_cancel_left_eq, List.append_cancel_left_eq] at h4
  obtain ⟨hsize, h5⟩ := nat_append_inj (by simp [isNumeral]) (by simp [isNumeral]) h4
  rw [List.append_cancel_left_eq] at h5
  obtain ⟨hnum, -⟩ := nat_append_inj (by simp [isNumeral]) (by simp [isNumeral]) h5
  obtain ⟨securityId, seq, rpt, session, ⟨size, num⟩⟩ := h
  obtain ⟨securityId', seq', rpt', session', ⟨size', num'⟩⟩ := h'
  rw [OrderBookSnapshotHeader.mk.injEq, GroupSize.mk.injEq]
  exact ⟨Int32.toInt_inj.1 hsecurity, UInt32.toNat_inj.1 hseq, UInt32.toNat_inj.1 hrpt, UInt32.toNat_inj.1 hsession,
    UInt16.toNat_inj.1 hsize, UInt8.toNat_inj.1 hnum⟩

theorem header_one_line (h : OrderBookSnapshotHeader) : '\n' ∉ h.toString.toList := by
  unfold OrderBookSnapshotHeader.toString GroupSize.toString
  simp only [String.toList_append, List.mem_append, toString_int32, toString_uInt32, toString_uInt16,
    toString_uInt8, int_one_line, nat_one_line, or_false]
  decide

/-! ## A row -/

/-- The price is printed with all of its digits. -/
def Row.Exact (f : Printing) (r : Row) : Prop := f.book (toNormalizedPrice r.price) = Decimal.printF 5 r.price.toInt

/-- The line of a row. -/
def Row.text (f : Printing) (r : Row) : String :=
  if r.side = .offer then
    "|" ++ setw 4 " " ++ setw 10 "  " ++ f.book (toNormalizedPrice r.price) ++ setw 12 (ToString.toString r.volume) ++
      setw 8 "|"
  else
    "|" ++ setw 3 (ToString.toString r.volume) ++ setw 11 " " ++ f.book (toNormalizedPrice r.price) ++ setw 20 "|"

theorem row_toString (r : Row) : r.toString f = r.text f ++ "\n" := by
  unfold Row.toString Row.text
  split <;> rfl

theorem toList_setw (width : ℕ) (s : String) :
    (setw width s).toList = List.replicate (width - s.length) ' ' ++ s.toList := by
  rw [setw, String.toList_ofList, List.leftpad, String.length_toList]

/-- The line of an ask: blanks, the price, and the volume behind it. -/
theorem text_offer (hside : r.side = .offer) (hexact : r.Exact f) :
    (r.text f).toList = '|' :: (List.replicate 14 ' ' ++ ((Decimal.printF 5 r.price.toInt).toList ++
      (List.replicate (12 - (toString r.volume).length) ' ' ++
        ((toString r.volume.toInt).toList ++ "       |".toList)))) := by
  rw [Row.text, if_pos hside, show f.book _ = _ from hexact]
  simp only [String.toList_append, List.append_assoc, toList_setw, toString_int64]
  rfl

/-- The line of a bid: the volume comes first. -/
theorem text_bid (hside : r.side = .bid) (hexact : r.Exact f) :
    (r.text f).toList = '|' :: (List.replicate (3 - (toString r.volume).length) ' ' ++
      ((toString r.volume.toInt).toList ++ ("           ".toList ++ ((Decimal.printF 5 r.price.toInt).toList ++
        "                   |".toList)))) := by
  rw [Row.text, if_neg (by simp [hside]), show f.book _ = _ from hexact]
  simp only [String.toList_append, List.append_assoc, toList_setw, toString_int64]
  rfl

theorem printF_not_blank (scale : ℕ) (m : ℤ) (t : List Char) :
    ∀ c ∈ ((Decimal.printF scale m).toList ++ t).head?, c ≠ ' ' := by
  apply head?_append
  · simp [Decimal.printF]
  · intro c hc
    rcases Decimal.mem_printF hc with hdigit | hmark
    · rintro rfl
      simp at hdigit
    · rintro rfl
      simp at hmark

theorem int_not_blank (m : ℤ) (t : List Char) : ∀ c ∈ ((toString m).toList ++ t).head?, c ≠ ' ' := by
  intro c hc
  have hnumeral := int_head m t c hc
  rintro rfl
  simp [isNumeral] at hnumeral

/-- An ask has more blanks in front than a bid. -/
theorem offer_ne_bid (hside : r.side = .offer) (hside' : r'.side = .bid) (hexact : r.Exact f)
    (hexact' : r'.Exact f') : r.text f ≠ r'.text f' := by
  intro h
  have hlists := congrArg String.toList h
  rw [text_offer hside hexact, text_bid hside' hexact', List.cons.injEq] at hlists
  obtain ⟨hblanks, -⟩ := blanks_append_inj (printF_not_blank _ _ _) (int_not_blank _ _) hlists.2
  omega

/-- **The line of a row says the row.** -/
theorem row_inj (hside : r.side = .offer ∨ r.side = .bid) (hside' : r'.side = .offer ∨ r'.side = .bid)
    (hexact : r.Exact f) (hexact' : r'.Exact f') (h : r.text f = r'.text f') : r = r' := by
  have heq : r.side = r'.side ∧ r.price.toInt = r'.price.toInt ∧ r.volume.toInt = r'.volume.toInt := by
    have hlists := congrArg String.toList h
    rcases hside with hs | hs <;> rcases hside' with hs' | hs'
    · rw [text_offer hs hexact, text_offer hs' hexact', List.cons.injEq, List.append_cancel_left_eq] at hlists
      obtain ⟨hprice, hrest⟩ := Decimal.printF_append_inj hlists.2
      obtain ⟨-, hrest⟩ := blanks_append_inj (int_not_blank _ _) (int_not_blank _ _) hrest
      obtain ⟨hvolume, -⟩ := int_append_inj (by simp [isNumeral]) (by simp [isNumeral]) hrest
      exact ⟨hs.trans hs'.symm, hprice, hvolume⟩
    · exact absurd h (offer_ne_bid hs hs' hexact hexact')
    · exact absurd h.symm (offer_ne_bid hs' hs hexact' hexact)
    · rw [text_bid hs hexact, text_bid hs' hexact', List.cons.injEq] at hlists
      obtain ⟨-, hrest⟩ := blanks_append_inj (int_not_blank _ _) (int_not_blank _ _) hlists.2
      obtain ⟨hvolume, hrest⟩ := int_append_inj (by simp [isNumeral]) (by simp [isNumeral]) hrest
      rw [List.append_cancel_left_eq] at hrest
      obtain ⟨hprice, -⟩ := Decimal.printF_append_inj hrest
      exact ⟨hs.trans hs'.symm, hprice, hvolume⟩
  cases r
  cases r'
  rw [Row.mk.injEq]
  exact ⟨heq.1, Int64.toInt_inj.1 heq.2.1, Int64.toInt_inj.1 heq.2.2⟩

theorem row_congr (hexact : r.Exact f) (hexact' : r'.Exact f') (h : r = r') : r.text f = r'.text f' := by
  subst h
  have heq : f.book (toNormalizedPrice r.price) = f'.book (toNormalizedPrice r.price) := hexact.trans hexact'.symm
  rw [Row.text, Row.text, heq]

theorem text_one_line (hside : r.side = .offer ∨ r.side = .bid) (hexact : r.Exact f) : '\n' ∉ (r.text f).toList := by
  have hprice : '\n' ∉ (Decimal.printF 5 r.price.toInt).toList := by
    intro hmem
    rcases Decimal.mem_printF hmem with hdigit | hmark
    · simp at hdigit
    · simp at hmark
  have hblanks : ∀ n : ℕ, '\n' ∉ List.replicate n ' ' := fun n hmem => by simp at hmem
  rcases hside with hs | hs
  · rw [text_offer hs hexact]
    simp only [List.mem_cons, List.mem_append, hprice, hblanks, int_one_line, false_or]
    decide
  · rw [text_bid hs hexact]
    simp only [List.mem_cons, List.mem_append, hprice, hblanks, int_one_line, false_or]
    decide

theorem text_ne_empty (r : Row) : r.text f ≠ "" := by
  unfold Row.text
  split <;> simp

/-! ## A book -/

namespace OrderBookSnapshot

/-- What is printed of a book. -/
def content (s : OrderBookSnapshot) : OrderBookSnapshotHeader × List Row := (s.snapshotHeader, s.rows)

/-- Its prices are printed with all of their digits. -/
def Exact (f : Printing) (s : OrderBookSnapshot) : Prop := ∀ r ∈ s.rows, r.Exact f

/-- A line between the parts of a book. -/
def rule : String := "----------------------------------------------"

/-- The names of the columns. -/
def columns : String := setw 3 "| Volume " ++ " |       Price      | " ++ setw 3 " " ++ "Volume" ++ "     |"

/-- The lines of a book. -/
def lines (f : Printing) (s : OrderBookSnapshot) : List String :=
  s.snapshotHeader.toString :: rule :: columns :: rule :: (s.rows.map (Row.text f) ++ [rule])

variable {s s' : OrderBookSnapshot}

/-- **The text of a book** is its lines, and an empty one. -/
theorem toString_lines (f : Printing) (s : OrderBookSnapshot) :
    s.toString f ++ "\n" = unlines (s.lines f ++ [""]) := by
  have hrows : String.join (s.rows.map (Row.toString f)) = unlines (s.rows.map (Row.text f)) := by
    rw [unlines, List.map_map]
    congr 2
    funext r
    exact row_toString r
  rw [OrderBookSnapshot.toString, hrows, lines]
  simp only [List.cons_append, List.append_assoc, unlines_cons, unlines_append, rule, columns, String.append_assoc]
  rfl

theorem rows_sides {r : Row} (h : r ∈ s.rows) : r.side = .offer ∨ r.side = .bid := by
  rcases List.mem_append.1 h with h | h
  · obtain ⟨q, -, rfl⟩ := List.mem_map.1 h
    exact Or.inl rfl
  · obtain ⟨q, -, rfl⟩ := List.mem_map.1 h
    exact Or.inr rfl

theorem mem_lines {t : String} (h : t ∈ s.lines f) :
    t = s.snapshotHeader.toString ∨ t = rule ∨ t = columns ∨ ∃ r ∈ s.rows, t = r.text f := by
  simp only [lines, List.mem_cons, List.mem_append, List.mem_map, List.not_mem_nil, or_false] at h
  rcases h with h | h | h | h | ⟨r, hr, rfl⟩ | h
  · exact Or.inl h
  · exact Or.inr (Or.inl h)
  · exact Or.inr (Or.inr (Or.inl h))
  · exact Or.inr (Or.inl h)
  · exact Or.inr (Or.inr (Or.inr ⟨r, hr, rfl⟩))
  · exact Or.inr (Or.inl h)

theorem lines_one_line (hexact : s.Exact f) {t : String} (h : t ∈ s.lines f) : '\n' ∉ t.toList := by
  rcases mem_lines h with rfl | rfl | rfl | ⟨r, hr, rfl⟩
  · exact header_one_line _
  · decide
  · decide
  · exact text_one_line (rows_sides hr) (hexact r hr)

theorem lines_ne_empty {t : String} (h : t ∈ s.lines f) : t ≠ "" := by
  rcases mem_lines h with rfl | rfl | rfl | ⟨r, hr, rfl⟩
  · unfold OrderBookSnapshotHeader.toString
    simp
  · decide
  · decide
  · exact text_ne_empty r

/-- **The lines say the content.** -/
theorem lines_inj (hexact : s.Exact f) (hexact' : s'.Exact f') (h : s.lines f = s'.lines f') :
    s.content = s'.content := by
  rw [lines, lines, List.cons.injEq, List.cons.injEq, List.cons.injEq, List.cons.injEq,
    List.append_cancel_right_eq] at h
  obtain ⟨hheader, -, -, -, htexts⟩ := h
  have hrows : s.rows.map (Row.text f) = s'.rows.map (Row.text f') ↔ s.rows.map id = s'.rows.map id :=
    map_eq_map_iff fun r hr r' hr' => by
      have hinj := row_inj (rows_sides hr) (rows_sides hr') (hexact r hr) (hexact' r' hr')
      exact ⟨hinj, fun heq => row_congr (hexact r hr) (hexact' r' hr') heq⟩
  rw [List.map_id, List.map_id] at hrows
  rw [content, content, header_inj hheader, hrows.1 htexts]

/-- Exact lines depend on the content alone. -/
theorem lines_congr (hexact : s.Exact f) (hexact' : s'.Exact f') (h : s.content = s'.content) :
    s.lines f = s'.lines f' := by
  obtain ⟨hheader, hrows⟩ := Prod.mk.inj h
  have htexts : s.rows.map (Row.text f) = s'.rows.map (Row.text f') := by
    rw [← hrows]
    exact List.map_congr_left fun r hr => row_congr (hexact r hr) (hexact' r (hrows ▸ hr)) rfl
  rw [lines, lines, hheader, htexts]

end OrderBookSnapshot

/-! ## The whole file -/

/-- The book that a handler was told of. -/
def Call.book? : Call → Option OrderBookSnapshot
  | orderBookSnapshot s => some s
  | orderUpdate _ | orderExecution _ => none

/-- The books printed. -/
def Program.books (s : Program) : List OrderBookSnapshot := s.printed.filterMap Call.book?

theorem linesOf_books (cs : List Call) : (linesOf f (cs.filter (!·.isOrder))).1 =
    unlines (terminated "" ((cs.filterMap Call.book?).map (OrderBookSnapshot.lines f))) := by
  induction cs with
  | nil => rfl
  | cons c cs ih =>
    cases c with
    | orderUpdate u | orderExecution x => exact ih
    | orderBookSnapshot s =>
      have hbooks : (Call.orderBookSnapshot s :: cs).filterMap Call.book? = s :: cs.filterMap Call.book? := rfl
      rw [List.filter_cons_of_pos rfl, linesOf, hbooks, List.map_cons, terminated, List.flatMap_cons, unlines_append,
        ← s.toString_lines f, ← terminated, ← ih]
      rfl

/-- **When two runs have one book**, of whatever capture files, options and interleavings:
exactly when the snapshots they have printed have the same headers and rows, one by one. -/
theorem books_alike_iff (J J' : Job) (sched sched' : ℕ → ProgramThread) (n n' : ℕ)
    (hexact : ∀ s ∈ (programAt J sched n).books, s.Exact J.printing)
    (hexact' : ∀ s ∈ (programAt J' sched' n').books, s.Exact J'.printing) :
    (programAt J sched n).files.book = (programAt J' sched' n').files.book ↔
      (programAt J sched n).books.map (·.content) = (programAt J' sched' n').books.map (·.content) := by
  have hlines : ∀ {f : Printing} {bs : List OrderBookSnapshot}, (∀ s ∈ bs, s.Exact f) →
      (∀ ls ∈ bs.map (OrderBookSnapshot.lines f), "" ∉ ls) ∧
        ∀ t ∈ terminated "" (bs.map (OrderBookSnapshot.lines f)), '\n' ∉ t.toList := by
    intro f bs h
    constructor
    · rw [List.forall_mem_map]
      intro s hs hempty
      exact s.lines_ne_empty hempty rfl
    · intro t ht
      rw [terminated, List.flatMap_map, List.mem_flatMap] at ht
      obtain ⟨s, hs, ht⟩ := ht
      rcases List.mem_append.1 ht with ht | ht
      · exact s.lines_one_line (h s hs) ht
      · rw [List.mem_singleton.1 ht]
        decide
  have hcontent := map_eq_map_iff fun s hs s' hs' =>
    (⟨OrderBookSnapshot.lines_inj (hexact s hs) (hexact' s' hs'),
      OrderBookSnapshot.lines_congr (hexact s hs) (hexact' s' hs')⟩ : _ ↔ s.content = s'.content)
  rw [(program_ok J sched n).files_printed.2, (program_ok J' sched' n').files_printed.2, linesOf_books,
    linesOf_books, ← hcontent]
  obtain ⟨hmark, hnewline⟩ := hlines hexact
  obtain ⟨hmark', hnewline'⟩ := hlines hexact'
  exact ⟨fun h => terminated_inj hmark hmark' (unlines_inj hnewline hnewline' h),
    congrArg fun ls => unlines (terminated "" ls)⟩

/-- Every price is printed with all of its digits. -/
def allDigits : Printing := ⟨streamDouble, fun d => d.elim "nan" fun price => Decimal.printF 5 price.toInt⟩

/-- The book of the same feed, with the CSV and without. -/
theorem bidAndBook_book :
    (programAt (Capture.bidAndBook.job BATCH_SIZE (fun _ _ => 0) ⟨true, true⟩ allDigits fun _ _ => 0)
        byTurns 30).files.book =
      (programAt (Capture.bidAndBook.job BATCH_SIZE (fun _ _ => 0) ⟨false, true⟩ allDigits fun _ _ => 0)
        byTurns 36).files.book :=
  (books_alike_iff (Capture.bidAndBook.job BATCH_SIZE (fun _ _ => 0) ⟨true, true⟩ allDigits fun _ _ => 0)
    (Capture.bidAndBook.job BATCH_SIZE (fun _ _ => 0) ⟨false, true⟩ allDigits fun _ _ => 0) byTurns byTurns 30 36
    (fun _ _ _ _ => rfl) (fun _ _ _ _ => rfl)).2 (by decide +kernel)

end MoexDecoder
