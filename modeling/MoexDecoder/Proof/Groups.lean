import MoexDecoder.Proof.Envelope
import MoexDecoder.Proof.Lengths
import MoexDecoder.Spec.Packet

/-!
# Books and groups

* `bookOf_accepted`: the book of entries that are all taken.
* `groupAt_flatten`: a group in a payload is read up to the first entry that no book takes.
-/

namespace MoexDecoder

variable {p : Span} {off : ℕ}

/-! ## Books -/

/-- Entries that a book takes go into it one after the other. -/
theorem foldlM_insert_accepted {es : List OrderBookEntry} (h : ∀ e ∈ es, e.Accepted) (b : OrderBookSnapshot) :
    es.foldlM OrderBookSnapshot.insert b = .ok (es.foldl OrderBookSnapshot.put b) := by
  induction es generalizing b with
  | nil => rfl
  | cons e es ih =>
    rw [List.foldlM_cons, insert_of_accepted (h e List.mem_cons_self)]
    exact ih (fun e he => h e (List.mem_cons_of_mem _ he)) (b.put e)

/-- Each side of the book takes the levels of its own. -/
theorem foldl_put (es : List OrderBookEntry) (b : OrderBookSnapshot) :
    es.foldl OrderBookSnapshot.put b = { b with
      bidBook := (es.filter (·.isLevel .bid)).foldl (fun b e => b.insertIfNew e.orderPrice e) b.bidBook
      askBook := (es.filter (·.isLevel .offer)).foldl (fun b e => b.insertIfNew e.orderPrice e) b.askBook } := by
  induction es generalizing b with
  | nil => rfl
  | cons e es ih =>
    rw [List.foldl_cons, ih]
    -- an entry is a level of at most one side
    simp only [List.filter_cons]
    split <;> split <;> simp_all [OrderBookSnapshot.put]

/-- The book of entries that are taken. -/
theorem bookOf_accepted {header : OrderBookSnapshotHeader} {es : List OrderBookEntry}
    (h : ∀ e ∈ es, e.Accepted) : bookOf header es = .ok (.ofEntries header es) := by
  rw [bookOf, foldlM_insert_accepted h, foldl_put]
  rfl

/-! ## Groups -/

/-- The entries up to the first that no book takes. -/
def upToRefused : List OrderBookEntry → List OrderBookEntry
  | [] => []
  | e :: es => if e.Accepted then e :: upToRefused es else [e]

theorem upToRefused_eq_self {es : List OrderBookEntry} (h : ∀ e ∈ es, e.Accepted) : upToRefused es = es := by
  induction es with
  | nil => rfl
  | cons e es ih =>
    rw [upToRefused, if_pos (h e List.mem_cons_self), ih fun e he => h e (List.mem_cons_of_mem _ he)]

theorem upToRefused_accepted {es : List OrderBookEntry} (h : ∀ e ∈ upToRefused es, e.Accepted) :
    ∀ e ∈ es, e.Accepted := by
  induction es with
  | nil => exact h
  | cons e es ih =>
    rw [upToRefused] at h
    split at h
    · rename_i hacc
      rw [List.forall_mem_cons] at h ⊢
      exact ⟨hacc, ih h.2⟩
    · rename_i hacc
      exact absurd (h e List.mem_cons_self) hacc

/-- **A group in a payload** is read entry by entry, each from a block of its own. -/
theorem groupAt_flatten {blockSize : ℕ} {bss : List (List UInt8)} (hlen : ∀ bs ∈ bss, bs.length = blockSize)
    (h : p.Holds off bss.flatten) :
    groupAt p blockSize bss.length off = upToRefused (bss.map (Wire.memcpy {})) := by
  induction bss generalizing off with
  | nil => rfl
  | cons bs bss ih =>
    rw [List.flatten_cons] at h
    have hbs : bs.length = blockSize := hlen bs List.mem_cons_self
    have hcopy : copyFrom p off blockSize ({} : OrderBookEntry) = Wire.memcpy {} bs := by
      rw [← hbs]; exact copyFrom_bytes h.left _
    have hrest := h.right
    rw [hbs] at hrest
    have hgroup := ih (fun bs hbs => hlen bs (List.mem_cons_of_mem _ hbs)) hrest
    rw [List.length_cons, groupAt, hcopy, hgroup, List.map_cons, upToRefused]

end MoexDecoder
