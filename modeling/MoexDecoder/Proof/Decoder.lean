import MoexDecoder.Spec.Messages

/-!
# The decoder reads what the payload says

`decodeMessage_decodes`: whatever handlers are installed and whatever the decoder has
seen, a call of `decode_message` makes the calls `payloadCalls` asks for of the handlers
that are installed, accesses the payload as `payloadAccesses` says, ends with
`payloadException`, and leaves `current_offset_` at `payloadStop`. The one thing carried
from call to call that matters is `mapping_`, and its invariant is `Templates`: every
lookup gives `templateType`.
-/

namespace MoexDecoder

open Walk

variable {hs : MessageHandlers} {p : Span} {s s' s'' : Decoding} {vs : List Visit}

/-! ## The templates -/

/-- Every lookup in `mapping_` gives the type of the template. -/
def Templates (mapping : List (ℕ × Messages)) : Prop := ∀ id, (fromIdToType mapping id).1 = templateType id

theorem fromIdToType_fst (mapping : List (ℕ × Messages)) (id : ℕ) :
    (fromIdToType mapping id).1 = (mapping.lookup id).getD .messageUnknown := by
  unfold fromIdToType
  cases mapping.lookup id <;> rfl

theorem init_templates : Templates SIMBADecoder.init.mapping := by
  intro id
  rw [fromIdToType_fst]
  -- the three keys of the map, and every other
  by_cases h15 : id = 15
  · subst h15; rfl
  by_cases h16 : id = 16
  · subst h16; rfl
  by_cases h17 : id = 17
  · subst h17; rfl
  have htype : templateType id = .messageUnknown := by
    unfold templateType; split <;> first | contradiction | rfl
  have hlookup : SIMBADecoder.init.mapping.lookup id = none := by
    rw [List.lookup_eq_none_iff]
    simp [SIMBADecoder.init, h15, h16, h17]
  rw [htype, hlookup, Option.getD_none]

/-- A lookup inserts nothing but an unknown template. -/
theorem Templates.insert {mapping : List (ℕ × Messages)} (h : Templates mapping) (id : ℕ) :
    Templates (fromIdToType mapping id).2 := by
  intro id'
  have hid := h id
  have hid' := h id'
  rw [fromIdToType_fst] at hid hid' ⊢
  unfold fromIdToType
  cases hl : mapping.lookup id with
  | some t => exact hid'
  | none =>
    rw [hl, Option.getD_none] at hid
    by_cases heq : id' = id
    · rw [heq, List.lookup_cons_self, Option.getD_some]; exact hid
    · rw [List.lookup_cons, show (id' == id) = false by simpa using heq]; exact hid'

/-! ## Copies -/

/-- A copy of a whole object does not depend on what was there. -/
theorem copyFrom_whole {α : Type} [Wire α] (p : Span) (off : ℕ) (x y : α) :
    copyFrom p off (Wire.size α) x = copyFrom p off (Wire.size α) y := by
  unfold copyFrom
  rw [Wire.memcpy_of_length x (by simp), Wire.memcpy_of_length y (by simp)]

/-! ## What a part of a call does -/

section call
variable (s : Decoding) (installed : Bool) (c : Call)

theorem Decoding.call_calls : (s.call installed c).calls = s.calls ++ if installed then [c] else [] := by
  unfold call; split <;> simp

@[simp] theorem Decoding.call_decoder : (s.call installed c).decoder = s.decoder := by
  unfold call; split <;> rfl

@[simp] theorem Decoding.call_accesses : (s.call installed c).accesses = s.accesses := by
  unfold call; split <;> rfl

@[simp] theorem Decoding.call_exception : (s.call installed c).exception = s.exception := by
  unfold call; split <;> rfl

end call

/-- From `s` to `s'` a call read `vs`. -/
structure Reads (hs : MessageHandlers) (vs : List Visit) (s s' : Decoding) : Prop where
  calls : s'.calls = s.calls ++ (vs.flatMap Visit.calls).filter hs.takes
  accesses : s'.accesses = s.accesses ++ vs.flatMap Visit.accesses
  exception : s'.exception = vs.findSome? Visit.exception
  offset : s'.decoder.currentOffset = (vs.getLast?.map Visit.stop).getD s.decoder.currentOffset
  header : s'.decoder.marketUpdateHeader = s.decoder.marketUpdateHeader
  incremental : s'.decoder.incrementalHeader = s.decoder.incrementalHeader
  templates : Templates s.decoder.mapping → Templates s'.decoder.mapping

theorem Reads.nil (h : s.exception = none) : Reads hs [] s s where
  calls := by simp
  accesses := by simp
  exception := h
  offset := rfl
  header := rfl
  incremental := rfl
  templates ht := ht

/-- Reading on, where no exception was raised. -/
theorem Reads.cons {v : Visit} (h : Reads hs [v] s s') (hv : s'.exception = none) (h' : Reads hs vs s' s'') :
    Reads hs (v :: vs) s s'' where
  calls := by rw [h'.calls, h.calls]; simp
  accesses := by rw [h'.accesses, h.accesses]; simp
  exception := by
    have hnone : v.exception = none := by simpa [hv] using h.exception.symm
    rw [h'.exception, List.findSome?_cons, hnone]
  offset := by
    rw [h'.offset, h.offset]
    cases vs with
    | nil => rfl
    | cons v' vs => simp [List.getLast?_cons]
  header := h'.header.trans h.header
  incremental := h'.incremental.trans h.incremental
  templates ht := h'.templates (h.templates ht)

/-- Reading one message. -/
theorem Reads.single {v : Visit} (hcalls : s'.calls = s.calls ++ v.calls.filter hs.takes)
    (hacc : s'.accesses = s.accesses ++ v.accesses) (hexc : s'.exception = v.exception)
    (hoff : s'.decoder.currentOffset = v.stop)
    (hheader : s'.decoder.marketUpdateHeader = s.decoder.marketUpdateHeader)
    (hinc : s'.decoder.incrementalHeader = s.decoder.incrementalHeader)
    (ht : Templates s.decoder.mapping → Templates s'.decoder.mapping) : Reads hs [v] s s' where
  calls := by simpa using hcalls
  accesses := by simpa using hacc
  exception := by rw [hexc, List.findSome?_singleton]
  offset := hoff
  header := hheader
  incremental := hinc
  templates := ht

/-- Reading one message without a lookup. -/
theorem Reads.body {v : Visit} (hcalls : s'.calls = s.calls ++ v.calls.filter hs.takes)
    (hacc : s'.accesses = s.accesses ++ v.accesses) (hexc : s'.exception = v.exception)
    (hdec : s'.decoder = { s.decoder with currentOffset := v.stop }) : Reads hs [v] s s' :=
  .single hcalls hacc hexc (by rw [hdec]) (by rw [hdec]) (by rw [hdec]) (by rw [hdec]; exact id)

/-! ## Snapshots -/

/-- The book with an entry it takes: a level of a price it does not have yet is added. -/
def OrderBookSnapshot.put (b : OrderBookSnapshot) (e : OrderBookEntry) : OrderBookSnapshot :=
  { b with
    bidBook := if e.isLevel .bid then b.bidBook.insertIfNew e.orderPrice e else b.bidBook
    askBook := if e.isLevel .offer then b.askBook.insertIfNew e.orderPrice e else b.askBook }

/-- A book takes an entry exactly when the entry is accepted. -/
theorem insert_of_accepted {e : OrderBookEntry} (h : e.Accepted) (b : OrderBookSnapshot) :
    b.insert e = .ok (b.put e) := by
  unfold OrderBookSnapshot.insert OrderBookSnapshot.put OrderBookEntry.isLevel
  by_cases hprice : isNullPrice e.orderPrice = true
  · simp [hprice]
  · have hside : e.side.Named := h.resolve_left hprice
    rcases hside with hs | hs | hs <;> simp [hprice, hs, toIndex] <;> rfl

theorem insert_of_not_accepted {e : OrderBookEntry} (h : ¬ e.Accepted) (b : OrderBookSnapshot) :
    b.insert e = .error "Cannot convert into index the book side" := by
  unfold OrderBookEntry.Accepted at h
  push Not at h
  obtain ⟨hprice, hside⟩ := h
  unfold OrderBookSnapshot.insert
  rw [if_neg hprice]
  cases hc : e.side with
  | unnamed c => rfl
  | bid | offer | emptyBook => exact absurd (by simp [MDEntryType.Named, hc]) hside

/-- The call after it read a group of `n` entries of `blockSize` bytes. -/
def Decoding.readGroup (s : Decoding) (blockSize n : ℕ) : Decoding :=
  (s.touch (groupAccesses blockSize n s.decoder.currentOffset)).advance (n * blockSize)

theorem Decoding.readGroup_succ (s : Decoding) (blockSize n : ℕ) :
    ((s.touch (blockAccesses s.decoder.currentOffset blockSize (Wire.size OrderBookEntry))).advance
      blockSize).readGroup blockSize n = s.readGroup blockSize (n + 1) := by
  have hoff : s.decoder.currentOffset + blockSize + n * blockSize =
      s.decoder.currentOffset + (n + 1) * blockSize := by ring
  simp [readGroup, touch, advance, groupAccesses, hoff]

/-- A book after entries were put in, and the exception that ended it. -/
def fillBook (b : OrderBookSnapshot) : List OrderBookEntry → OrderBookSnapshot × Option Exception
  | [] => (b, none)
  | e :: es => match b.insert e with
    | .ok b => fillBook b es
    | .error x => (b, some x)

theorem foldlM_insert (b : OrderBookSnapshot) (es : List OrderBookEntry) :
    es.foldlM OrderBookSnapshot.insert b =
      match (fillBook b es).2 with
      | none => .ok (fillBook b es).1
      | some x => .error x := by
  induction es generalizing b with
  | nil => rfl
  | cons e es ih =>
    rw [List.foldlM_cons, fillBook]
    cases b.insert e with
    | ok b' => exact ih b'
    | error x => rfl

/-- **The group loop** puts the entries in the book, up to the first that it does not take. -/
theorem readEntries_eq (blockSize k : ℕ) (s : Decoding) (hexc : s.exception = none) (b : OrderBookSnapshot) :
    readEntries p blockSize k s b =
      let entries := groupAt p blockSize k s.decoder.currentOffset
      ({ s.readGroup blockSize entries.length with exception := (fillBook b entries).2 },
        (fillBook b entries).1) := by
  induction k generalizing s b with
  | zero =>
    simp [groupAt, readEntries, fillBook, Decoding.readGroup, Decoding.touch, Decoding.advance,
      groupAccesses, ← hexc]
  | succ k ih =>
    simp only [readEntries, groupAt]
    generalize hentry : copyFrom p s.decoder.currentOffset blockSize ({} : OrderBookEntry) = entry
    by_cases hacc : entry.Accepted
    · have hb := insert_of_accepted hacc b
      rw [if_pos hacc]
      simp only [fillBook, hb, List.length_cons]
      rw [← s.readGroup_succ]
      exact ih ((s.touch _).advance blockSize) hexc (b.put entry)
    · -- the entry has been read when `insert` throws
      have hb := insert_of_not_accepted hacc b
      rw [if_neg hacc]
      simp only [fillBook, hb, List.length_cons, List.length_nil]
      rw [← s.readGroup_succ]
      simp [Decoding.readGroup, Decoding.touch, Decoding.advance, groupAccesses, blockAccesses]

theorem bookOf_eq (header : OrderBookSnapshotHeader) (es : List OrderBookEntry) :
    bookOf header es =
      match (fillBook { snapshotHeader := header } es).2 with
      | none => .ok (fillBook { snapshotHeader := header } es).1
      | some x => .error x :=
  foldlM_insert _ es

theorem fillBook_none (b : OrderBookSnapshot) (es : List OrderBookEntry) :
    (fillBook b es).2 = none ↔ ∀ e ∈ es, e.Accepted := by
  induction es generalizing b with
  | nil => simp [fillBook]
  | cons e es ih =>
    rw [List.forall_mem_cons]
    by_cases hacc : e.Accepted
    · simp only [fillBook, insert_of_accepted hacc b, ih, hacc, true_and]
    · simp only [fillBook, insert_of_not_accepted hacc, hacc, false_and, reduceCtorEq]

theorem Visit.exception_none (v : Visit) :
    v.exception = none ↔ ∀ header entries, v.message = some (.orderBookSnapshot header entries) →
      ∀ e ∈ entries, e.Accepted := by
  unfold exception outcome
  cases v.message with
  | none => simp
  | some m =>
    cases m with
    | orderUpdate u | orderExecution x => simp [Message.call]
    | orderBookSnapshot header entries =>
      have hbook := bookOf_eq header entries
      have hfill := fillBook_none { snapshotHeader := header } entries
      simp only [Option.map_some, Message.call, Option.some.injEq, Message.orderBookSnapshot.injEq]
      have hright : (∀ header' entries', header = header' ∧ entries = entries' →
          ∀ e ∈ entries', e.Accepted) ↔ ∀ e ∈ entries, e.Accepted :=
        ⟨fun h => h header entries ⟨rfl, rfl⟩, by rintro h _ _ ⟨rfl, rfl⟩; exact h⟩
      rw [hright, ← hfill, hbook]
      cases (fillBook { snapshotHeader := header } entries).2 <;> simp [Except.map]

/-- The end of `handle_order_book_snapshot`: the book is complete, or the exception leaves. -/
theorem snapshot_reads {header : OrderBookSnapshotHeader} {entries : List OrderBookEntry}
    {as : List Access} {stop : ℕ} (hcalls : s'.calls = s.calls) (hacc : s'.accesses = s.accesses ++ as)
    (hexc : s'.exception = (fillBook { snapshotHeader := header } entries).2)
    (hdec : s'.decoder = { s.decoder with currentOffset := stop }) :
    Reads hs [⟨some (.orderBookSnapshot header entries), as, stop⟩] s
      (if s'.exception = none then
        s'.call hs.orderBookSnapshotHandler
          (.orderBookSnapshot (fillBook { snapshotHeader := header } entries).1)
      else s') := by
  have hbook := bookOf_eq header entries
  cases hfill : (fillBook { snapshotHeader := header } entries).2 with
  | none =>
    -- every entry was taken, and the handler is called if there is one
    rw [hfill] at hbook hexc
    rw [if_pos hexc]
    have hv : Visit.outcome ⟨some (.orderBookSnapshot header entries), as, stop⟩ =
        some (.ok (.orderBookSnapshot (fillBook { snapshotHeader := header } entries).1)) := by
      simp [Visit.outcome, Message.call, hbook, Except.map]
    have htakes : hs.takes (.orderBookSnapshot (fillBook { snapshotHeader := header } entries).1) =
        hs.orderBookSnapshotHandler := rfl
    refine .body ?_ (by simpa using hacc) (by simp [Visit.exception, hv, hexc]) (by simpa using hdec)
    rw [Decoding.call_calls, hcalls, Visit.calls, hv, List.filter_cons, htakes, List.filter_nil]
  | some x =>
    -- the handler is not reached
    rw [hfill] at hbook hexc
    rw [if_neg (by simp [hexc])]
    have hv : Visit.outcome ⟨some (.orderBookSnapshot header entries), as, stop⟩ = some (.error x) := by
      simp [Visit.outcome, Message.call, hbook, Except.map]
    exact .body (by simp [Visit.calls, hv, hcalls]) hacc (by simp [Visit.exception, hv, hexc]) hdec

theorem handleOrderBookSnapshot_reads (hexc : s.exception = none) :
    Reads hs [snapshotAt p s.decoder.currentOffset s.decoder.sbeHeader.blockLength.toNat] s
      (handleOrderBookSnapshot hs p s) := by
  unfold handleOrderBookSnapshot snapshotAt
  simp only
  generalize hr : readEntries p _ _ _ _ = r
  obtain ⟨s', b⟩ := r
  rw [readEntries_eq _ _ ((s.touch _).advance _) hexc] at hr
  obtain ⟨hs', hb⟩ := Prod.mk.inj hr
  rw [← hb]
  refine snapshot_reads ?_ ?_ ?_ ?_ <;> rw [← hs']
  · rfl
  · simp [Decoding.readGroup, Decoding.touch, Decoding.advance]
  · rfl
  · rfl

/-- Reading a message of a fixed size. -/
theorem fixed_reads {m : Message} {c : Call} (hm : m.call = .ok c) {installed : Bool}
    (hinst : hs.takes c = installed) (hexc : s.exception = none) (as : List Access) (size : ℕ) :
    Reads hs [⟨some m, as, s.decoder.currentOffset + size⟩] s
      (((s.touch as).call installed c).advance size) := by
  have hv : Visit.outcome ⟨some m, as, s.decoder.currentOffset + size⟩ = some (.ok c) := by
    simp [Visit.outcome, hm]
  refine .body ?_ (by simp [Decoding.touch, Decoding.advance]) ?_ (by simp [Decoding.touch, Decoding.advance])
  · subst hinst
    simp only [Decoding.advance, Decoding.call_calls, Visit.calls, hv, List.filter_cons, List.filter_nil]
    rfl
  · simp [Decoding.touch, Decoding.advance, Visit.exception, hv, hexc]

/-! ## The message loop -/

/-- The call behind the header of a message, with the lookup made. -/
def behindHeader (p : Span) (s : Decoding) : Decoding :=
  let off := s.decoder.currentOffset
  let sbeHeader := sbeHeaderAt p off
  let s := s.touch (blockAccesses off (Wire.size SBEHeader) (Wire.size SBEHeader))
  { s with decoder := { s.decoder with
    sbeHeader := sbeHeader
    currentOffset := off + Wire.size SBEHeader
    mapping := (fromIdToType s.decoder.mapping sbeHeader.templateId.toNat).2 } }

theorem behindHeader_sbeHeader (p : Span) (s : Decoding) :
    (behindHeader p s).decoder.sbeHeader = sbeHeaderAt p s.decoder.currentOffset := rfl

theorem behindHeader_offset (p : Span) (s : Decoding) :
    (behindHeader p s).decoder.currentOffset = s.decoder.currentOffset + Wire.size SBEHeader := rfl

/-- The type the decoder finds for the message it is at. -/
def foundType (p : Span) (s : Decoding) : Messages :=
  (fromIdToType s.decoder.mapping (sbeHeaderAt p s.decoder.currentOffset).templateId.toNat).1

theorem Templates.foundType (h : Templates s.decoder.mapping) :
    messageAt p (foundType p s) s.decoder.currentOffset = visitAt p s.decoder.currentOffset := by
  rw [MoexDecoder.foundType, h, visitAt]

/-- The header read, and then the body. -/
theorem Reads.message {t : Messages}
    (h : Reads hs [bodyAt p t (sbeHeaderAt p s.decoder.currentOffset).blockLength.toNat
      (s.decoder.currentOffset + Wire.size SBEHeader)] (behindHeader p s) s') :
    Reads hs [messageAt p t s.decoder.currentOffset] s s' :=
  .single (by rw [h.calls, List.flatMap_singleton]; rfl)
    (by rw [h.accesses]; simp [behindHeader, Decoding.touch, messageAt])
    (by rw [h.exception, List.findSome?_singleton]; rfl) h.offset h.header h.incremental
    fun ht => h.templates (ht.insert _)

/-- The `switch` over the type of the message. -/
def handleType (hs : MessageHandlers) (p : Span) (t : Messages) (s : Decoding) : Decoding × Bool :=
  match t with
  | .orderUpdateType =>
    let (n, s) := handleOrderUpdate hs p s.decoder.sbeHeader s
    (s.advance n, false)
  | .orderExecutionType =>
    let (n, s) := handleOrderExecution hs p s.decoder.sbeHeader s
    (s.advance n, false)
  | .orderBookSnapshotType => (handleOrderBookSnapshot hs p s, false)
  | .messageUnknown => (s, true)

theorem handleMessage_eq (s : Decoding) :
    handleMessage hs p s = handleType hs p (foundType p s) (behindHeader p s) := by
  have hcopy : copyFrom p s.decoder.currentOffset (Wire.size SBEHeader) s.decoder.sbeHeader =
      sbeHeaderAt p s.decoder.currentOffset := copyFrom_whole _ _ _ _
  unfold handleMessage
  simp only [hcopy]
  rfl

theorem handleType_reads (hs : MessageHandlers) (p : Span) (s : Decoding) (t : Messages)
    (hexc : s.exception = none) :
    Reads hs [bodyAt p t s.decoder.sbeHeader.blockLength.toNat s.decoder.currentOffset] s
      (handleType hs p t s).1 := by
  cases t with
  | orderUpdateType =>
    simp only [handleType, handleOrderUpdate, bodyAt]
    exact fixed_reads (c := .orderUpdate _) rfl rfl hexc _ _
  | orderExecutionType =>
    simp only [handleType, handleOrderExecution, bodyAt]
    exact fixed_reads (c := .orderExecution _) rfl rfl hexc _ _
  | orderBookSnapshotType =>
    simp only [handleType, bodyAt]
    exact handleOrderBookSnapshot_reads hexc
  | messageUnknown =>
    simp only [handleType, bodyAt]
    refine .body ?_ ?_ ?_ rfl
    · simp [Visit.calls, Visit.outcome]
    · simp
    · simpa [Visit.exception, Visit.outcome] using hexc

/-- **One pass of the message loop** reads the message it is at. -/
theorem handleMessage_reads (hs : MessageHandlers) (p : Span) (hexc : s.exception = none) :
    Reads hs [messageAt p (foundType p s) s.decoder.currentOffset] s (handleMessage hs p s).1 := by
  have h := handleType_reads hs p (behindHeader p s) (foundType p s) hexc
  rw [behindHeader_sbeHeader, behindHeader_offset] at h
  rw [handleMessage_eq]
  exact h.message

theorem handleMessage_skipped (hs : MessageHandlers) (p : Span) (s : Decoding) :
    (handleMessage hs p s).2 = true ↔ foundType p s = .messageUnknown := by
  rw [handleMessage_eq]
  cases foundType p s <;> simp [handleType]

/-- A message has at least its header. -/
theorem lt_messageAt_stop (p : Span) (t : Messages) (off : ℕ) : off < (messageAt p t off).stop := by
  have h8 := size_sbeHeader
  cases t <;> simp only [messageAt, bodyAt, snapshotAt] <;> omega

theorem visitAt_forward (p : Span) : Forward (visitAt p) Visit.next := by
  intro off off' h
  unfold Visit.next at h
  split at h
  · cases h; exact lt_messageAt_stop p _ off
  · cases h

/-- **A pass of the loop moves `current_offset_` up**, so the loop is left. -/
theorem messageStep_falls (hs : MessageHandlers) (p : Span) :
    Loop.Falls (messageStep hs p) fun s => s.1.messageSize - s.1.decoder.currentOffset := by
  rintro ⟨s, skipped⟩ r hr
  unfold messageStep at hr
  split at hr
  · rename_i hg
    cases hr
    have hread := handleMessage_reads hs p hg.1
    have hoff : (handleMessage hs p s).1.decoder.currentOffset =
        (messageAt p (foundType p s) s.decoder.currentOffset).stop := hread.offset
    have hlt := lt_messageAt_stop p (foundType p s) s.decoder.currentOffset
    have hsize : (handleMessage hs p s).1.messageSize = s.messageSize := by
      rw [Decoding.messageSize, hread.header]; rfl
    have := hg.2.1
    simp only at this ⊢
    omega
  · cases hr

theorem messageLoop_of_ge (h : s.messageSize ≤ s.decoder.currentOffset) : messageLoop hs p s = s := by
  unfold messageLoop
  rw [Loop.run_none]
  unfold messageStep
  rw [if_neg (by simp only; omega)]

theorem messageLoop_of_lt (hexc : s.exception = none) (hlt : s.decoder.currentOffset < s.messageSize) :
    messageLoop hs p s =
      if (handleMessage hs p s).1.exception = none ∧ foundType p s ≠ .messageUnknown then
        messageLoop hs p (handleMessage hs p s).1
      else (handleMessage hs p s).1 := by
  have hstep : messageStep hs p (s, false) = some (handleMessage hs p s) := by
    unfold messageStep; rw [if_pos ⟨hexc, hlt, rfl⟩]
  have hskip := handleMessage_skipped hs p s
  unfold messageLoop
  rw [Loop.run_some (messageStep_falls hs p) hstep]
  split
  · rename_i hgo
    -- `to_be_skipped` is still `false`, so this is the loop from the next message on
    have hfalse : (handleMessage hs p s).2 = false := by
      rw [← Bool.not_eq_true, hskip]; exact hgo.2
    rw [← hfalse]
  · rename_i hstop
    rw [Loop.run_none]
    unfold messageStep
    rw [if_neg]
    rintro ⟨hnone, -, hfalse⟩
    exact hstop ⟨hnone, fun hu => by rw [hskip.2 hu] at hfalse; cases hfalse⟩

/-- Where a walk goes on, in terms of the decoder. -/
theorem messageAt_next (p : Span) (t : Messages) (off : ℕ) :
    ((messageAt p t off).exception = none ∧ t ≠ .messageUnknown ∧
        (messageAt p t off).next = some (messageAt p t off).stop) ∨
      (¬ ((messageAt p t off).exception = none ∧ t ≠ .messageUnknown) ∧
        (messageAt p t off).next = none) := by
  have hsome : t ≠ .messageUnknown → ∃ r, (messageAt p t off).outcome = some r := by
    cases t <;> simp [messageAt, bodyAt, snapshotAt, Visit.outcome]
  have hnone : t = .messageUnknown → (messageAt p t off).outcome = none := by
    rintro rfl; rfl
  unfold Visit.next Visit.exception
  by_cases ht : t = .messageUnknown
  · rw [hnone ht]; simp [ht]
  · obtain ⟨r, hr⟩ := hsome ht
    rw [hr]
    cases r <;> simp [ht]

section loop
variable {size off off' : ℕ}

/-- The loop is left behind the last message of a walk: an exception, or an unknown template. -/
theorem messageLoop_last (hs : MessageHandlers) (hsize : s.messageSize = size)
    (hoff : s.decoder.currentOffset = off) (hexc : s.exception = none) (ht : Templates s.decoder.mapping)
    (hlt : off < size) (hnext : Visit.next (visitAt p off) = none) :
    messageLoop hs p s = (handleMessage hs p s).1 := by
  have hread := handleMessage_reads hs p hexc
  have hcase := messageAt_next p (foundType p s) s.decoder.currentOffset
  rw [ht.foundType, hoff] at hread hcase
  rw [hnext] at hcase
  rw [messageLoop_of_lt hexc (by omega), if_neg]
  rw [hread.exception, List.findSome?_singleton]
  rcases hcase with ⟨-, -, h⟩ | ⟨h, -⟩
  · cases h
  · exact h

/-- Where a walk goes on, the loop does, at the message where the walk is. -/
theorem messageLoop_more (hs : MessageHandlers) (hsize : s.messageSize = size)
    (hoff : s.decoder.currentOffset = off) (hexc : s.exception = none) (ht : Templates s.decoder.mapping)
    (hlt : off < size) (hnext : Visit.next (visitAt p off) = some off') :
    messageLoop hs p s = messageLoop hs p (handleMessage hs p s).1 ∧ foundType p s ≠ .messageUnknown ∧
      (handleMessage hs p s).1.messageSize = size ∧ (handleMessage hs p s).1.decoder.currentOffset = off' ∧
      (handleMessage hs p s).1.exception = none := by
  have hread := handleMessage_reads hs p hexc
  have hcase := messageAt_next p (foundType p s) s.decoder.currentOffset
  rw [ht.foundType, hoff] at hread hcase
  rw [hnext] at hcase
  obtain ⟨hnone, hknown, hstop⟩ := hcase.resolve_right (by simp)
  have hnone' : (handleMessage hs p s).1.exception = none := by
    rw [hread.exception, List.findSome?_singleton, hnone]
  refine ⟨?_, hknown, ?_, ?_, hnone'⟩
  · rw [messageLoop_of_lt hexc (by omega), if_pos ⟨hnone', hknown⟩]
  · rw [← hsize, Decoding.messageSize, hread.header]; rfl
  · rw [hread.offset]; exact (Option.some.inj hstop).symm

/-- **The message loop** is the walk. -/
theorem messageLoop_reads (hsize : s.messageSize = size) (hoff : s.decoder.currentOffset = off)
    (hexc : s.exception = none) (ht : Templates s.decoder.mapping) :
    Reads hs (walk (visitAt p) Visit.next size off) s (messageLoop hs p s) := by
  -- along the walk over the payload, with the state of the decoder at each message
  induction off using walk_rec size (visitAt_forward p) generalizing s with
  | done off hge =>
    rw [walk_of_ge hge, messageLoop_of_ge (by omega)]
    exact .nil hexc
  | last off hlt hnext =>
    have hread := handleMessage_reads hs p hexc
    rw [ht.foundType, hoff] at hread
    rw [walk_none (visitAt_forward p) hlt hnext, messageLoop_last hs hsize hoff hexc ht hlt hnext]
    exact hread
  | more off off' hlt hnext ih =>
    have hread := handleMessage_reads hs p hexc
    rw [ht.foundType, hoff] at hread
    obtain ⟨hloop, -, hsize', hoff', hexc'⟩ := messageLoop_more hs hsize hoff hexc ht hlt hnext
    rw [walk_some (visitAt_forward p) hlt hnext, hloop]
    exact hread.cons hexc' (ih hsize' hoff' hexc' (hread.templates ht))

end loop

/-! ## A whole call -/

/-- What a call of `decode_message` did, and left behind. -/
structure Decodes (hs : MessageHandlers) (p : Span) (d : SIMBADecoder) (s : Decoding) : Prop where
  calls : s.calls = (payloadCalls p).filter hs.takes
  accesses : s.accesses = payloadAccesses p
  exception : s.exception = payloadException p
  offset : s.decoder.currentOffset = payloadStop p
  header : s.decoder.marketUpdateHeader = marketHeaderAt p
  incremental : s.decoder.incrementalHeader =
    if (marketHeaderAt p).Incremental then some (incrementalHeaderAt p) else d.incrementalHeader
  templates : Templates s.decoder.mapping

/-- With all handlers installed every call that is asked for is made. -/
theorem Decodes.all_calls {d : SIMBADecoder} (h : Decodes .all p d s) : s.calls = payloadCalls p := by
  have htakes : MessageHandlers.all.takes = fun _ => true := funext MessageHandlers.all_takes
  rw [h.calls, htakes, List.filter_true]

/-- The headers are read from the payload alone. -/
theorem readHeaders_eq (p : Span) (d : SIMBADecoder) :
    readHeaders p d = {
      decoder := { d with
        currentOffset := messagesOffset p
        marketUpdateHeader := marketHeaderAt p
        incrementalHeader :=
          if (marketHeaderAt p).Incremental then some (incrementalHeaderAt p) else d.incrementalHeader }
      accesses := headerAccesses p } := by
  have hcopy : copyFrom p 0 (Wire.size MarketDataPacketHeader) d.marketUpdateHeader = marketHeaderAt p :=
    copyFrom_whole _ _ _ _
  unfold readHeaders messagesOffset headerAccesses
  simp only [hcopy]
  by_cases hinc : (marketHeaderAt p).Incremental
  · rw [if_pos hinc, if_pos hinc, if_pos hinc, if_pos (show _ ≠ _ from hinc)]; rfl
  · rw [if_neg hinc, if_neg hinc, if_neg hinc, if_neg (show ¬ _ ≠ _ from hinc)]; rfl

/-- **A call of `decode_message`** does what the payload says, and nothing that depends on
the calls before it. -/
theorem decodeMessage_decodes (hs : MessageHandlers) (p : Span) {d : SIMBADecoder} (ht : Templates d.mapping) :
    Decodes hs p d (decodeMessage hs p d) := by
  have hread : Reads hs (visits p) (readHeaders p d) (decodeMessage hs p d) := by
    refine messageLoop_reads ?_ ?_ ?_ ?_ <;> rw [readHeaders_eq]
    · rfl
    · exact ht
  have hcalls := hread.calls
  have hacc := hread.accesses
  have hoff := hread.offset
  have hheader := hread.header
  have hinc := hread.incremental
  have htemplates := hread.templates
  rw [readHeaders_eq] at hcalls hacc hoff hheader hinc htemplates
  exact ⟨hcalls, hacc, hread.exception, hoff, hheader, hinc, htemplates ht⟩

end MoexDecoder
