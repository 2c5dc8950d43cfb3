import MoexDecoder.Proof.Stateless
import MoexDecoder.Spec.Lengths

/-!
# The lengths on the wire and the memory they reach

The decoder takes the lengths in the headers of a payload at their word.

* `stays_inside_iff`: it reads inside the payload, and tells of messages inside
  `message_size`, **exactly when** the payload is `Complete`.
* `writes_inside_iff`: its copies stay inside their destinations **exactly when** the
  lengths of the payload fit.
-/

namespace MoexDecoder

open Walk

variable {hs : MessageHandlers} {p : Span} {off n size len : ℕ}

/-! ## The accesses to one message -/

theorem forall_inRange {as : List Access} :
    (∀ a ∈ as, a.InRange len) ↔ (∀ a ∈ as, a.ReadsInside len) ∧ ∀ a ∈ as, a.WritesInside := by
  simp only [Access.inRange_iff, imp_and, forall_and]

theorem blockAccesses_reads :
    (∀ a ∈ blockAccesses off n size, a.ReadsInside len) ↔ off + n ≤ len := by
  simp [blockAccesses]

theorem blockAccesses_writes : (∀ a ∈ blockAccesses off n size, a.WritesInside) ↔ n ≤ size := by
  simp [blockAccesses]

theorem groupAccesses_reads {blockSize : ℕ} (k : ℕ) (h : off ≤ len) :
    (∀ a ∈ groupAccesses blockSize k off, a.ReadsInside len) ↔ off + k * blockSize ≤ len := by
  induction k generalizing off with
  | zero => simp [groupAccesses, h]
  | succ k ih =>
    rw [groupAccesses, List.forall_mem_append, blockAccesses_reads, Nat.succ_mul]
    constructor
    · rintro ⟨hfirst, hrest⟩
      have := (ih hfirst).1 hrest
      omega
    · intro hall
      have hfirst : off + blockSize ≤ len := by omega
      exact ⟨hfirst, (ih hfirst).2 (by omega)⟩

theorem groupAccesses_writes {blockSize : ℕ} (k : ℕ) :
    (∀ a ∈ groupAccesses blockSize k off, a.WritesInside) ↔
      (k ≠ 0 → blockSize ≤ Wire.size OrderBookEntry) := by
  induction k generalizing off with
  | zero => simp [groupAccesses]
  | succ k ih =>
    rw [groupAccesses, List.forall_mem_append, blockAccesses_writes, ih]
    constructor
    · exact fun h _ => h.1
    · exact fun h => ⟨h k.succ_ne_zero, fun _ => h k.succ_ne_zero⟩

/-- An entry is read of every group that has one. -/
theorem groupAt_eq_nil {blockSize k : ℕ} : groupAt p blockSize k off = [] ↔ k = 0 := by
  cases k with
  | zero => simp [groupAt]
  | succ k =>
    by_cases hacc : (copyFrom p off blockSize ({} : OrderBookEntry)).Accepted
    · simp [groupAt_accepted hacc]
    · simp [groupAt_refused hacc]

/-- What the message at `off` is made of. -/
theorem visitAt_eq (p : Span) (off : ℕ) :
    visitAt p off =
      { bodyAt p (typeAt p off) (blockLengthAt p off) (blockAt off) with
        accesses := blockAccesses off (Wire.size SBEHeader) (Wire.size SBEHeader) ++
          (bodyAt p (typeAt p off) (blockLengthAt p off) (blockAt off)).accesses } := rfl

/-- The body of the snapshot at `off`. -/
theorem snapshotAt_eq (p : Span) (off : ℕ) :
    (snapshotAt p (blockAt off) (blockLengthAt p off)).accesses =
      [.subspan (blockAt off) (blockLengthAt p off),
        .memcpy (blockAt off) (blockLengthAt p off + Wire.size GroupSize) (Wire.size OrderBookSnapshotHeader)] ++
      groupAccesses (groupSizeAt p off).blockSize.toNat (entriesAt p off).length
        (blockAt off + (blockLengthAt p off + Wire.size GroupSize)) := rfl

/-- **A message is read up to its end**, and no further. -/
theorem visitAt_reads : (∀ a ∈ (visitAt p off).accesses, a.ReadsInside len) ↔ messageEnd p off ≤ len := by
  rw [visitAt_eq]
  simp only [List.forall_mem_append, blockAccesses_reads]
  rw [← blockAt, messageEnd]
  cases typeAt p off with
  | orderUpdateType | orderExecutionType =>
    simp only [bodyAt, blockAccesses_reads]
    omega
  | orderBookSnapshotType =>
    simp only [bodyAt, snapshotAt_eq, List.forall_mem_append, List.forall_mem_cons, List.not_mem_nil,
      false_imp_iff, implies_true, and_true, Access.readsInside_subspan, Access.readsInside_memcpy]
    constructor
    · rintro ⟨-, ⟨-, hroot⟩, hgroup⟩
      exact (groupAccesses_reads _ hroot).1 hgroup
    · intro h
      have hroot : blockAt off + (blockLengthAt p off + Wire.size GroupSize) ≤ len :=
        le_trans (Nat.le_add_right _ _) h
      exact ⟨by omega, ⟨by omega, hroot⟩, (groupAccesses_reads _ hroot).2 h⟩
  | messageUnknown => simp [bodyAt]

/-- **A message is copied into its destinations** when its lengths fit. -/
theorem visitAt_writes : (∀ a ∈ (visitAt p off).accesses, a.WritesInside) ↔ LengthsFitAt p off := by
  rw [visitAt_eq]
  simp only [List.forall_mem_append, blockAccesses_writes, le_refl, true_and]
  rw [LengthsFitAt]
  cases typeAt p off with
  | orderUpdateType | orderExecutionType => simp only [bodyAt, blockAccesses_writes]
  | orderBookSnapshotType =>
    have hnum : (entriesAt p off).length ≠ 0 ↔ (groupSizeAt p off).numInGroup ≠ 0 := by
      rw [Ne, List.length_eq_zero_iff, entriesAt, groupAt_eq_nil, Ne, ← UInt8.toNat_inj]
      rfl
    simp only [bodyAt, snapshotAt_eq, List.forall_mem_append, List.forall_mem_cons, List.not_mem_nil,
      false_imp_iff, implies_true, and_true, Access.writesInside_subspan, Access.writesInside_memcpy,
      true_and, groupAccesses_writes, hnum]
  | messageUnknown => simp [bodyAt]

theorem headerAccesses_reads :
    (∀ a ∈ headerAccesses p, a.ReadsInside len) ↔ messagesOffset p ≤ len := by
  rw [headerAccesses, messagesOffset, List.forall_mem_append, blockAccesses_reads, Nat.zero_add]
  split
  · rw [blockAccesses_reads]; omega
  · simp

theorem headerAccesses_writes : ∀ a ∈ headerAccesses p, a.WritesInside := by
  rw [headerAccesses, List.forall_mem_append, blockAccesses_writes]
  refine ⟨le_rfl, ?_⟩
  split
  · exact blockAccesses_writes.2 le_rfl
  · simp

/-- A snapshot is told of when a book takes all its entries. -/
theorem Visit.calls_snapshot {v : Visit} {header : OrderBookSnapshotHeader} {entries : List OrderBookEntry}
    (hv : v.message = some (.orderBookSnapshot header entries)) (c : Call) :
    c ∈ v.calls ↔ (∀ e ∈ entries, e.Accepted) ∧
      c = .orderBookSnapshot (fillBook { snapshotHeader := header } entries).1 := by
  have hfill := fillBook_none { snapshotHeader := header } entries
  unfold calls outcome
  rw [hv, Option.map_some, Message.call, bookOf_eq, ← hfill]
  cases (fillBook { snapshotHeader := header } entries).2 <;> simp [Except.map]

/-- Who is told of the message at `off`. -/
theorem visitAt_told : (∃ c ∈ (visitAt p off).calls, hs.takes c = true) ↔ ToldAt p hs off := by
  unfold ToldAt
  cases htype : typeAt p off with
  | orderUpdateType =>
    simp [visitAt_eq, htype, Visit.calls, Visit.outcome, bodyAt, Message.call, Messages.handler,
      MessageHandlers.takes, Call.handler]
  | orderExecutionType =>
    simp [visitAt_eq, htype, Visit.calls, Visit.outcome, bodyAt, Message.call, Messages.handler,
      MessageHandlers.takes, Call.handler]
  | orderBookSnapshotType =>
    obtain ⟨header, hmessage⟩ : ∃ header,
        (visitAt p off).message = some (.orderBookSnapshot header (entriesAt p off)) := by
      rw [visitAt_eq, htype]; exact ⟨_, rfl⟩
    simp only [Visit.calls_snapshot hmessage, Messages.handler, Option.some.injEq, forall_const]
    constructor
    · rintro ⟨c, ⟨hall, rfl⟩, htakes⟩
      exact ⟨⟨_, rfl, htakes⟩, hall⟩
    · rintro ⟨⟨h, rfl, hinst⟩, hall⟩
      exact ⟨_, ⟨hall, rfl⟩, hinst⟩
  | messageUnknown =>
    simp [visitAt_eq, htype, Visit.calls, Visit.outcome, bodyAt, Messages.handler]

/-! ## A whole payload -/

/-- **The accesses to a payload**, message by message. -/
theorem payloadAccesses_eq (p : Span) :
    payloadAccesses p = headerAccesses p ++ (messageStarts p).flatMap fun o => (visitAt p o).accesses := by
  rw [payloadAccesses, visits, ← map_starts (visitAt_forward p), List.flatMap_map, messageStarts]

/-- A property of the accesses to a payload, message by message. -/
theorem forall_payloadAccesses {P : Access → Prop} :
    (∀ a ∈ payloadAccesses p, P a) ↔
      (∀ a ∈ headerAccesses p, P a) ∧ ∀ o ∈ messageStarts p, ∀ a ∈ (visitAt p o).accesses, P a := by
  rw [payloadAccesses_eq, List.forall_mem_append]
  simp only [List.forall_mem_flatMap]

theorem payloadReadsInside_iff :
    PayloadReadsInside p ↔ messagesOffset p ≤ p.bytes.length ∧
      ∀ o ∈ messageStarts p, messageEnd p o ≤ p.bytes.length := by
  rw [PayloadReadsInside, forall_payloadAccesses, headerAccesses_reads]
  exact and_congr_right fun _ => forall₂_congr fun o _ => visitAt_reads

/-- The payload of a call of `decode_message`, after the decoder was given `earlier`
ones, is read inside its bytes, and its messages inside `message_size`. -/
structure StaysInside (hs : MessageHandlers) (p : Span) (earlier : List Span) : Prop where
  /-- every slice and every source of a copy -/
  reads : ∀ a ∈ (decodeMessage hs p (SIMBADecoder.init.after hs earlier)).accesses,
    a.ReadsInside p.bytes.length
  /-- the messages delivered are those that the walk over the payload comes across -/
  delivered : (decodeMessage hs p (SIMBADecoder.init.after hs earlier)).calls =
    ((visits p).flatMap Visit.calls).filter hs.takes
  /-- each lies in the bytes the packet announces -/
  within : ∀ v ∈ visits p, (∃ c ∈ v.calls, hs.takes c = true) →
    ∀ a ∈ v.accesses, a.ReadsInside (marketHeaderAt p).messageSize.toNat
  /-- and is made of bytes of the payload -/
  past : ∀ past, (decodeMessage hs ⟨p.bytes, past⟩ (SIMBADecoder.init.after hs earlier)).calls =
    (decodeMessage hs p (SIMBADecoder.init.after hs earlier)).calls

/-- **The decoder stays inside a payload exactly when the payload is complete.** -/
theorem stays_inside_iff (hs : MessageHandlers) (p : Span) (earlier : List Span) :
    StaysInside hs p earlier ↔ Complete hs p := by
  have ht := after_templates hs earlier init_templates
  have hdec := decodes_after hs p earlier
  have hwithin : (∀ v ∈ visits p, (∃ c ∈ v.calls, hs.takes c = true) →
      ∀ a ∈ v.accesses, a.ReadsInside (marketHeaderAt p).messageSize.toNat) ↔
        ∀ o ∈ messageStarts p, ToldAt p hs o → messageEnd p o ≤ (marketHeaderAt p).messageSize.toNat := by
    rw [visits, forall_mem_walk (visitAt_forward p)]
    exact forall₂_congr fun o _ => imp_congr visitAt_told visitAt_reads
  constructor
  · intro h
    have hreads : PayloadReadsInside p := by
      have hall := h.reads
      rwa [hdec.accesses] at hall
    obtain ⟨hheaders, hheld⟩ := payloadReadsInside_iff.1 hreads
    exact ⟨hheaders, hheld, hwithin.1 h.within⟩
  · intro h
    have hreads : PayloadReadsInside p := payloadReadsInside_iff.2 ⟨h.headers, h.held⟩
    refine ⟨?_, hdec.calls, hwithin.2 h.announced, ?_⟩
    · rw [hdec.accesses]; exact hreads
    · intro past
      have hb : (⟨p.bytes, past⟩ : Span).bytes = p.bytes := rfl
      exact (decode_past hs hb hreads ht ht).1

/-- A packet of one update, of which the last ten bytes were not captured. -/
def cutUpdate (past : Mem) : Span := ⟨(oneMessage 15 { orderId := 5 }).bytes.take 64, past⟩

/-- The update is told of all the same, its last bytes taken from behind the payload. -/
theorem cutUpdate_reads_past :
    ¬ StaysInside .all (cutUpdate fun _ => 0x31) [] ∧
      (decodeMessage .all (cutUpdate fun _ => 0x31) .init).calls.length = 1 := by
  refine ⟨?_, by decide⟩
  intro h
  have hreads := h.reads
  revert hreads
  decide

/-- **The copies stay inside their destinations exactly when the lengths fit.** -/
theorem writes_inside_iff (hs : MessageHandlers) (p : Span) (earlier : List Span) :
    (∀ a ∈ (decodeMessage hs p (SIMBADecoder.init.after hs earlier)).accesses, a.WritesInside) ↔
      LengthsFit p := by
  have hdec := decodes_after hs p earlier
  rw [hdec.accesses, forall_payloadAccesses]
  constructor
  · rintro ⟨-, h⟩ o ho
    exact visitAt_writes.1 (h o ho)
  · intro h
    exact ⟨headerAccesses_writes, fun o ho => visitAt_writes.2 (h o ho)⟩

/-- A packet of one update with a block of 51 bytes, and some bytes behind it. -/
def longUpdate : Span where
  bytes := Wire.encode (⟨1, 75, 0, 0⟩ : MarketDataPacketHeader) ++
    Wire.encode (⟨51, 15, 0, 0⟩ : SBEHeader) ++ List.replicate 60 0
  past := fun _ => 0

/-- 51 bytes are copied into an `OrderUpdate`, and all of them are there. -/
theorem longUpdate_writes_past :
    (∀ a ∈ (decodeMessage .all longUpdate .init).accesses, a.ReadsInside longUpdate.bytes.length) ∧
      .memcpy 24 51 (Wire.size OrderUpdate) ∈ (decodeMessage .all longUpdate .init).accesses ∧
      ¬ ∀ a ∈ (decodeMessage .all longUpdate (SIMBADecoder.init.after .all [])).accesses, a.WritesInside := by
  refine ⟨?_, ?_, ?_⟩ <;> decide

end MoexDecoder
