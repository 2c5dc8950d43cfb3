import MoexDecoder.Lib.History
import MoexDecoder.Proof.Decoder

/-!
# Runs of a decoder

* `decode_stateless`: over any run of payloads, each installed handler is called as
  often, in the same order and with the same messages as if every payload had been given
  to a new decoder with no other handler.
* `headers_recorded_iff`: over a run of payloads, the headers a decoder has recorded are
  always those of the payload it was given last exactly when no payload without an
  incremental header comes behind one with it.
* `decode_past`: when the accesses to a payload stay inside it, what lies
  behind it in memory does not matter.
-/

namespace MoexDecoder

open Walk

variable {hs : MessageHandlers} {p p' : Span}

/-! ## A decoder's life -/

/-- Whatever a decoder was given, its lookups are right. -/
theorem after_templates (hs : MessageHandlers) (ps : List Span) {d : SIMBADecoder} (ht : Templates d.mapping) :
    Templates (d.after hs ps).mapping := by
  induction ps generalizing d with
  | nil => exact ht
  | cons p ps ih => exact ih (decodeMessage_decodes hs p ht).templates

/-- A call on a decoder that was given other payloads before. -/
theorem decodes_after (hs : MessageHandlers) (p : Span) (earlier : List Span) :
    Decodes hs p (SIMBADecoder.init.after hs earlier) (decodeMessage hs p (SIMBADecoder.init.after hs earlier)) :=
  decodeMessage_decodes hs p (after_templates hs earlier init_templates)

/-- **The calls of a decoder's life** are those its payloads ask for, one after the other. -/
theorem calls_eq (hs : MessageHandlers) (ps : List Span) {d : SIMBADecoder} (ht : Templates d.mapping) :
    d.calls hs ps = (ps.flatMap payloadCalls).filter hs.takes := by
  induction ps generalizing d with
  | nil => rfl
  | cons p ps ih =>
    have h := decodeMessage_decodes hs p ht
    rw [SIMBADecoder.calls, h.calls, ih h.templates, List.flatMap_cons, List.filter_append]

/-- **Decoding a run is stateless, and handlers do not interfere.** -/
theorem decode_stateless (hs : MessageHandlers) (h : Handler) (hh : hs.installed h = true) (ps : List Span) :
    (SIMBADecoder.init.calls hs ps).filter (fun c => c.handler == h) =
      ps.flatMap fun p => (decodeMessage (.only h) p .init).calls := by
  -- of the calls that are made, those of `h` are those that `h` alone is made
  have hkeep : ∀ c : Call, (c.handler == h && hs.takes c) = (MessageHandlers.only h).takes c := by
    intro c
    rw [MessageHandlers.only_takes, MessageHandlers.takes]
    cases hc : c.handler == h with
    | false => simp
    | true => rw [eq_of_beq hc, hh]; rfl
  have hfresh : ∀ p : Span, (decodeMessage (.only h) p .init).calls =
      (payloadCalls p).filter (MessageHandlers.only h).takes :=
    fun p => (decodeMessage_decodes (.only h) p init_templates).calls
  rw [calls_eq hs ps init_templates, List.filter_filter]
  simp only [hkeep, hfresh, List.filter_flatMap]

/-- A payload of one message of template `templateId`, with the body of an update. -/
def oneMessage (templateId : UInt16) (u : OrderUpdate) : Span where
  bytes := Wire.encode (⟨1, 74, 0, 0⟩ : MarketDataPacketHeader) ++
    Wire.encode (⟨50, templateId, 0, 0⟩ : SBEHeader) ++ Wire.encode u
  past := fun _ => 0

/-- A template without a handler, and an update behind it. -/
theorem decode_stateless_two :
    (SIMBADecoder.init.calls .all [oneMessage 7 {}, oneMessage 15 { orderId := 5 }]).filter
      (fun c => c.handler == .orderUpdateHandler) = [.orderUpdate { orderId := 5 }] :=
  (decode_stateless .all .orderUpdateHandler rfl _).trans rfl

/-! ## Recorded headers -/

theorem after_append_singleton (hs : MessageHandlers) (d : SIMBADecoder) (ps : List Span) (p : Span) :
    d.after hs (ps ++ [p]) = (decodeMessage hs p (d.after hs ps)).decoder := by
  rw [SIMBADecoder.after, List.foldl_append]; rfl

/-- The incremental header of a payload, if its flags say it has one. -/
def ownIncrementalHeader (p : Span) : Option IncrementalPacketHeader :=
  if (marketHeaderAt p).Incremental then some (incrementalHeaderAt p) else none

theorem ownIncrementalHeader_eq_none : ownIncrementalHeader p = none ↔ ¬ (marketHeaderAt p).Incremental := by
  unfold ownIncrementalHeader
  split <;> simp_all

/-- A decoder that was given `earlier` payloads and then `p` has the headers of `p`. -/
structure HeadersRecorded (hs : MessageHandlers) (earlier : List Span) (p : Span) : Prop where
  market : (SIMBADecoder.init.after hs (earlier ++ [p])).marketUpdateHeader = marketHeaderAt p
  incremental : (SIMBADecoder.init.after hs (earlier ++ [p])).incrementalHeader = ownIncrementalHeader p

/-- The incremental header that is left behind is that of the last payload that has one. -/
theorem after_incremental (hs : MessageHandlers) (earlier : List Span) (p : Span) :
    (SIMBADecoder.init.after hs (earlier ++ [p])).incrementalHeader =
      (ownIncrementalHeader p).or (SIMBADecoder.init.after hs earlier).incrementalHeader := by
  rw [after_append_singleton, (decodes_after hs p earlier).incremental, ownIncrementalHeader]
  split <;> rfl

/-- A decoder has no incremental header until it is given one. -/
theorem after_incremental_none (hs : MessageHandlers) (ps : List Span) :
    (SIMBADecoder.init.after hs ps).incrementalHeader = none ↔ ∀ p ∈ ps, ¬ (marketHeaderAt p).Incremental := by
  induction ps using List.reverseRecOn with
  | nil => simp [SIMBADecoder.after, SIMBADecoder.init]
  | append_singleton ps p ih =>
    rw [after_incremental, Option.or_eq_none_iff, ownIncrementalHeader_eq_none, ih, List.forall_mem_append,
      List.forall_mem_singleton, and_comm]

theorem recordedBehind_iff (hs : MessageHandlers) (earlier : List Span) (p : Span) :
    HeadersRecorded hs earlier p ↔
      ∀ q ∈ earlier, (marketHeaderAt q).Incremental → (marketHeaderAt p).Incremental := by
  have hmarket : (SIMBADecoder.init.after hs (earlier ++ [p])).marketUpdateHeader = marketHeaderAt p := by
    rw [after_append_singleton]; exact (decodes_after hs p earlier).header
  have hinc := after_incremental hs earlier p
  have hnone := after_incremental_none hs earlier
  by_cases hp : (marketHeaderAt p).Incremental
  · -- the header is replaced
    have hsome : ownIncrementalHeader p = some (incrementalHeaderAt p) := if_pos hp
    simp only [hp, implies_true, iff_true]
    exact ⟨hmarket, by rw [hinc, hsome, Option.some_or]⟩
  · -- the header stays what it was
    have hmiss : ownIncrementalHeader p = none := if_neg hp
    rw [hmiss, Option.none_or] at hinc
    simp only [hp, imp_false]
    rw [← hnone, ← hinc]
    constructor
    · intro h
      rw [h.incremental, hmiss]
    · intro h
      exact ⟨hmarket, by rw [h, hmiss]⟩

/-- **When the recorded headers belong to the current packet** all along a run: exactly when
each payload behind an incremental one is incremental too. -/
theorem headers_recorded_iff (hs : MessageHandlers) (ps : List Span) :
    AtEach (HeadersRecorded hs) ps ↔
      ps.Pairwise fun q p => (marketHeaderAt q).Incremental → (marketHeaderAt p).Incremental := by
  rw [← atEach_iff_pairwise]
  exact atEach_congr (recordedBehind_iff hs)

/-- An incremental packet of one update. -/
def incrementalUpdate : Span where
  bytes := Wire.encode (⟨1, 86, 8, 0⟩ : MarketDataPacketHeader) ++
    Wire.encode (⟨7, 1⟩ : IncrementalPacketHeader) ++ Wire.encode (⟨50, 15, 0, 0⟩ : SBEHeader) ++
    Wire.encode ({} : OrderUpdate)
  past := fun _ => 0

/-- The incremental header is still there behind a packet that has none. -/
theorem incrementalUpdate_left :
    ¬ AtEach (HeadersRecorded .all) [incrementalUpdate, oneMessage 15 {}] ∧
      (SIMBADecoder.init.after .all [incrementalUpdate, oneMessage 15 {}]).incrementalHeader = some ⟨7, 1⟩ := by
  have hleft : (SIMBADecoder.init.after .all [incrementalUpdate, oneMessage 15 {}]).incrementalHeader =
      some ⟨7, 1⟩ := by
    have hinc := after_incremental .all [incrementalUpdate] (oneMessage 15 {})
    have hfirst := after_incremental .all [] incrementalUpdate
    rw [List.nil_append] at hfirst
    rw [hfirst] at hinc
    exact hinc
  refine ⟨?_, hleft⟩
  intro h
  have hrecorded := (h [incrementalUpdate] (oneMessage 15 {}) [] rfl).incremental
  rw [List.singleton_append, hleft] at hrecorded
  cases hrecorded

/-! ## Memory behind a payload -/

/-- A copy from inside the payload. -/
theorem copyFrom_past {α : Type} [Wire α] {off n : ℕ} (hb : p'.bytes = p.bytes)
    (h : off + n ≤ p.bytes.length) (x : α) : copyFrom p' off n x = copyFrom p off n x := by
  unfold copyFrom
  rw [p'.read_eq (by rw [hb]; exact h), p.read_eq h, hb]

/-- The source of a copy that `blockAccesses` lists. -/
theorem block_inside {off n size len : ℕ} {as : List Access}
    (h : ∀ a ∈ blockAccesses off n size ++ as, a.ReadsInside len) : off + n ≤ len := by
  exact h (.subspan off n) (by simp [blockAccesses])

theorem groupAt_past (hb : p'.bytes = p.bytes) (blockSize k off : ℕ)
    (h : ∀ a ∈ groupAccesses blockSize (groupAt p blockSize k off).length off, a.ReadsInside p.bytes.length) :
    groupAt p' blockSize k off = groupAt p blockSize k off := by
  induction k generalizing off with
  | zero => rfl
  | succ k ih =>
    -- an entry is accessed before it is known whether the group goes on
    by_cases hacc : (copyFrom p off blockSize ({} : OrderBookEntry)).Accepted
    · rw [groupAt_accepted hacc] at h ⊢
      have hcopy := copyFrom_past hb (block_inside h) ({} : OrderBookEntry)
      rw [groupAt_accepted (by rw [hcopy]; exact hacc), hcopy,
        ih _ fun a ha => h a (List.mem_append_right _ ha)]
    · rw [groupAt_refused hacc] at h ⊢
      have hcopy := copyFrom_past hb (block_inside h) ({} : OrderBookEntry)
      rw [groupAt_refused (by rw [hcopy]; exact hacc), hcopy]

theorem snapshotAt_past (hb : p'.bytes = p.bytes) {off n : ℕ}
    (h : ∀ a ∈ (snapshotAt p off n).accesses, a.ReadsInside p.bytes.length) :
    snapshotAt p' off n = snapshotAt p off n := by
  -- the copy takes the group header from behind the root block
  have hin : off + (n + Wire.size GroupSize) ≤ p.bytes.length :=
    h (.memcpy off (n + Wire.size GroupSize) (Wire.size OrderBookSnapshotHeader)) (by simp [snapshotAt])
  have hgroup := groupAt_past hb _ _ _ fun a ha => h a (List.mem_append_right _ ha)
  unfold snapshotAt
  simp only [copyFrom_past hb hin, hgroup]

theorem bodyAt_past (hb : p'.bytes = p.bytes) {t : Messages} {n off : ℕ}
    (h : ∀ a ∈ (bodyAt p t n off).accesses, a.ReadsInside p.bytes.length) :
    bodyAt p' t n off = bodyAt p t n off := by
  cases t with
  | orderUpdateType | orderExecutionType =>
    have hin : off + n ≤ p.bytes.length := h (.subspan off n) (by simp [bodyAt, blockAccesses])
    simp only [bodyAt, copyFrom_past hb hin]
  | orderBookSnapshotType => exact snapshotAt_past hb h
  | messageUnknown => rfl

theorem visitAt_past (hb : p'.bytes = p.bytes) {off : ℕ}
    (h : ∀ a ∈ (visitAt p off).accesses, a.ReadsInside p.bytes.length) : visitAt p' off = visitAt p off := by
  have hheader : sbeHeaderAt p' off = sbeHeaderAt p off := copyFrom_past hb (block_inside h) _
  unfold visitAt messageAt at h ⊢
  simp only [hheader, bodyAt_past hb fun a ha => h a (List.mem_append_right _ ha)]

theorem marketHeaderAt_past (hb : p'.bytes = p.bytes) (h : PayloadReadsInside p) :
    marketHeaderAt p' = marketHeaderAt p := by
  refine copyFrom_past hb (h (.subspan 0 _) ?_) _
  simp [payloadAccesses, headerAccesses, blockAccesses]

theorem visits_past (hb : p'.bytes = p.bytes) (h : PayloadReadsInside p) : visits p' = visits p := by
  have hheader := marketHeaderAt_past hb h
  unfold visits messagesOffset
  rw [hheader]
  refine walk_congr (visitAt_forward p) (visitAt_forward p')
    (Q := fun v => ∀ a ∈ v.accesses, a.ReadsInside p.bytes.length) (fun off => visitAt_past hb) _ ?_
  exact fun v hv a ha => h a (List.mem_append_right _ (List.mem_flatMap.2 ⟨v, hv, ha⟩))

/-- **What lies behind a payload does not matter** when no read of it goes past its end. -/
theorem decode_past (hs : MessageHandlers) {d d' : SIMBADecoder} (hb : p'.bytes = p.bytes)
    (h : PayloadReadsInside p) (ht : Templates d.mapping) (ht' : Templates d'.mapping) :
    (decodeMessage hs p' d').calls = (decodeMessage hs p d).calls ∧
      (decodeMessage hs p' d').exception = (decodeMessage hs p d).exception := by
  have h1 := decodeMessage_decodes hs p ht
  have h2 := decodeMessage_decodes hs p' ht'
  rw [h1.calls, h2.calls, h1.exception, h2.exception, payloadCalls, payloadCalls, payloadException,
    payloadException, visits_past hb h]
  exact ⟨rfl, rfl⟩

end MoexDecoder
