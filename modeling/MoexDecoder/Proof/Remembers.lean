import MoexDecoder.Proof.Stateless
import MoexDecoder.Spec.Lengths

/-!
# What a decoder remembers

* `messageLoop_left`: what the message loop leaves in `sbe_header_` and in `mapping_`.
* `decoder_remembers`: all that is in a decoder after any run of payloads, with any handlers
  installed. The headers are those of the last payload that has one, and `mapping_` has
  grown by the templates that were skipped, each of them once, so it stays bounded however
  long the run is.
-/

namespace MoexDecoder

open Walk

variable {hs : MessageHandlers} {p : Span} {ps : List Span} {d : SIMBADecoder} {s : Decoding}

/-! ## What is left in a decoder -/

/-- The header of the last message of a payload, if there is a message. -/
def lastHeader (p : Span) : Option SBEHeader := (messageStarts p).getLast?.map (sbeHeaderAt p)

/-- The template of that message, if the decoder does not know it. -/
def skippedTemplate (p : Span) : Option ℕ :=
  ((lastHeader p).map (·.templateId.toNat)).filter (templateType · = .messageUnknown)

/-- The keys of `mapping_`. -/
def keys (mapping : List (ℕ × Messages)) : List ℕ := mapping.map Prod.fst

/-- **The decoder after a run of payloads.** -/
structure Remembers (ps : List Span) (d : SIMBADecoder) : Prop where
  offset : d.currentOffset = (ps.getLast?.map payloadStop).getD 0
  market : d.marketUpdateHeader = (ps.getLast?.map marketHeaderAt).getD {}
  incremental : d.incrementalHeader = (ps.filterMap ownIncrementalHeader).getLast?
  sbe : d.sbeHeader = (ps.filterMap lastHeader).getLast?.getD {}
  templates : Templates d.mapping
  once : (keys d.mapping).Nodup
  known : ∀ id, id ∈ keys d.mapping ↔ id ∈ [15, 16, 17] ∨ ∃ p ∈ ps, skippedTemplate p = some id

/-! ## The map -/

theorem lookup_eq_none {mapping : List (ℕ × Messages)} {id : ℕ} : mapping.lookup id = none ↔ id ∉ keys mapping := by
  simp only [List.lookup_eq_none_iff, keys, List.mem_map, not_exists, not_and, bne_iff_ne]
  exact forall₂_congr fun q _ => ne_comm

theorem mem_keys_lookup {mapping : List (ℕ × Messages)} {id id' : ℕ} :
    id' ∈ keys (fromIdToType mapping id).2 ↔ id' = id ∨ id' ∈ keys mapping := by
  unfold fromIdToType
  cases hl : mapping.lookup id with
  | some t =>
    have hid : id ∈ keys mapping := by
      by_contra hno
      rw [lookup_eq_none.2 hno] at hl; cases hl
    exact ⟨Or.inr, fun h => h.elim (fun heq => heq ▸ hid) (fun h => h)⟩
  | none => exact List.mem_cons

theorem nodup_keys_lookup {mapping : List (ℕ × Messages)} (h : (keys mapping).Nodup) (id : ℕ) :
    (keys (fromIdToType mapping id).2).Nodup := by
  unfold fromIdToType
  cases hl : mapping.lookup id with
  | some t => exact h
  | none => exact List.nodup_cons.2 ⟨lookup_eq_none.1 hl, h⟩

/-- A template that is found to have a type is in the map. -/
theorem lookup_known {mapping : List (ℕ × Messages)} {id : ℕ} (h : (fromIdToType mapping id).1 ≠ .messageUnknown) :
    (fromIdToType mapping id).2 = mapping := by
  unfold fromIdToType at h ⊢
  cases hl : mapping.lookup id with
  | some t => rfl
  | none => rw [hl] at h; exact absurd rfl h

/-! ## A payload -/

/-- The group loop moves `current_offset_`, and nothing else. -/
theorem readEntries_decoder (blockSize k : ℕ) (s : Decoding) (b : OrderBookSnapshot) :
    ∃ n, (readEntries p blockSize k s b).1.decoder = { s.decoder with currentOffset := n } := by
  induction k generalizing s b with
  | zero => exact ⟨_, rfl⟩
  | succ k ih =>
    rw [readEntries]
    simp only
    split
    · exact ⟨_, rfl⟩
    · rename_i b' _
      exact ih ((s.touch _).advance blockSize) b'

theorem handleType_decoder (hs : MessageHandlers) (p : Span) (t : Messages) (s : Decoding) :
    ∃ n, (handleType hs p t s).1.decoder = { s.decoder with currentOffset := n } := by
  cases t with
  | orderUpdateType =>
    simp only [handleType, handleOrderUpdate, Decoding.advance, Decoding.call_decoder]
    exact ⟨_, rfl⟩
  | orderExecutionType =>
    simp only [handleType, handleOrderExecution, Decoding.advance, Decoding.call_decoder]
    exact ⟨_, rfl⟩
  | orderBookSnapshotType =>
    simp only [handleType, handleOrderBookSnapshot]
    generalize hr : readEntries p _ _ _ _ = r
    obtain ⟨n, hn⟩ := readEntries_decoder (p := p) _ _ _ _
    rw [hr] at hn
    split
    · exact ⟨n, by rw [Decoding.call_decoder]; exact hn⟩
    · exact ⟨n, hn⟩
  | messageUnknown => exact ⟨_, rfl⟩

/-- The header of the message is kept, and its template looked up. -/
theorem handleMessage_left (hs : MessageHandlers) (p : Span) (s : Decoding) :
    (handleMessage hs p s).1.decoder.sbeHeader = sbeHeaderAt p s.decoder.currentOffset ∧
      (handleMessage hs p s).1.decoder.mapping =
        (fromIdToType s.decoder.mapping (sbeHeaderAt p s.decoder.currentOffset).templateId.toNat).2 := by
  obtain ⟨n, hn⟩ := handleType_decoder hs p (foundType p s) (behindHeader p s)
  rw [handleMessage_eq, hn]
  exact ⟨rfl, rfl⟩

/-- **The message loop** leaves the header of the last message, with its template looked up. -/
theorem messageLoop_left (hs : MessageHandlers) {size off : ℕ} (hsize : s.messageSize = size)
    (hoff : s.decoder.currentOffset = off) (hexc : s.exception = none) (ht : Templates s.decoder.mapping) :
    (messageLoop hs p s).decoder.sbeHeader =
        ((starts (visitAt p) Visit.next size off).getLast?.map (sbeHeaderAt p)).getD s.decoder.sbeHeader ∧
      (messageLoop hs p s).decoder.mapping =
        ((starts (visitAt p) Visit.next size off).getLast?.map (sbeHeaderAt p)).elim s.decoder.mapping
          fun h => (fromIdToType s.decoder.mapping h.templateId.toNat).2 := by
  induction off using walk_rec size (visitAt_forward p) generalizing s with
  | done off hge =>
    rw [starts_of_ge hge, messageLoop_of_ge (by omega)]
    exact ⟨rfl, rfl⟩
  | last off hlt hnext =>
    have hleft := handleMessage_left hs p s
    rw [hoff] at hleft
    rw [starts_none (visitAt_forward p) hlt hnext, messageLoop_last hs hsize hoff hexc ht hlt hnext]
    exact hleft
  | more off off' hlt hnext ih =>
    obtain ⟨hsbe, hmapping⟩ := handleMessage_left hs p s
    obtain ⟨hloop, hfound, hsize', hoff', hexc'⟩ := messageLoop_more hs hsize hoff hexc ht hlt hnext
    -- the template is in the map already
    have hsame := lookup_known hfound
    rw [hsame] at hmapping
    rw [hoff] at hsbe hsame
    obtain ⟨hsbe', hmapping'⟩ := ih hsize' hoff' hexc' (by rw [hmapping]; exact ht)
    rw [hsbe] at hsbe'
    rw [hmapping] at hmapping'
    rw [starts_some (visitAt_forward p) hlt hnext, hloop, hsbe', hmapping', List.getLast?_cons]
    cases (starts (visitAt p) Visit.next size off').getLast? with
    | none => exact ⟨rfl, hsame.symm⟩
    | some o => exact ⟨rfl, rfl⟩

/-- **A payload** leaves its last header, and at most one more template. -/
theorem decodeMessage_left (hs : MessageHandlers) (p : Span) (ht : Templates d.mapping) :
    (decodeMessage hs p d).decoder.sbeHeader = (lastHeader p).getD d.sbeHeader ∧
      (decodeMessage hs p d).decoder.mapping =
        (lastHeader p).elim d.mapping fun h => (fromIdToType d.mapping h.templateId.toNat).2 := by
  have hsize : (readHeaders p d).messageSize = (marketHeaderAt p).messageSize.toNat := by rw [readHeaders_eq]; rfl
  have hoff : (readHeaders p d).decoder.currentOffset = messagesOffset p := by rw [readHeaders_eq]
  have hleft := messageLoop_left (p := p) hs hsize hoff (by rw [readHeaders_eq]) (by rw [readHeaders_eq]; exact ht)
  rw [readHeaders_eq] at hleft
  rw [decodeMessage, readHeaders_eq]
  exact hleft

/-! ## A run -/

theorem init_remembers : Remembers [] .init where
  offset := rfl
  market := rfl
  incremental := rfl
  sbe := rfl
  templates := init_templates
  once := by decide
  known := by simp [keys, SIMBADecoder.init]

/-- The last payload counts first. -/
theorem filterMap_getLast? {α : Type} (g : Span → Option α) (ps : List Span) (p : Span) :
    ((ps ++ [p]).filterMap g).getLast? = (g p).or (ps.filterMap g).getLast? := by
  rw [List.filterMap_append, List.getLast?_append]
  cases hg : g p <;> simp [hg]

/-- A lookup adds a template exactly when it is one to skip. -/
theorem mem_keys_decode (ht : Templates d.mapping) (id : ℕ) :
    id ∈ keys ((lastHeader p).elim d.mapping fun h => (fromIdToType d.mapping h.templateId.toNat).2) ↔
      id ∈ keys d.mapping ∨ skippedTemplate p = some id := by
  unfold skippedTemplate
  cases lastHeader p with
  | none => simp
  | some header =>
    rw [Option.elim_some, Option.map_some, Option.filter_some]
    by_cases hskip : templateType header.templateId.toNat = .messageUnknown
    · rw [mem_keys_lookup, or_comm]
      simp [hskip, eq_comm]
    · have hsame := lookup_known (show (fromIdToType d.mapping header.templateId.toNat).1 ≠ _ by rwa [ht])
      rw [hsame]
      simp [hskip]

/-- **One more payload.** -/
theorem Remembers.decode (h : Remembers ps d) (hs : MessageHandlers) (p : Span) :
    Remembers (ps ++ [p]) (decodeMessage hs p d).decoder := by
  have hdec := decodeMessage_decodes hs p h.templates
  obtain ⟨hsbe, hmapping⟩ := decodeMessage_left hs p h.templates
  refine ⟨?_, ?_, ?_, ?_, hdec.templates, ?_, ?_⟩
  · rw [List.getLast?_concat]; exact hdec.offset
  · rw [List.getLast?_concat]; exact hdec.header
  · rw [hdec.incremental, h.incremental, filterMap_getLast?, ownIncrementalHeader]
    split <;> rfl
  · rw [hsbe, h.sbe, filterMap_getLast?]
    cases lastHeader p <;> rfl
  · rw [hmapping]
    cases lastHeader p with
    | none => exact h.once
    | some header => exact nodup_keys_lookup h.once _
  · intro id
    rw [hmapping, mem_keys_decode h.templates, h.known]
    simp [or_and_right, exists_or, or_assoc]

theorem after_remembers (hs : MessageHandlers) (ps : List Span) : Remembers ps (SIMBADecoder.init.after hs ps) := by
  induction ps using List.reverseRecOn with
  | nil => exact init_remembers
  | append_singleton ps p ih =>
    rw [after_append_singleton]
    exact ih.decode hs p

/-- No map has more keys than there are templates, or more than the packets can have left. -/
theorem Remembers.mapping_length (h : Remembers ps d) :
    d.mapping.length ≤ 3 + ps.length ∧ d.mapping.length ≤ 2 ^ 16 := by
  have hlen : d.mapping.length = (keys d.mapping).length := (List.length_map _).symm
  have hsub : keys d.mapping ⊆ [15, 16, 17] ++ ps.filterMap skippedTemplate := by
    intro id hid
    rw [List.mem_append, List.mem_filterMap]
    exact (h.known id).1 hid
  have hsmall : keys d.mapping ⊆ List.range (2 ^ 16) := by
    intro id hid
    rw [List.mem_range]
    rcases (h.known id).1 hid with hid | ⟨p, -, hp⟩
    · simp at hid
      omega
    · obtain ⟨header, -, rfl⟩ := Option.map_eq_some_iff.1 (Option.filter_eq_some_iff.1 hp).1
      exact header.templateId.toNat_lt
  have hle := (h.once.subperm hsub).length_le
  have hle' := (h.once.subperm hsmall).length_le
  have hskipped := List.length_filterMap_le skippedTemplate ps
  rw [List.length_append] at hle
  rw [List.length_range] at hle'
  simp only [List.length_cons, List.length_nil] at hle
  omega

/-- **All that a decoder is after any run of payloads.** -/
theorem decoder_remembers (hs : MessageHandlers) (ps : List Span) :
    Remembers ps (SIMBADecoder.init.after hs ps) ∧
      (SIMBADecoder.init.after hs ps).mapping.length ≤ min (3 + ps.length) (2 ^ 16) := by
  have h := after_remembers hs ps
  exact ⟨h, le_min h.mapping_length.1 h.mapping_length.2⟩

-- templates 7 and 9 were skipped, and the update behind one of them
example : (SIMBADecoder.init.after .all [oneMessage 7 {}, oneMessage 9 {}, oneMessage 7 {}]).mapping.map Prod.fst =
    [9, 7, 15, 16, 17] := by decide

end MoexDecoder
