import MoexDecoder.Proof.Reader

/-!
# The producer on files that are not whole captures

* `truncated_never`: on a capture file cut inside a record the producer never ends
  with exactly the complete records pushed: either it does not end, or it has pushed
  packets that take more bytes than the file has.
* `advances_iff`: a pass of the outer loop moves `current_offset_` up exactly when the
  header at the start of the chunk leaves room for its packet. Otherwise the next pass
  finds the same chunk and the same header (`Stuck.step`), and the producer pushes
  empty batches forever (`not_dom_of_stuck`).
* `progress_iff`: so the producer ends exactly when no pass meets such a header.
-/

namespace MoexDecoder

open StateTransition

variable {I : Input} {S S' : Buffering} {p : Producer}

/-! ## Truncated captures -/

/-- The producer ends at the end of the file or behind it. -/
theorem fileSize_le_of_exit (h : S ∈ eval (bufferStep I) Buffering.init) :
    I.fileSize ≤ HEADER_SIZE + spanned S.packets := by
  obtain ⟨hr, hn⟩ := mem_eval.1 h
  have hok := reaches_ok hr
  rw [← hok.currentOffset]
  by_contra hlt
  rw [bufferStep_pass hok (not_le.1 hlt)] at hn; cases hn

/-- Every packet stands in the file, each behind the header of its own record. -/
def InFile (file : List UInt8) (packets : List (List UInt8)) : Prop :=
  ∀ pre d post, packets = pre ++ d :: post →
    (file.drop (HEADER_SIZE + spanned pre + RECORD_HEADER_SIZE)).take d.length = d

/-- **A truncated capture is never read as its complete records.** -/
theorem truncated_never (c : TruncatedCapture) (B : ℕ) (past : ℕ → Mem) :
    ¬ ∃ t ∈ eval (bufferStep (c.input B past)) Buffering.init,
      t.packets = c.packets ∧ InFile c.bytes t.packets := by
  rintro ⟨t, ht, hp, -⟩
  have hexit := fileSize_le_of_exit ht
  rw [hp, Capture.packets, spanned_data] at hexit
  have htail : c.tail.length = c.kept := by
    have := c.kept_lt
    simp [TruncatedCapture.tail]; omega
  have := c.kept_pos
  simp [TruncatedCapture.input, Input.fileSize, TruncatedCapture.bytes, Capture.bytes, c.header_length,
    htail] at hexit
  omega

/-- One record, and the header of another with one of its four bytes. -/
def TruncatedCapture.oneByteLeft : TruncatedCapture where
  header := Wire.encode PcapHdr.ethernet
  records := [.one]
  header_length := Wire.encode_length PcapHdr.ethernet
  cutRecord := ⟨⟨0, 0, 4, 4⟩, [9, 10, 11, 12], rfl⟩
  kept := 17
  kept_pos := by decide
  kept_lt := by decide

/-- The packet of the cut record is made up with the zeros `local_buffer_` held. -/
theorem truncated_phantom :
    ∃ t ∈ eval (bufferStep (TruncatedCapture.oneByteLeft.input BATCH_SIZE fun _ _ => 0)) Buffering.init,
      t.packets = [[7], [9, 0, 0, 0]] ∧ t.packets ≠ TruncatedCapture.oneByteLeft.packets ∧
        ¬ InFile TruncatedCapture.oneByteLeft.bytes t.packets := by
  refine ⟨_, mem_eval.2 ⟨.tail .refl rfl, by decide⟩, by decide, by decide, fun h => ?_⟩
  exact absurd (h [[7]] [9, 0, 0, 0] [] (by decide)) (by decide)

/-! ## Progress -/

/-- A pass of the outer loop at `S` moves `current_offset_` up, or is the last one. -/
def Progresses (I : Input) (S : Buffering) : Prop :=
  ∀ S', bufferStep I S = some S' →
    S.producer.currentOffset < S'.producer.currentOffset ∨ bufferStep I S' = none

/-- The header at the start of the chunk leaves room for its packet. -/
def HeadFits (I : Input) (p : Producer) : Prop :=
  RECORD_HEADER_SIZE + capturedLength (chunkBuffer I p) 0 < I.batchSize

/-- A chunk whose first packet does not fit leaves the inner loop where it started. -/
theorem filled_of_not_fits (h : ¬ HeadFits I p) : filled I p = Fill.init p := by
  have hfull : I.batchSize ≤ (Fill.init p).offset + RECORD_HEADER_SIZE +
      capturedLength (chunkBuffer I p) (Fill.init p).offset := by
    have := not_lt.1 h
    simp only [Fill.init, Nat.zero_add]; omega
  unfold filled fill
  exact Loop.run_none (fillStep_full hfull)

/-- A chunk whose first packet fits moves `current_offset_` up. -/
theorem lt_filled_of_fits (hlt : p.currentOffset < I.fileSize) (h : HeadFits I p) :
    p.currentOffset < (filled I p).currentOffset := by
  have hstep : fillStep I (chunkBuffer I p) (Fill.init p) = some _ :=
    fillStep_take hlt (by simpa [HeadFits, Fill.init] using h)
  -- the loop goes on behind the first packet, and takes no step back
  have hrun : filled I p = fill I (chunkBuffer I p) _ := Loop.run_some (fillStep_falls _ _) hstep
  have hmono : ∀ s s', p.currentOffset < s.currentOffset → fillStep I (chunkBuffer I p) s = some s' →
      p.currentOffset < s'.currentOffset := by
    intro s s' hs hss'
    obtain ⟨-, -, rfl⟩ := fillStep_some hss'
    exact lt_of_lt_of_le hs (Nat.le_add_right _ _)
  rw [hrun]
  refine Loop.Reaches.inv (P := fun s : Fill => p.currentOffset < s.currentOffset) hmono
    (Loop.run_reaches (fillStep_falls _ _) _) ?_
  have := RECORD_HEADER_SIZE_eq
  simp only [Fill.emplace, Fill.init]; omega

/-- **A pass moves on exactly when the header at the start of its chunk leaves room.** -/
theorem advances_iff (hok : S.Ok) (hlt : S.producer.currentOffset < I.fileSize) :
    Progresses I S ↔ HeadFits I S.producer := by
  have hpass := bufferStep_pass hok hlt
  constructor
  · intro h
    by_contra hfit
    have hcur : (S.producer.next I).currentOffset = S.producer.currentOffset := by
      simp only [Producer.next, filled_of_not_fits hfit, Fill.init]
    rcases h _ hpass with hadv | hend
    · simp only [hcur, lt_irrefl] at hadv
    · -- the loop goes on: neither the file nor the buffer changed
      rw [bufferStep_pass (bufferStep_ok hok hpass) (by simp only [hcur]; exact hlt)] at hend
      cases hend
  · intro hfit S' hs
    rw [hpass] at hs
    cases hs
    exact Or.inl (lt_filled_of_fits hlt hfit)

/-- The producer is caught at a header that leaves no room. -/
structure Stuck (I : Input) (S : Buffering) : Prop extends S.Ok where
  inside : S.producer.currentOffset < I.fileSize
  full : ¬ HeadFits I S.producer

/-- The chunk read again is the chunk read before. -/
theorem chunkBuffer_again (hcur : (p.next I).currentOffset = p.currentOffset) {i : ℕ} (hi : i < I.batchSize) :
    chunkBuffer I (p.next I) i = chunkBuffer I p i := by
  have hchunk : chunk I (p.next I) = chunk I p := by simp only [chunk, hcur]
  unfold chunkBuffer loadBuffer
  rw [hchunk]
  rcases Nat.lt_or_ge i (chunk I p).length with hlt | hge
  · rw [Span.mem_of_lt _ hlt, Span.mem_of_lt _ hlt]
  · rw [Span.mem_of_ge _ hge]
    simp only [hi, if_true, Producer.next, chunkBuffer, loadBuffer]

/-- **A stuck producer stays stuck**: it pushes an empty batch and reads the same chunk. -/
theorem Stuck.step (h : Stuck I S) : ∃ S', bufferStep I S = some S' ∧ Stuck I S' := by
  have hpass := bufferStep_pass h.toOk h.inside
  have hcur : (S.producer.next I).currentOffset = S.producer.currentOffset := by
    simp only [Producer.next, filled_of_not_fits h.full, Fill.init]
  refine ⟨_, hpass, bufferStep_ok h.toOk hpass, by simpa only [hcur] using h.inside, ?_⟩
  intro hfit
  -- a header that leaves room lies inside the buffer, so it is the one read before
  have hsame : capturedLength (chunkBuffer I (S.producer.next I)) 0 =
      capturedLength (chunkBuffer I S.producer) 0 := by
    unfold HeadFits at hfit
    unfold capturedLength packetHeader
    rw [Mem.read_congr fun i _ hi => chunkBuffer_again hcur (by simp only [Producer.next] at hfit; omega)]
  unfold HeadFits at hfit
  rw [hsame] at hfit
  exact h.full hfit

theorem not_dom_of_stuck (hr : Reaches (bufferStep I) Buffering.init S) (h : Stuck I S) :
    ¬ (eval (bufferStep I) Buffering.init).Dom :=
  Loop.not_dom (fun _ => Stuck.step) hr h

/-- A producer that moves on at every pass ends. -/
theorem dom_of_advances (h : ∀ S, Reaches (bufferStep I) Buffering.init S →
    S.producer.currentOffset < I.fileSize → HeadFits I S.producer) :
    (eval (bufferStep I) Buffering.init).Dom := by
  obtain ⟨t, ht, -⟩ := Loop.exits_of_rank
    (P := fun S : Buffering => Reaches (bufferStep I) Buffering.init S)
    (fun S => I.fileSize - S.producer.currentOffset)
    (fun S S' hr hs => by
      obtain ⟨hlt, rfl⟩ := bufferStep_some (reaches_ok hr) hs
      have := lt_filled_of_fits hlt (h S hr hlt)
      refine ⟨Loop.Reaches.next hr hs, ?_⟩
      simp only [Producer.next]; omega) .refl
  exact Part.dom_iff_mem.2 ⟨t, ht⟩

/-- **The producer ends exactly when no chunk starts with a header that leaves no
room**, and until then every pass moves on. -/
theorem progress_iff (I : Input) :
    ((∀ S, Reaches (bufferStep I) Buffering.init S → Progresses I S) ∧
        (eval (bufferStep I) Buffering.init).Dom) ↔
      ∀ S, Reaches (bufferStep I) Buffering.init S → S.producer.currentOffset < I.fileSize →
        HeadFits I S.producer := by
  constructor
  · rintro ⟨h, -⟩ S hr hlt
    exact (advances_iff (reaches_ok hr) hlt).1 (h S hr)
  · intro h
    refine ⟨fun S hr S' hs => ?_, dom_of_advances h⟩
    have hlt := (bufferStep_some (reaches_ok hr) hs).1
    exact (advances_iff (reaches_ok hr) hlt).2 (h S hr hlt) S' hs

/-- A record header alone, of a packet that fills a chunk with its header. -/
def Input.chunkSizedRecord : Input where
  batchSize := BATCH_SIZE
  file := Wire.encode PcapHdr.ethernet ++ Wire.encode (⟨0, 0, 16777200, 16777200⟩ : PcaprecHdr)
  past := fun _ _ => 0

/-- The producer never ends on it, and its first pass makes no progress. -/
theorem chunkSizedRecord_diverges :
    ¬ Progresses Input.chunkSizedRecord Buffering.init ∧
      ¬ (eval (bufferStep Input.chunkSizedRecord) Buffering.init).Dom := by
  have hlt : Buffering.init.producer.currentOffset < Input.chunkSizedRecord.fileSize := by decide
  have hfull : ¬ HeadFits Input.chunkSizedRecord Buffering.init.producer := by unfold HeadFits; decide
  exact ⟨fun h => hfull ((advances_iff Buffering.init_ok hlt).1 h),
    not_dom_of_stuck .refl ⟨Buffering.init_ok, hlt, hfull⟩⟩

end MoexDecoder
