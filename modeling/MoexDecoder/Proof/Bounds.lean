import MoexDecoder.Proof.Reader

/-!
# Where the producer reads in its buffer

`ReadsInside` says that a pass of the inner loop reads its record header, and the
packet it takes, from the bytes the last file read put into `local_buffer_`.

`chunk_reads_iff` and `run_reads_iff` go through the passes of the inner and of the
outer loop: on a capture file whose records fit a chunk all reads of a run are inside
exactly when the record sizes satisfy `headersInside`, that is when no record but the
last one ends in the last fifteen bytes of its chunk.
-/

namespace MoexDecoder

open StateTransition

variable {I : Input} {p : Producer} {s : Fill} {S : Buffering} {taken rest : List Record} {r : Record}
  {c : Capture} {B : ℕ} {past : ℕ → Mem}

/-- The reads of a pass of the inner loop at `s` stay in the bytes read from the file,
and these in the buffer. -/
structure ReadsInside (I : Input) (p : Producer) (s : Fill) : Prop where
  header : s.offset + RECORD_HEADER_SIZE ≤ bytesToRead I p.currentOffset
  buffer : bytesToRead I p.currentOffset ≤ I.batchSize
  packet : s.offset + RECORD_HEADER_SIZE + capturedLength (chunkBuffer I p) s.offset < I.batchSize →
    s.offset + RECORD_HEADER_SIZE + capturedLength (chunkBuffer I p) s.offset ≤
      bytesToRead I p.currentOffset

/-- Every pass of the inner loop over the chunk read at `p`, from `s` on, reads inside. -/
def ChunkReadsInside (I : Input) (p : Producer) (s : Fill) : Prop :=
  ∀ s', Reaches (fillStep I (chunkBuffer I p)) s s' →
    s'.currentOffset < I.fileSize → s'.offset < I.batchSize → ReadsInside I p s'

/-- Every chunk that a run from `S` on reads is read inside. -/
def RunReadsInside (I : Input) (S : Buffering) : Prop :=
  ∀ S', Reaches (bufferStep I) S S' → S'.producer.currentOffset < I.fileSize →
    ChunkReadsInside I S'.producer (Fill.init S'.producer)

/-- At a record, only the header can stick out of the chunk. -/
theorem readsInside_iff (h : p.At I (taken ++ r :: rest) []) :
    ReadsInside I p (Fill.ofRecords p taken) ↔ recordSize taken + RECORD_HEADER_SIZE ≤ I.batchSize := by
  have hle := bytesToRead_le_batchSize h.le
  have hsz := h.fileSize
  have hr := r.header_le_size
  simp only [recordSize_append, recordSize_cons, List.length_nil] at hsz
  constructor
  · intro hin
    exact hin.header.trans hin.buffer
  · intro hin
    have hhdr : recordSize taken + RECORD_HEADER_SIZE ≤ bytesToRead I p.currentOffset := by
      rcases Nat.lt_or_ge (bytesToRead I p.currentOffset) I.batchSize with hs | hs
      · rw [bytesToRead_short hs]; omega
      · omega
    refine ⟨hhdr, hle, ?_⟩
    rw [Fill.ofRecords_offset, capturedLength_record h hhdr, add_assoc]
    intro hfit
    change recordSize taken + r.size ≤ _
    rcases Nat.lt_or_ge (bytesToRead I p.currentOffset) I.batchSize with hs | hs
    · rw [bytesToRead_short hs]; omega
    · exact hfit.le.trans hs

/-- **One chunk.** From `taken` on, the reads of the chunk and of the chunks behind it
are inside as the record sizes say. -/
theorem chunk_reads_iff (left : List Record) : ∀ taken, p.At I (taken ++ left) [] →
    recordSize taken < I.batchSize → (∀ r ∈ left, r.size < I.batchSize) →
    (headersInside I.batchSize (recordSize taken) (left.map Record.size) ↔
      ChunkReadsInside I p (Fill.ofRecords p taken) ∧ headersInside I.batchSize 0
        ((left.drop (fitting I.batchSize (recordSize taken) left).length).map Record.size)) := by
  induction left with
  | nil =>
    intro taken h _ _
    have hsz := h.fileSize
    have hend : fillStep I (chunkBuffer I p) (Fill.ofRecords p taken) = none :=
      fillStep_records_end (by simpa using h)
    simp only [ChunkReadsInside, Loop.forall_reaches_none hend, headersInside, List.map_nil, List.drop_nil,
      true_iff, and_true, Fill.ofRecords_currentOffset]
    intro hlt
    simp at hsz; omega
  | cons r left ih =>
    intro taken h hroom hfits
    have hstep := fillStep_record h
    have hr := r.header_le_size
    have h16 := RECORD_HEADER_SIZE_eq
    have hsz := h.fileSize
    simp only [recordSize_append, recordSize_cons, List.length_nil] at hsz
    have hcur : (Fill.ofRecords p taken).currentOffset < I.fileSize := by
      rw [Fill.ofRecords_currentOffset]; omega
    split at hstep
    · rename_i hfit
      -- the record is taken: the inner loop goes on behind it
      have := ih (taken ++ [r]) (by simpa using h) (by simpa using hfit)
        fun x hx => hfits x (List.mem_cons_of_mem _ hx)
      rw [ChunkReadsInside, Loop.forall_reaches_some hstep, ← ChunkReadsInside]
      simp only [recordSize_append, recordSize_cons, recordSize_nil, Nat.add_zero] at this
      simp only [List.map_cons, headersInside, if_pos hfit, this, hcur, Fill.ofRecords_offset, hroom,
        readsInside_iff h, fitting, List.length_cons, List.drop_succ_cons, forall_const, and_assoc]
    · rename_i hfit
      -- the record starts the next chunk
      rw [ChunkReadsInside, Loop.forall_reaches_none hstep]
      have hr0 := hfits r List.mem_cons_self
      simp only [List.map_cons, headersInside, if_neg hfit, hcur, Fill.ofRecords_offset, hroom,
        readsInside_iff h, fitting, List.length_nil, List.drop_zero, forall_const, ite_self, Nat.zero_add]
      constructor
      · rintro ⟨h1, h2⟩; exact ⟨h1, by omega, h2⟩
      · rintro ⟨h1, -, h2⟩; exact ⟨h1, h2⟩

/-- **The run**, from a state with the records `rest` ahead. -/
theorem run_reads_iff (hfit : c.Fits B) (h : S.Before c B past rest) :
    RunReadsInside (c.input B past) S ↔ headersInside B 0 (rest.map Record.size) := by
  unfold RunReadsInside
  induction hn : rest.length using Nat.strong_induction_on generalizing S rest with
  | _ n ih =>
    have hsz := h.standing.fileSize
    simp only [List.length_nil, Nat.add_zero] at hsz
    by_cases hne : rest = []
    · have hend : (c.input B past).fileSize ≤ S.producer.currentOffset := by
        rw [hsz, hne, recordSize_nil, Nat.add_zero]
      rw [Loop.forall_reaches_none (bufferStep_end hend)]
      simp only [hne, List.map_nil, headersInside, iff_true]
      omega
    · have hpos := recordSize_pos hne
      have hlt : S.producer.currentOffset < (c.input B past).fileSize := by omega
      have hpass := bufferStep_pass h.toOk hlt
      obtain ⟨done, hdone, -⟩ := h.read
      have hrest : ∀ r ∈ rest, r.size < B := fun r hr => hfit r (by
        rw [hdone]; exact List.mem_append_right _ hr)
      have hB : 0 < B := by
        obtain ⟨r, hr⟩ := List.exists_mem_of_ne_nil _ hne
        have := hrest r hr; omega
      have hshort : (rest.drop (fitting B 0 rest).length).length < n := by
        have := List.length_pos_of_ne_nil (fitting_ne_nil hne hrest)
        have := List.length_pos_of_ne_nil hne
        rw [List.length_drop]; omega
      rw [Loop.forall_reaches_some hpass, ih _ hshort (h.step hfit hpass) rfl]
      have hchunk := chunk_reads_iff (I := c.input B past) rest [] (by simpa using h.standing) hB hrest
      rw [recordSize_nil, Fill.ofRecords_nil] at hchunk
      simp only [hlt, forall_const]
      exact hchunk.symm

/-- **Record headers are read inside the chunk exactly when the record sizes say so.** -/
theorem header_reads_inside (hfit : c.Fits B) (past : ℕ → Mem) :
    RunReadsInside (c.input B past) Buffering.init ↔ headersInside B 0 (c.records.map Record.size) :=
  run_reads_iff hfit (Buffering.init_before c B past)

theorem header_reads_inside_two :
    RunReadsInside (Capture.two.input 34 fun _ _ => 0) Buffering.init :=
  (header_reads_inside (by decide) fun _ _ => 0).2 (by decide)

/-- A record of `len` zeros. -/
def Record.zeros (len : UInt32) : Record := ⟨⟨0, 0, len, len⟩, List.replicate len.toNat 0, by simp⟩

theorem Record.zeros_size (len : UInt32) : (Record.zeros len).size = 16 + len.toNat := by
  simp [zeros, size, RECORD_HEADER_SIZE_eq]

/-- A capture file whose first record leaves eight bytes of the first chunk. -/
def Capture.eightLeft : Capture where
  header := Wire.encode PcapHdr.ethernet
  records := [.zeros 16777192, .zeros 1]
  header_length := Wire.encode_length PcapHdr.ethernet

theorem Capture.eightLeft_sizes : Capture.eightLeft.records.map Record.size = [BATCH_SIZE - 8, 17] := by
  simp [eightLeft, Record.zeros_size, BATCH_SIZE]

theorem Capture.eightLeft_fits : Capture.eightLeft.Fits BATCH_SIZE := by
  intro r hr
  have hmem := List.mem_map_of_mem (f := Record.size) hr
  rw [eightLeft_sizes] at hmem
  simp only [List.mem_cons, List.not_mem_nil, or_false, BATCH_SIZE] at hmem ⊢
  omega

/-- The second header is read past the end of `local_buffer_`. -/
theorem eightLeft_reads_outside :
    Capture.eightLeft.Fits BATCH_SIZE ∧
      ¬ RunReadsInside (Capture.eightLeft.input BATCH_SIZE fun _ _ => 0) Buffering.init := by
  refine ⟨Capture.eightLeft_fits, ?_⟩
  rw [run_reads_iff Capture.eightLeft_fits (Buffering.init_before _ _ _), Capture.eightLeft_sizes]
  simp [headersInside, RECORD_HEADER_SIZE_eq, BATCH_SIZE]

end MoexDecoder
