import MoexDecoder.Lib.History
import MoexDecoder.Proof.Chunk

/-!
# The producer's run

`Buffering.Ok` is the invariant of the outer loop on any file: the loop has not
failed, the get position and the counters follow the packets pushed, and the batches
are numbered through (`Numbered`). On a capture file `Buffering.Before` says in
addition which records are still to be read.

`chunked_reading`: on a whole capture file whose records fit a chunk, the producer
ends at the end of the file, having pushed the file's packets in order, in batches of
at least one, whatever the chunk size and whatever lies behind the buffer.
-/

namespace MoexDecoder

open StateTransition

/-- Each batch states its own size, and the number of its first packet in the file. -/
def Numbered (bs : List BufferedPackets) : Prop :=
  ∀ pre b post, bs = pre ++ b :: post →
    b.numberPackets = b.packets.length ∧ b.startPacketNumber = 1 + (pre.flatMap (·.packets)).length

theorem numbered_nil : Numbered [] := atEach_nil _

theorem Numbered.push {bs : List BufferedPackets} (h : Numbered bs) {b : BufferedPackets}
    (hn : b.numberPackets = b.packets.length)
    (hs : b.startPacketNumber = 1 + (bs.flatMap (·.packets)).length) : Numbered (bs ++ [b]) :=
  atEach_append_singleton.2 ⟨h, hn, hs⟩

/-- **The outer loop's invariant**, on any file. -/
structure Buffering.Ok (S : Buffering) : Prop where
  error : S.error = none
  pos : S.producer.filePos = S.producer.currentOffset
  currentOffset : S.producer.currentOffset = HEADER_SIZE + spanned S.packets
  packetNr : S.producer.packetNr = 1 + S.packets.length
  numbered : Numbered S.pcapDataChunks

variable {I : Input} {S S' : Buffering}

theorem Buffering.init_ok : Buffering.init.Ok := ⟨rfl, rfl, rfl, rfl, numbered_nil⟩

theorem bufferStep_end (h : I.fileSize ≤ S.producer.currentOffset) : bufferStep I S = none := by
  unfold bufferStep
  rw [if_neg (by omega)]

/-- A pass of the outer loop pushes the batch it filled. -/
theorem bufferStep_pass (h : S.Ok) (hlt : S.producer.currentOffset < I.fileSize) :
    bufferStep I S = some ⟨S.producer.next I,
      S.pcapDataChunks ++ [(filled I S.producer).bufferedPackets], none⟩ := by
  obtain ⟨q, hq, hnext⟩ := pass_ok h.pos hlt.le
  unfold bufferStep
  rw [if_pos ⟨h.error, hlt⟩, hq]
  simp only [hnext, h.error]

/-- **What a pass of the outer loop does**: it does not fail. -/
theorem bufferStep_some (h : S.Ok) (hs : bufferStep I S = some S') :
    S.producer.currentOffset < I.fileSize ∧
      S' = ⟨S.producer.next I, S.pcapDataChunks ++ [(filled I S.producer).bufferedPackets], none⟩ := by
  rcases Nat.lt_or_ge S.producer.currentOffset I.fileSize with hlt | hge
  · rw [bufferStep_pass h hlt] at hs
    exact ⟨hlt, (Option.some.inj hs).symm⟩
  · rw [bufferStep_end hge] at hs; cases hs

theorem bufferStep_ok (h : S.Ok) (hs : bufferStep I S = some S') : S'.Ok := by
  obtain ⟨-, rfl⟩ := bufferStep_some h hs
  have hf := filled_ok I S.producer
  refine ⟨rfl, rfl, ?_, ?_, h.numbered.push hf.number ?_⟩
  · simp only [Producer.next, Buffering.packets, List.flatMap_append, spanned_append, hf.currentOffset,
      hf.offset, h.currentOffset]
    simp [add_assoc]
  · simp only [Producer.next, Buffering.packets, List.flatMap_append, hf.packetNr, h.packetNr]
    simp [add_assoc]
  · rw [hf.start, h.packetNr]; rfl

/-- The invariant holds all along the run. -/
theorem reaches_ok (h : Reaches (bufferStep I) Buffering.init S) : S.Ok :=
  Loop.Reaches.inv (fun _ _ => bufferStep_ok) h Buffering.init_ok

/-! ## Capture files -/

variable {c : Capture} {B : ℕ} {past : ℕ → Mem}

@[simp] theorem Capture.input_fileSize (c : Capture) (B : ℕ) (past : ℕ → Mem) :
    (c.input B past).fileSize = HEADER_SIZE + recordSize c.records := by
  simp [Capture.input, Input.fileSize, Capture.bytes, c.header_length]

/-- The records `rest` are still to be read; the others were pushed, in order. -/
structure Buffering.Before (c : Capture) (B : ℕ) (past : ℕ → Mem) (S : Buffering) (rest : List Record) :
    Prop extends S.Ok where
  standing : S.producer.At (c.input B past) rest []
  read : ∃ done, c.records = done ++ rest ∧ S.packets = done.map (·.data)
  nonempty : ∀ b ∈ S.pcapDataChunks, b.packets ≠ []

theorem Capture.init_at (c : Capture) (B : ℕ) (past : ℕ → Mem) :
    (Producer.init HEADER_SIZE).At (c.input B past) c.records [] := by
  refine ⟨rfl, by simp [Producer.init], ?_⟩
  simp only [Capture.input, Capture.bytes, Producer.init, ← c.header_length, List.drop_left, List.append_nil]

theorem Buffering.init_before (c : Capture) (B : ℕ) (past : ℕ → Mem) :
    Buffering.init.Before c B past c.records where
  toOk := Buffering.init_ok
  standing := c.init_at B past
  read := ⟨[], rfl, rfl⟩
  nonempty := by simp [Buffering.init]

/-- **One pass** pushes the records that fit the chunk, where it takes one. -/
theorem Buffering.Before.step_taken {rest : List Record} (htaken : rest ≠ [] → fitting B 0 rest ≠ [])
    (h : S.Before c B past rest) (hs : bufferStep (c.input B past) S = some S') :
    S'.Before c B past (rest.drop (fitting B 0 rest).length) := by
  obtain ⟨hlt, rfl⟩ := bufferStep_some h.toOk hs
  have hok := bufferStep_ok h.toOk hs
  have hfill := filled_records h.standing
  obtain ⟨done, hdone, hread⟩ := h.read
  refine ⟨hok, next_at h.standing, ⟨done ++ fitting B 0 rest, ?_, ?_⟩, ?_⟩
  · rw [List.append_assoc, fitting_append_drop, hdone]
  · simp only [Buffering.packets, List.flatMap_append, List.map_append] at hread ⊢
    rw [hread, hfill]
    simp [Fill.ofRecords, Capture.input]
  · intro b hb
    rcases List.mem_append.1 hb with hb | hb
    · exact h.nonempty b hb
    · -- the chunk starts with a record, since the file does not end here
      have hne : rest ≠ [] := by
        rintro rfl
        have := h.standing.fileSize
        simp at this hlt; omega
      rw [List.mem_singleton.1 hb, hfill]
      simpa [Fill.ofRecords, Capture.input] using htaken hne

/-- On a file whose records fit every pass takes one. -/
theorem Buffering.Before.step {rest : List Record} (hfit : c.Fits B) (h : S.Before c B past rest)
    (hs : bufferStep (c.input B past) S = some S') :
    S'.Before c B past (rest.drop (fitting B 0 rest).length) := by
  obtain ⟨done, hdone, -⟩ := h.read
  refine h.step_taken ?_ hs
  intro hne
  refine fitting_ne_nil hne ?_
  intro r hr
  exact hfit r (by rw [hdone]; exact List.mem_append_right _ hr)

/-- Every state of a run on a capture file stands before some of its records. -/
theorem reaches_before (hfit : c.Fits B) (h : Reaches (bufferStep (c.input B past)) Buffering.init S) :
    ∃ rest, S.Before c B past rest :=
  Loop.Reaches.inv (P := fun S => ∃ rest, S.Before c B past rest)
    (fun _ _ ⟨_, hb⟩ hs => ⟨_, hb.step hfit hs⟩) h ⟨_, Buffering.init_before c B past⟩

theorem recordSize_pos {rs : List Record} (h : rs ≠ []) : 0 < recordSize rs := by
  cases rs with
  | nil => exact absurd rfl h
  | cons r rs =>
    have := r.header_le_size
    have := RECORD_HEADER_SIZE_eq
    rw [recordSize_cons]; omega

/-- A pass on a capture file comes closer to its end. -/
theorem Buffering.Before.advances {rest : List Record} (hfit : c.Fits B) (h : S.Before c B past rest)
    (hs : bufferStep (c.input B past) S = some S') :
    S.producer.currentOffset < S'.producer.currentOffset ∧
      S.producer.currentOffset < (c.input B past).fileSize := by
  obtain ⟨hlt, rfl⟩ := bufferStep_some h.toOk hs
  obtain ⟨done, hdone, -⟩ := h.read
  have hne : rest ≠ [] := by
    rintro rfl
    have := h.standing.fileSize
    simp at this hlt; omega
  have hpos := recordSize_pos (fitting_ne_nil hne fun r hr => hfit r (by
    rw [hdone]; exact List.mem_append_right _ hr))
  refine ⟨?_, hlt⟩
  simp only [Producer.next, filled_records h.standing, Fill.ofRecords_currentOffset]
  exact Nat.lt_add_of_pos_right hpos

/-- The producer is at the end of its input and has pushed `packets`. -/
structure Buffering.Delivered (I : Input) (packets : List (List UInt8)) (t : Buffering) : Prop where
  error : t.error = none
  atEnd : t.producer.currentOffset = I.fileSize
  packets : t.packets = packets
  nonempty : ∀ b ∈ t.pcapDataChunks, b.packets ≠ []
  numbered : Numbered t.pcapDataChunks

/-- At the end of the file, the whole file has been pushed. -/
theorem Buffering.Before.delivered {rest : List Record} (h : S.Before c B past rest)
    (hend : (c.input B past).fileSize ≤ S.producer.currentOffset) :
    S.Delivered (c.input B past) c.packets := by
  have hle := h.standing.le
  have hrest : rest = [] := by
    by_contra hne
    have := recordSize_pos hne
    have := h.standing.fileSize
    omega
  obtain ⟨done, hdone, hread⟩ := h.read
  refine ⟨h.error, by omega, ?_, h.nonempty, h.numbered⟩
  rw [hread, Capture.packets, hdone, hrest, List.append_nil]

/-- **Chunked reading is plain reading.** On a capture file whose records fit a chunk,
the producer loop ends at the end of the file, and its batches, one after the other,
hold the file's packets in order. They are the same for every chunk size. -/
theorem chunked_reading (c : Capture) {B : ℕ} (hfit : c.Fits B) (past : ℕ → Mem) :
    ∃ t ∈ eval (bufferStep (c.input B past)) Buffering.init, t.Delivered (c.input B past) c.packets := by
  obtain ⟨t, ht, rest, hb⟩ := Loop.exits_of_rank (P := fun S : Buffering => ∃ rest, S.Before c B past rest)
    (fun S => (c.input B past).fileSize - S.producer.currentOffset)
    (fun S S' ⟨rest, hb⟩ hs => ⟨⟨_, hb.step hfit hs⟩, by have := hb.advances hfit hs; omega⟩)
    ⟨_, Buffering.init_before c B past⟩
  refine ⟨t, ht, hb.delivered ?_⟩
  by_contra hlt
  have hs := bufferStep_pass hb.toOk (not_le.1 hlt)
  rw [(mem_eval.1 ht).2] at hs; cases hs

/-- A record of one byte. -/
def Record.one : Record := ⟨⟨0, 0, 1, 1⟩, [7], rfl⟩

/-- A capture file of two records. -/
def Capture.two : Capture where
  header := Wire.encode PcapHdr.ethernet
  records := [.one, ⟨⟨0, 0, 2, 2⟩, [8, 9], rfl⟩]
  header_length := Wire.encode_length PcapHdr.ethernet

/-- The chunk has no room for both records. -/
theorem chunked_reading_two :
    ∃ t ∈ eval (bufferStep (Capture.two.input 34 fun _ _ => 0)) Buffering.init,
      t.Delivered (Capture.two.input 34 fun _ _ => 0) [[7], [8, 9]] :=
  chunked_reading Capture.two (by decide) fun _ _ => 0

end MoexDecoder
