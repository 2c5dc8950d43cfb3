import MoexDecoder.Spec.Capture

/-!
# One chunk: the inner loop and one pass of the outer loop

On any file:

* `fillStep_some`: what one pass of the inner loop does.
* `Fill.Ok`: the offset in the chunk, the file offset and the counters follow the
  packets taken so far; every pass of the inner loop keeps it.
* `pass_ok`: a pass of a producer whose get position is at `current_offset_` does not
  fail, and what it leaves.

On a file whose unread part starts with records (`Producer.At`):

* `fillStep_record`: the inner loop takes the next record when it ends before the last
  byte of the chunk, and stops at it otherwise. This holds whatever a header read
  beyond the end of the chunk yields.
* `filled_records`, `next_at`: a pass takes exactly the records that fit, and stands
  before the next one.
-/

namespace MoexDecoder

open StateTransition

variable {I : Input} {p : Producer} {buf : Mem} {s s' : Fill}

/-! ## Any file -/

/-- The inner loop's state with one more packet. -/
def Fill.emplace (s : Fill) (packet : List UInt8) : Fill where
  offset := s.offset + RECORD_HEADER_SIZE + packet.length
  currentOffset := s.currentOffset + (RECORD_HEADER_SIZE + packet.length)
  packetNr := s.packetNr + 1
  bufferedPackets := { s.bufferedPackets with
    packets := s.bufferedPackets.packets ++ [packet]
    numberPackets := s.bufferedPackets.numberPackets + 1 }

/-- The inner loop takes the packet at the offset when it ends before the last byte of
the chunk. -/
theorem fillStep_take (hfile : s.currentOffset < I.fileSize)
    (hfit : s.offset + RECORD_HEADER_SIZE + capturedLength buf s.offset < I.batchSize) :
    fillStep I buf s =
      some (s.emplace (buf.read (s.offset + RECORD_HEADER_SIZE) (capturedLength buf s.offset))) := by
  have hoff : s.offset < I.batchSize := by omega
  unfold fillStep Fill.emplace
  simp [hfile, hoff, not_le.2 hfit]

theorem fillStep_end (hfile : I.fileSize ≤ s.currentOffset) : fillStep I buf s = none := by
  unfold fillStep
  rw [if_neg (by omega)]

theorem fillStep_full (hfull : I.batchSize ≤ s.offset + RECORD_HEADER_SIZE + capturedLength buf s.offset) :
    fillStep I buf s = none := by
  unfold fillStep
  simp [hfull]

/-- **What a pass of the inner loop does.** -/
theorem fillStep_some (h : fillStep I buf s = some s') :
    s.currentOffset < I.fileSize ∧
      s.offset + RECORD_HEADER_SIZE + capturedLength buf s.offset < I.batchSize ∧
      s' = s.emplace (buf.read (s.offset + RECORD_HEADER_SIZE) (capturedLength buf s.offset)) := by
  rcases Nat.lt_or_ge s.currentOffset I.fileSize with hfile | hfile
  · rcases Nat.lt_or_ge (s.offset + RECORD_HEADER_SIZE + capturedLength buf s.offset) I.batchSize
      with hfit | hfull
    · rw [fillStep_take hfile hfit] at h
      exact ⟨hfile, hfit, (Option.some.inj h).symm⟩
    · rw [fillStep_full hfull] at h; cases h
  · rw [fillStep_end hfile] at h; cases h

theorem fillStep_falls (I : Input) (buf : Mem) : Loop.Falls (fillStep I buf) fun s => I.batchSize - s.offset := by
  intro s s' h
  obtain ⟨-, h1, rfl⟩ := fillStep_some h
  have h16 := RECORD_HEADER_SIZE_eq
  simp only [Fill.emplace, Mem.read_length]
  omega

/-- The bytes that packets take in the file, with their headers. -/
def spanned (ps : List (List UInt8)) : ℕ := (ps.map fun d => RECORD_HEADER_SIZE + d.length).sum

@[simp] theorem spanned_append (ps qs : List (List UInt8)) : spanned (ps ++ qs) = spanned ps + spanned qs := by
  simp [spanned]

@[simp] theorem spanned_singleton (d : List UInt8) : spanned [d] = RECORD_HEADER_SIZE + d.length := by
  simp [spanned]

theorem spanned_data (rs : List Record) : spanned (rs.map (·.data)) = recordSize rs := by
  rw [spanned, recordSize, List.map_map]
  rfl

/-- The counters of a pass of `p` follow the packets it has taken. -/
structure Fill.Ok (p : Producer) (s : Fill) : Prop where
  offset : s.offset = spanned s.bufferedPackets.packets
  currentOffset : s.currentOffset = p.currentOffset + s.offset
  packetNr : s.packetNr = p.packetNr + s.bufferedPackets.packets.length
  number : s.bufferedPackets.numberPackets = s.bufferedPackets.packets.length
  start : s.bufferedPackets.startPacketNumber = p.packetNr

theorem Fill.init_ok (p : Producer) : (Fill.init p).Ok p := ⟨rfl, rfl, rfl, rfl, rfl⟩

theorem Fill.emplace_ok (h : s.Ok p) (packet : List UInt8) : (s.emplace packet).Ok p := by
  obtain ⟨h1, h2, h3, h4, h5⟩ := h
  refine ⟨?_, ?_, ?_, ?_, h5⟩ <;> simp [Fill.emplace, h1, h2, h3, h4] <;> omega

theorem fillStep_ok (h : s.Ok p) (hs : fillStep I buf s = some s') : s'.Ok p := by
  obtain ⟨-, -, rfl⟩ := fillStep_some hs
  exact s.emplace_ok h _

theorem fill_ok (I : Input) (buf : Mem) (p : Producer) : (fill I buf (Fill.init p)).Ok p :=
  Loop.Reaches.inv (fun _ _ h hs => fillStep_ok h hs) (Loop.run_reaches (fillStep_falls I buf) _)
    (Fill.init_ok p)

/-- The bytes a pass reads from the file. -/
def chunk (I : Input) (p : Producer) : List UInt8 :=
  (I.file.drop p.currentOffset).take (bytesToRead I p.currentOffset)

/-- `local_buffer_` when the inner loop starts. -/
def chunkBuffer (I : Input) (p : Producer) : Mem := loadBuffer I p (chunk I p)

theorem bytesToRead_le (h : p.currentOffset ≤ I.fileSize) :
    p.currentOffset + bytesToRead I p.currentOffset ≤ I.fileSize := by
  unfold bytesToRead; split <;> omega

theorem bytesToRead_le_batchSize (h : p.currentOffset ≤ I.fileSize) :
    bytesToRead I p.currentOffset ≤ I.batchSize := by
  unfold bytesToRead; split <;> omega

/-- A short chunk ends with the file. -/
theorem bytesToRead_short (h : bytesToRead I p.currentOffset < I.batchSize) :
    bytesToRead I p.currentOffset = I.fileSize - p.currentOffset := by
  unfold bytesToRead at *; split at h <;> simp_all

theorem chunk_length (h : p.currentOffset ≤ I.fileSize) :
    (chunk I p).length = bytesToRead I p.currentOffset := by
  have := bytesToRead_le h
  simp only [chunk, List.length_take, List.length_drop, Input.fileSize] at *
  omega

/-- The inner loop's outcome in a pass of `p`. -/
def filled (I : Input) (p : Producer) : Fill := fill I (chunkBuffer I p) (Fill.init p)

/-- The producer behind a pass, with the get position back at `current_offset_`. -/
def Producer.next (I : Input) (p : Producer) : Producer where
  currentOffset := (filled I p).currentOffset
  filePos := (filled I p).currentOffset
  localBuffer := chunkBuffer I p
  packetNr := (filled I p).packetNr
  passes := p.passes + 1

theorem filled_ok (I : Input) (p : Producer) : (filled I p).Ok p := fill_ok I _ p

/-- **A pass does not fail** when the file is read where the producer stands. -/
theorem pass_ok (hpos : p.filePos = p.currentOffset) (h : p.currentOffset ≤ I.fileSize) :
    ∃ q, pass I p = .ok (q, (filled I p).bufferedPackets) ∧ q.seekg = p.next I := by
  have hr : readFile I p.filePos (bytesToRead I p.currentOffset) = some (chunk I p) := by
    unfold readFile
    rw [hpos, if_pos (bytesToRead_le h)]; rfl
  unfold pass
  rw [hr]
  exact ⟨_, rfl, rfl⟩

/-! ## A file of records -/

/-- The producer stands before the records `rest`, with `tail` behind them. -/
structure Producer.At (I : Input) (p : Producer) (rest : List Record) (tail : List UInt8) : Prop where
  pos : p.filePos = p.currentOffset
  le : p.currentOffset ≤ I.fileSize
  ahead : I.file.drop p.currentOffset = recordBytes rest ++ tail

variable {rest taken left : List Record} {r : Record} {tail : List UInt8}

theorem Producer.At.fileSize (h : p.At I rest tail) :
    I.fileSize = p.currentOffset + recordSize rest + tail.length := by
  have := congrArg List.length h.ahead
  have := h.le
  simp only [List.length_drop, List.length_append, recordBytes_length, Input.fileSize] at *
  omega

/-- The chunk's part of the buffer holds the file. -/
theorem chunkBuffer_read (h : p.At I rest tail) (pre mid post : List UInt8)
    (hsplit : recordBytes rest ++ tail = pre ++ mid ++ post)
    (hin : pre.length + mid.length ≤ bytesToRead I p.currentOffset) :
    (chunkBuffer I p).read pre.length mid.length = mid := by
  unfold chunkBuffer loadBuffer
  rw [Span.read_eq _ (by rw [chunk_length h.le]; exact hin)]
  unfold chunk
  rw [h.ahead, hsplit, List.drop_take, List.append_assoc, List.drop_left, List.take_take,
    Nat.min_eq_left (by omega), List.take_left]

/-- The inner loop's state when it has taken the records `taken`. -/
def Fill.ofRecords (p : Producer) (taken : List Record) : Fill where
  offset := recordSize taken
  currentOffset := p.currentOffset + recordSize taken
  packetNr := p.packetNr + taken.length
  bufferedPackets := ⟨p.packetNr, taken.length, taken.map (·.data)⟩

@[simp] theorem Fill.ofRecords_offset (p : Producer) (taken : List Record) :
    (Fill.ofRecords p taken).offset = recordSize taken := rfl

@[simp] theorem Fill.ofRecords_currentOffset (p : Producer) (taken : List Record) :
    (Fill.ofRecords p taken).currentOffset = p.currentOffset + recordSize taken := rfl

theorem Fill.ofRecords_nil (p : Producer) : Fill.ofRecords p [] = Fill.init p := rfl

theorem Fill.emplace_ofRecords (p : Producer) (taken : List Record) (r : Record) :
    (Fill.ofRecords p taken).emplace r.data = Fill.ofRecords p (taken ++ [r]) := by
  simp [Fill.emplace, Fill.ofRecords, Record.size]; omega

/-- The header of the next record, when it lies inside the chunk. -/
theorem capturedLength_record (h : p.At I (taken ++ r :: left) tail)
    (hin : recordSize taken + RECORD_HEADER_SIZE ≤ bytesToRead I p.currentOffset) :
    capturedLength (chunkBuffer I p) (recordSize taken) = r.data.length := by
  have hread := chunkBuffer_read h (recordBytes taken) (Wire.encode r.hdr)
    (r.data ++ recordBytes left ++ tail) (by simp [Record.bytes]) (by simpa using hin)
  rw [recordBytes_length, Wire.encode_length, size_pcaprecHdr] at hread
  rw [capturedLength, packetHeader, hread, Wire.decode_encode, r.length_eq]

/-- **The inner loop at a record** takes it when it ends before the last byte of the
chunk. Where its header sticks out of the chunk, the bytes read for it do not matter:
the chunk has no room for the record either. -/
theorem fillStep_record (h : p.At I (taken ++ r :: left) tail) :
    fillStep I (chunkBuffer I p) (Fill.ofRecords p taken) =
      if recordSize taken + r.size < I.batchSize then some (Fill.ofRecords p (taken ++ [r])) else none := by
  have hsz := h.fileSize
  have hr := r.header_le_size
  have h16 := RECORD_HEADER_SIZE_eq
  have hle := bytesToRead_le_batchSize h.le
  simp only [recordSize_append, recordSize_cons] at hsz
  rcases le_or_gt (recordSize taken + RECORD_HEADER_SIZE) (bytesToRead I p.currentOffset) with hin | hout
  · have hlen := capturedLength_record h hin
    split
    · rename_i hfit
      -- the data lies inside the chunk, since neither the file nor the chunk ends before it does
      have hdata : recordSize taken + r.size ≤ bytesToRead I p.currentOffset := by
        rcases Nat.lt_or_ge (bytesToRead I p.currentOffset) I.batchSize with hs | hs
        · rw [bytesToRead_short hs]; omega
        · omega
      have hread := chunkBuffer_read h (recordBytes taken ++ Wire.encode r.hdr) r.data
        (recordBytes left ++ tail) (by simp [Record.bytes])
        (by simp only [List.length_append, recordBytes_length, Wire.encode_length, size_pcaprecHdr]
            unfold Record.size at hdata; omega)
      simp only [List.length_append, recordBytes_length, Wire.encode_length, size_pcaprecHdr] at hread
      rw [fillStep_take (by rw [Fill.ofRecords_currentOffset]; omega)
        (by rw [Fill.ofRecords_offset, hlen, add_assoc]; exact hfit), Fill.ofRecords_offset, hlen, hread,
        Fill.emplace_ofRecords]
    · rename_i hfit
      exact fillStep_full (by rw [Fill.ofRecords_offset, hlen, add_assoc]; exact not_lt.1 hfit)
  · -- the file goes on behind the chunk, so the chunk is full
    have hfull : bytesToRead I p.currentOffset = I.batchSize := by
      rcases Nat.lt_or_ge (bytesToRead I p.currentOffset) I.batchSize with hs | hs
      · rw [bytesToRead_short hs] at hout; omega
      · omega
    rw [fillStep_full (by rw [Fill.ofRecords_offset]; omega), if_neg (by omega)]

/-- The inner loop at the end of the file. -/
theorem fillStep_records_end (h : p.At I rest []) :
    fillStep I (chunkBuffer I p) (Fill.ofRecords p rest) = none := by
  have := h.fileSize
  apply fillStep_end
  rw [Fill.ofRecords_currentOffset]
  simp at this; omega

/-- **The inner loop takes the records that fit the chunk.** -/
theorem fill_records (left : List Record) : ∀ taken, p.At I (taken ++ left) [] →
    fill I (chunkBuffer I p) (Fill.ofRecords p taken) =
      Fill.ofRecords p (taken ++ fitting I.batchSize (recordSize taken) left) := by
  -- along the records that are left, with those taken so far before them
  induction left with
  | nil =>
    intro taken h
    rw [List.append_nil] at h
    rw [fill, Loop.run_none (fillStep_records_end h), fitting, List.append_nil]
  | cons r left ih =>
    intro taken h
    have hstep := fillStep_record h
    unfold fitting
    split at hstep
    · rename_i hfit
      have hrest := ih (taken ++ [r]) (by simpa using h)
      rw [if_pos hfit, fill, Loop.run_some (fillStep_falls _ _) hstep, ← fill, hrest]
      simp
    · rename_i hfit
      rw [if_neg hfit, fill, Loop.run_none hstep, List.append_nil]

/-- A record that fits a chunk is taken when it comes first. -/
theorem fitting_ne_nil {B : ℕ} (hne : rest ≠ []) (hfit : ∀ r ∈ rest, r.size < B) :
    fitting B 0 rest ≠ [] := by
  cases rest with
  | nil => exact absurd rfl hne
  | cons r rs =>
    have := hfit r List.mem_cons_self
    simp [fitting, this]

/-- **A pass takes the records that fit the chunk.** -/
theorem filled_records (h : p.At I rest []) :
    filled I p = Fill.ofRecords p (fitting I.batchSize 0 rest) := by
  have hfill := fill_records (I := I) (p := p) rest [] (by simpa using h)
  rwa [Fill.ofRecords_nil, recordSize_nil, List.nil_append] at hfill

/-- A pass leads to the first record it did not take. -/
theorem next_at (h : p.At I rest []) :
    (p.next I).At I (rest.drop (fitting I.batchSize 0 rest).length) [] := by
  have hcur : (p.next I).currentOffset = p.currentOffset + recordSize (fitting I.batchSize 0 rest) := by
    simp only [Producer.next, filled_records h, Fill.ofRecords_currentOffset]
  have hsplit := fitting_append_drop I.batchSize 0 rest
  have hsz := h.fileSize
  set f := fitting I.batchSize 0 rest
  set more := rest.drop f.length
  refine ⟨rfl, ?_, ?_⟩
  · rw [hcur]
    rw [← hsplit, recordSize_append] at hsz
    omega
  · rw [hcur, ← List.drop_drop, h.ahead, ← hsplit, recordBytes_append, List.append_assoc,
      ← recordBytes_length f, List.drop_left]

end MoexDecoder
