import MoexDecoder.Lib.Blocks
import MoexDecoder.Proof.Ending

/-!
# The files that are captures

* `Fill.Parsed`, `Buffering.Parsed`: on any file what the two loops have taken, as long as
  they are not behind its end, are records that stand in it.
* `Record.delimited`: a record says where it ends.
* `capture_iff`: a file is a capture whose records fit a chunk, of one header and one list of
  records, exactly when it is opened and the producer ends at its end.
-/

namespace MoexDecoder

open StateTransition

variable {I : Input} {p : Producer} {s s' : Fill} {S S' : Buffering}

/-! ## Records in a file -/

/-- Bytes that are as long as their header says are a record. -/
theorem exists_record {bs : List UInt8} {n : ℕ} (hle : RECORD_HEADER_SIZE + n ≤ bs.length)
    (hn : (Wire.decode (bs.take RECORD_HEADER_SIZE) : PcaprecHdr).capturedLength.toNat = n) :
    ∃ r : Record, r.bytes = bs.take (RECORD_HEADER_SIZE + n) ∧ r.data = (bs.drop RECORD_HEADER_SIZE).take n := by
  have hdata : n = ((bs.drop RECORD_HEADER_SIZE).take n).length := by
    rw [List.length_take, List.length_drop]; omega
  have hhdr : Wire.encode (Wire.decode (bs.take RECORD_HEADER_SIZE) : PcaprecHdr) = bs.take RECORD_HEADER_SIZE := by
    refine Wire.Exact.encode_decode _ ?_
    rw [List.length_take, size_pcaprecHdr]; omega
  refine ⟨⟨Wire.decode (bs.take RECORD_HEADER_SIZE), (bs.drop RECORD_HEADER_SIZE).take n, hn.trans hdata⟩, ?_, rfl⟩
  rw [Record.bytes, hhdr, List.take_add]

/-- A record says where it ends. -/
theorem Record.delimited : Blocks.Delimited Record.bytes where
  ne_nil r := by
    refine List.ne_nil_of_length_pos ?_
    rw [Record.bytes_length]
    exact lt_of_lt_of_le (by decide) r.header_le_size
  eq {r r' t t'} h := by
    obtain ⟨hdr, data, hlen⟩ := r
    obtain ⟨hdr', data', hlen'⟩ := r'
    simp only [Record.bytes, List.append_assoc] at h
    obtain ⟨hhdr, hbehind⟩ := List.append_inj h (by simp only [Wire.encode_length])
    obtain rfl : hdr = hdr' := by rw [← Wire.decode_encode hdr, hhdr, Wire.decode_encode]
    -- the headers state the lengths of the data
    obtain ⟨rfl, -⟩ := List.append_inj hbehind (hlen.symm.trans hlen')
    rfl

/-! ## The inner loop -/

/-- What the inner loop has taken are records in front of the producer, as long as it is
not behind the end of the file. -/
def Fill.Parsed (I : Input) (p : Producer) (s : Fill) : Prop :=
  s.currentOffset ≤ I.fileSize → ∃ taken : List Record, s = Fill.ofRecords p taken ∧
    recordBytes taken <+: I.file.drop p.currentOffset ∧ ∀ r ∈ taken, r.size < I.batchSize

theorem Fill.init_parsed (I : Input) (p : Producer) : (Fill.init p).Parsed I p :=
  fun _ => ⟨[], rfl, List.nil_prefix, by simp⟩

/-- **One pass of the inner loop** takes a record, or leaves the file behind. -/
theorem fillStep_parsed (hpos : p.filePos = p.currentOffset) (hle : p.currentOffset ≤ I.fileSize)
    (h : s.Parsed I p) (hs : fillStep I (chunkBuffer I p) s = some s') : s'.Parsed I p := by
  obtain ⟨hcur, hfit, rfl⟩ := fillStep_some hs
  intro hend
  obtain ⟨taken, rfl, ⟨rest, hrest⟩, hfits⟩ := h hcur.le
  have hat : p.At I taken rest := ⟨hpos, hle, hrest.symm⟩
  have hsize := hat.fileSize
  rw [Fill.ofRecords_offset] at hfit hend ⊢
  set n := capturedLength (chunkBuffer I p) (recordSize taken) with hn
  simp only [Fill.emplace, Fill.ofRecords_currentOffset, Mem.read_length] at hend
  -- neither the chunk nor the file ends before the packet does
  have hin : recordSize taken + RECORD_HEADER_SIZE + n ≤ bytesToRead I p.currentOffset := by
    rcases Nat.lt_or_ge (bytesToRead I p.currentOffset) I.batchSize with hshort | hfull
    · rw [bytesToRead_short hshort]; omega
    · omega
  -- so the header and the data are read from the file
  have hlong : RECORD_HEADER_SIZE + n ≤ rest.length := by omega
  have hhdrLen : (rest.take RECORD_HEADER_SIZE).length = RECORD_HEADER_SIZE := by
    rw [List.length_take]; omega
  have hdataLen : ((rest.drop RECORD_HEADER_SIZE).take n).length = n := by
    rw [List.length_take, List.length_drop]; omega
  have hhdr := chunkBuffer_read hat (recordBytes taken) (rest.take RECORD_HEADER_SIZE)
    (rest.drop RECORD_HEADER_SIZE) (by simp) (by rw [recordBytes_length, hhdrLen]; omega)
  have hdata := chunkBuffer_read hat (recordBytes taken ++ rest.take RECORD_HEADER_SIZE)
    ((rest.drop RECORD_HEADER_SIZE).take n) ((rest.drop RECORD_HEADER_SIZE).drop n) (by simp)
    (by rw [List.length_append, recordBytes_length, hhdrLen, hdataLen]; exact hin)
  rw [recordBytes_length, hhdrLen] at hhdr
  rw [List.length_append, recordBytes_length, hhdrLen, hdataLen] at hdata
  obtain ⟨r, hr, hrdata⟩ := exists_record hlong (by rw [hn, capturedLength, packetHeader, hhdr])
  have hrsize : r.size = RECORD_HEADER_SIZE + n := by rw [Record.size, hrdata, hdataLen]
  refine ⟨taken ++ [r], ?_, ⟨rest.drop (RECORD_HEADER_SIZE + n), ?_⟩, ?_⟩
  · rw [hdata, ← hrdata, Fill.emplace_ofRecords]
  · have hone : recordBytes [r] = rest.take (RECORD_HEADER_SIZE + n) := by
      rw [recordBytes_cons, hr]
      exact List.append_nil _
    rw [← hrest, recordBytes_append, hone, List.append_assoc, List.take_append_drop]
  · refine List.forall_mem_append.2 ⟨hfits, ?_⟩
    rw [List.forall_mem_singleton, hrsize]
    omega

theorem filled_parsed (hpos : p.filePos = p.currentOffset) (hle : p.currentOffset ≤ I.fileSize) :
    (filled I p).Parsed I p :=
  Loop.Reaches.inv (fun _ _ h hs => fillStep_parsed hpos hle h hs) (Loop.run_reaches (fillStep_falls _ _) _)
    (Fill.init_parsed I p)

/-! ## The outer loop -/

/-- What was pushed are records behind the global header, as long as the producer is not
behind the end of the file. -/
structure Buffering.Parsed (I : Input) (S : Buffering) : Prop extends S.Ok where
  records : S.producer.currentOffset ≤ I.fileSize → ∃ done : List Record, S.packets = done.map (·.data) ∧
    recordBytes done <+: I.file.drop HEADER_SIZE ∧ ∀ r ∈ done, r.size < I.batchSize

theorem Buffering.init_parsed (I : Input) : Buffering.init.Parsed I where
  toOk := Buffering.init_ok
  records _ := ⟨[], rfl, List.nil_prefix, by simp⟩

/-- **One pass of the outer loop.** -/
theorem Buffering.Parsed.step (h : S.Parsed I) (hs : bufferStep I S = some S') : S'.Parsed I := by
  refine ⟨bufferStep_ok h.toOk hs, ?_⟩
  obtain ⟨hlt, rfl⟩ := bufferStep_some h.toOk hs
  intro hend
  obtain ⟨taken, htaken, hahead, hfits⟩ := filled_parsed h.pos hlt.le hend
  obtain ⟨done, hdone, ⟨rest, hrest⟩, hfits'⟩ := h.records hlt.le
  -- the producer stands behind the records that were pushed
  have hcur : I.file.drop S.producer.currentOffset = rest := by
    rw [h.currentOffset, hdone, spanned_data, ← List.drop_drop, ← hrest, ← recordBytes_length, List.drop_left]
  rw [hcur] at hahead
  refine ⟨done ++ taken, ?_, ?_, List.forall_mem_append.2 ⟨hfits', hfits⟩⟩
  · simp only [Buffering.packets, List.flatMap_append, List.flatMap_singleton, List.map_append] at hdone ⊢
    rw [hdone, htaken]
    rfl
  · rw [recordBytes_append, ← hrest]
    exact (List.prefix_append_right_inj _).2 hahead

theorem reaches_parsed (h : Reaches (bufferStep I) Buffering.init S) : S.Parsed I :=
  Loop.Reaches.inv (fun _ _ hp hs => hp.step hs) h (Buffering.init_parsed I)

/-! ## Whole files -/

/-- The file of the input is this capture and no other, with records that fit a chunk and
a header of the reference magic number, and the producer pushes its packets. -/
structure Capture.ReadFrom (c : Capture) (I : Input) : Prop where
  bytes : c.bytes = I.file
  only : ∀ c' : Capture, c'.bytes = I.file → c' = c
  fits : c.Fits I.batchSize
  magic : ∃ header : PcapHdr, header.magicNumber = PCAP_REFERENCE_MAGIC_NUMBER ∧ c.header = Wire.encode header
  pushed : ∀ t ∈ eval (bufferStep I) Buffering.init, t.Delivered I c.packets

/-- The file is opened, and the producer ends at its end. -/
structure Input.ReadWhole (I : Input) : Prop where
  opened : ∃ header, processHeader I.file = .ok header
  ended : ∃ t ∈ eval (bufferStep I) Buffering.init, t.producer.currentOffset = I.fileSize

theorem Capture.unique {c c' : Capture} (h : c.bytes = c'.bytes) : c = c' := by
  obtain ⟨hheader, hbehind⟩ := List.append_inj h (c.header_length.trans c'.header_length.symm)
  have hrecords := Record.delimited.flatMap_inj hbehind
  cases c
  cases c'
  cases hheader
  cases hrecords
  rfl

/-- A capture whose records fit is read to its end, and its packets are pushed. -/
theorem Capture.Fits.read {c : Capture} {B : ℕ} (hfit : c.Fits B) (past : ℕ → Mem) :
    (eval (bufferStep (c.input B past)) Buffering.init).Dom ∧
      ∀ t ∈ eval (bufferStep (c.input B past)) Buffering.init, t.Delivered (c.input B past) c.packets := by
  refine ⟨dom_of_advances (hfit.advancing past), ?_⟩
  intro t ht
  obtain ⟨hr, hexit⟩ := mem_eval.1 ht
  obtain ⟨rest, hbefore⟩ := reaches_before hfit hr
  refine hbefore.delivered ?_
  by_contra hlt
  rw [bufferStep_pass hbefore.toOk (not_le.1 hlt)] at hexit
  cases hexit

/-- A file that is opened has a header of the reference magic number. -/
theorem processHeader_ok {file : List UInt8} {header : PcapHdr} (h : processHeader file = .ok header) :
    HEADER_SIZE ≤ file.length ∧ header.magicNumber = PCAP_REFERENCE_MAGIC_NUMBER ∧
      file.take HEADER_SIZE = Wire.encode header := by
  unfold processHeader at h
  split at h
  · cases h
  · split at h
    · cases h
    · rename_i hlong
      simp only at h
      split at h
      · cases h
      · rename_i hmagic
        cases h
        have hlen : (file.take HEADER_SIZE).length = HEADER_SIZE := by rw [List.length_take]; omega
        exact ⟨not_lt.1 hlong, not_not.1 hmagic, (Wire.Exact.encode_decode _ hlen).symm⟩

/-- A capture that can be read is read whole. -/
theorem Capture.ReadFrom.readWhole {c : Capture} (h : c.ReadFrom I) : I.ReadWhole := by
  obtain ⟨hbytes, -, hfit, ⟨header, hmagic, hheader⟩, hpushed⟩ := h
  obtain ⟨B, file, past⟩ := I
  obtain rfl : c.bytes = file := hbytes
  obtain ⟨t, ht⟩ := Part.dom_iff_mem.1 (hfit.read past).1
  refine ⟨⟨header, ?_⟩, t, ht, (hpushed t ht).atEnd⟩
  rw [Capture.bytes, hheader]
  exact processHeader_encode header hmagic _

/-- A file that is read whole is a capture. -/
theorem Input.ReadWhole.exists_capture (h : I.ReadWhole) : ∃ c : Capture, c.ReadFrom I := by
  obtain ⟨⟨header, hopen⟩, t, ht, hend⟩ := h
  obtain ⟨hlong, hmagic, hheader⟩ := processHeader_ok hopen
  have hparsed := reaches_parsed (mem_eval.1 ht).1
  obtain ⟨done, hdone, ⟨rest, hrest⟩, hfits⟩ := hparsed.records hend.le
  -- the records reach to the end of the file
  have hnil : rest = [] := by
    have hsize := hparsed.currentOffset
    have hlen := congrArg List.length hrest
    rw [hend, hdone, spanned_data, Input.fileSize] at hsize
    rw [List.length_append, recordBytes_length, List.length_drop] at hlen
    exact List.length_eq_zero_iff.1 (by omega)
  rw [hnil, List.append_nil] at hrest
  let c : Capture := ⟨I.file.take HEADER_SIZE, done, by rw [List.length_take]; omega⟩
  have hbytes : c.bytes = I.file := by
    rw [Capture.bytes, hrest, List.take_append_drop]
  have hfit : c.Fits I.batchSize := hfits
  have hread := (hfit.read I.past).2
  rw [Capture.input, hbytes] at hread
  exact ⟨c, hbytes, fun c' hc' => Capture.unique (hc'.trans hbytes.symm), hfit, ⟨header, hmagic, hheader⟩, hread⟩

/-- **What is read whole is a capture**, and nothing else is. -/
theorem capture_iff (I : Input) : (∃ c : Capture, c.ReadFrom I) ↔ I.ReadWhole := by
  constructor
  · rintro ⟨c, h⟩
    exact h.readWhole
  · intro h
    exact h.exists_capture

end MoexDecoder
