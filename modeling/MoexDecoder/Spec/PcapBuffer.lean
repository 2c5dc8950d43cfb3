import MoexDecoder.Lib.Loop
import MoexDecoder.Lib.Memory

/-!
# The producer: `PCAPBuffer::start_buffering`

The producer reads the capture file in chunks of `BATCH_SIZE` bytes into
`local_buffer_`, cuts each chunk into packets and pushes them as one batch.
`fillStep` is one pass of the inner loop, `pass` one pass of the outer loop up to
the push, `bufferStep` the outer loop with the queue it pushes to.

Sizes and offsets are `size_t`, modelled by `ℕ`: a buffer and a file of less than
`2 ^ 63` bytes keep every sum the code takes below `2 ^ 64`.
-/

namespace MoexDecoder

/-- `pcap_hdr_t`, the global header of a capture file. -/
structure PcapHdr where
  magicNumber : UInt32
  versionMajor : UInt16
  versionMinor : UInt16
  thiszone : Int32
  sigfigs : UInt32
  snaplen : UInt32
  network : UInt32
deriving DecidableEq

instance : Wire PcapHdr := .ofEquiv (β := UInt32 × UInt16 × UInt16 × Int32 × UInt32 × UInt32 × UInt32)
  ⟨fun h => (h.magicNumber, h.versionMajor, h.versionMinor, h.thiszone, h.sigfigs, h.snaplen, h.network),
    fun (a, b, c, d, e, f, g) => ⟨a, b, c, d, e, f, g⟩, fun _ => rfl, fun _ => rfl⟩

/-- `pcaprec_hdr_s`, the header of a record. -/
structure PcaprecHdr where
  tsSec : UInt32
  tsUsec : UInt32
  capturedLength : UInt32
  origLen : UInt32
deriving DecidableEq

instance : Wire PcaprecHdr := .ofEquiv (β := UInt32 × UInt32 × UInt32 × UInt32)
  ⟨fun h => (h.tsSec, h.tsUsec, h.capturedLength, h.origLen), fun (a, b, c, d) => ⟨a, b, c, d⟩,
    fun _ => rfl, fun _ => rfl⟩

/-- `PCAPProcessor::PCAP_REFERENCE_MAGIC_NUMBER`. -/
def PCAP_REFERENCE_MAGIC_NUMBER : UInt32 := 0xa1b23c4d

/-- The header of a capture of Ethernet frames. -/
def PcapHdr.ethernet : PcapHdr := ⟨PCAP_REFERENCE_MAGIC_NUMBER, 2, 4, 0, 0, 65535, 1⟩

/-- `sizeof(pcap_hdr_t)`: where the records start. -/
def HEADER_SIZE : ℕ := Wire.size PcapHdr

/-- `sizeof(pcaprec_hdr_s)`. -/
def RECORD_HEADER_SIZE : ℕ := Wire.size PcaprecHdr

theorem HEADER_SIZE_eq : HEADER_SIZE = 24 := rfl

theorem RECORD_HEADER_SIZE_eq : RECORD_HEADER_SIZE = 16 := rfl

@[simp] theorem size_pcaprecHdr : Wire.size PcaprecHdr = RECORD_HEADER_SIZE := rfl

/-- `PCAPBuffer::BATCH_SIZE` as the source sets it. -/
def BATCH_SIZE : ℕ := 16 * 1024 * 1024

/-- The packets of one chunk. -/
structure BufferedPackets where
  startPacketNumber : ℕ := 0
  numberPackets : ℕ := 0
  packets : List (List UInt8) := []
deriving DecidableEq

/-- What the producer works on. -/
structure Input where
  /-- `BATCH_SIZE`, also the size of `local_buffer_` -/
  batchSize : ℕ
  /-- the bytes of the capture file -/
  file : List UInt8
  /-- what lies behind `local_buffer_` in memory, in each pass of the outer loop -/
  past : ℕ → Mem

namespace Input

/-- `file_size_`. -/
def fileSize (I : Input) : ℕ := I.file.length

end Input

/-- The producer's side of `PCAPBuffer`. -/
structure Producer where
  /-- `current_offset_` -/
  currentOffset : ℕ
  /-- the get position of `file_handle_` -/
  filePos : ℕ
  /-- the memory from `local_buffer_.data()` on -/
  localBuffer : Mem
  /-- `packet_nr`, local to the thread function -/
  packetNr : ℕ
  /-- passes of the outer loop so far; it only picks `Input.past` -/
  passes : ℕ

/-- A producer on a file handle at `offset`: `local_buffer_` holds zeros. -/
def Producer.init (offset : ℕ) : Producer where
  currentOffset := offset
  filePos := offset
  localBuffer := fun _ => 0
  packetNr := 1
  passes := 0

variable (I : Input)

/-! ## The inner loop -/

/-- The state of the inner loop. -/
structure Fill where
  /-- `offset`, in the chunk -/
  offset : ℕ
  /-- `current_offset_`, in the file -/
  currentOffset : ℕ
  packetNr : ℕ
  bufferedPackets : BufferedPackets

/-- `packet_header`, read at `offset` of `local_buffer_`. -/
def packetHeader (buf : Mem) (offset : ℕ) : PcaprecHdr :=
  Wire.decode (buf.read offset RECORD_HEADER_SIZE)

/-- The length a header read at `offset` states. -/
def capturedLength (buf : Mem) (offset : ℕ) : ℕ := (packetHeader buf offset).capturedLength.toNat

/-- One pass of the inner loop over the chunk in `buf`. -/
def fillStep (buf : Mem) (s : Fill) : Option Fill :=
  if s.currentOffset < I.fileSize ∧ s.offset < I.batchSize then
    let offset := s.offset + RECORD_HEADER_SIZE
    let len := capturedLength buf s.offset
    if offset + len ≥ I.batchSize then
      none
    else
      some {
        offset := offset + len
        currentOffset := s.currentOffset + (RECORD_HEADER_SIZE + len)
        packetNr := s.packetNr + 1
        bufferedPackets := { s.bufferedPackets with
          packets := s.bufferedPackets.packets ++ [buf.read offset len]
          numberPackets := s.bufferedPackets.numberPackets + 1 } }
  else
    none

/-- The inner loop. The offset in the chunk grows at every pass. -/
def fill (buf : Mem) : Fill → Fill := Loop.run (fillStep I buf) fun s => I.batchSize - s.offset

/-! ## The outer loop -/

/-- `bytes_to_read`. -/
def bytesToRead (currentOffset : ℕ) : ℕ :=
  if currentOffset + I.batchSize > I.fileSize then I.fileSize - currentOffset else I.batchSize

/-- `file_handle_.read`: it fails when the file does not hold the bytes asked for. -/
def readFile (pos n : ℕ) : Option (List UInt8) :=
  if pos + n ≤ I.fileSize then some ((I.file.drop pos).take n) else none

/-- `local_buffer_` after `chunk` was read into it. -/
def loadBuffer (p : Producer) (chunk : List UInt8) : Mem :=
  Span.mem ⟨chunk, fun i => if i < I.batchSize then p.localBuffer i else I.past p.passes i⟩

/-- The inner loop's state at the start of a pass. -/
def Fill.init (p : Producer) : Fill where
  offset := 0
  currentOffset := p.currentOffset
  packetNr := p.packetNr
  bufferedPackets := { startPacketNumber := p.packetNr }

/-- One pass of the outer loop, up to the push: the producer after it and the batch. -/
def pass (p : Producer) : Except String (Producer × BufferedPackets) :=
  match readFile I p.filePos (bytesToRead I p.currentOffset) with
  | none => .error "Cannot read from the PCAP file."
  | some chunk =>
    let buf := loadBuffer I p chunk
    let s := fill I buf (Fill.init p)
    .ok ({ currentOffset := s.currentOffset
           filePos := p.filePos + chunk.length
           localBuffer := buf
           packetNr := s.packetNr
           passes := p.passes + 1 }, s.bufferedPackets)

/-- `file_handle_.seekg(current_offset_)`. -/
def Producer.seekg (p : Producer) : Producer := { p with filePos := p.currentOffset }

/-- The producer with its queue, on its own. -/
structure Buffering where
  producer : Producer
  /-- `pcap_data_chunks_`, that nobody pops -/
  pcapDataChunks : List BufferedPackets
  /-- the exception that left the thread function -/
  error : Option String

/-- One pass of the outer loop with nobody storing to `is_started_` meanwhile. -/
def bufferStep (s : Buffering) : Option Buffering :=
  if s.error = none ∧ s.producer.currentOffset < I.fileSize then
    match pass I s.producer with
    | .error e => some { s with error := some e }
    | .ok (p, b) => some { s with producer := p.seekg, pcapDataChunks := s.pcapDataChunks ++ [b] }
  else
    none

/-- The producer loop's start, behind the global header. -/
def Buffering.init : Buffering := ⟨Producer.init HEADER_SIZE, [], none⟩

/-- The packets pushed so far, in push order. -/
def Buffering.packets (s : Buffering) : List (List UInt8) := s.pcapDataChunks.flatMap (·.packets)

end MoexDecoder
