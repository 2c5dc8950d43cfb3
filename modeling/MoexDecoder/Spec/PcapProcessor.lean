import MoexDecoder.Lib.Schedule
import MoexDecoder.Spec.PacketProcessor
import MoexDecoder.Spec.PcapBuffer

/-!
# The two threads: `PCAPProcessor`

`World` is the program after `PCAPProcessor` opened the capture file: the producer
thread of `PCAPBuffer::start_buffering`, the consumer thread, and what they share, the
queue `pcap_data_chunks_` and the flag `is_started_`. A turn of a thread is one action
on what is shared, with the private work up to the next one; pushes and pops hold
`chuncks_mutex`, so each is one turn.

Ghost fields (`pushed`, `popped`, `handed`) record what went through the queue.
-/

namespace MoexDecoder

/-- `ErrorMessage::ERROR_MSG_ZERO_SIZE`. -/
def ERROR_MSG_ZERO_SIZE : String := "Cannot analyze a file of size zero"

/-- `ErrorMessage::ERROR_CANNOT_READ_PCAP_HEADER`. -/
def ERROR_CANNOT_READ_PCAP_HEADER : String :=
  "Cannot read the PCAP file header, make sure it is a valid PCAP file."

/-- How opening a capture file ends, short of the threads being started. -/
inductive OpenError
  | error (message : String)
  /-- `exit(code)` -/
  | exit (code : ℕ)
deriving DecidableEq

/-- `PCAPProcessor::process_header`, and the size check before it. -/
def processHeader (file : List UInt8) : Except OpenError PcapHdr :=
  if file.length = 0 then
    .error (.error ERROR_MSG_ZERO_SIZE)
  else if file.length < HEADER_SIZE then
    .error (.error ERROR_CANNOT_READ_PCAP_HEADER)
  else
    let header : PcapHdr := Wire.decode (file.take HEADER_SIZE)
    if header.magicNumber ≠ PCAP_REFERENCE_MAGIC_NUMBER then .error (.exit 1) else .ok header

/-- Every file that starts with a header of the reference magic number is accepted. -/
theorem processHeader_encode (header : PcapHdr) (hm : header.magicNumber = PCAP_REFERENCE_MAGIC_NUMBER)
    (rest : List UInt8) : processHeader (Wire.encode header ++ rest) = .ok header := by
  have hlen : (Wire.encode header).length = HEADER_SIZE := Wire.encode_length header
  have h24 := HEADER_SIZE_eq
  unfold processHeader
  rw [if_neg (by simp [hlen]; omega), if_neg (by simp [hlen]), List.take_left' hlen, Wire.decode_encode]
  simp [hm]

/-! ## The consumer's work -/

/-- The decoder the consumer owns, with the calls each `decode_message` made. -/
structure Decoded where
  decoder : SIMBADecoder := .init
  calls : List (List Call) := []

/-- The consumer's UDP handler. -/
def udpHandler (hs : MessageHandlers) : UDPPacketHandler Decoded := fun udpPayload d =>
  let r := decodeMessage hs udpPayload d.decoder
  (⟨r.decoder, d.calls ++ [r.calls]⟩, r.exception)

/-- The calls of `process_packet` that `process_batch` makes, one packet after the
other. The exception that leaves one of them leaves `process_batch` too. -/
def processPackets (hs : MessageHandlers) :
    List Span → PacketProcessor Decoded → PacketProcessor Decoded × Option Exception
  | [], pr => (pr, none)
  | packet :: packets, pr =>
    let r := processPacket (udpHandler hs) packet pr
    match r.exception with
    | none => processPackets hs packets r.processor
    | some e => (r.processor, some e)

/-- The processor that the consumer thread makes. -/
def PacketProcessor.init : PacketProcessor Decoded := { handlerState := {} }

/-- Packets in memory, with what lies behind the `k`-th of them. -/
def inMemory (heap : ℕ → Mem) (packets : List (List UInt8)) : List Span :=
  packets.mapIdx fun k packet => ⟨packet, heap k⟩

/-- What a run of the program depends on. -/
structure Env extends Input where
  handlers : MessageHandlers
  /-- what lies behind the `k`-th packet in memory when it is processed -/
  heap : ℕ → Mem

variable (E : Env)

/-- `processor.process_packet(packet)` for the `k`-th packet. -/
def Env.process (k : ℕ) (packet : List UInt8) (pr : PacketProcessor Decoded) : Processed Decoded :=
  processPacket (udpHandler E.handlers) ⟨packet, E.heap k⟩ pr

/-! ## The threads -/

/-- Where the producer thread is. -/
inductive ProducerPc
  /-- before `is_started_ = true` -/
  | launch
  /-- at the head of the outer loop -/
  | loop
  /-- before the push of a batch -/
  | push (b : BufferedPackets)
  /-- behind the loop, before `is_started_.store(false)` -/
  | leave
  | finished
deriving DecidableEq

/-- Where the consumer thread is. -/
inductive ConsumerPc
  /-- in or before `wait_started` -/
  | waitStarted
  /-- at `while (is_started())` -/
  | check
  /-- in `process_batch`, at `next_batch()` -/
  | poll
  /-- in `process_batch`, with the packets of the batch still to be processed -/
  | batch (b : BufferedPackets) (rest : List (List UInt8))
  | sleep
  | finished
deriving DecidableEq

/-- The consumer thread's variables. -/
structure Consumer where
  pc : ConsumerPc
  processor : PacketProcessor Decoded
  /-- `batch_number_` -/
  batchNumber : ℕ
  /-- `total_number_packets` of the thread function -/
  total : ℕ
  /-- `total_number_packets` of `process_batch` -/
  batchTotal : ℕ

structure World where
  producerPc : ProducerPc
  producer : Producer
  consumer : Consumer
  /-- `is_started_` -/
  isStarted : Bool
  /-- `pcap_data_chunks_` -/
  pcapDataChunks : List BufferedPackets
  /-- the uncaught exception that ended the process -/
  terminated : Option Exception
  /-- every batch pushed -/
  pushed : List BufferedPackets
  /-- every batch popped -/
  popped : List BufferedPackets
  /-- every packet handed to `process_packet` -/
  handed : List (List UInt8)

inductive Thread
  | producer
  | consumer
deriving DecidableEq

namespace World

/-- The threads are started, and none has taken a turn. -/
def init : World where
  producerPc := .launch
  producer := Producer.init HEADER_SIZE
  consumer := ⟨.waitStarted, .init, 1, 0, 0⟩
  isStarted := false
  pcapDataChunks := []
  terminated := none
  pushed := []
  popped := []
  handed := []

/-- A turn of the producer; `none` when it has none to take. -/
def producerTurn (w : World) : Option World :=
  match w.producerPc with
  | .launch => some { w with isStarted := true, producerPc := .loop }
  | .loop =>
    if w.producer.currentOffset < E.fileSize ∧ w.isStarted = true then
      match pass E.toInput w.producer with
      | .error e => some { w with terminated := some e }
      | .ok (p, b) => some { w with producer := p, producerPc := .push b }
    else
      some { w with producerPc := .leave }
  | .push b => some { w with
      pcapDataChunks := w.pcapDataChunks ++ [b]
      pushed := w.pushed ++ [b]
      producer := w.producer.seekg
      producerPc := .loop }
  | .leave => some { w with isStarted := false, producerPc := .finished }
  | .finished => none

/-- A turn of the consumer; `none` when it is blocked or done. -/
def consumerTurn (w : World) : Option World :=
  let c := w.consumer
  match c.pc with
  | .waitStarted =>
    -- `is_started_.wait(false)` returns when it loads a value other than `false`
    if w.isStarted = true then some { w with consumer := { c with pc := .check } } else none
  | .check =>
    if w.isStarted = true then some { w with consumer := { c with pc := .poll, batchTotal := 0 } }
    else some { w with consumer := { c with pc := .finished } }
  | .poll =>
    match w.pcapDataChunks with
    | [] => some { w with consumer := { c with pc := .sleep, total := c.total + c.batchTotal, batchTotal := 0 } }
    | b :: bs => some { w with
        pcapDataChunks := bs
        popped := w.popped ++ [b]
        consumer := { c with pc := .batch b b.packets } }
  | .batch b [] => some { w with consumer := { c with
      pc := .poll
      batchNumber := c.batchNumber + 1
      batchTotal := c.batchTotal + b.numberPackets } }
  | .batch b (packet :: rest) =>
    let r := E.process w.handed.length packet c.processor
    some { w with
      handed := w.handed ++ [packet]
      terminated := r.exception
      consumer := { c with pc := .batch b rest, processor := r.processor } }
  | .sleep => some { w with consumer := { c with pc := .check } }
  | .finished => none

/-- A turn of a thread. A terminated process has no threads. -/
def turn (w : World) (t : Thread) : Option World :=
  if w.terminated = none then
    match t with
    | .producer => w.producerTurn E
    | .consumer => w.consumerTurn E
  else
    none

/-- A thread that has no turn to take leaves the world as it is. -/
def step (t : Thread) (w : World) : World := (w.turn E t).getD w

end World

/-- The world after `n` turns of a schedule. -/
def worldAt (sched : ℕ → Thread) (n : ℕ) : World := Schedule.stateAt (World.step E) World.init sched n

end MoexDecoder
