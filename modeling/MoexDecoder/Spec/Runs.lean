import MoexDecoder.Spec.Frames
import MoexDecoder.Spec.Program
import MoexDecoder.Spec.UdpRecord

/-!
# What `main` comes to

`mainAt` is the program from its start: `PCAPProcessor` reads the header of the file before
it makes a thread, and a file that is not accepted ends it there.

A frame that is not safe is read past its end, and what becomes of the process is not in
the code. `RunsTo` are the runs where this does not happen: those that an implementation
follows turn by turn.
-/

namespace MoexDecoder

open StateTransition

/-! ## Safe frames -/

/-- **A safe frame** has the bytes of the slices of its headers, and if it is of UDP a
payload whose accesses stay inside. -/
structure FrameSafe (frame : List UInt8) : Prop where
  long : 94 ≤ frame.length
  payload : frameProtocol frame = UDP_PROTOCOL → AccessesInside (payloadSpan (framePayload frame))

instance (frame : List UInt8) : Decidable (FrameSafe frame) :=
  decidable_of_iff (94 ≤ frame.length ∧
      (frameProtocol frame = UDP_PROTOCOL → AccessesInside (payloadSpan (framePayload frame))))
    ⟨fun h => ⟨h.1, h.2⟩, fun h => ⟨h.long, h.payload⟩⟩

/-- The spans of `process_packet` lie inside the frame, and the accesses of the call of
`decode_message` inside the payload that it is given. -/
structure ProcessedInside (hs : MessageHandlers) (packet : Span) (pr : PacketProcessor Decoded) : Prop where
  spans : ∀ s ∈ (processPacket (udpHandler hs) packet pr).spans, s.Inside packet.bytes.length
  accesses : ∀ off, .rest off ∈ (processPacket (udpHandler hs) packet pr).spans →
    ∀ a ∈ (decodeMessage hs (packet.subspan off) pr.handlerState.decoder).accesses,
      a.InRange (packet.subspan off).bytes.length

/-- The turn of thread `t` hands a packet to `process_packet`. -/
def World.Hands (w : World) (t : Thread) (packet : List UInt8) : Prop :=
  w.terminated = none ∧ t = .consumer ∧ ∃ b rest, w.consumer.pc = .batch b (packet :: rest)

/-- All packets that the producer can come to push are safe frames. -/
def Job.SafeFrames (J : Job) : Prop :=
  ∀ S, Reaches (bufferStep J.toInput) Buffering.init S → ∀ packet ∈ S.packets, FrameSafe packet

/-! ## From the start of `main` -/

/-- `process_header` accepts the file. -/
def Job.Opened (J : Job) : Prop := ∃ header, processHeader J.file = .ok header

/-- `main` after `n` turns of a schedule. The constructor of `PCAPProcessor` calls
`process_header` before there are threads: what is thrown there, or `exit(1)`, is all. -/
def mainAt (J : Job) (sched : ℕ → ProgramThread) (n : ℕ) : Except OpenError Program :=
  (processHeader J.file).map fun _ => programAt J sched n

/-- **`main` comes to `s`** in `n` turns, none of which reads past a frame or a payload or
writes past a struct. -/
structure RunsTo (J : Job) (sched : ℕ → ProgramThread) (n : ℕ) (s : Program) : Prop where
  started : mainAt J sched n = .ok s
  inside : ∀ m < n, ∀ t packet, (programAt J sched m).exception = none → sched m = .worker t →
    (programAt J sched m).world.Hands t packet →
      ProcessedInside J.options.handlers ⟨packet, J.heap (programAt J sched m).world.handed.length⟩
        (programAt J sched m).world.consumer.processor

end MoexDecoder
