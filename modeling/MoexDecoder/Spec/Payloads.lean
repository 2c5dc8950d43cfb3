import MoexDecoder.Spec.Frames
import MoexDecoder.Spec.Program
import MoexDecoder.Spec.UdpRecord

/-!
# Translating payloads

What the program makes of a capture, with the capture reduced to the UDP payloads in it
and the program to a function. `decodeEach` decodes each payload with a decoder of its
own, in memory that holds nothing else, and `translatePayloads` writes the lines. There
is no chunk here, no thread, no queue and no decoder that goes from packet to packet.
-/

namespace MoexDecoder

/-- The payload of a frame of UDP. -/
def udpPayload (frame : List UInt8) : Option (List UInt8) :=
  if frameProtocol frame = UDP_PROTOCOL then some (framePayload frame) else none

/-- The calls of the payloads, each decoded on its own, up to one that raises an exception. -/
def decodeEach (hs : MessageHandlers) : List (List UInt8) → List Call × Option Exception
  | [] => ([], none)
  | payload :: payloads =>
    let r := decodeMessage hs (payloadSpan payload) .init
    match r.exception with
    | none => (r.calls ++ (decodeEach hs payloads).1, (decodeEach hs payloads).2)
    | some e => (r.calls, some e)

/-- **What is made of payloads**: the files, and the exception that ended it. -/
def translatePayloads (o : Options) (f : Printing) (payloads : List (List UInt8)) : Files × Option Exception :=
  let decoded := decodeEach o.handlers payloads
  let written := Files.putAll f {} decoded.1
  (written.1, written.2.or decoded.2)

/-- Files written behind those that are there. -/
def Files.append (o o' : Files) : Files := ⟨o.csv ++ o'.csv, o.book ++ o'.book⟩

instance : Append Files := ⟨Files.append⟩

end MoexDecoder
