import MoexDecoder.Proof.Frames
import MoexDecoder.Proof.Stateless
import MoexDecoder.Proof.World
import MoexDecoder.Spec.UdpRecord

/-!
# A bad packet among others

* `sequential`: what the consumer of the two-thread program has done at any point of any
  run is `processPackets` on the packets handed over so far; an exception that leaves it
  ends the process.
* `processPackets_records`: captured UDP records are decoded one by one, each as if it
  were alone, up to the first that is not `Clean`.
* `isolated_iff`: with the payload of one record replaced, all records are processed and
  the others' calls stay **exactly when** every record is clean, before and after.
* `badSide_ends`: one record with a bad side byte takes the others down.
-/

namespace MoexDecoder

variable {hs : MessageHandlers} {p : Span} {rs : List UdpRecord}

/-! ## The consumer's work, in sequence -/

theorem processPackets_append (packets more : List Span) (pr : PacketProcessor Decoded) :
    processPackets hs (packets ++ more) pr =
      match processPackets hs packets pr with
      | (pr', none) => processPackets hs more pr'
      | (pr', some e) => (pr', some e) := by
  induction packets generalizing pr with
  | nil => rfl
  | cons packet packets ih =>
    simp only [List.cons_append, processPackets]
    cases (processPacket (udpHandler hs) packet pr).exception with
    | none => exact ih _
    | some e => rfl

theorem processPackets_concat (packets : List Span) (packet : Span) (pr : PacketProcessor Decoded)
    (h : (processPackets hs packets pr).2 = none) :
    processPackets hs (packets ++ [packet]) pr =
      ((processPacket (udpHandler hs) packet (processPackets hs packets pr).1).processor,
        (processPacket (udpHandler hs) packet (processPackets hs packets pr).1).exception) := by
  rw [processPackets_append]
  generalize processPackets hs packets pr = done at h ⊢
  obtain ⟨pr', e⟩ := done
  obtain rfl : e = none := h
  simp only [processPackets]
  cases (processPacket (udpHandler hs) packet pr').exception <;> rfl

/-- The consumer's processor is that of the sequential run over the packets handed over. -/
def World.Sequential (E : Env) (w : World) : Prop :=
  processPackets E.handlers (inMemory E.heap w.handed) .init = (w.consumer.processor, w.terminated)

theorem Move.sequential {E : Env} {w w' : World} {t : Thread} (hc : w.Control E) (h : w.Sequential E)
    (hterm : w.terminated = none) (hm : Move E w t w') : w'.Sequential E := by
  unfold World.Sequential at h ⊢
  cases hm with
  | fail e hpc hlt he => exact absurd he (hc.no_error hpc hlt)
  | process b packet rest hpc =>
    -- the process has not ended, so no exception was raised so far
    have hnone : (processPackets E.handlers (inMemory E.heap w.handed) .init).2 = none := by
      rw [h]; exact hterm
    simp only [inMemory, List.mapIdx_concat] at h hnone ⊢
    rw [processPackets_concat _ _ _ hnone, h]
    rfl
  | _ => exact h

theorem sequential (E : Env) (sched : ℕ → Thread) (n : ℕ) : (worldAt E sched n).Sequential E :=
  (Schedule.inv (P := fun w => w.Control E ∧ w.Sequential E)
    (step_inv fun _ _ _ h hterm hm => ⟨hm.control h.1 hterm, hm.sequential h.1 h.2 hterm⟩)
    ⟨World.init_control E, rfl⟩ n).2

/-! ## One record -/

/-- A payload raises no exception exactly when it is clean. -/
theorem payloadException_none (payload : List UInt8) :
    payloadException (payloadSpan payload) = none ↔ Clean payload := by
  rw [payloadException, List.findSome?_eq_none_iff]
  exact forall₂_congr fun v _ => v.exception_none

namespace UdpRecord

/-- What the record asks the handlers to be told. -/
def calls (hs : MessageHandlers) (r : UdpRecord) : List Call :=
  (payloadCalls (payloadSpan r.payload)).filter hs.takes

def exception (r : UdpRecord) : Option Exception := payloadException (payloadSpan r.payload)

theorem headers_le_head (r : UdpRecord) : ETH_PACKET_SIZE + 20 + UDP_HEADER_SIZE ≤ r.head.length := by
  have h := r.ihl
  rw [r.head_length]; omega

/-- The bytes of the headers, in the frame. -/
theorem frame_getD (r : UdpRecord) {i : ℕ} (hi : i < r.head.length) : r.frame.getD i 0 = r.head.getD i 0 := by
  rw [frame, List.getD_eq_getElem?_getD, List.getD_eq_getElem?_getD, List.getElem?_append_left hi]

/-- **The handler is given the payload** of the record, once. -/
theorem processPacket_frame {δ : Type} (r : UdpRecord) (handler : UDPPacketHandler δ) {packet : Span}
    (hb : packet.bytes = r.frame) (pr : PacketProcessor δ) :
    ∃ span : Span, span.bytes = r.payload ∧
      (processPacket handler packet pr).processor.handlerState = (handler span pr.handlerState).1 ∧
      (processPacket handler packet pr).exception = (handler span pr.handlerState).2 := by
  have hhead := r.headers_le_head
  have hlen : 24 ≤ packet.bytes.length := by
    rw [hb, frame, List.length_append]
    exact le_trans (by decide) (le_trans hhead (Nat.le_add_right _ _))
  have hprotocol : frameProtocol packet.bytes = UDP_PROTOCOL := by
    rw [frameProtocol, hb, r.frame_getD (by omega), r.protocol]
  have hoff : frameUdpOffset packet.bytes + UDP_HEADER_SIZE = r.head.length := by
    rw [frameUdpOffset, frameIhl, hb, r.frame_getD (by omega), ← r.head_length]
  refine ⟨packet.subspan r.head.length, by simp [Span.subspan, hb, frame], ?_⟩
  rw [processPacket_udp handler hlen hprotocol, hoff]
  exact ⟨rfl, rfl⟩

/-- **One record is decoded as if it were alone.** -/
theorem processPacket_record (r : UdpRecord) (hs : MessageHandlers) {packet : Span} (hb : packet.bytes = r.frame)
    (pr : PacketProcessor Decoded) (ht : Templates pr.handlerState.decoder.mapping) :
    let out := processPacket (udpHandler hs) packet pr
    out.exception = r.exception ∧
      out.processor.handlerState.calls = pr.handlerState.calls ++ [r.calls hs] ∧
      Templates out.processor.handlerState.decoder.mapping := by
  obtain ⟨span, hspan, hstate, hexc⟩ := r.processPacket_frame (udpHandler hs) hb pr
  have hdec := decodeMessage_decodes hs span ht
  have hvisits : visits span = visits (payloadSpan r.payload) := visits_past hspan r.inside.reads
  refine ⟨?_, ?_, ?_⟩
  · rw [hexc, exception, payloadException, ← hvisits]; exact hdec.exception
  · rw [hstate, calls, payloadCalls, ← hvisits, ← payloadCalls, ← hdec.calls]; rfl
  · rw [hstate]; exact hdec.templates

/-- The records up to the first that raises an exception, which is among them. -/
def reached : List UdpRecord → List UdpRecord
  | [] => []
  | r :: rs => if r.exception = none then r :: reached rs else [r]

end UdpRecord

/-- **A list of records** is decoded one by one, up to the first that raises an exception. -/
theorem processPackets_records {packets : List Span} (hb : packets.map (·.bytes) = rs.map (·.frame))
    (pr : PacketProcessor Decoded) (ht : Templates pr.handlerState.decoder.mapping) :
    (processPackets hs packets pr).2 = rs.findSome? (·.exception) ∧
      (processPackets hs packets pr).1.handlerState.calls =
        pr.handlerState.calls ++ (UdpRecord.reached rs).map (·.calls hs) := by
  induction rs generalizing packets pr with
  | nil =>
    obtain rfl : packets = [] := by simpa using hb
    simp [processPackets, UdpRecord.reached]
  | cons r rs ih =>
    cases packets with
    | nil => simp at hb
    | cons packet packets =>
      obtain ⟨hpacket, hrest⟩ : packet.bytes = r.frame ∧ packets.map (·.bytes) = rs.map (·.frame) := by
        simpa using hb
      obtain ⟨hexc, hcalls, ht'⟩ := r.processPacket_record hs hpacket pr ht
      simp only [processPackets, List.findSome?_cons, UdpRecord.reached, hexc]
      cases h : r.exception with
      | none =>
        -- the processor goes on with the next record
        obtain ⟨hexc', hcalls'⟩ := ih hrest _ ht'
        rw [if_pos rfl, List.map_cons]
        exact ⟨hexc', by rw [hcalls', hcalls, List.append_assoc, List.singleton_append]⟩
      | some e =>
        -- the exception leaves with the calls made before it
        rw [if_neg (by simp)]
        exact ⟨rfl, hcalls⟩

/-! ## Isolation -/

/-- The run of the consumer over the frames of a list of records. -/
def processRecords (hs : MessageHandlers) (heap : ℕ → Mem) (rs : List UdpRecord) :
    PacketProcessor Decoded × Option Exception :=
  processPackets hs (inMemory heap (rs.map (·.frame))) .init

theorem inMemory_bytes (heap : ℕ → Mem) (packets : List (List UInt8)) :
    (inMemory heap packets).map (·.bytes) = packets := by
  apply List.ext_getElem <;> simp [inMemory]

/-- All records of a list are processed exactly when all are clean. -/
theorem processRecords_none (hs : MessageHandlers) (heap : ℕ → Mem) (rs : List UdpRecord) :
    (processRecords hs heap rs).2 = none ↔ ∀ r ∈ rs, Clean r.payload := by
  rw [processRecords, (processPackets_records (inMemory_bytes _ _) .init init_templates).1,
    List.findSome?_eq_none_iff]
  exact forall₂_congr fun r _ => payloadException_none r.payload

/-- When all are clean, each makes its own calls. -/
theorem processRecords_calls (hs : MessageHandlers) (heap : ℕ → Mem) {rs : List UdpRecord}
    (h : ∀ r ∈ rs, Clean r.payload) :
    (processRecords hs heap rs).1.handlerState.calls = rs.map (·.calls hs) := by
  rw [processRecords, (processPackets_records (inMemory_bytes _ _) .init init_templates).2]
  have hreached : UdpRecord.reached rs = rs := by
    induction rs with
    | nil => rfl
    | cons r rs ih =>
      have hr : r.exception = none := (payloadException_none r.payload).2 (h r List.mem_cons_self)
      rw [UdpRecord.reached, if_pos hr, ih fun r hr => h r (List.mem_cons_of_mem _ hr)]
  rw [hreached]
  rfl

/-- The payload of record `i` replaced: both lists are processed to their end, the one with the
record as it was as well as the one with the other payload, and all other records make the
calls they made. -/
structure Isolated (hs : MessageHandlers) (heap heap' : ℕ → Mem) (rs : List UdpRecord) (i : Fin rs.length)
    (x : rs[i].Replacement) : Prop where
  before : (processRecords hs heap rs).2 = none
  after : (processRecords hs heap' (rs.set i x.record)).2 = none
  others : ∀ j ≠ i.1, (processRecords hs heap' (rs.set i x.record)).1.handlerState.calls[j]? =
    (processRecords hs heap rs).1.handlerState.calls[j]?

/-- **When a bad packet does not take down the others.** -/
theorem isolated_iff (hs : MessageHandlers) (heap heap' : ℕ → Mem) (rs : List UdpRecord) (i : Fin rs.length)
    (x : rs[i].Replacement) :
    Isolated hs heap heap' rs i x ↔ (∀ r ∈ rs, Clean r.payload) ∧ Clean x.payload := by
  have hset : (∀ r ∈ rs, Clean r.payload) → Clean x.payload →
      ∀ r ∈ rs.set i x.record, Clean r.payload := by
    intro hrs hx r hr
    rcases List.mem_or_eq_of_mem_set hr with hr | rfl
    · exact hrs r hr
    · exact hx
  constructor
  · intro h
    refine ⟨(processRecords_none hs heap rs).1 h.before, ?_⟩
    exact (processRecords_none hs heap' _).1 h.after x.record (List.mem_set i.2 _)
  · rintro ⟨hrs, hx⟩
    refine ⟨(processRecords_none hs heap rs).2 hrs, (processRecords_none hs heap' _).2 (hset hrs hx), ?_⟩
    intro j hj
    rw [processRecords_calls hs heap hrs, processRecords_calls hs heap' (hset hrs hx), List.getElem?_map,
      List.getElem?_map, List.getElem?_set_ne (Ne.symm hj)]

/-- A snapshot of one entry, on the side `side`. -/
def oneEntry (side : MDEntryType) : List UInt8 :=
  Wire.encode (⟨1, 100, 0, 0⟩ : MarketDataPacketHeader) ++ Wire.encode (⟨16, 17, 0, 0⟩ : SBEHeader) ++
    Wire.encode (⟨1, 1, 1, 1, ⟨57, 1⟩⟩ : OrderBookSnapshotHeader) ++
    Wire.encode ({ orderId := 1, orderPrice := 100, side := side } : OrderBookEntry)

/-- The record of a snapshot with a bid, behind an IP header of twenty bytes. -/
def bidRecord : UdpRecord where
  head := List.replicate 12 0 ++ [0x08, 0x00] ++ [0x45, 0, 0, 128, 0, 0, 0, 0, 64, 0x11] ++ List.replicate 18 0
  payload := oneEntry .bid
  ihl := by decide
  head_length := by decide
  protocol := by decide
  inside := by decide

/-- Its side byte made a `'2'`. -/
def badSide : bidRecord.Replacement where
  payload := oneEntry (.ofByte 0x32)
  length_eq := by decide
  inside := by decide

/-- **The exception leaves the consumer**, and the record behind the bad one is not decoded. -/
theorem badSide_ends :
    (processRecords .all (fun _ _ => 0) [badSide.record, bidRecord]).2 =
        some "Cannot convert into index the book side" ∧
      (processRecords .all (fun _ _ => 0) [badSide.record, bidRecord]).1.handlerState.calls.length = 1 ∧
      ¬ Isolated .all (fun _ _ => 0) (fun _ _ => 0) [bidRecord, bidRecord] ⟨0, by decide⟩ badSide := by
  have hend : (processRecords .all (fun _ _ => 0) [badSide.record, bidRecord]).2 =
    some "Cannot convert into index the book side" := by decide
  refine ⟨hend, by decide, fun h => ?_⟩
  have hafter := h.after
  rw [show [bidRecord, bidRecord].set 0 badSide.record = [badSide.record, bidRecord] from rfl, hend] at hafter
  cases hafter

end MoexDecoder
