import MoexDecoder.Proof.Frames
import MoexDecoder.Proof.Program
import MoexDecoder.Spec.Runs

/-!
# Accesses over whole runs

* `processedInside_iff`: a frame is processed inside its bounds exactly when it is safe.
* `inside_iff` (every interleaving): the consumer has taken all its spans and made all its
  copies inside their bounds exactly when every frame it was handed is a safe one, which is
  a property of the bytes of the frame.
* `runsTo_programAt` (every interleaving): so on a file that is accepted, `main` comes to
  every state of the program on safe frames. `mainAt_refused`: on any other file it never
  has threads.
-/

namespace MoexDecoder

variable {pr : PacketProcessor Decoded}

/-! ## Safe frames -/

/-- Whether the accesses stay inside a payload does not depend on what lies behind it. -/
theorem accessesInside_past {p p' : Span} (hb : p'.bytes = p.bytes) (h : AccessesInside p) : AccessesInside p' := by
  have hvisits := visits_past hb h.reads
  have hheader := marketHeaderAt_past hb h.reads
  have haccesses : payloadAccesses p' = payloadAccesses p := by
    rw [payloadAccesses, payloadAccesses, hvisits, headerAccesses, headerAccesses, hheader]
  rw [AccessesInside, haccesses, hb]
  exact h

theorem payload_bytes (packet : Span) :
    (packet.subspan (frameUdpOffset packet.bytes + UDP_HEADER_SIZE)).bytes =
      (payloadSpan (framePayload packet.bytes)).bytes := rfl

/-- **A frame is processed inside its bounds** exactly when it is safe. -/
theorem processedInside_iff (hs : MessageHandlers) (packet : Span)
    (ht : Templates pr.handlerState.decoder.mapping) :
    ProcessedInside hs packet pr ↔ FrameSafe packet.bytes := by
  constructor
  · intro h
    have hlong : 94 ≤ packet.bytes.length :=
      headerSpans_inside.1 fun s hs' => h.spans s (headerSpans_subset _ packet pr hs')
    refine ⟨hlong, ?_⟩
    intro hp
    have hout := processPacket_udp (udpHandler hs) (by omega) hp pr
    have haccesses := h.accesses (frameUdpOffset packet.bytes + UDP_HEADER_SIZE) (by rw [hout]; simp)
    rw [(decodeMessage_decodes hs _ ht).accesses] at haccesses
    exact accessesInside_past (payload_bytes packet).symm haccesses
  · rintro ⟨hlong, hpayload⟩
    have hheaders := headerSpans_inside.2 hlong
    by_cases hp : frameProtocol packet.bytes = UDP_PROTOCOL
    · have hout := processPacket_udp (udpHandler hs) (by omega) hp pr
      constructor
      · intro s hs'
        rw [hout] at hs'
        rcases List.mem_append.1 hs' with hs' | hs'
        · exact hheaders s hs'
        · rw [List.mem_singleton.1 hs']
          exact payloadOffset_le hlong
      · intro off hoff
        rw [hout] at hoff
        have heq : off = frameUdpOffset packet.bytes + UDP_HEADER_SIZE := by simpa [headerSpans] using hoff
        rw [heq, (decodeMessage_decodes hs _ ht).accesses]
        exact accessesInside_past (payload_bytes packet) (hpayload hp)
    · have hout := processPacket_other (udpHandler hs) (by omega) hp pr
      constructor
      · intro s hs'
        rw [hout] at hs'
        exact hheaders s hs'
      · intro off hoff
        rw [hout] at hoff
        simp [headerSpans] at hoff

/-! ## Whole runs -/

/-- A turn hands over one packet. -/
theorem World.Hands.unique {w : World} {t : Thread} {packet packet' : List UInt8} (h : w.Hands t packet)
    (h' : w.Hands t packet') : packet = packet' := by
  obtain ⟨-, -, b, rest, hpc⟩ := h
  obtain ⟨-, -, b', rest', hpc'⟩ := h'
  rw [hpc] at hpc'
  cases hpc'
  rfl

/-- What a turn hands over is what it adds. -/
theorem step_handed (E : Env) (t : Thread) (w : World) :
    (∃ packet, w.Hands t packet ∧ (w.step E t).handed = w.handed ++ [packet]) ∨
      (∀ packet, ¬ w.Hands t packet) ∧ (w.step E t).handed = w.handed := by
  by_cases hhands : ∃ packet, w.Hands t packet
  · obtain ⟨packet, hterm, rfl, b, rest, hpc⟩ := hhands
    refine Or.inl ⟨packet, ⟨hterm, rfl, b, rest, hpc⟩, ?_⟩
    rw [World.step, World.turn, if_pos hterm]
    simp only [World.consumerTurn, hpc]
    rfl
  · rw [not_exists] at hhands
    refine Or.inr ⟨hhands, ?_⟩
    rcases step_cases E t w with hs | ⟨hterm, hm⟩
    · rw [hs]
    · generalize w.step E t = w' at hm
      cases hm with
      | process b packet rest hpc => exact absurd ⟨hterm, rfl, b, rest, hpc⟩ (hhands packet)
      | _ => rfl

/-- The packets handed over are those that some turn handed over. -/
theorem mem_handed {E : Env} {sched : ℕ → Thread} {n : ℕ} {packet : List UInt8} :
    packet ∈ (worldAt E sched n).handed ↔ ∃ m < n, (worldAt E sched m).Hands (sched m) packet := by
  induction n with
  | zero => simp [worldAt, Schedule.stateAt, World.init]
  | succ n ih =>
    have hstep : worldAt E sched (n + 1) = (worldAt E sched n).step E (sched n) := rfl
    have hsplit : (∃ m < n + 1, (worldAt E sched m).Hands (sched m) packet) ↔
        (∃ m < n, (worldAt E sched m).Hands (sched m) packet) ∨ (worldAt E sched n).Hands (sched n) packet := by
      simp only [Nat.lt_succ_iff_lt_or_eq, or_and_right, exists_or, exists_eq_left]
    rw [hsplit, ← ih, hstep]
    rcases step_handed E (sched n) (worldAt E sched n) with ⟨packet', hhands, heq⟩ | ⟨hnone, heq⟩
    · rw [heq, List.mem_append, List.mem_singleton]
      refine or_congr_right ⟨?_, fun h => h.unique hhands⟩
      rintro rfl
      exact hhands
    · rw [heq]
      simp [hnone packet]

/-- A processor's decoder knows its templates. -/
theorem processPackets_templates (hs : MessageHandlers) (packets : List Span)
    (ht : Templates pr.handlerState.decoder.mapping) :
    Templates (processPackets hs packets pr).1.handlerState.decoder.mapping := by
  induction packets generalizing pr with
  | nil => exact ht
  | cons packet packets ih =>
    have hnext : Templates (processPacket (udpHandler hs) packet pr).processor.handlerState.decoder.mapping := by
      unfold processPacket
      dsimp only
      split
      · exact ht
      · exact (decodeMessage_decodes hs _ ht).templates
    simp only [processPackets]
    cases (processPacket (udpHandler hs) packet pr).exception with
    | none => exact ih hnext
    | some e => exact hnext

theorem World.Sequential.templates {E : Env} {w : World} (h : w.Sequential E) :
    Templates w.consumer.processor.handlerState.decoder.mapping := by
  have htemplates : Templates
      (processPackets E.handlers (inMemory E.heap w.handed) .init).1.handlerState.decoder.mapping :=
    processPackets_templates E.handlers _ init_templates
  rw [World.Sequential] at h
  rwa [h] at htemplates

/-- **The whole run stays inside** exactly when every frame handed over is safe: the spans
and the accesses of each turn of the consumer, in the state in which it takes it. -/
theorem inside_iff (E : Env) (sched : ℕ → Thread) (n : ℕ) :
    (∀ m < n, ∀ packet, (worldAt E sched m).Hands (sched m) packet →
        ProcessedInside E.handlers ⟨packet, E.heap (worldAt E sched m).handed.length⟩
          (worldAt E sched m).consumer.processor) ↔
      ∀ packet ∈ (worldAt E sched n).handed, FrameSafe packet := by
  have hiff : ∀ m packet, ProcessedInside E.handlers ⟨packet, E.heap (worldAt E sched m).handed.length⟩
      (worldAt E sched m).consumer.processor ↔ FrameSafe packet := fun m packet =>
    processedInside_iff E.handlers ⟨packet, _⟩ (sequential E sched m).templates
  simp only [hiff, mem_handed]
  constructor
  · rintro h packet ⟨m, hm, hhands⟩
    exact h m hm packet hhands
  · intro h m hm packet hhands
    exact h packet ⟨m, hm, hhands⟩

/-! ## From the start of `main` -/

variable {J : Job} {sched : ℕ → ProgramThread} {m n : ℕ}

/-- A file that is not accepted ends `main` before it has threads. -/
theorem mainAt_refused {e : OpenError} (h : processHeader J.file = .error e) (sched : ℕ → ProgramThread) (n : ℕ) :
    mainAt J sched n = .error e := by
  rw [mainAt, h]
  rfl

theorem RunsTo.eq {s : Program} (h : RunsTo J sched n s) : s = programAt J sched n := by
  have hstarted := h.started
  rw [mainAt] at hstarted
  cases hheader : processHeader J.file with
  | error e => rw [hheader] at hstarted; cases hstarted
  | ok header => rw [hheader] at hstarted; exact (Except.ok.inj hstarted).symm

/-- The packets handed over are among those that the producer can come to push. -/
theorem Job.SafeFrames.handed (h : J.SafeFrames) (sched : ℕ → ProgramThread) (n : ℕ) :
    ∀ packet ∈ (programAt J sched n).world.handed, FrameSafe packet := by
  obtain ⟨hcontrol, hcounts, -⟩ := (program_ok J sched n).world_ok
  intro packet hmem
  exact h _ hcontrol.run packet (hcounts.handed_isPrefix.subset hmem)

end MoexDecoder
