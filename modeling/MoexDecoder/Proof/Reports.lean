import MoexDecoder.Proof.Delivery
import MoexDecoder.Proof.Isolation

/-!
# What the program reports

`reports` (every interleaving, any file): the numbers that the threads keep and print count
what was done. Batches are numbered through, by their packets and by the consumer; the frames
of UDP that were decoded are counted one by one; and the total that
`print_end_of_file_info` prints is that of the packets handed over. Nothing of this needs
the file to be a capture file.
-/

namespace MoexDecoder

variable {E : Env} {w w' : World} {t : Thread}

/-- The protocol byte of the frame says UDP. -/
def saysUdp (packet : Span) : Bool :=
  (IPPacket.ofBuffer fun i => packet.mem (ETH_PACKET_SIZE + i)).protocol == UDP_PROTOCOL

/-- **The counters of the program**, and the numbers of its batches. -/
structure World.Reports (E : Env) (w : World) : Prop where
  /-- each batch pushed has its size, and the number of its first packet -/
  numbered : Numbered w.pushed
  /-- in a batch, `batch_number_` is its number, and its packets have the next numbers -/
  batch : ∀ b rest, w.consumer.pc = .batch b rest → w.consumer.batchNumber = w.popped.length ∧
    b.startPacketNumber + b.numberPackets = 1 + w.handed.length + rest.length
  between : w.consumer.pc.Between → w.consumer.batchNumber = 1 + w.popped.length ∧
    w.consumer.total + w.consumer.batchTotal = w.handed.length
  /-- the number that `print_end_of_file_info` prints -/
  total : w.consumer.pc = .finished → w.consumer.total = w.handed.length
  /-- `packet_processed_` counts the frames of UDP, but for one whose decoding raised an exception -/
  processed : w.consumer.processor.packetProcessed + (if w.terminated = none then 0 else 1) =
    1 + (inMemory E.heap w.handed).countP saysUdp

/-! ## Batches -/

theorem World.Control.all_numbered (h : w.Control E) : Numbered w.pushed :=
  AtEach.of_prefix (reaches_ok h.run).numbered w.pushed_isPrefix

/-- **In a batch**: the numbers of its packets go on where those of the batches before end. -/
theorem World.Counts.in_batch (hk : w.Counts) (hn : Numbered w.pushed) {b : BufferedPackets}
    {rest : List (List UInt8)} (hpc : w.consumer.pc = .batch b rest) :
    w.consumer.batchNumber = w.popped.length ∧
      b.startPacketNumber + b.numberPackets = 1 + w.handed.length + rest.length := by
  obtain ⟨bs, hbs⟩ := hk.current b rest hpc
  have hqueue := hk.queue
  have hnumber := hk.batchNumber
  have hhanded := congrArg List.length hk.handed
  rw [hbs, List.append_assoc] at hqueue
  obtain ⟨hsize, hstart⟩ := hn bs b w.pcapDataChunks hqueue.symm
  simp only [World.processed, hpc, hbs, List.dropLast_concat] at hnumber
  simp only [ConsumerPc.left, hpc, hbs, List.flatMap_append, List.flatMap_singleton, List.length_append] at hhanded
  rw [hbs, List.length_append, List.length_singleton, hnumber, hstart, hsize]
  omega

/-! ## Frames -/

/-- **One frame** is counted if it says UDP, unless an exception leaves its decoding. -/
theorem processPacket_counts (hs : MessageHandlers) (packet : Span) (pr : PacketProcessor Decoded) :
    (processPacket (udpHandler hs) packet pr).processor.packetProcessed +
        (if (processPacket (udpHandler hs) packet pr).exception = none then 0 else 1) =
      pr.packetProcessed + if saysUdp packet then 1 else 0 := by
  unfold processPacket saysUdp
  dsimp only
  split
  · rename_i hother
    rw [if_pos rfl, beq_false_of_ne hother]
    rfl
  · rename_i hudp
    rw [not_not.1 hudp]
    dsimp only
    split <;> simp

/-- A turn counts what it hands over. -/
theorem Move.counts_frames (hc : w.Control E) (hterm : w.terminated = none)
    (h : w.consumer.processor.packetProcessed = 1 + (inMemory E.heap w.handed).countP saysUdp)
    (hm : Move E w t w') :
    w'.consumer.processor.packetProcessed + (if w'.terminated = none then 0 else 1) =
      1 + (inMemory E.heap w'.handed).countP saysUdp := by
  cases hm with
  | fail e hpc hlt he => exact absurd he (hc.no_error hpc hlt)
  | process b packet rest hpc =>
    have hcount := processPacket_counts E.handlers ⟨packet, E.heap w.handed.length⟩ w.consumer.processor
    simp only [inMemory, List.mapIdx_concat, List.countP_append, List.countP_singleton] at h ⊢
    rw [← Nat.add_assoc, ← h]
    exact hcount
  | _ => simpa [hterm] using h

/-- **What the program reports is what it has done**, whatever file it is given. -/
theorem reports (E : Env) (sched : ℕ → Thread) (n : ℕ) : (worldAt E sched n).Reports E := by
  have hrun : (worldAt E sched n).Control E ∧ _ := Schedule.inv (P := fun w => w.Control E ∧
      w.consumer.processor.packetProcessed + (if w.terminated = none then 0 else 1) =
        1 + (inMemory E.heap w.handed).countP saysUdp)
    (step_inv fun _ _ _ h hterm hm =>
      ⟨hm.control h.1 hterm, hm.counts_frames h.1 hterm (by simpa [hterm] using h.2)⟩)
    ⟨World.init_control E, rfl⟩ n
  obtain ⟨hc, hk⟩ := world_ok E sched n
  refine ⟨hc.all_numbered, fun b rest hpc => hk.in_batch hc.all_numbered hpc, ?_, ?_, hrun.2⟩
  · intro hpc
    exact (hk.settled hc hpc).2
  · intro hfinished
    have hbetween : (worldAt E sched n).consumer.pc.Between := by simp [ConsumerPc.Between, hfinished]
    have hidle := hk.idle (by simp [hfinished]) hbetween
    have htotal := (hk.settled hc hbetween).2.2
    rw [hidle] at htotal
    exact htotal

end MoexDecoder
