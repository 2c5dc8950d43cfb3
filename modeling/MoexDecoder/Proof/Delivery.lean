import MoexDecoder.Proof.World

/-!
# From the file to the consumer

* `delivery` (every interleaving): on a capture file whose records fit a chunk, the
  queue is first in first out, the packets handed to `process_packet` are a prefix of
  the file's, and between two batches the consumer's counters count them.
* `drained_iff` (every interleaving): once the consumer has left its loop, the producer
  is done and everything it pushed has been processed **exactly when** the producer
  cleared `is_started_` at a moment when the queue was empty or the consumer was inside
  `process_batch`. Otherwise the batches then in the queue are lost
  (`drained_lost`).
-/

namespace MoexDecoder

open StateTransition

variable {E : Env} {w w' : World} {t : Thread} {sched : ℕ → Thread} {m n : ℕ}

/-! ## Batches and their sizes -/

theorem Numbered.number {bs : List BufferedPackets} (h : Numbered bs) {b : BufferedPackets} (hb : b ∈ bs) :
    b.numberPackets = b.packets.length := by
  obtain ⟨pre, post, rfl⟩ := List.append_of_mem hb
  exact (h pre b post rfl).1

theorem sum_numberPackets {bs : List BufferedPackets} (h : ∀ b ∈ bs, b.numberPackets = b.packets.length) :
    (bs.map (·.numberPackets)).sum = (bs.flatMap (·.packets)).length := by
  rw [List.length_flatMap]
  exact congrArg List.sum (List.map_congr_left h)

/-- What was pushed is what the sequential loop pushed, up to the batch in hand. -/
theorem World.pushed_isPrefix (w : World) : w.pushed <+: w.buffering.pcapDataChunks := by
  unfold buffering
  split
  · exact List.prefix_append _ _
  · exact List.prefix_refl _

theorem World.Counts.popped_isPrefix (h : w.Counts) : w.popped <+: w.pushed :=
  ⟨w.pcapDataChunks, h.queue⟩

theorem World.Control.numbered (h : w.Control E) {b : BufferedPackets} (hb : b ∈ w.pushed) :
    b.numberPackets = b.packets.length :=
  (reaches_ok h.run).numbered.number (w.pushed_isPrefix.subset hb)

/-- Outside a batch, everything popped was handed over, and the totals count it. -/
theorem World.Counts.settled (hc : w.Control E) (h : w.Counts) (hpc : w.consumer.pc.Between) :
    w.handed = w.popped.flatMap (·.packets) ∧ w.consumer.batchNumber = 1 + w.popped.length ∧
      w.consumer.total + w.consumer.batchTotal = w.handed.length := by
  have hproc := World.processed_between hpc
  have hhanded := h.handed
  have hnumber := h.batchNumber
  have htotals := h.totals
  rw [hpc.left, List.append_nil] at hhanded
  rw [hproc] at hnumber
  rw [hproc, sum_numberPackets fun b hb => hc.numbered (h.popped_isPrefix.subset hb), ← hhanded] at htotals
  exact ⟨hhanded, hnumber, htotals⟩

/-! ## Delivery in order -/

/-- The program on a capture file. -/
def Capture.env (c : Capture) (B : ℕ) (past : ℕ → Mem) (hs : MessageHandlers) (heap : ℕ → Mem) : Env :=
  { c.input B past with handlers := hs, heap := heap }

/-- The consumer has come through `packets` up to some point, each once and in order. -/
structure World.InOrder (packets : List (List UInt8)) (w : World) : Prop where
  fifo : w.popped ++ w.pcapDataChunks = w.pushed
  handed : w.handed <+: packets
  batchNumber : w.consumer.pc = .poll → w.consumer.batchNumber = 1 + w.popped.length
  totals : w.consumer.pc = .poll → w.consumer.total + w.consumer.batchTotal = w.handed.length

/-- The packets of a prefix of the batches. -/
theorem flatMap_packets_isPrefix {bs bs' : List BufferedPackets} (h : bs <+: bs') :
    bs.flatMap (·.packets) <+: bs'.flatMap (·.packets) := by
  obtain ⟨more, rfl⟩ := h
  rw [List.flatMap_append]
  exact List.prefix_append _ _

/-- **Delivery, once each and in order**, under every interleaving. -/
theorem delivery (c : Capture) {B : ℕ} (hfit : c.Fits B) (past : ℕ → Mem) (hs : MessageHandlers)
    (heap : ℕ → Mem) (sched : ℕ → Thread) (n : ℕ) :
    (worldAt (c.env B past hs heap) sched n).InOrder c.packets := by
  obtain ⟨hc, hk⟩ := world_ok (c.env B past hs heap) sched n
  set w := worldAt (c.env B past hs heap) sched n
  have hpoll : w.consumer.pc = .poll → w.consumer.pc.Between := by
    intro hp b rest hb; rw [hp] at hb; cases hb
  refine ⟨hk.queue, ?_, fun hp => (hk.settled hc (hpoll hp)).2.1, fun hp => (hk.settled hc (hpoll hp)).2.2⟩
  -- handed ≤ popped ≤ pushed ≤ pushed by the sequential loop ≤ the file
  obtain ⟨rest, hbefore⟩ : ∃ rest, w.buffering.Before c B past rest := reaches_before hfit hc.run
  obtain ⟨done, hdone, hread⟩ := hbefore.read
  calc w.handed
      <+: w.handed ++ w.consumer.pc.left := List.prefix_append _ _
    _ = w.popped.flatMap (·.packets) := hk.handed
    _ <+: w.pushed.flatMap (·.packets) := flatMap_packets_isPrefix hk.popped_isPrefix
    _ <+: w.buffering.packets := flatMap_packets_isPrefix w.pushed_isPrefix
    _ = done.map (·.data) := hread
    _ <+: c.packets := by rw [Capture.packets, hdone, List.map_append]; exact List.prefix_append _ _

/-- Both threads in turn. -/
def alternating (n : ℕ) : Thread := if n % 2 = 0 then .producer else .consumer

theorem delivery_two :
    (worldAt (Capture.two.env 34 (fun _ _ => 0) .all fun _ _ => 0) alternating 20).InOrder
      [[7], [8, 9]] :=
  delivery Capture.two (by decide) (fun _ _ => 0) .all (fun _ _ => 0) alternating 20

/-! ## Shutdown -/

/-- Nothing is left behind. -/
structure World.Drained (w : World) : Prop where
  producer : w.producerPc = .finished
  queue : w.pcapDataChunks = []
  handed : w.handed = w.pushed.flatMap (·.packets)
  total : w.consumer.total = (w.pushed.flatMap (·.packets)).length

/-- `is_started_` may be cleared: nothing is queued, or the consumer will look at the
queue again before it looks at the flag. -/
def World.MayStop (w : World) : Prop :=
  w.pcapDataChunks = [] ∨ w.consumer.pc = .poll ∨ ∃ b rest, w.consumer.pc = .batch b rest

instance (w : World) : Decidable w.MayStop :=
  match h : w.consumer.pc with
  | .poll => isTrue (Or.inr (Or.inl h))
  | .batch b rest => isTrue (Or.inr (Or.inr ⟨b, rest, h⟩))
  | .waitStarted | .check | .sleep | .finished =>
    decidable_of_iff (w.pcapDataChunks = []) (by simp [World.MayStop, h])

/-- The world after a turn, as the schedule has it. -/
theorem worldAt_succ (E : Env) (sched : ℕ → Thread) (n : ℕ) :
    worldAt E sched (n + 1) = (worldAt E sched n).step E (sched n) := rfl

/-- The producer is done only after the turn that clears the flag. -/
theorem exists_store (h : (worldAt E sched n).producerPc = .finished) :
    ∃ m < n, sched m = .producer ∧ (worldAt E sched m).producerPc = .leave ∧
      worldAt E sched (m + 1) = { worldAt E sched m with isStarted := false, producerPc := .finished } := by
  obtain ⟨m, hmn, hm, hm'⟩ := Schedule.exists_turn (P := fun w : World => w.producerPc = .finished)
    (by simp [World.init]) h
  refine ⟨m, hmn, ?_⟩
  change (worldAt E sched m).producerPc ≠ .finished at hm
  change (worldAt E sched (m + 1)).producerPc = .finished at hm'
  rw [worldAt_succ] at hm' ⊢
  rcases step_cases E (sched m) (worldAt E sched m) with hs | ⟨-, hs⟩
  · rw [hs] at hm'; exact absurd hm' hm
  · generalize hw : (worldAt E sched m).step E (sched m) = w' at hs hm'
    generalize ht : sched m = t at hs
    cases hs with
    | store hpc => exact ⟨rfl, hpc, rfl⟩
    | launch _ | fail _ _ _ _ | fill _ _ _ _ _ | leave _ _ | push _ _ => simp_all
    | _ => exact absurd hm' hm

/-- The producer is done, and the consumer still comes by the queue. -/
structure World.Draining (w : World) : Prop where
  producer : w.producerPc = .finished
  stopped : w.isStarted = false
  mayStop : w.MayStop

/-- The producer is done, and the consumer does not come by the queue again. -/
structure World.Abandoned (w : World) : Prop where
  producer : w.producerPc = .finished
  stopped : w.isStarted = false
  never : ¬ w.MayStop

theorem Move.draining (h : w.Draining) (hm : Move E w t w') : w'.Draining := by
  obtain ⟨hp, hs, hq⟩ := h
  cases hm with
  | launch hpc | fail _ hpc _ _ | fill _ _ hpc _ _ | leave hpc _ | push _ hpc | store hpc =>
    rw [hp] at hpc; cases hpc
  | woken _ hst | goOn _ hst => rw [hs] at hst; cases hst
  | quit hpc _ | awake hpc =>
    -- away from the queue, so it is empty
    have : w.pcapDataChunks = [] := by simpa [World.MayStop, hpc] using hq
    exact ⟨hp, hs, Or.inl this⟩
  | empty _ hc => exact ⟨hp, hs, Or.inl hc⟩
  | pop b bs _ _ => exact ⟨hp, hs, Or.inr (Or.inr ⟨b, _, rfl⟩)⟩
  | batchDone _ _ => exact ⟨hp, hs, Or.inr (Or.inl rfl)⟩
  | process b _ rest _ => exact ⟨hp, hs, Or.inr (Or.inr ⟨b, rest, rfl⟩)⟩

theorem Move.abandoned (h : w.Abandoned) (hm : Move E w t w') : w'.Abandoned := by
  obtain ⟨hp, hs, hq⟩ := h
  cases hm with
  | launch hpc | fail _ hpc _ _ | fill _ _ hpc _ _ | leave hpc _ | push _ hpc | store hpc =>
    rw [hp] at hpc; cases hpc
  | woken _ hst | goOn _ hst => rw [hs] at hst; cases hst
  | quit hpc _ | awake hpc => exact ⟨hp, hs, by simpa [World.MayStop, hpc] using hq⟩
  | empty hpc _ | pop _ _ hpc _ | batchDone _ hpc | process _ _ _ hpc =>
    -- inside `process_batch` the consumer would come by
    exact absurd (by simp [World.MayStop, hpc]) hq

/-- The two kinds of shutdown, once the flag is cleared. -/
theorem draining_of_store (hm : m < n) (hstop : (worldAt E sched m).MayStop)
    (hstore : worldAt E sched (m + 1) = { worldAt E sched m with isStarted := false, producerPc := .finished }) :
    (worldAt E sched n).Draining := by
  refine Schedule.inv_from (step_inv fun _ _ _ h _ hm => hm.draining h) (show m + 1 ≤ n from hm) ?_
  change (worldAt E sched (m + 1)).Draining
  rw [hstore]
  exact ⟨rfl, rfl, hstop⟩

theorem abandoned_of_store (hm : m < n) (ht : sched m = .producer)
    (hpc : (worldAt E sched m).producerPc = .leave) (hstop : ¬ (worldAt E sched m).MayStop) :
    (worldAt E sched n).Abandoned := by
  refine Schedule.inv_from (step_inv fun _ _ _ h _ hm => hm.abandoned h) (show m + 1 ≤ n from hm) ?_
  change (worldAt E sched (m + 1)).Abandoned
  -- an exception ends the process only inside a batch
  have hterm : (worldAt E sched m).terminated = none :=
    (world_ok E sched m).1.running fun b rest hb => hstop (Or.inr (Or.inr ⟨b, rest, hb⟩))
  have hstep : worldAt E sched (m + 1) =
      { worldAt E sched m with isStarted := false, producerPc := .finished } := by
    simp only [worldAt_succ, World.step, World.turn, ht, hterm, if_true, World.producerTurn, hpc,
      Option.getD_some]
  rw [hstep]
  exact ⟨rfl, rfl, hstop⟩

/-- **When nothing is lost at shutdown.** Once the consumer has left its loop, the
producer is done and all it pushed has been processed exactly when the producer cleared
the flag at a moment when it could. -/
theorem drained_iff (E : Env) (sched : ℕ → Thread) (n : ℕ)
    (hleft : (worldAt E sched n).consumer.pc = .finished) :
    (worldAt E sched n).Drained ↔
      ∀ m < n, sched m = .producer → (worldAt E sched m).producerPc = .leave →
        (worldAt E sched m).MayStop := by
  obtain ⟨hc, hk⟩ := world_ok E sched n
  have hout : (worldAt E sched n).consumer.pc.Between := by simp [ConsumerPc.Between, hleft]
  constructor
  · intro hd m hmn ht hpc
    by_contra hstop
    exact (abandoned_of_store hmn ht hpc hstop).never (Or.inl hd.queue)
  · intro h
    -- the consumer left because the flag was cleared
    obtain ⟨m, hmn, ht, hpc, hstore⟩ := exists_store (hc.quit hleft)
    have hd := draining_of_store hmn (h m hmn ht hpc) hstore
    have hqueue : (worldAt E sched n).pcapDataChunks = [] := by
      simpa [World.MayStop, hleft] using hd.mayStop
    obtain ⟨hhanded, -, htotal⟩ := hk.settled hc hout
    have hpushed := hk.queue
    rw [hqueue, List.append_nil] at hpushed
    rw [hk.idle (by simp [hleft]) hout, Nat.add_zero, hhanded, hpushed] at htotal
    exact ⟨hd.producer, hqueue, by rw [hhanded, hpushed], htotal⟩

/-- The program as it is, on a capture file of two records. -/
def Capture.twoEnv : Env :=
  Capture.two.env BATCH_SIZE (fun _ _ => 0) .all fun _ _ => 0

/-- A schedule that starts with these turns. -/
def turns (ts : List Thread) (n : ℕ) : Thread := ts.getD n .producer

/-- The producer clears the flag while the consumer works on its batch. -/
def stoppedInBatch : List Thread :=
  [.producer, .producer, .producer, .consumer, .consumer, .consumer, .producer, .producer, .consumer,
    .consumer, .consumer, .consumer, .consumer, .consumer]

theorem drained_iff_stoppedInBatch : (worldAt Capture.twoEnv (turns stoppedInBatch) 14).Drained :=
  (drained_iff Capture.twoEnv (turns stoppedInBatch) 14 (by decide)).2 (by decide)

/-- The consumer found the queue empty and sleeps while the producer reads the whole file. -/
def sleptThrough : List Thread :=
  [.producer, .consumer, .consumer, .consumer, .producer, .producer, .producer, .producer, .consumer,
    .consumer]

/-- **The packets of the file are lost**: the consumer has left, and none was handed over. -/
theorem drained_lost :
    (worldAt Capture.twoEnv (turns sleptThrough) 10).consumer.pc = .finished ∧
      (worldAt Capture.twoEnv (turns sleptThrough) 10).pcapDataChunks = [⟨1, 2, [[7], [8, 9]]⟩] ∧
      (worldAt Capture.twoEnv (turns sleptThrough) 10).handed = [] ∧
      ¬ (worldAt Capture.twoEnv (turns sleptThrough) 10).Drained := by
  have hq : (worldAt Capture.twoEnv (turns sleptThrough) 10).pcapDataChunks = [⟨1, 2, [[7], [8, 9]]⟩] := by
    decide
  exact ⟨by decide, hq, by decide, fun hd => by simpa [hq] using hd.queue⟩

/-- On a capture file, nothing left behind means that the whole file was processed. -/
theorem World.Drained.file {c : Capture} {B : ℕ} (hfit : c.Fits B) {past : ℕ → Mem} {hs : MessageHandlers}
    {heap : ℕ → Mem} (hd : (worldAt (c.env B past hs heap) sched n).Drained) :
    (worldAt (c.env B past hs heap) sched n).handed = c.packets ∧
      (worldAt (c.env B past hs heap) sched n).consumer.total = c.packets.length := by
  obtain ⟨hc, -⟩ := world_ok (c.env B past hs heap) sched n
  set w := worldAt (c.env B past hs heap) sched n
  obtain ⟨rest, hbefore⟩ : ∃ rest, w.buffering.Before c B past rest := reaches_before hfit hc.run
  have hbuf : w.buffering = ⟨w.producer, w.pushed, none⟩ := World.buffering_of_ne (by simp [hd.producer])
  rw [hbuf] at hbefore
  have hpackets : w.pushed.flatMap (·.packets) = c.packets :=
    (hbefore.delivered (hc.atEnd (Or.inr hd.producer))).packets
  rw [hd.handed, hd.total, hpackets]
  exact ⟨rfl, rfl⟩

end MoexDecoder
