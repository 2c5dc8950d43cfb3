import MoexDecoder.Proof.Reader
import MoexDecoder.Spec.PcapProcessor

/-!
# What holds across all interleavings

* `Move`: everything a turn can do, with its guard; `step_cases`: every turn is one of
  them or changes nothing.
* `World.buffering`: the producer of the two-thread program, seen alone. Each of its
  turns is a pass of the sequential producer loop or does not move it
  (`Move.buffering`), so whatever holds of that loop's runs holds here.
* `World.Control`, `World.Counts`: the invariants of all reachable worlds (`world_ok`):
  when `is_started_` is set, and what the queue and the consumer's counters hold.
-/

namespace MoexDecoder

open StateTransition

variable {E : Env} {w w' : World} {t : Thread}

/-- The packets of a batch that the consumer still has to process. -/
def ConsumerPc.left : ConsumerPc → List (List UInt8)
  | .batch _ rest => rest
  | _ => []

/-- The consumer is not working through a batch. -/
def ConsumerPc.Between (pc : ConsumerPc) : Prop := ∀ b rest, pc ≠ .batch b rest

theorem ConsumerPc.Between.left {pc : ConsumerPc} (h : pc.Between) : pc.left = [] := by
  unfold ConsumerPc.left
  split
  · rename_i b rest; exact absurd rfl (h b rest)
  · rfl

/-- **What a turn can do.** -/
inductive Move (E : Env) (w : World) : Thread → World → Prop
  | launch : w.producerPc = .launch →
      Move E w .producer { w with isStarted := true, producerPc := .loop }
  | fail (e : Exception) : w.producerPc = .loop → w.producer.currentOffset < E.fileSize →
      pass E.toInput w.producer = .error e → Move E w .producer { w with terminated := some e }
  | fill (p : Producer) (b : BufferedPackets) : w.producerPc = .loop →
      w.producer.currentOffset < E.fileSize → pass E.toInput w.producer = .ok (p, b) →
      Move E w .producer { w with producer := p, producerPc := .push b }
  | leave : w.producerPc = .loop → ¬ (w.producer.currentOffset < E.fileSize ∧ w.isStarted = true) →
      Move E w .producer { w with producerPc := .leave }
  | push (b : BufferedPackets) : w.producerPc = .push b →
      Move E w .producer { w with
        pcapDataChunks := w.pcapDataChunks ++ [b]
        pushed := w.pushed ++ [b]
        producer := w.producer.seekg
        producerPc := .loop }
  | store : w.producerPc = .leave →
      Move E w .producer { w with isStarted := false, producerPc := .finished }
  | woken : w.consumer.pc = .waitStarted → w.isStarted = true →
      Move E w .consumer { w with consumer := { w.consumer with pc := .check } }
  | goOn : w.consumer.pc = .check → w.isStarted = true →
      Move E w .consumer { w with consumer := { w.consumer with pc := .poll, batchTotal := 0 } }
  | quit : w.consumer.pc = .check → w.isStarted = false →
      Move E w .consumer { w with consumer := { w.consumer with pc := .finished } }
  | empty : w.consumer.pc = .poll → w.pcapDataChunks = [] →
      Move E w .consumer { w with consumer := { w.consumer with
        pc := .sleep, total := w.consumer.total + w.consumer.batchTotal, batchTotal := 0 } }
  | pop (b : BufferedPackets) (bs : List BufferedPackets) : w.consumer.pc = .poll →
      w.pcapDataChunks = b :: bs →
      Move E w .consumer { w with
        pcapDataChunks := bs
        popped := w.popped ++ [b]
        consumer := { w.consumer with pc := .batch b b.packets } }
  | batchDone (b : BufferedPackets) : w.consumer.pc = .batch b [] →
      Move E w .consumer { w with consumer := { w.consumer with
        pc := .poll
        batchNumber := w.consumer.batchNumber + 1
        batchTotal := w.consumer.batchTotal + b.numberPackets } }
  | process (b : BufferedPackets) (packet : List UInt8) (rest : List (List UInt8)) :
      w.consumer.pc = .batch b (packet :: rest) →
      Move E w .consumer { w with
        handed := w.handed ++ [packet]
        terminated := (E.process w.handed.length packet w.consumer.processor).exception
        consumer := { w.consumer with
          pc := .batch b rest
          processor := (E.process w.handed.length packet w.consumer.processor).processor } }
  | awake : w.consumer.pc = .sleep →
      Move E w .consumer { w with consumer := { w.consumer with pc := .check } }

theorem move_of_producerTurn (h : w.producerTurn E = some w') : Move E w .producer w' := by
  unfold World.producerTurn at h
  cases hpc : w.producerPc with
  | launch => rw [hpc] at h; cases h; exact .launch hpc
  | loop =>
    rw [hpc] at h
    simp only at h
    split at h
    · rename_i hg
      cases hp : pass E.toInput w.producer with
      | error e => rw [hp] at h; cases h; rw [← hpc]; exact .fail e hpc hg.1 hp
      | ok r => rw [hp] at h; cases h; exact .fill r.1 r.2 hpc hg.1 hp
    · rename_i hg; cases h; exact .leave hpc hg
  | push b => rw [hpc] at h; cases h; exact .push b hpc
  | leave => rw [hpc] at h; cases h; exact .store hpc
  | finished => rw [hpc] at h; cases h

theorem move_of_consumerTurn (h : w.consumerTurn E = some w') : Move E w .consumer w' := by
  unfold World.consumerTurn at h
  cases hpc : w.consumer.pc with
  | waitStarted =>
    simp only [hpc] at h
    split at h
    · rename_i hs; cases h; exact .woken hpc hs
    · cases h
  | check =>
    simp only [hpc] at h
    split at h
    · rename_i hs; cases h; exact .goOn hpc hs
    · rename_i hs; cases h; exact .quit hpc (by simpa using hs)
  | poll =>
    simp only [hpc] at h
    split at h
    · rename_i hc; cases h; exact .empty hpc hc
    · rename_i b bs hc; cases h; exact .pop b bs hpc hc
  | batch b rest =>
    cases rest with
    | nil => simp only [hpc] at h; cases h; exact .batchDone b hpc
    | cons packet rest => simp only [hpc] at h; cases h; exact .process b packet rest hpc
  | sleep => simp only [hpc] at h; cases h; exact .awake hpc
  | finished => simp only [hpc] at h; cases h

/-- **Every turn** changes nothing or is a move. -/
theorem step_cases (E : Env) (t : Thread) (w : World) :
    w.step E t = w ∨ w.terminated = none ∧ Move E w t (w.step E t) := by
  unfold World.step World.turn
  split
  · rename_i hterm
    cases t with
    | producer =>
      cases h : w.producerTurn E with
      | none => exact Or.inl rfl
      | some w' => exact Or.inr ⟨hterm, move_of_producerTurn h⟩
    | consumer =>
      cases h : w.consumerTurn E with
      | none => exact Or.inl rfl
      | some w' => exact Or.inr ⟨hterm, move_of_consumerTurn h⟩
  · exact Or.inl rfl

/-- What every move preserves, every turn preserves. -/
theorem step_inv {P : World → Prop} (hP : ∀ t w w', P w → w.terminated = none → Move E w t w' → P w')
    (t : Thread) (w : World) (h : P w) : P (w.step E t) := by
  rcases step_cases E t w with hs | ⟨hterm, hs⟩
  · rw [hs]; exact h
  · exact hP t w _ h hterm hs

/-! ## The producer seen alone -/

/-- The producer with all it pushed, with a batch about to be pushed counted in. -/
def World.buffering (w : World) : Buffering :=
  match w.producerPc with
  | .push b => ⟨w.producer.seekg, w.pushed ++ [b], none⟩
  | _ => ⟨w.producer, w.pushed, none⟩

theorem World.buffering_of_ne (h : ∀ b, w.producerPc ≠ .push b) :
    w.buffering = ⟨w.producer, w.pushed, none⟩ := by
  unfold buffering
  split
  · rename_i b hb; exact absurd hb (h b)
  · rfl

/-- **Each turn simulates the sequential loop**: it makes one of its passes, or none. -/
theorem Move.buffering (hm : Move E w t w') :
    w'.buffering = w.buffering ∨ bufferStep E.toInput w.buffering = some w'.buffering ∨
      ∃ e, pass E.toInput w.producer = .error e ∧ w.producerPc = .loop ∧
        w.producer.currentOffset < E.fileSize := by
  cases hm with
  | launch h => exact Or.inl (by simp [World.buffering, h])
  | fail e h hlt hp => exact Or.inr (Or.inr ⟨e, hp, h, hlt⟩)
  | fill p b h hlt hp =>
    refine Or.inr (Or.inl ?_)
    simp only [World.buffering, h, bufferStep]
    rw [if_pos ⟨trivial, hlt⟩, hp]
  | leave h _ => exact Or.inl (by simp [World.buffering, h])
  | push b h => exact Or.inl (by simp [World.buffering, h])
  | store h => exact Or.inl (by simp [World.buffering, h])
  | _ => exact Or.inl rfl

/-! ## The invariant -/

/-- **The flag and the two threads.** -/
structure World.Control (E : Env) (w : World) : Prop where
  /-- `is_started_` is set between the producer's two stores -/
  started : w.isStarted = true ↔ w.producerPc ≠ .launch ∧ w.producerPc ≠ .finished
  waiting : w.producerPc = .launch → w.consumer.pc = .waitStarted
  quit : w.consumer.pc = .finished → w.producerPc = .finished
  /-- only the consumer ends the process -/
  terminated : w.terminated ≠ none → ∃ b rest, w.consumer.pc = .batch b rest
  run : Reaches (bufferStep E.toInput) Buffering.init w.buffering
  atEnd : w.producerPc = .leave ∨ w.producerPc = .finished → E.fileSize ≤ w.producer.currentOffset

theorem World.init_control (E : Env) : (World.init).Control E where
  started := by simp [init]
  waiting _ := rfl
  quit h := by simp [init] at h
  terminated h := absurd rfl h
  run := .refl
  atEnd h := by simp [init] at h

/-- The producer's thread does not fail. -/
theorem World.Control.no_error (h : w.Control E) (hpc : w.producerPc = .loop)
    (hlt : w.producer.currentOffset < E.fileSize) {e : Exception} : pass E.toInput w.producer ≠ .error e := by
  have hok := reaches_ok h.run
  rw [World.buffering_of_ne (by simp [hpc])] at hok
  obtain ⟨q, hq, -⟩ := pass_ok hok.pos (le_of_lt hlt)
  rw [hq]; nofun

theorem World.Control.running (h : w.Control E) (hpc : w.consumer.pc.Between) :
    w.terminated = none := by
  by_contra hx
  obtain ⟨b, rest, hb⟩ := h.terminated hx
  exact hpc b rest hb

theorem Move.run (h : w.Control E) (hm : Move E w t w') :
    Reaches (bufferStep E.toInput) Buffering.init w'.buffering := by
  rcases hm.buffering with hb | hb | ⟨e, he, hpc, hlt⟩
  · rw [hb]; exact h.run
  · exact Loop.Reaches.next h.run hb
  · exact absurd he (h.no_error hpc hlt)

/-- What is left to prove of a turn of the producer, once it was launched. -/
theorem World.Control.of_producer (h : w.Control E) (hconsumer : w'.consumer = w.consumer)
    (hterm : w'.terminated = w.terminated) (hrun : Reaches (bufferStep E.toInput) Buffering.init w'.buffering)
    (hstarted : w'.isStarted = true ↔ w'.producerPc ≠ .finished) (hlaunched : w'.producerPc ≠ .launch)
    (hquit : w.consumer.pc = .finished → w'.producerPc = .finished)
    (hend : w'.producerPc = .leave ∨ w'.producerPc = .finished → E.fileSize ≤ w'.producer.currentOffset) :
    w'.Control E where
  started := by rw [hstarted]; exact ⟨fun hne => ⟨hlaunched, hne⟩, And.right⟩
  waiting hl := absurd hl hlaunched
  quit := by rw [hconsumer]; exact hquit
  terminated := by rw [hconsumer, hterm]; exact h.terminated
  run := hrun
  atEnd := hend

/-- A consumer that takes a turn was launched. -/
theorem Move.launched (h : w.Control E) (hm : Move E w .consumer w') : w.producerPc ≠ .launch := by
  intro hl
  have hwait := h.waiting hl
  cases hm with
  | woken _ hset => exact (h.started.1 hset).1 hl
  | goOn hpc _ | quit hpc _ | empty hpc _ | pop _ _ hpc _ | batchDone _ hpc | process _ _ _ hpc
  | awake hpc => rw [hwait] at hpc; cases hpc

/-- What is left to prove of a turn of the consumer. -/
theorem World.Control.of_consumer (h : w.Control E) (hm : Move E w .consumer w')
    (hproducer : w'.producerPc = w.producerPc ∧ w'.producer = w.producer ∧ w'.isStarted = w.isStarted)
    (hrun : Reaches (bufferStep E.toInput) Buffering.init w'.buffering)
    (hquit : w'.consumer.pc = .finished → w.producerPc = .finished)
    (hterm : w'.terminated ≠ none → ∃ b rest, w'.consumer.pc = .batch b rest) : w'.Control E := by
  obtain ⟨hpc, hp, hset⟩ := hproducer
  have hlaunched := hm.launched h
  refine ⟨?_, ?_, ?_, hterm, hrun, ?_⟩
  · rw [hset, hpc]; exact h.started
  · rw [hpc]; exact fun hl => absurd hl hlaunched
  · rw [hpc]; exact hquit
  · rw [hpc, hp]; exact h.atEnd

theorem Move.control (h : w.Control E) (hterm : w.terminated = none) (hm : Move E w t w') :
    w'.Control E := by
  have hrun := hm.run h
  have hstarted := h.started
  -- the consumer is in its loop as long as the producer is in its own
  have hstays : w.producerPc ≠ .finished → w.consumer.pc ≠ .finished := fun hne hq => hne (h.quit hq)
  cases t with
  | producer =>
    cases hm with
    | launch hpc =>
      have hwait := h.waiting hpc
      exact h.of_producer rfl rfl hrun (by simp) (by simp) (by simp [hwait]) (by simp)
    | fail e hpc hlt he => exact absurd he (h.no_error hpc hlt)
    | fill p b hpc _ _ =>
      have hset : w.isStarted = true := by rw [hstarted, hpc]; simp
      have hloop := hstays (by simp [hpc])
      exact h.of_producer rfl rfl hrun (by simp [hset]) (by simp) (fun hq => absurd hq hloop) (by simp)
    | leave hpc hg =>
      have hset : w.isStarted = true := by rw [hstarted, hpc]; simp
      have hloop := hstays (by simp [hpc])
      -- the flag is set, so the loop was left at the end of the file
      have hend : E.fileSize ≤ w.producer.currentOffset := by simpa [hset] using hg
      exact h.of_producer rfl rfl hrun (by simp [hset]) (by simp) (fun hq => absurd hq hloop) fun _ => hend
    | push b hpc =>
      have hset : w.isStarted = true := by rw [hstarted, hpc]; simp
      have hloop := hstays (by simp [hpc])
      exact h.of_producer rfl rfl hrun (by simp [hset]) (by simp) (fun hq => absurd hq hloop) (by simp)
    | store hpc =>
      have hend := h.atEnd (Or.inl hpc)
      exact h.of_producer rfl rfl hrun (by simp) (by simp) (fun _ => rfl) fun _ => hend
  | consumer =>
    have hlaunched := hm.launched h
    have hsame := hm
    cases hm with
    | woken _ _ | goOn _ _ | empty _ _ | pop _ _ _ _ | batchDone _ _ | awake _ =>
      exact h.of_consumer hsame ⟨rfl, rfl, rfl⟩ hrun (by simp) fun hx => absurd hterm hx
    | quit _ hclear =>
      -- the flag is clear and the producer was launched, so it is done
      have hdone : w.producerPc = .finished := by
        by_contra hne
        rw [hstarted.2 ⟨hlaunched, hne⟩] at hclear; cases hclear
      exact h.of_consumer hsame ⟨rfl, rfl, rfl⟩ hrun (fun _ => hdone) fun hx => absurd hterm hx
    | process b packet rest _ =>
      exact h.of_consumer hsame ⟨rfl, rfl, rfl⟩ hrun (by simp) fun _ => ⟨b, rest, rfl⟩

/-- The batches the consumer is through with. -/
def World.processed (w : World) : List BufferedPackets :=
  match w.consumer.pc with
  | .batch _ _ => w.popped.dropLast
  | _ => w.popped

theorem World.processed_between (h : w.consumer.pc.Between) : w.processed = w.popped := by
  unfold processed
  split
  · rename_i b rest hb; exact absurd hb (h b rest)
  · rfl

/-- **The queue and the consumer's counters.** -/
structure World.Counts (w : World) : Prop where
  queue : w.popped ++ w.pcapDataChunks = w.pushed
  handed : w.handed ++ w.consumer.pc.left = w.popped.flatMap (·.packets)
  current : ∀ b rest, w.consumer.pc = .batch b rest → ∃ bs, w.popped = bs ++ [b]
  batchNumber : w.consumer.batchNumber = 1 + w.processed.length
  totals : w.consumer.total + w.consumer.batchTotal = (w.processed.map (·.numberPackets)).sum
  idle : w.consumer.pc ≠ .poll → w.consumer.pc.Between → w.consumer.batchTotal = 0

theorem World.init_counts : (World.init).Counts where
  queue := rfl
  handed := rfl
  current := by simp [init]
  batchNumber := rfl
  totals := rfl
  idle _ _ := rfl

/-- A turn between two batches that only moves the totals. -/
theorem World.Counts.of_between (h : w.Counts) (hpc : w.consumer.pc.Between) (hpc' : w'.consumer.pc.Between)
    (hpopped : w'.popped = w.popped) (hqueue : w'.pcapDataChunks = w.pcapDataChunks)
    (hpushed : w'.pushed = w.pushed) (hhanded : w'.handed = w.handed)
    (hnumber : w'.consumer.batchNumber = w.consumer.batchNumber)
    (htotals : w'.consumer.total + w'.consumer.batchTotal = w.consumer.total + w.consumer.batchTotal)
    (hidle : w'.consumer.pc ≠ .poll → w'.consumer.batchTotal = 0) : w'.Counts where
  queue := by rw [hpopped, hqueue, hpushed]; exact h.queue
  handed := by rw [hhanded, hpopped, hpc'.left, ← hpc.left]; exact h.handed
  current b rest hb := absurd hb (hpc' b rest)
  batchNumber := by
    rw [hnumber, World.processed_between hpc', hpopped, ← World.processed_between hpc]
    exact h.batchNumber
  totals := by
    rw [htotals, World.processed_between hpc', hpopped, ← World.processed_between hpc]
    exact h.totals
  idle hne _ := hidle hne

theorem Move.counts (h : w.Counts) (hm : Move E w t w') : w'.Counts := by
  have ⟨hq, hh, hc, hb, ht, hi⟩ := h
  cases hm with
  | launch _ | fail _ _ _ _ | fill _ _ _ _ _ | leave _ _ | store _ => exact ⟨hq, hh, hc, hb, ht, hi⟩
  | push b _ => exact ⟨by simp only [← hq, List.append_assoc], hh, hc, hb, ht, hi⟩
  | woken hpc _ | quit hpc _ | awake hpc =>
    have hbetween : w.consumer.pc.Between := by simp [ConsumerPc.Between, hpc]
    have hzero := hi (by simp [hpc]) hbetween
    exact h.of_between hbetween (by simp [ConsumerPc.Between]) rfl rfl rfl rfl rfl rfl fun _ => hzero
  | goOn hpc _ =>
    have hbetween : w.consumer.pc.Between := by simp [ConsumerPc.Between, hpc]
    have hzero := hi (by simp [hpc]) hbetween
    exact h.of_between hbetween (by simp [ConsumerPc.Between]) rfl rfl rfl rfl rfl (by simp [hzero]) fun _ => rfl
  | empty hpc _ =>
    have hbetween : w.consumer.pc.Between := by simp [ConsumerPc.Between, hpc]
    -- `process_batch` returns, and its total goes into the other
    exact h.of_between hbetween (by simp [ConsumerPc.Between]) rfl rfl rfl rfl rfl rfl fun _ => rfl
  | pop b bs hpc hbs =>
    have hbetween : w.consumer.pc.Between := by simp [ConsumerPc.Between, hpc]
    rw [hbetween.left, List.append_nil] at hh
    rw [World.processed_between hbetween] at hb ht
    refine ⟨by simp [← hq, hbs], ?_, ?_, by simpa [World.processed] using hb,
      by simpa [World.processed] using ht, fun _ hnot => absurd rfl (hnot b _)⟩
    · simp [ConsumerPc.left, hh]
    · intro b' rest hb'
      cases hb'; exact ⟨w.popped, rfl⟩
  | batchDone b hpc =>
    -- the batch popped last counts as processed from now on
    obtain ⟨bs, hbs⟩ := hc b [] hpc
    simp only [World.processed, hpc, hbs, List.dropLast_concat] at hb ht
    refine ⟨hq, by simpa [ConsumerPc.left, hpc] using hh, by simp, ?_, ?_, by simp⟩
    · simp [World.processed, hbs, hb]; omega
    · simp [World.processed, hbs, ← ht]; omega
  | process b packet rest hpc =>
    refine ⟨hq, by simpa [ConsumerPc.left, hpc] using hh, ?_, by simpa [World.processed, hpc] using hb,
      by simpa [World.processed, hpc] using ht, fun _ hnot => absurd rfl (hnot b _)⟩
    intro b' rest' hb'
    cases hb'; exact hc b _ hpc

/-- **Every reachable world** has the invariant. -/
theorem world_ok (E : Env) (sched : ℕ → Thread) (n : ℕ) :
    (worldAt E sched n).Control E ∧ (worldAt E sched n).Counts :=
  Schedule.inv (P := fun w => w.Control E ∧ w.Counts)
    (step_inv fun _ _ _ h hterm hm => ⟨hm.control h.1 hterm, hm.counts h.2⟩)
    ⟨World.init_control E, World.init_counts⟩ n

end MoexDecoder
