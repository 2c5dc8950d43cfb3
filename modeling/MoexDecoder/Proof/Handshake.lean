import MoexDecoder.Proof.Delivery

/-!
# Starting the consumer

`is_started_` goes from `false` to `true` and back, and the consumer leaves
`wait_started` only in a turn that finds it `true`.

* `never_stranded_iff` (every interleaving): the consumer is never left in
  `wait_started` by a producer that is done **exactly when** it takes a turn between
  the producer's two stores.
* `stranded_forever`: a stranded consumer stays so, and no thread can take a turn.
* `stranded_early` is such a run, on a capture file of no records.
-/

namespace MoexDecoder

variable {E : Env} {w w' : World} {t : Thread} {sched : ℕ → Thread} {m n k : ℕ}

/-- The producer is done, and the consumer waits for it to start. -/
structure World.Stranded (w : World) : Prop where
  producer : w.producerPc = .finished
  stopped : w.isStarted = false
  waiting : w.consumer.pc = .waitStarted

/-- No thread can take a turn. -/
theorem World.Stranded.turn (h : w.Stranded) (t : Thread) : w.turn E t = none := by
  unfold World.turn
  split
  · cases t with
    | producer => simp [producerTurn, h.producer]
    | consumer => simp [consumerTurn, h.waiting, h.stopped]
  · rfl

/-- **`join` never returns.** -/
theorem stranded_forever (h : (worldAt E sched m).Stranded) (hmn : m ≤ n) :
    worldAt E sched n = worldAt E sched m := by
  refine Schedule.inv_from (P := fun w => w = worldAt E sched m) (fun t w hw => ?_) hmn rfl
  rw [hw, World.step, h.turn t, Option.getD_none]

/-! ## Leaving `wait_started` -/

/-- The consumer does not come back to `wait_started`. -/
theorem Move.woke (h : w.consumer.pc ≠ .waitStarted) (hm : Move E w t w') :
    w'.consumer.pc ≠ .waitStarted := by
  cases hm with
  | launch _ | fail _ _ _ _ | fill _ _ _ _ _ | leave _ _ | push _ _ | store _ => exact h
  | _ => simp

/-- A turn of the consumer that finds the flag set takes it out of `wait_started`. -/
theorem awake_of_turn (hc : w.Control E) (hset : w.isStarted = true) :
    (w.step E .consumer).consumer.pc ≠ .waitStarted := by
  by_cases hpc : w.consumer.pc = .waitStarted
  · have hterm := hc.running (by simp [ConsumerPc.Between, hpc])
    simp [World.step, World.turn, hterm, World.consumerTurn, hpc, hset]
  · exact step_inv (fun _ _ _ h _ hm => hm.woke h) .consumer w hpc

/-- Only such a turn does. -/
theorem Move.waiting (h : w.consumer.pc = .waitStarted) (hm : Move E w t w')
    (hno : t = .consumer → w.isStarted = false) : w'.consumer.pc = .waitStarted := by
  cases hm with
  | launch _ | fail _ _ _ _ | fill _ _ _ _ _ | leave _ _ | push _ _ | store _ => exact h
  | woken _ hst => rw [hno rfl] at hst; cases hst
  | goOn hpc _ | quit hpc _ | empty hpc _ | pop _ _ hpc _ | batchDone _ hpc | process _ _ _ hpc
  | awake hpc => rw [h] at hpc; cases hpc

theorem waiting_until (hno : ∀ k < m, sched k = .consumer → (worldAt E sched k).isStarted = false) :
    (worldAt E sched m).consumer.pc = .waitStarted := by
  refine Schedule.inv_until (P := fun w : World => w.consumer.pc = .waitStarted) rfl fun k hk hpc => ?_
  change (worldAt E sched (k + 1)).consumer.pc = .waitStarted
  rw [worldAt_succ]
  rcases step_cases E (sched k) (worldAt E sched k) with hs | ⟨-, hs⟩
  · rw [hs]; exact hpc
  · exact hs.waiting hpc (hno k hk)

/-- **When the consumer is not stranded.** It takes a turn while the flag is set, before
the producer clears it. -/
theorem never_stranded_iff (E : Env) (sched : ℕ → Thread) :
    (∀ n, ¬ (worldAt E sched n).Stranded) ↔
      ∀ m, sched m = .producer → (worldAt E sched m).producerPc = .leave →
        ∃ k < m, sched k = .consumer ∧ (worldAt E sched k).isStarted = true := by
  constructor
  · intro h m ht hpc
    by_contra hno
    push Not at hno
    have hwait := waiting_until fun k hk hc => by simpa using hno k hk hc
    -- the store is taken: an exception ends the process only inside a batch
    have hterm := (world_ok E sched m).1.running (by simp [ConsumerPc.Between, hwait])
    refine h (m + 1) ?_
    rw [worldAt_succ, ht, World.step, World.turn, if_pos hterm, World.producerTurn, hpc]
    exact ⟨rfl, rfl, hwait⟩
  · intro h n hs
    obtain ⟨m, hmn, ht, hpc, -⟩ := exists_store hs.producer
    obtain ⟨k, hkm, hk, hset⟩ := h m ht hpc
    have hawake : (worldAt E sched (k + 1)).consumer.pc ≠ .waitStarted := by
      rw [worldAt_succ, hk]; exact awake_of_turn (world_ok E sched k).1 hset
    exact Schedule.inv_from (step_inv fun _ _ _ h _ hm => hm.woke h) (show k + 1 ≤ n by omega) hawake
      hs.waiting

/-- A capture file with its global header only. -/
def Capture.headerOnly : Capture where
  header := Wire.encode PcapHdr.ethernet
  records := []
  header_length := Wire.encode_length PcapHdr.ethernet

/-- The program as it is, on that file. -/
def Capture.headerOnlyEnv : Env :=
  Capture.headerOnly.env BATCH_SIZE (fun _ _ => 0) .all fun _ _ => 0

/-- The producer is done before the consumer's first turn. -/
theorem stranded_early : (worldAt Capture.headerOnlyEnv (fun _ => .producer) 3).Stranded :=
  ⟨by decide, by decide, by decide⟩

end MoexDecoder
