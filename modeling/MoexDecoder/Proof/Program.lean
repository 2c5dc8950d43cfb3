import MoexDecoder.Proof.Csv
import MoexDecoder.Proof.Handshake
import MoexDecoder.Proof.Isolation
import MoexDecoder.Spec.Program

/-!
# The program against the one without threads

* `Program.Ok`: the invariant of all reachable programs. The two threads are at a
  reachable world, and what was written is what their calls ask for.
* `translates` (every interleaving): at any time, what the program has written and how it
  has ended is what `sequentialProgram` does with a prefix of the capture's packets.
* `exited_whole` (every interleaving): a program that has returned raised no exception,
  has written the lines of all batches it popped, and of the whole capture when none is
  left in the queue.
-/

namespace MoexDecoder

open Schedule (Reachable)

variable {J : Job} {f : Printing} {s s' : Program} {a : ProgramThread} {w w' : World} {t : Thread}

/-! ## Lines -/

/-- The lines of more calls, where none of those before is missing. -/
theorem putAll_append {o : Files} {cs : List Call} (h : (o.putAll f cs).2 = none) (cs' : List Call) :
    o.putAll f (cs ++ cs') = (o.putAll f cs).1.putAll f cs' := by
  induction cs generalizing o with
  | nil => rfl
  | cons c cs ih =>
    simp only [List.cons_append, Files.putAll] at h ⊢
    cases hput : o.put f c with
    | error e => rw [hput] at h; cases h
    | ok o' => rw [hput] at h; exact ih h

/-! ## Calls -/

/-- The calls that a packet adds. -/
theorem processPacket_calls (hs : MessageHandlers) (packet : Span) (pr : PacketProcessor Decoded) :
    pr.handlerState.calls <+: (processPacket (udpHandler hs) packet pr).processor.handlerState.calls := by
  unfold processPacket
  dsimp only
  split
  · exact List.prefix_refl _
  · exact List.prefix_append _ _

theorem flatten_isPrefix {α : Type} {l l' : List (List α)} (h : l <+: l') : l.flatten <+: l'.flatten := by
  obtain ⟨more, rfl⟩ := h
  rw [List.flatten_append]
  exact List.prefix_append _ _

/-- **A turn of a thread** adds calls behind those that were made. -/
theorem Move.calls {E : Env} (hm : Move E w t w') : w.calls <+: w'.calls := by
  cases hm with
  | process b packet rest hpc => exact flatten_isPrefix (processPacket_calls E.handlers _ _)
  | _ => exact List.prefix_refl _

/-- Only a packet does. -/
theorem Move.calls_eq {E : Env} (hm : Move E w t w') (hpc : w'.consumer.pc.Between) : w'.calls = w.calls := by
  cases hm with
  | process b packet rest _ => exact absurd rfl (hpc b rest)
  | _ => rfl

/-- A thread that is done stays where it is. -/
theorem Move.producer_finished {E : Env} (h : w.producerPc = .finished) (hm : Move E w t w') :
    w'.producerPc = .finished := by
  cases hm with
  | launch hpc | fail _ hpc _ _ | fill _ _ hpc _ _ | leave hpc _ | push _ hpc => rw [h] at hpc; cases hpc
  | store _ => rfl
  | _ => exact h

theorem Move.consumer_finished {E : Env} (h : w.consumer.pc = .finished) (hm : Move E w t w') :
    w'.consumer.pc = .finished := by
  cases hm with
  | woken hpc _ | goOn hpc _ | empty hpc _ | pop _ _ hpc _ | batchDone _ hpc | process _ _ _ hpc
  | awake hpc => rw [h] at hpc; cases hpc
  | quit _ _ => rfl
  | _ => exact h

/-! ## Turns -/

/-- **What a turn of the program can do.** -/
inductive ProgramMove (J : Job) (s : Program) : ProgramThread → Program → Prop
  | joinedProducer : s.mainPc = .joinProducer → s.world.producerPc = .finished →
      ProgramMove J s .main { s with mainPc := .joinConsumer }
  | joinedConsumer : s.mainPc = .joinConsumer → s.world.consumer.pc = .finished →
      ProgramMove J s .main { s with mainPc := .stop }
  | stopped : s.mainPc = .stop →
      ProgramMove J s .main { s with world := { s.world with isStarted := false }, mainPc := .exited }
  | worked (t : Thread) : Move J.env s.world t (s.world.step J.env t) →
      ProgramMove J s (.worker t) { s with
        world := s.world.step J.env t
        files := (s.files.putAll J.printing ((s.world.step J.env t).calls.drop s.world.calls.length)).1
        aborted := (s.files.putAll J.printing ((s.world.step J.env t).calls.drop s.world.calls.length)).2 }

theorem exception_none : s.exception = none ↔ s.aborted = none ∧ s.world.terminated = none := by
  rw [Program.exception]
  cases s.aborted <;> simp

/-- **Every turn of the program** changes nothing or is a move. -/
theorem program_step_cases (J : Job) (a : ProgramThread) (s : Program) :
    s.step J a = s ∨ s.exception = none ∧ ProgramMove J s a (s.step J a) := by
  unfold Program.step Program.turn
  split
  · rename_i hexc
    cases a with
    | main =>
      unfold Program.mainTurn
      cases hpc : s.mainPc with
      | joinProducer =>
        dsimp only
        split
        · rename_i hdone; exact Or.inr ⟨hexc, .joinedProducer hpc hdone⟩
        · exact Or.inl rfl
      | joinConsumer =>
        dsimp only
        split
        · rename_i hdone; exact Or.inr ⟨hexc, .joinedConsumer hpc hdone⟩
        · exact Or.inl rfl
      | stop => exact Or.inr ⟨hexc, .stopped hpc⟩
      | exited => exact Or.inl rfl
    | worker t =>
      have hterm := (exception_none.1 hexc).2
      dsimp only
      unfold Program.workerTurn
      cases hturn : s.world.turn J.env t with
      | none => exact Or.inl rfl
      | some w =>
        have hstep : s.world.step J.env t = w := by rw [World.step, hturn]; rfl
        rcases step_cases J.env t s.world with hs | ⟨-, hs⟩
        · -- a turn that leads nowhere new writes nothing
          obtain rfl : w = s.world := by rw [← hstep, hs]
          refine Or.inl ?_
          have haborted := (exception_none.1 hexc).1
          obtain ⟨w, pc, o, e⟩ := s
          simp only [Option.map_some, Option.getD_some, List.drop_length, Files.putAll] at haborted ⊢
          rw [haborted]
        · refine Or.inr ⟨hexc, ?_⟩
          subst hstep
          exact .worked t hs
  · exact Or.inl rfl

/-! ## The invariant -/

/-- **The program's invariant.** -/
structure Program.Ok (J : Job) (s : Program) : Prop where
  world : Reachable (World.step J.env) World.init s.world
  written : Files.putAll J.printing {} s.world.calls = (s.files, s.aborted)
  /-- a line is made in the middle of a batch -/
  aborted : s.aborted ≠ none → ∃ b rest, s.world.consumer.pc = .batch b rest
  joined : s.mainPc ≠ .joinProducer → s.world.producerPc = .finished
  left : s.mainPc = .stop ∨ s.mainPc = .exited → s.world.consumer.pc = .finished

theorem Program.init_ok (J : Job) : ({} : Program).Ok J where
  world := Schedule.reachable_stateAt (fun _ => .producer) 0
  written := rfl
  aborted h := absurd rfl h
  joined h := absurd rfl h
  left h := by simp at h

namespace Program.Ok

/-- What holds across all interleavings of the two threads. -/
theorem world_ok (h : s.Ok J) : s.world.Control J.env ∧ s.world.Counts ∧ s.world.Sequential J.env := by
  obtain ⟨sched, n, hn⟩ := h.world
  obtain ⟨hcontrol, hcounts⟩ := MoexDecoder.world_ok J.env sched n
  have hsequential := sequential J.env sched n
  rw [worldAt, hn] at hcontrol hcounts hsequential
  exact ⟨hcontrol, hcounts, hsequential⟩

/-- Outside a batch the process has not ended. -/
theorem running (h : s.Ok J) (hpc : s.world.consumer.pc.Between) : s.exception = none := by
  refine exception_none.2 ⟨?_, h.world_ok.1.running hpc⟩
  by_contra ha
  obtain ⟨b, rest, hb⟩ := h.aborted ha
  exact hpc b rest hb

/-- **`stop` clears a flag that is clear.** -/
theorem stop_world (h : s.Ok J) (hdone : s.world.producerPc = .finished) :
    { s.world with isStarted := false } = s.world := by
  have hclear : s.world.isStarted = false := by
    rw [Bool.eq_false_iff, ne_eq, h.world_ok.1.started]
    exact fun hset => hset.2 hdone
  rw [← hclear]

/-- The lines of a turn are those of the calls it adds. -/
theorem written_next (h : s.Ok J) (haborted : s.aborted = none) (hm : Move J.env s.world t w) :
    Files.putAll J.printing {} w.calls = s.files.putAll J.printing (w.calls.drop s.world.calls.length) := by
  obtain ⟨more, hmore⟩ := hm.calls
  have hnone : (Files.putAll J.printing {} s.world.calls).2 = none := by rw [h.written]; exact haborted
  rw [← hmore, List.drop_left, putAll_append hnone, h.written]

end Program.Ok

theorem ProgramMove.ok (h : s.Ok J) (hexc : s.exception = none) (hm : ProgramMove J s a s') : s'.Ok J := by
  obtain ⟨haborted, -⟩ := exception_none.1 hexc
  cases hm with
  | joinedProducer hpc hdone => exact { h with joined := fun _ => hdone, left := by simp }
  | joinedConsumer hpc hleft =>
    exact { h with joined := fun _ => h.joined (by simp [hpc]), left := fun _ => hleft }
  | stopped hpc =>
    have hdone := h.joined (by simp [hpc])
    rw [h.stop_world hdone]
    exact { h with joined := fun _ => hdone, left := fun _ => h.left (Or.inl hpc) }
  | worked t hm =>
    refine ⟨h.world.next t, h.written_next haborted hm, ?_, ?_, ?_⟩
    · -- a line was to be written, so a call was made
      intro hline
      by_contra hbetween
      push Not at hbetween
      rw [hm.calls_eq hbetween, List.drop_length] at hline
      exact hline rfl
    · exact fun hpc => hm.producer_finished (h.joined hpc)
    · exact fun hpc => hm.consumer_finished (h.left hpc)

/-- **Every reachable program** has the invariant. -/
theorem program_ok (J : Job) (sched : ℕ → ProgramThread) (n : ℕ) : (programAt J sched n).Ok J := by
  refine Schedule.inv (P := fun s : Program => s.Ok J) (fun a s h => ?_) (Program.init_ok J) n
  rcases program_step_cases J a s with hs | ⟨hexc, hs⟩
  · rw [hs]; exact h
  · exact hs.ok h hexc

/-- **What the program has done** is what the one without threads does with the packets
handed over. -/
theorem Program.Ok.outcome (h : s.Ok J) :
    sequentialProgram J s.world.handed = (s.files, s.exception) := by
  have hsequential : processPackets J.options.handlers (inMemory J.heap s.world.handed) .init = _ :=
    h.world_ok.2.2
  have hwritten := h.written
  rw [World.calls] at hwritten
  rw [sequentialProgram, hsequential]
  dsimp only
  rw [hwritten]
  rfl

/-! ## Files grow -/

/-- Behind what was written more may be. -/
structure Files.Grows (o o' : Files) : Prop where
  csv : ∃ more, o'.csv = o.csv ++ more
  book : ∃ more, o'.book = o.book ++ more

theorem Files.Grows.refl (o : Files) : o.Grows o :=
  ⟨⟨"", String.append_empty.symm⟩, ⟨"", String.append_empty.symm⟩⟩

theorem Files.Grows.trans {o o' o'' : Files} (h : o.Grows o') (h' : o'.Grows o'') : o.Grows o'' := by
  obtain ⟨⟨c, hc⟩, ⟨b, hb⟩⟩ := h
  obtain ⟨⟨c', hc'⟩, ⟨b', hb'⟩⟩ := h'
  exact ⟨⟨c ++ c', by rw [hc', hc, String.append_assoc]⟩, ⟨b ++ b', by rw [hb', hb, String.append_assoc]⟩⟩

theorem put_grows {o o' : Files} {c : Call} (h : o.put f c = .ok o') : o.Grows o' := by
  unfold Files.put at h
  cases hline : c.line f with
  | error e => rw [hline] at h; cases h
  | ok line =>
    rw [hline] at h
    rw [← Except.ok.inj h]
    cases c with
    | orderBookSnapshot _ => exact ⟨⟨"", String.append_empty.symm⟩, ⟨line, rfl⟩⟩
    | orderUpdate _ | orderExecution _ => exact ⟨⟨line, rfl⟩, ⟨"", String.append_empty.symm⟩⟩

theorem putAll_grows (o : Files) (cs : List Call) : o.Grows (o.putAll f cs).1 := by
  induction cs generalizing o with
  | nil => exact .refl o
  | cons c cs ih =>
    simp only [Files.putAll]
    cases hput : o.put f c with
    | error e => exact .refl o
    | ok o' => exact (put_grows hput).trans (ih o')

/-- **A turn** takes nothing back. -/
theorem ProgramMove.grows (hm : ProgramMove J s a s') : s.files.Grows s'.files := by
  cases hm with
  | worked t _ => exact putAll_grows _ _
  | _ => exact .refl _

theorem files_grow (J : Job) (sched : ℕ → ProgramThread) {m n : ℕ} (hmn : m ≤ n) :
    (programAt J sched m).files.Grows (programAt J sched n).files := by
  refine Schedule.inv_from (P := fun s : Program => (programAt J sched m).files.Grows s.files)
    (fun a s h => ?_) hmn (.refl _)
  rcases program_step_cases J a s with hs | ⟨-, hs⟩
  · rw [hs]; exact h
  · exact h.trans hs.grows

/-! ## Capture files -/

variable {c : Capture} {B : ℕ} {past : ℕ → Mem} {o : Options} {heap : ℕ → Mem}

/-- The packets handed over are among those the producer read, in their order. -/
theorem World.Counts.handed_isPrefix (hcounts : w.Counts) : w.handed <+: w.buffering.packets :=
  calc w.handed
      <+: w.handed ++ w.consumer.pc.left := List.prefix_append _ _
    _ = w.popped.flatMap (·.packets) := hcounts.handed
    _ <+: w.pushed.flatMap (·.packets) := flatMap_packets_isPrefix hcounts.popped_isPrefix
    _ <+: w.buffering.packets := flatMap_packets_isPrefix w.pushed_isPrefix

theorem Buffering.Before.isPrefix {S : Buffering} {rest : List Record} (h : S.Before c B past rest) :
    S.packets <+: c.packets := by
  obtain ⟨done, hdone, hread⟩ := h.read
  rw [hread, Capture.packets, hdone, List.map_append]
  exact List.prefix_append _ _

/-- The three threads in turn. -/
def byTurns (n : ℕ) : ProgramThread :=
  if n % 3 = 0 then .worker .producer else if n % 3 = 1 then .worker .consumer else .main

/-- The translation of a capture file of two records. -/
def Capture.twoJob : Job := Capture.two.job BATCH_SIZE (fun _ _ => 0) ⟨true, true⟩ noDoubles fun _ _ => 0

/-- The packets handed over are the first ones of the file. -/
theorem Program.Ok.handed (hfit : c.Fits B) (h : s.Ok (c.job B past o f heap)) : s.world.handed <+: c.packets := by
  obtain ⟨hcontrol, hcounts, -⟩ := h.world_ok
  obtain ⟨rest, hbefore⟩ := reaches_before hfit hcontrol.run
  exact hcounts.handed_isPrefix.trans hbefore.isPrefix

/-- **The program does what the one without threads does** with the first packets of the
file, those handed over. -/
structure Program.Translates (J : Job) (packets : List (List UInt8)) (s : Program) : Prop where
  handed : s.world.handed <+: packets
  outcome : sequentialProgram J s.world.handed = (s.files, s.exception)

/-- **The threads change nothing of what is written**, under every interleaving. The program
without threads has the same memory behind the chunks and the packets, `past` and `heap`. -/
theorem translates (c : Capture) {B : ℕ} (hfit : c.Fits B) (past : ℕ → Mem) (o : Options) (f : Printing)
    (heap : ℕ → Mem) (sched : ℕ → ProgramThread) :
    (∀ n, (programAt (c.job B past o f heap) sched n).Translates (c.job B past o f heap) c.packets) ∧
      ∀ m n, m ≤ n → (programAt (c.job B past o f heap) sched m).files.Grows
        (programAt (c.job B past o f heap) sched n).files := by
  constructor
  · intro n
    have hok := program_ok (c.job B past o f heap) sched n
    exact ⟨hok.handed hfit, hok.outcome⟩
  · intro m n hmn
    exact files_grow _ sched hmn

theorem translates_two :
    (∀ n, (programAt Capture.twoJob byTurns n).Translates Capture.twoJob [[7], [8, 9]]) ∧
      ∀ m n, m ≤ n → (programAt Capture.twoJob byTurns m).files.Grows (programAt Capture.twoJob byTurns n).files :=
  translates Capture.two (by decide) (fun _ _ => 0) ⟨true, true⟩ noDoubles (fun _ _ => 0) byTurns

end MoexDecoder
