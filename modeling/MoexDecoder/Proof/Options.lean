import MoexDecoder.Proof.Payloads

/-!
# One output and the other

* `processPackets_all`: what the handlers installed are told of is what all of them would
  be, less the calls of the others; the exceptions are the same.
* `putAll_csv`: the lines of the CSV, and the exception of one that cannot be made, do not
  depend on the book. `putAll_book`: the book is cut short where a line of the CSV cannot
  be made.
* `outputs_apart` (every two runs on safe frames): so asking for the book does not change the
  CSV, while asking for the CSV may cut the book, and does so only where a line cannot be
  made.
-/

namespace MoexDecoder

variable {f : Printing} {hs : MessageHandlers} {o o' : Options}

/-! ## Calls -/

/-- A processor with some handlers installed, beside one with all. -/
structure TakesOf (hs : MessageHandlers) (pr all : PacketProcessor Decoded) : Prop where
  templates : Templates pr.handlerState.decoder.mapping
  templatesAll : Templates all.handlerState.decoder.mapping
  calls : pr.handlerState.calls.flatten = all.handlerState.calls.flatten.filter hs.takes

/-- **A packet** is decoded alike beside. -/
theorem processPacket_all (packet : Span) {pr all : PacketProcessor Decoded} (h : TakesOf hs pr all) :
    (processPacket (udpHandler hs) packet pr).exception =
        (processPacket (udpHandler .all) packet all).exception ∧
      TakesOf hs (processPacket (udpHandler hs) packet pr).processor
        (processPacket (udpHandler .all) packet all).processor := by
  unfold processPacket
  dsimp only
  split
  · exact ⟨rfl, h⟩
  · have hdec := decodeMessage_decodes hs (packet.subspan
      (ETH_PACKET_SIZE + (IPPacket.ofBuffer fun i => packet.mem (ETH_PACKET_SIZE + i)).headerLength +
        UDP_HEADER_SIZE)) h.templates
    have hall := decodeMessage_decodes .all (packet.subspan
      (ETH_PACKET_SIZE + (IPPacket.ofBuffer fun i => packet.mem (ETH_PACKET_SIZE + i)).headerLength +
        UDP_HEADER_SIZE)) h.templatesAll
    refine ⟨hdec.exception.trans hall.exception.symm, hdec.templates, hall.templates, ?_⟩
    simp only [udpHandler, List.flatten_append, List.flatten_singleton, h.calls, hdec.calls, hall.all_calls,
      List.filter_append]

theorem processPackets_all (packets : List Span) {pr all : PacketProcessor Decoded} (h : TakesOf hs pr all) :
    (processPackets hs packets pr).2 = (processPackets .all packets all).2 ∧
      TakesOf hs (processPackets hs packets pr).1 (processPackets .all packets all).1 := by
  induction packets generalizing pr all with
  | nil => exact ⟨rfl, h⟩
  | cons packet packets ih =>
    obtain ⟨hexc, hnext⟩ := processPacket_all packet h
    simp only [processPackets, hexc]
    cases (processPacket (udpHandler .all) packet all).exception with
    | none => exact ih hnext
    | some e => exact ⟨rfl, hnext⟩

/-! ## Lines -/

/-- The line of the call goes to the CSV. -/
def Call.isOrder : Call → Bool
  | orderUpdate _ | orderExecution _ => true
  | orderBookSnapshot _ => false

/-- The lines of calls, up to one that cannot be made. -/
def linesOf (f : Printing) : List Call → String × Option Exception
  | [] => ("", none)
  | c :: cs =>
    match c.line f with
    | .ok line => (line ++ (linesOf f cs).1, (linesOf f cs).2)
    | .error e => ("", some e)

theorem put_order {F : Files} {c : Call} (hc : c.isOrder = true) :
    F.put f c = (c.line f).map fun line => { F with csv := F.csv ++ line } := by
  cases c with
  | orderUpdate u | orderExecution x => rfl
  | orderBookSnapshot s => cases hc

/-- A book always has its text. -/
theorem put_book {F : Files} {c : Call} (hc : c.isOrder = false) :
    ∃ text, c.line f = .ok text ∧ F.put f c = .ok { F with book := F.book ++ text } := by
  cases c with
  | orderUpdate u | orderExecution x => cases hc
  | orderBookSnapshot s => exact ⟨_, rfl, rfl⟩

/-- **The CSV** has the lines of the orders, and ends the process where one is missing. -/
theorem putAll_csv (F : Files) (cs : List Call) :
    (F.putAll f cs).1.csv = F.csv ++ (linesOf f (cs.filter (·.isOrder))).1 ∧
      (F.putAll f cs).2 = (linesOf f (cs.filter (·.isOrder))).2 := by
  induction cs generalizing F with
  | nil => exact ⟨String.append_empty.symm, rfl⟩
  | cons c cs ih =>
    rw [Files.putAll]
    cases hc : c.isOrder with
    | true =>
      rw [List.filter_cons_of_pos hc, linesOf, put_order hc]
      cases c.line f with
      | error e => exact ⟨String.append_empty.symm, rfl⟩
      | ok line =>
        obtain ⟨hcsv, hexc⟩ := ih { F with csv := F.csv ++ line }
        exact ⟨by simp only [Except.map, hcsv, String.append_assoc], hexc⟩
    | false =>
      obtain ⟨text, -, hput⟩ := put_book (f := f) (F := F) hc
      rw [List.filter_cons_of_neg (by simp [hc]), hput]
      exact ih { F with book := F.book ++ text }

/-- **The book** has the texts of the snapshots, as far as the process comes. -/
theorem putAll_book (F : Files) (cs : List Call) :
    ∃ more, F.book ++ (linesOf f (cs.filter (!·.isOrder))).1 = (F.putAll f cs).1.book ++ more ∧
      ((F.putAll f cs).2 = none → more = "") := by
  induction cs generalizing F with
  | nil => exact ⟨"", rfl, fun _ => rfl⟩
  | cons c cs ih =>
    rw [Files.putAll]
    cases hc : c.isOrder with
    | true =>
      rw [List.filter_cons_of_neg (by simp [hc]), put_order hc]
      cases c.line f with
      | error e => exact ⟨_, rfl, fun h => absurd h (Option.some_ne_none e)⟩
      | ok line => exact ih { F with csv := F.csv ++ line }
    | false =>
      obtain ⟨text, hline, hput⟩ := put_book (f := f) (F := F) hc
      rw [List.filter_cons_of_pos (by simp [hc]), hput, linesOf, hline]
      obtain ⟨more, hbook, hmore⟩ := ih { F with book := F.book ++ text }
      exact ⟨more, by rw [← hbook]; simp only [String.append_assoc], hmore⟩

/-- Of the calls that `main` is told of, those of one file are all or none. -/
theorem filter_takes_order (o : Options) (cs : List Call) :
    (cs.filter o.handlers.takes).filter (·.isOrder) =
      if o.outOrdersCsv then cs.filter (·.isOrder) else [] := by
  have htakes : ∀ c : Call, (c.isOrder && o.handlers.takes c) = (c.isOrder && o.outOrdersCsv) := by
    intro c
    cases c <;> rfl
  rw [List.filter_filter]
  simp only [htakes]
  cases o.outOrdersCsv <;> simp

theorem filter_takes_book (o : Options) (cs : List Call) :
    (cs.filter o.handlers.takes).filter (!·.isOrder) = if o.outBook then cs.filter (!·.isOrder) else [] := by
  have htakes : ∀ c : Call, (!c.isOrder && o.handlers.takes c) = (!c.isOrder && o.outBook) := by
    intro c
    cases c <;> rfl
  rw [List.filter_filter]
  simp only [htakes]
  cases o.outBook <;> simp

/-! ## Whole programs -/

/-- The book beside a CSV, and without one. -/
theorem books_beside (hbook : o.outBook = o'.outBook) (hcsv : o.outOrdersCsv = false) (cs : List Call) :
    ∃ more, (Files.putAll f {} (cs.filter o.handlers.takes)).1.book =
        (Files.putAll f {} (cs.filter o'.handlers.takes)).1.book ++ more ∧
      ((Files.putAll f {} (cs.filter o'.handlers.takes)).2 = none → more = "") := by
  obtain ⟨-, hexc⟩ := putAll_csv (f := f) {} (cs.filter o.handlers.takes)
  obtain ⟨more, htexts, hmore⟩ := putAll_book (f := f) {} (cs.filter o.handlers.takes)
  obtain ⟨more', htexts', hmore'⟩ := putAll_book (f := f) {} (cs.filter o'.handlers.takes)
  -- without the CSV no line can be missing
  rw [filter_takes_order, hcsv] at hexc
  rw [hmore hexc, String.append_empty, filter_takes_book, hbook] at htexts
  rw [filter_takes_book] at htexts'
  exact ⟨more', htexts.symm.trans htexts', hmore'⟩


section runs
variable {c : Capture} {B : ℕ} {past heap : ℕ → Mem} {s : Program}

/-- **What a run has done**, in terms of the payloads alone: it has written the lines of the
calls that are asked for, and one of these or a payload has raised the exception. -/
theorem Program.Ok.of_payloads (h : s.Ok (c.job B past o f heap)) (hfit : c.Fits B)
    (hsafe : ∀ packet ∈ c.packets, FrameSafe packet) :
    Files.putAll f {} ((decodeEach .all (s.world.handed.filterMap udpPayload)).1.filter o.handlers.takes) =
        (s.files, s.aborted) ∧
      s.exception = s.aborted.or (decodeEach .all (s.world.handed.filterMap udpPayload)).2 := by
  have hinit : TakesOf o.handlers .init .init := ⟨init_templates, init_templates, rfl⟩
  obtain ⟨hexc, -, -, hcalls⟩ := processPackets_all (inMemory heap s.world.handed) hinit
  obtain ⟨hexc', hcalls'⟩ := processPackets_payloads .all
    (inMemory_safe (fun packet hmem => hsafe packet ((h.handed hfit).subset hmem)) heap) .init init_templates
  rw [inMemory_bytes] at hexc' hcalls'
  have hsequential : processPackets o.handlers (inMemory heap s.world.handed) .init =
    (s.world.consumer.processor, s.world.terminated) := h.world_ok.2.2
  rw [hsequential] at hexc hcalls
  have hwritten : Files.putAll f {} s.world.consumer.processor.handlerState.calls.flatten = (s.files, s.aborted) :=
    h.written
  rw [hcalls, hcalls'] at hwritten
  refine ⟨hwritten, ?_⟩
  rw [← hexc', ← hexc]
  rfl

end runs

/-- **The outputs of two runs** on one capture file of safe frames, each with its own chunk
size, memory and schedule, at moments when as many packets were handed over. -/
theorem outputs_apart (c : Capture) (hsafe : ∀ packet ∈ c.packets, FrameSafe packet) {B B' : ℕ} (hfit : c.Fits B)
    (hfit' : c.Fits B') (past past' : ℕ → Mem) (f : Printing) (heap heap' : ℕ → Mem) (o o' : Options)
    (sched sched' : ℕ → ProgramThread) (n n' : ℕ)
    (hsame : (programAt (c.job B past o f heap) sched n).world.handed.length =
      (programAt (c.job B' past' o' f heap') sched' n').world.handed.length) :
    (o.outOrdersCsv = o'.outOrdersCsv →
      (programAt (c.job B past o f heap) sched n).files.csv =
          (programAt (c.job B' past' o' f heap') sched' n').files.csv ∧
        (programAt (c.job B past o f heap) sched n).exception =
          (programAt (c.job B' past' o' f heap') sched' n').exception) ∧
    (o.outBook = o'.outBook → o.outOrdersCsv = false →
      ∃ more, (programAt (c.job B past o f heap) sched n).files.book =
          (programAt (c.job B' past' o' f heap') sched' n').files.book ++ more ∧
        ((programAt (c.job B' past' o' f heap') sched' n').aborted = none → more = "")) := by
  have hok := program_ok (c.job B past o f heap) sched n
  have hok' := program_ok (c.job B' past' o' f heap') sched' n'
  set s := programAt (c.job B past o f heap) sched n
  set s' := programAt (c.job B' past' o' f heap') sched' n'
  have hhanded : s'.world.handed = s.world.handed := by
    rw [List.prefix_iff_eq_take.1 (hok.handed hfit), List.prefix_iff_eq_take.1 (hok'.handed hfit'), hsame]
  obtain ⟨hwritten, hexc⟩ := hok.of_payloads hfit hsafe
  obtain ⟨hwritten', hexc'⟩ := hok'.of_payloads hfit' hsafe
  rw [hhanded] at hwritten' hexc'
  generalize decodeEach .all (s.world.handed.filterMap udpPayload) = decoded at hwritten hexc hwritten' hexc'
  constructor
  · intro hcsv
    obtain ⟨hlines, haborted⟩ := putAll_csv (f := f) {} (decoded.1.filter o.handlers.takes)
    obtain ⟨hlines', haborted'⟩ := putAll_csv (f := f) {} (decoded.1.filter o'.handlers.takes)
    rw [filter_takes_order, hwritten] at hlines haborted
    rw [filter_takes_order, ← hcsv, hwritten'] at hlines' haborted'
    refine ⟨hlines.trans hlines'.symm, ?_⟩
    rw [hexc, hexc', show s.aborted = s'.aborted from haborted.trans haborted'.symm]
  · intro hbook hcsv
    obtain ⟨more, hmore, hempty⟩ := books_beside (f := f) hbook hcsv decoded.1
    rw [hwritten, hwritten'] at hmore
    rw [hwritten'] at hempty
    exact ⟨more, hmore, hempty⟩

/-- The translation of an update without a side that has a name, and of a snapshot: with the
book, and with the CSV or without. -/
theorem updateAndBook_apart :
    ∃ more, (programAt (Capture.updateAndBook.job BATCH_SIZE (fun _ _ => 0) ⟨false, true⟩ noDoubles fun _ _ => 0)
        byTurns 20).files.book =
        (programAt (Capture.updateAndBook.job 500 (fun _ _ => 7) ⟨true, true⟩ noDoubles fun _ _ => 255)
          byTurns 26).files.book ++ more ∧
      ((programAt (Capture.updateAndBook.job 500 (fun _ _ => 7) ⟨true, true⟩ noDoubles fun _ _ => 255)
        byTurns 26).aborted = none → more = "") := by
  have hfit : Capture.updateAndBook.Fits BATCH_SIZE := by decide +kernel
  exact (outputs_apart Capture.updateAndBook (by decide +kernel) hfit (by decide +kernel) (fun _ _ => 0)
    (fun _ _ => 7) noDoubles (fun _ _ => 0) (fun _ _ => 255) ⟨false, true⟩ ⟨true, true⟩ byTurns byTurns 20 26
    (by decide +kernel)).2 rfl rfl

-- with the CSV, the process ends before it comes to the book
example : (sequentialProgram (Capture.updateAndBook.job BATCH_SIZE (fun _ _ => 0) ⟨true, true⟩ noDoubles
      fun _ _ => 0) Capture.updateAndBook.packets).1.book = "" ∧
    (sequentialProgram (Capture.updateAndBook.job BATCH_SIZE (fun _ _ => 0) ⟨false, true⟩ noDoubles
      fun _ _ => 0) Capture.updateAndBook.packets).1.book ≠ "" := by decide +kernel

end MoexDecoder
