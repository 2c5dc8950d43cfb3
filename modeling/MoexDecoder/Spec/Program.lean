import MoexDecoder.Spec.Capture
import MoexDecoder.Spec.Output
import MoexDecoder.Spec.PcapProcessor

/-!
# The program: `main`

`Program` is the whole process: the two threads of `PCAPProcessor` with the thread that
made them, and the two files that the handlers of `main` write to. A `Job` is what a run
depends on: the capture file behind its header, the options, and what a stream prints of a
`double`.

`sequentialProgram` is what the program is for, with no threads: it decodes a list of
packets one after the other and writes the lines.
-/

namespace MoexDecoder

/-- The options of `main` that name an output file. -/
structure Options where
  /-- `--out-orders-csv` is given -/
  outOrdersCsv : Bool
  /-- `--out-book` is given -/
  outBook : Bool
deriving DecidableEq

/-- The handlers that `main` installs. -/
def Options.handlers (o : Options) : MessageHandlers where
  orderExecutionHandler := o.outOrdersCsv
  orderUpdateHandler := o.outOrdersCsv
  orderBookSnapshotHandler := o.outBook

/-- What was written to the output files. Each line is flushed. -/
structure Files where
  /-- `decoded_stream_csv` -/
  csv : String := ""
  /-- `output_book_file_stream` -/
  book : String := ""
deriving DecidableEq

/-- A handler of `main`. The line is made before it is flushed: without it nothing of it
is written. -/
def Files.put (f : Printing) (o : Files) (c : Call) : Except Exception Files :=
  (c.line f).map fun line =>
    match c with
    | .orderBookSnapshot _ => { o with book := o.book ++ line }
    | .orderUpdate _ | .orderExecution _ => { o with csv := o.csv ++ line }

/-- The calls of handlers, one after the other. A line that cannot be made ends the process. -/
def Files.putAll (f : Printing) (o : Files) : List Call → Files × Option Exception
  | [] => (o, none)
  | c :: cs =>
    match o.put f c with
    | .ok o' => o'.putAll f cs
    | .error e => (o, some e)

/-- What a run of `main` depends on. -/
structure Job extends Input where
  options : Options
  printing : Printing
  /-- what lies behind the `k`-th packet in memory when it is processed -/
  heap : ℕ → Mem

/-- The job as the two threads see it. -/
def Job.env (J : Job) : Env := { J.toInput with handlers := J.options.handlers, heap := J.heap }

/-- Where the thread of `main` is. -/
inductive MainPc
  /-- in `pcap_buffer_->thread().join()` -/
  | joinProducer
  /-- in `consumer_thread_.join()` -/
  | joinConsumer
  /-- in `~PCAPProcessor`, before the store of `PCAPBuffer::stop` -/
  | stop
  /-- `main` has returned `0` -/
  | exited
deriving DecidableEq

/-- The process, from where `PCAPProcessor` has made its threads: `process_header` has accepted
the file. -/
structure Program where
  world : World := .init
  mainPc : MainPc := .joinProducer
  files : Files := {}
  /-- the exception of a line that could not be made -/
  aborted : Option Exception := none

inductive ProgramThread
  | main
  | worker (t : Thread)
deriving DecidableEq

/-- The calls of handlers so far. -/
def World.calls (w : World) : List Call := w.consumer.processor.handlerState.calls.flatten

namespace Program

/-- The exception that ended the process. -/
def exception (s : Program) : Option Exception := s.aborted.or s.world.terminated

variable (J : Job)

/-- A turn of `main`; `none` while it is in a `join`, and when it has returned. -/
def mainTurn (s : Program) : Option Program :=
  match s.mainPc with
  | .joinProducer => if s.world.producerPc = .finished then some { s with mainPc := .joinConsumer } else none
  | .joinConsumer => if s.world.consumer.pc = .finished then some { s with mainPc := .stop } else none
  | .stop => some { s with world := { s.world with isStarted := false }, mainPc := .exited }
  | .exited => none

/-- A turn of a thread of `PCAPProcessor`. A packet whose line cannot be made is not
processed to its end, but nobody comes to see what is left of it. -/
def workerTurn (t : Thread) (s : Program) : Option Program :=
  (s.world.turn J.env t).map fun w =>
    let written := s.files.putAll J.printing (w.calls.drop s.world.calls.length)
    { s with world := w, files := written.1, aborted := written.2 }

/-- A turn of a thread. A process that has ended has no threads. -/
def turn (t : ProgramThread) (s : Program) : Option Program :=
  if s.exception = none then
    match t with
    | .main => s.mainTurn
    | .worker t => s.workerTurn J t
  else
    none

/-- A thread that has no turn to take leaves the program as it is. -/
def step (t : ProgramThread) (s : Program) : Program := (s.turn J t).getD s

end Program

/-- The program after `n` turns of a schedule. -/
def programAt (J : Job) (sched : ℕ → ProgramThread) (n : ℕ) : Program :=
  Schedule.stateAt (Program.step J) {} sched n

/-! ## Without threads -/

/-- The packets decoded one after the other, and the lines written: the files, and the
exception that ended it. -/
def sequentialProgram (J : Job) (packets : List (List UInt8)) : Files × Option Exception :=
  let decoded := processPackets J.options.handlers (inMemory J.heap packets) .init
  let written := Files.putAll J.printing {} decoded.1.handlerState.calls.flatten
  (written.1, written.2.or decoded.2)

/-- The job of translating a capture file. -/
def Capture.job (c : Capture) (B : ℕ) (past : ℕ → Mem) (o : Options) (f : Printing) (heap : ℕ → Mem) : Job :=
  { c.input B past with options := o, printing := f, heap := heap }

end MoexDecoder
