import MoexDecoder.Proof.Delivery

/-!
# How many batches there are

* `fitting_full`: a chunk leaves a record only where it has no room for it.
* `batches_few` (every interleaving): so two batches that follow each other have the bytes
  of a chunk, and records of `n` bytes are read in at most `2 * n / B + 1` passes, although
  each pass reads again what the one before it had no room for.
-/

namespace MoexDecoder

open StateTransition

variable {c : Capture} {B : ℕ} {past : ℕ → Mem} {S S' : Buffering} {rest : List Record}

/-! ## A chunk -/

/-- **A chunk is full** where the next record does not fit. -/
theorem fitting_full (rs : List Record) (acc : ℕ) :
    ∀ r ∈ (rs.drop (fitting B acc rs).length).head?, B ≤ acc + recordSize (fitting B acc rs) + r.size := by
  induction rs generalizing acc with
  | nil => simp [fitting]
  | cons r rs ih =>
    intro next hnext
    unfold fitting at hnext ⊢
    split at hnext
    · rename_i hfit
      rw [if_pos hfit, recordSize_cons, ← Nat.add_assoc]
      exact ih _ next hnext
    · rename_i hfit
      obtain rfl : r = next := Option.some.inj hnext
      rw [if_neg hfit, recordSize_nil]
      omega

/-- It keeps a byte to spare. -/
theorem fitting_lt (rs : List Record) {acc : ℕ} (h : acc < B) : acc + recordSize (fitting B acc rs) < B := by
  induction rs generalizing acc with
  | nil => exact h
  | cons r rs ih =>
    unfold fitting
    split
    · rename_i hfit
      rw [recordSize_cons, ← Nat.add_assoc]
      exact ih hfit
    · exact h

/-- The first record goes into the chunk. -/
theorem size_le_fitting (hfit : ∀ r ∈ rest, r.size < B) :
    ∀ r ∈ rest.head?, r.size ≤ recordSize (fitting B 0 rest) := by
  cases rest with
  | nil => simp
  | cons first rest =>
    intro r hr
    obtain rfl : first = r := Option.some.inj hr
    have hfirst : 0 + first.size < B := by
      rw [Nat.zero_add]
      exact hfit first List.mem_cons_self
    rw [fitting, if_pos hfirst, recordSize_cons]
    exact Nat.le_add_right _ _

/-! ## The outer loop -/

/-- **The batches are full**: each begins with the record that the one before it had no
room for. -/
structure Buffering.Full (B : ℕ) (S : Buffering) (rest : List Record) : Prop where
  lt : ∀ b ∈ S.pcapDataChunks, spanned b.packets < B
  neighbours : S.pcapDataChunks.IsChain fun b b' => B ≤ spanned b.packets + spanned b'.packets
  waiting : ∀ b ∈ S.pcapDataChunks.getLast?, ∀ r ∈ rest.head?, B ≤ spanned b.packets + r.size
  passes : S.producer.passes = S.pcapDataChunks.length

theorem Buffering.init_full (B : ℕ) (rest : List Record) : Buffering.init.Full B rest where
  lt := by simp [Buffering.init]
  neighbours := .nil
  waiting := by simp [Buffering.init]
  passes := rfl

/-- **One pass** pushes a full batch. -/
theorem Buffering.Full.step (hfit : c.Fits B) (hb : S.Before c B past rest) (h : S.Full B rest)
    (hs : bufferStep (c.input B past) S = some S') :
    S'.Full B (rest.drop (fitting B 0 rest).length) := by
  obtain ⟨hlt, rfl⟩ := bufferStep_some hb.toOk hs
  obtain ⟨done, hdone, -⟩ := hb.read
  have hrest : ∀ r ∈ rest, r.size < B := fun r hr => hfit r (by rw [hdone]; exact List.mem_append_right _ hr)
  have hne : rest ≠ [] := by
    rintro rfl
    have := hb.standing.fileSize
    simp at this hlt; omega
  have hpos : 0 < B := by
    obtain ⟨r, hr⟩ := List.exists_mem_of_ne_nil rest hne
    exact lt_of_le_of_lt (Nat.zero_le _) (hrest r hr)
  have hbatch : spanned (filled (c.input B past) S.producer).bufferedPackets.packets =
      recordSize (fitting B 0 rest) := by
    rw [filled_records hb.standing]
    exact spanned_data _
  refine ⟨?_, ?_, ?_, ?_⟩
  · intro b hmem
    rcases List.mem_append.1 hmem with hmem | hmem
    · exact h.lt b hmem
    · have hspare := fitting_lt rest hpos
      rw [List.mem_singleton.1 hmem, hbatch]
      omega
  · refine List.isChain_append.2 ⟨h.neighbours, .singleton _, ?_⟩
    intro b hlast b' hnew
    obtain rfl := Option.some.inj hnew
    -- the record that `b` had no room for is the first of `b'`
    obtain ⟨r, hr⟩ : ∃ r, r ∈ rest.head? := by
      obtain ⟨r, more, rfl⟩ := List.exists_cons_of_ne_nil hne
      exact ⟨r, rfl⟩
    have hroom := h.waiting b hlast r hr
    have hfirst := size_le_fitting hrest r hr
    rw [hbatch]
    omega
  · intro b hlast r hr
    obtain rfl : _ = b := by simpa using hlast
    have hfull := fitting_full rest 0 r hr
    rw [hbatch]
    omega
  · simp [Producer.next, h.passes]

theorem reaches_full (hfit : c.Fits B) (h : Reaches (bufferStep (c.input B past)) Buffering.init S) :
    ∃ rest, S.Before c B past rest ∧ S.Full B rest :=
  Loop.Reaches.inv (P := fun S => ∃ rest, S.Before c B past rest ∧ S.Full B rest)
    (fun _ _ ⟨_, hb, hf⟩ hs => ⟨_, hb.step hfit hs, hf.step hfit hb hs⟩) h
    ⟨_, Buffering.init_before c B past, Buffering.init_full B _⟩

/-- The batches have no more bytes than the file. -/
theorem Buffering.Before.spanned_le (h : S.Before c B past rest) : spanned S.packets ≤ recordSize c.records := by
  obtain ⟨done, hdone, hread⟩ := h.read
  rw [hread, spanned_data, hdone, recordSize_append]
  exact Nat.le_add_right _ _

theorem spanned_flatMap (bs : List BufferedPackets) :
    spanned (bs.flatMap (·.packets)) = (bs.map fun b => spanned b.packets).sum := by
  induction bs with
  | nil => rfl
  | cons b bs ih => rw [List.flatMap_cons, spanned_append, ih, List.map_cons, List.sum_cons]

/-! ## The program -/

/-- **Batches of a capture.** -/
structure World.Batched (B : ℕ) (c : Capture) (w : World) : Prop where
  /-- no batch is empty, and each leaves a byte of its chunk -/
  inside : ∀ b ∈ w.pushed, b.packets ≠ [] ∧ spanned b.packets < B
  neighbours : w.pushed.IsChain fun b b' => B ≤ spanned b.packets + spanned b'.packets
  /-- what waits in the queue is in memory -/
  queue : (w.pcapDataChunks.map fun b => spanned b.packets).sum ≤ recordSize c.records
  /-- each pass of the producer pushes one batch, or is about to -/
  pushed : w.pushed.length ≤ w.producer.passes
  few : (w.producer.passes - 1) * B ≤ 2 * recordSize c.records

theorem World.buffering_passes (w : World) : w.buffering.producer.passes = w.producer.passes := by
  unfold buffering
  split <;> rfl

/-- **There are few batches**, under every interleaving. -/
theorem batches_few (c : Capture) {B : ℕ} (hfit : c.Fits B) (past : ℕ → Mem) (hs : MessageHandlers) (heap : ℕ → Mem)
    (sched : ℕ → Thread) (n : ℕ) : (worldAt (c.env B past hs heap) sched n).Batched B c := by
  obtain ⟨hcontrol, hcounts⟩ := world_ok (c.env B past hs heap) sched n
  set w := worldAt (c.env B past hs heap) sched n
  obtain ⟨rest, hbefore, hfull⟩ : ∃ rest, w.buffering.Before c B past rest ∧ w.buffering.Full B rest :=
    reaches_full hfit hcontrol.run
  have hpassed := hfull.passes
  have hall := hbefore.spanned_le
  rw [Buffering.packets, spanned_flatMap] at hall
  rw [w.buffering_passes] at hpassed
  obtain ⟨more, hmore⟩ := w.pushed_isPrefix
  refine ⟨?_, ?_, ?_, ?_, ?_⟩
  · intro b hb
    have hmem := w.pushed_isPrefix.subset hb
    exact ⟨hbefore.nonempty b hmem, hfull.lt b hmem⟩
  · have hneighbours := hfull.neighbours
    rw [← hmore] at hneighbours
    exact hneighbours.left_of_append
  · rw [← hmore, ← hcounts.queue, List.map_append, List.map_append, List.sum_append, List.sum_append] at hall
    omega
  · rw [hpassed]
    exact w.pushed_isPrefix.length_le
  · rw [hpassed]
    exact (length_le_of_neighbours hfull.neighbours).trans (Nat.mul_le_mul_left 2 hall)

/-- The chunk has no room for both records. -/
theorem batches_few_two :
    (worldAt (Capture.two.env 34 (fun _ _ => 0) .all fun _ _ => 0) alternating 9).Batched 34 Capture.two :=
  batches_few Capture.two (by decide) (fun _ _ => 0) .all (fun _ _ => 0) alternating 9

end MoexDecoder
