import MoexDecoder.Proof.Bounds

/-!
# How far batches are filled

* `endsInside_iff`: the records that a chunk takes are the longest run exactly when none of
  them, nor the one behind them, ends where the chunk does.
* `filled_iff`: on a capture file whose records fit a chunk every batch is the longest run
  of records exactly when each record ends before its chunk does.
-/

namespace MoexDecoder

open StateTransition

variable {B acc : ℕ} {run left rest done : List Record}

/-! ## Record sizes -/

/-- No record more fits when the next one does not. -/
theorem longest_iff (n : ℕ) (left : List Record) :
    (∀ more, more <+: left → n + recordSize more ≤ B → more = []) ↔ ∀ r ∈ left.head?, B < n + r.size := by
  constructor
  · intro h r hr
    by_contra hle
    have hpre : [r] <+: left := by
      obtain ⟨tl, rfl⟩ := List.head?_eq_some_iff.1 hr
      exact ⟨tl, rfl⟩
    have hnil := h [r] hpre (by simpa using not_lt.1 hle)
    exact List.cons_ne_nil _ _ hnil
  · intro h more hmore hle
    cases more with
    | nil => rfl
    | cons r more =>
      have hr : r ∈ left.head? := by
        obtain ⟨tl, rfl⟩ := hmore
        rfl
      have := h r hr
      rw [recordSize_cons] at hle
      omega

/-- A chunk takes no more than it has room for. -/
theorem recordSize_fitting_le (left : List Record) (h : acc ≤ B) : acc + recordSize (fitting B acc left) ≤ B := by
  induction left generalizing acc with
  | nil => exact h
  | cons r left ih =>
    unfold fitting
    split
    · rename_i hfit
      have := ih hfit.le
      rw [recordSize_cons]
      omega
    · exact h

/-- **A chunk takes all it could** when no record ends where the chunk does. -/
theorem endsInside_iff (left : List Record) (acc : ℕ) :
    endsInside B acc (left.map Record.size) ↔
      (∀ r ∈ (left.drop (fitting B acc left).length).head?, B < acc + recordSize (fitting B acc left) + r.size) ∧
        endsInside B 0 ((left.drop (fitting B acc left).length).map Record.size) := by
  induction left generalizing acc with
  | nil => simp [endsInside]
  | cons r left ih =>
    rw [List.map_cons, endsInside, fitting]
    by_cases hfit : acc + r.size < B
    · -- the record is taken, and the chunk goes on behind it
      rw [if_pos hfit.le, if_pos hfit, ih]
      simp only [hfit, true_and, List.length_cons, List.drop_succ_cons, recordSize_cons, add_assoc]
    · rw [if_neg hfit]
      simp only [List.length_nil, List.drop_zero, List.head?_cons, Option.mem_some_iff, forall_eq', recordSize_nil,
        Nat.add_zero, List.map_cons, endsInside, Nat.zero_add, ite_self]
      by_cases hle : acc + r.size ≤ B
      · -- the record ends where the chunk does, and is left to the next one
        simp [hle, hfit]
      · rw [if_neg hle]
        simp [not_le.1 hle]

/-! ## Batches -/

/-- A batch behind the batches `pre` is the longest run of records from its first one on. -/
def LongestBatch (c : Capture) (B : ℕ) (pre : List BufferedPackets) (b : BufferedPackets) : Prop :=
  ∃ done run left, c.records = done ++ (run ++ left) ∧ pre.flatMap (·.packets) = done.map (·.data) ∧
    b.packets = run.map (·.data) ∧ LongestRun B run left

/-- **Batches are filled as far as they go**, all that are ever pushed. -/
def FilledAsFar (c : Capture) (B : ℕ) (past : ℕ → Mem) : Prop :=
  ∀ S, Reaches (bufferStep (c.input B past)) Buffering.init S → AtEach (LongestBatch c B) S.pcapDataChunks

variable {c : Capture} {past : ℕ → Mem} {S : Buffering} {bs : List BufferedPackets} {b : BufferedPackets}

/-- The packets of a batch say which records it is made of. -/
theorem longestBatch_iff (hrecords : c.records = done ++ (run ++ left))
    (hread : bs.flatMap (·.packets) = done.map (·.data)) (hb : b.packets = run.map (·.data)) :
    LongestBatch c B bs b ↔ LongestRun B run left := by
  constructor
  · rintro ⟨done', run', left', hrecords', hread', hb', hlongest⟩
    have hdone : done.length = done'.length := by
      simpa using congrArg List.length (hread.symm.trans hread')
    have hrun : run.length = run'.length := by
      simpa using congrArg List.length (hb.symm.trans hb')
    obtain ⟨-, hrest⟩ := List.append_inj (hrecords.symm.trans hrecords') hdone
    obtain ⟨rfl, rfl⟩ := List.append_inj hrest hrun
    exact hlongest
  · intro hlongest
    exact ⟨done, run, left, hrecords, hread, hb, hlongest⟩

/-- The first chunk takes the longest run, and the others do. -/
theorem endsInside_zero_iff (rest : List Record) :
    endsInside B 0 (rest.map Record.size) ↔
      LongestRun B (fitting B 0 rest) (rest.drop (fitting B 0 rest).length) ∧
        endsInside B 0 ((rest.drop (fitting B 0 rest).length).map Record.size) := by
  have hle := recordSize_fitting_le rest (Nat.zero_le B)
  have hends := endsInside_iff (B := B) rest 0
  simp only [Nat.zero_add] at hle hends
  rw [hends, ← longest_iff]
  exact and_congr_left' ⟨fun h => ⟨hle, h⟩, fun h => h.longest⟩

/-- **A chunk that is pushed** is the longest run when its records are. -/
theorem Buffering.Before.pushed_iff (h : S.Before c B past rest) :
    AtEach (LongestBatch c B) (S.pcapDataChunks ++ [(filled (c.input B past) S.producer).bufferedPackets]) ↔
      AtEach (LongestBatch c B) S.pcapDataChunks ∧
        LongestRun B (fitting B 0 rest) (rest.drop (fitting B 0 rest).length) := by
  obtain ⟨done, hdone, hread⟩ := h.read
  have hpackets : (filled (c.input B past) S.producer).bufferedPackets.packets =
      (fitting B 0 rest).map (·.data) := by
    rw [filled_records h.standing]; rfl
  have hrecords : c.records = done ++ (fitting B 0 rest ++ rest.drop (fitting B 0 rest).length) := by
    rw [hdone, fitting_append_drop B 0 rest]
  rw [atEach_append_singleton, longestBatch_iff hrecords hread hpackets]

/-- The longest run from a record that fits takes it. -/
theorem LongestRun.ne_nil (h : LongestRun B run left) (hne : run ++ left ≠ [])
    (hfit : ∀ r ∈ run ++ left, r.size ≤ B) : run ≠ [] := by
  rintro rfl
  obtain ⟨r, left, rfl⟩ := List.exists_cons_of_ne_nil hne
  have hr := hfit r List.mem_cons_self
  have hnil := h.longest [r] ⟨left, rfl⟩ (by simpa using hr)
  exact List.cons_ne_nil _ _ hnil

/-- **The run**, from a state with the records `rest` ahead. -/
theorem run_filled_iff (h : S.Before c B past rest) (hfit : ∀ r ∈ rest, r.size ≤ B) :
    (∀ S', Reaches (bufferStep (c.input B past)) S S' → AtEach (LongestBatch c B) S'.pcapDataChunks) ↔
      AtEach (LongestBatch c B) S.pcapDataChunks ∧ endsInside B 0 (rest.map Record.size) := by
  induction hn : rest.length using Nat.strong_induction_on generalizing S rest with
  | _ n ih =>
    have hsz := h.standing.fileSize
    simp only [List.length_nil, Nat.add_zero] at hsz
    by_cases hne : rest = []
    · have hend : (c.input B past).fileSize ≤ S.producer.currentOffset := by
        rw [hsz, hne, recordSize_nil, Nat.add_zero]
      rw [Loop.forall_reaches_none (bufferStep_end hend)]
      simp [hne, endsInside]
    · have hpos := recordSize_pos hne
      have hlt : S.producer.currentOffset < (c.input B past).fileSize := by omega
      have hpass := bufferStep_pass h.toOk hlt
      have hpush := h.pushed_iff
      have hsplit := fitting_append_drop B 0 rest
      rw [Loop.forall_reaches_some hpass, endsInside_zero_iff]
      by_cases hlongest : LongestRun B (fitting B 0 rest) (rest.drop (fitting B 0 rest).length)
      · -- the chunk takes a record, and the run goes on behind those it took
        have htaken := hlongest.ne_nil (by rwa [hsplit]) (by rwa [hsplit])
        have hshort : (rest.drop (fitting B 0 rest).length).length < n := by
          have := List.length_pos_of_ne_nil htaken
          have := List.length_pos_of_ne_nil hne
          rw [List.length_drop]; omega
        have hrest : ∀ r ∈ rest.drop (fitting B 0 rest).length, r.size ≤ B := fun r hr =>
          hfit r (List.mem_of_mem_drop hr)
        rw [ih _ hshort (h.step_taken (fun _ => htaken) hpass) hrest rfl, hpush]
        tauto
      · constructor
        · rintro ⟨-, hall⟩
          exact absurd (hpush.1 (hall _ .refl)).2 hlongest
        · rintro ⟨-, hfirst, -⟩
          exact absurd hfirst hlongest

/-- **When batches are filled as far as they go**: exactly when each record ends before its
chunk does. -/
theorem filled_iff (hfit : c.FitsChunk B) (past : ℕ → Mem) :
    FilledAsFar c B past ↔ endsInside B 0 (c.records.map Record.size) := by
  have hrun := run_filled_iff (Buffering.init_before c B past) hfit
  have hinit : AtEach (LongestBatch c B) Buffering.init.pcapDataChunks := atEach_nil _
  rw [FilledAsFar, hrun]
  simp [hinit]

/-- A chunk with room for one of two records. -/
theorem filled_two : FilledAsFar Capture.two 34 fun _ _ => 0 :=
  (filled_iff (by unfold Capture.FitsChunk; decide) fun _ _ => 0).2 (by decide)

/-- Two records that take a chunk together. -/
def Capture.flush : Capture where
  header := Wire.encode PcapHdr.ethernet
  records := [.zeros 16777183, .one]
  header_length := Wire.encode_length PcapHdr.ethernet

theorem Capture.flush_sizes : Capture.flush.records.map Record.size = [BATCH_SIZE - 17, 17] := by
  have hone : Record.one.size = 17 := rfl
  simp [flush, Record.zeros_size, BATCH_SIZE, hone]

theorem Capture.flush_fits : Capture.flush.FitsChunk BATCH_SIZE := by
  intro r hr
  have hmem := List.mem_map_of_mem (f := Record.size) hr
  rw [flush_sizes] at hmem
  simp only [List.mem_cons, List.not_mem_nil, or_false, BATCH_SIZE] at hmem ⊢
  omega

/-- The second is left to a batch of its own. -/
theorem flush_not_filled :
    Capture.flush.FitsChunk BATCH_SIZE ∧ ¬ FilledAsFar Capture.flush BATCH_SIZE fun _ _ => 0 := by
  refine ⟨Capture.flush_fits, ?_⟩
  rw [FilledAsFar, run_filled_iff (Buffering.init_before _ _ _) Capture.flush_fits, Capture.flush_sizes]
  simp [endsInside, BATCH_SIZE]

end MoexDecoder
