import Mathlib.Algebra.Order.Floor.Div
import MoexDecoder.Proof.Decoder

/-!
# No payload hangs the decoder

* `readEntries_mem_eval`: the group loop as the source writes it, with its `entry_nr`, is
  left, and `readEntries` is what it leaves.
* `GroupLoop.Ok`: the book of the group loop holds the entries counted so far.
* `Counted`: in the message loop each message that a handler was told of takes eleven bytes
  of `message_size` or more. Every pass keeps it.
* `never_hangs`: both loops end on every payload, whatever its lengths say.
-/

namespace MoexDecoder

open StateTransition

variable {hs : MessageHandlers} {p : Span}

/-! ## The group loop -/

variable {group : GroupSize} {g g' : GroupLoop}

theorem groupStep_end (h : ¬ (g.decoding.exception = none ∧ g.entryNr < group.numInGroup.toNat)) :
    groupStep p group g = none :=
  if_neg h

/-- **The group loop ends**, with what is left of `readEntries`. -/
theorem readEntries_mem_eval (p : Span) (group : GroupSize) (k : ℕ) (s : Decoding) (b : OrderBookSnapshot)
    (entryNr : ℕ) (hexc : s.exception = none) (hk : entryNr + k = group.numInGroup.toNat) :
    ∃ g ∈ eval (groupStep p group) ⟨s, b, entryNr⟩,
      readEntries p group.blockSize.toNat k s b = (g.decoding, g.snapshot) := by
  induction k generalizing s b entryNr with
  | zero =>
    refine ⟨_, mem_eval.2 ⟨.refl, groupStep_end ?_⟩, rfl⟩
    rintro ⟨-, hlt⟩
    simp only at hlt
    omega
  | succ k ih =>
    have hguard : s.exception = none ∧ entryNr < group.numInGroup.toNat := ⟨hexc, by omega⟩
    have hstep : groupStep p group ⟨s, b, entryNr⟩ = _ := if_pos hguard
    simp only [readEntries]
    cases hb : b.insert (copyFrom p s.decoder.currentOffset group.blockSize.toNat {}) with
    | error e =>
      -- the exception leaves the loop
      simp only [GroupLoop.entry, hb] at hstep
      refine ⟨_, mem_eval.2 ⟨.single hstep, groupStep_end ?_⟩, rfl⟩
      rintro ⟨hnone, -⟩
      cases hnone
    | ok b' =>
      simp only [GroupLoop.entry, hb] at hstep
      obtain ⟨g, hg, hread⟩ := ih (GroupLoop.behindEntry group ⟨s, b, entryNr⟩) b' (entryNr + 1) hexc (by omega)
      exact ⟨g, (Loop.Reaches.mem_eval (.single hstep)).1 hg, hread⟩

/-- The book holds `entry_nr` entries, put in one after the other. -/
structure GroupLoop.Ok (header : OrderBookSnapshotHeader) (g : GroupLoop) : Prop where
  le : g.entryNr ≤ header.groupSize.numInGroup.toNat
  book : ∃ entries : List OrderBookEntry, entries.length = g.entryNr ∧ bookOf header entries = .ok g.snapshot

theorem GroupLoop.init_ok (s : Decoding) (header : OrderBookSnapshotHeader) : (GroupLoop.init s header).Ok header :=
  ⟨Nat.zero_le _, [], rfl, rfl⟩

theorem groupStep_ok {header : OrderBookSnapshotHeader} (h : g.Ok header)
    (hg : groupStep p header.groupSize g = some g') : g'.Ok header := by
  unfold groupStep at hg
  split at hg
  · rename_i hguard
    obtain ⟨hle, entries, hlen, hbook⟩ := h
    split at hg
    · cases hg
      exact ⟨hle, entries, hlen, hbook⟩
    · rename_i b' hb
      cases hg
      refine ⟨hguard.2, entries ++ [g.entry p header.groupSize], by simp [hlen], ?_⟩
      rw [bookOf, List.foldlM_append, ← bookOf, hbook]
      change [g.entry p header.groupSize].foldlM OrderBookSnapshot.insert g.snapshot = _
      rw [List.foldlM_cons, hb]
      rfl
  · cases hg

/-- **A pass inserts one entry**, and counts it, or raises an exception. -/
theorem groupStep_counted (hg : groupStep p group g = some g') (hexc : g'.decoding.exception = none) :
    g.snapshot.insert (g.entry p group) = .ok g'.snapshot ∧ g'.entryNr = g.entryNr + 1 := by
  unfold groupStep at hg
  split at hg
  · split at hg
    · cases hg
      cases hexc
    · rename_i b' hb
      cases hg
      exact ⟨hb, rfl⟩
  · cases hg

/-! ## The message loop -/

/-- A message that can be told of has eleven bytes or more. -/
theorem messageAt_calls (p : Span) (t : Messages) (off : ℕ) :
    (messageAt p t off).calls.length ≤ 1 ∧
      off + 11 * (messageAt p t off).calls.length ≤ (messageAt p t off).stop := by
  have h8 := size_sbeHeader
  have h50 := size_orderUpdate
  have h74 := size_orderExecution
  have h3 := size_groupSize
  have hone : (messageAt p t off).calls.length ≤ 1 := by
    unfold Visit.calls
    split <;> simp
  refine ⟨hone, ?_⟩
  cases t with
  | orderUpdateType | orderExecutionType | orderBookSnapshotType =>
    simp only [messageAt, bodyAt, snapshotAt] at hone ⊢
    omega
  | messageUnknown =>
    have hnone : (messageAt p .messageUnknown off).calls = [] := rfl
    have := lt_messageAt_stop p .messageUnknown off
    rw [hnone, List.length_nil]
    omega

/-- The messages that handlers were told of so far, against the bytes they take. -/
structure Counted (size : ℕ) (s : Decoding) : Prop where
  messageSize : s.messageSize = size
  offset : 16 + 11 * s.calls.length ≤ s.decoder.currentOffset
  calls : s.calls.length ≤ (size - 16) ⌈/⌉ 11

/-- The call of a message starts inside `message_size`. -/
theorem lt_ceilDiv {size n : ℕ} (h : 16 + 11 * n < size) : n + 1 ≤ (size - 16) ⌈/⌉ 11 := by
  rw [Nat.ceilDiv_eq_add_pred_div]
  omega

theorem messageStep_some {r r' : Decoding × Bool} (h : messageStep hs p r = some r') :
    r.1.exception = none ∧ r.1.decoder.currentOffset < r.1.messageSize ∧ r' = handleMessage hs p r.1 := by
  unfold messageStep at h
  split at h
  · rename_i hguard
    exact ⟨hguard.1, hguard.2.1, (Option.some.inj h).symm⟩
  · cases h

/-- **A pass of the message loop** tells of one message at most, and moves on behind it. -/
theorem messageStep_counted {size : ℕ} {r r' : Decoding × Bool} (h : Counted size r.1)
    (hr : messageStep hs p r = some r') : Counted size r'.1 := by
  obtain ⟨hexc, hlt, rfl⟩ := messageStep_some hr
  obtain ⟨s, skipped⟩ := r
  have hread := handleMessage_reads hs p hexc
  obtain ⟨hone, hstop⟩ := messageAt_calls p (foundType p s) s.decoder.currentOffset
  have hlen : (handleMessage hs p s).1.calls.length ≤
      s.calls.length + (messageAt p (foundType p s) s.decoder.currentOffset).calls.length := by
    rw [hread.calls, List.length_append, List.flatMap_singleton]
    exact Nat.add_le_add_left (List.length_filter_le _ _) _
  have hoff : (handleMessage hs p s).1.decoder.currentOffset =
      (messageAt p (foundType p s) s.decoder.currentOffset).stop := hread.offset
  obtain ⟨hsize, hoffset, hcalls⟩ := h
  simp only at hsize hoffset hcalls hlt ⊢
  refine ⟨?_, by omega, ?_⟩
  · rw [← hsize, Decoding.messageSize, hread.header]; rfl
  · -- one message more was told of only if it started inside
    have hroom : 16 + 11 * s.calls.length < size → s.calls.length + 1 ≤ (size - 16) ⌈/⌉ 11 := lt_ceilDiv
    omega

theorem messageStep_increases {r r' : Decoding × Bool} (hr : messageStep hs p r = some r') :
    r.1.decoder.currentOffset < r'.1.decoder.currentOffset := by
  obtain ⟨hexc, -, rfl⟩ := messageStep_some hr
  have hoff : (handleMessage hs p r.1).1.decoder.currentOffset =
      (messageAt p (foundType p r.1) r.1.decoder.currentOffset).stop := (handleMessage_reads hs p hexc).offset
  rw [hoff]
  exact lt_messageAt_stop p _ _

theorem readHeaders_counted (p : Span) (d : SIMBADecoder) :
    Counted (marketHeaderAt p).messageSize.toNat (readHeaders p d) := by
  have h16 := size_marketDataPacketHeader
  rw [readHeaders_eq]
  refine ⟨rfl, ?_, Nat.zero_le _⟩
  simp only [messagesOffset, List.length_nil]
  omega

/-! ## A whole call -/

/-- A call of `decode_message` ends, and its work is bounded by the packet. -/
structure NeverHangs (hs : MessageHandlers) (p : Span) (d : SIMBADecoder) : Prop where
  messageLoop : ∃ skipped, (decodeMessage hs p d, skipped) ∈ eval (messageStep hs p) (readHeaders p d, false)
  /-- wherever the group loop is entered, and whatever the group header says -/
  groupLoop : ∀ (s : Decoding) (header : OrderBookSnapshotHeader), s.exception = none →
    ∃ g ∈ eval (groupStep p header.groupSize) (.init s header),
      readEntries p header.groupSize.blockSize.toNat header.groupSize.numInGroup.toNat s
        { snapshotHeader := header } = (g.decoding, g.snapshot)
  increases : ∀ r r', Reaches (messageStep hs p) (readHeaders p d, false) r → messageStep hs p r = some r' →
    r.1.decoder.currentOffset < r'.1.decoder.currentOffset
  delivered : (decodeMessage hs p d).calls.length ≤ ((marketHeaderAt p).messageSize.toNat - 16) ⌈/⌉ 11
  /-- a pass of the group loop that raises no exception has inserted one entry -/
  counted : ∀ (group : GroupSize) (g g' : GroupLoop), groupStep p group g = some g' → g'.decoding.exception = none →
    g.snapshot.insert (g.entry p group) = .ok g'.snapshot ∧ g'.entryNr = g.entryNr + 1
  /-- and they are 255 at most -/
  inserted : ∀ (s : Decoding) (header : OrderBookSnapshotHeader) (g : GroupLoop),
    Reaches (groupStep p header.groupSize) (.init s header) g →
      g.entryNr ≤ 255 ∧
        ∃ entries : List OrderBookEntry, entries.length = g.entryNr ∧ bookOf header entries = .ok g.snapshot

/-- **No payload hangs the decoder**, whatever it was given before. -/
theorem never_hangs (hs : MessageHandlers) (p : Span) (d : SIMBADecoder) : NeverHangs hs p d := by
  have hfalls := messageStep_falls hs p
  have hrun : Reaches (messageStep hs p) (readHeaders p d, false)
      (Loop.run (messageStep hs p) (fun s => s.1.messageSize - s.1.decoder.currentOffset)
        (readHeaders p d, false)) := Loop.run_reaches hfalls _
  refine ⟨⟨_, Loop.run_mem_eval hfalls (readHeaders p d, false)⟩, ?_, ?_, ?_, ?_, ?_⟩
  · intro s header hexc
    exact readEntries_mem_eval p header.groupSize _ s _ 0 hexc (Nat.zero_add _)
  · intro r r' _ hr
    exact messageStep_increases hr
  · exact (Loop.Reaches.inv (P := fun r => Counted (marketHeaderAt p).messageSize.toNat r.1)
      (fun _ _ => messageStep_counted) hrun (readHeaders_counted p d)).calls
  · intro group g g' hg hexc
    exact groupStep_counted hg hexc
  · intro s header g hg
    have hok := Loop.Reaches.inv (fun _ _ => groupStep_ok) hg (GroupLoop.init_ok s header)
    have hnum := header.groupSize.numInGroup.toNat_lt
    have hle := hok.le
    exact ⟨by omega, hok.book⟩

end MoexDecoder
