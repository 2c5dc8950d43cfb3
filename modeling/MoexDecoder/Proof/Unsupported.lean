import MoexDecoder.Proof.Versions

/-!
# Messages that are not supported

The message loop ends at the first message of a template the decoder does not support, or
with the exception of a snapshot whose entries no book takes.

* `calls_mixed`: the handlers are told of the messages in front of it.
* `skipped_iff`: they are told of all supported messages exactly when none stands behind
  one that is not supported, and each snapshot is taken.
-/

namespace MoexDecoder

open Walk

variable {p : Span} {off size : ℕ}

/-- Values up to the first item that fails are all of them exactly when no item with a value
fails, and none stands behind one without a value. -/
theorem filterMap_takeWhile_iff {α β : Type*} {P : α → Bool} {f : α → Option β}
    (hP : ∀ a, P a → (f a).isSome) (l : List α) :
    (l.takeWhile P).filterMap f = l.filterMap f ↔
      (∀ a ∈ l, (f a).isSome → P a) ∧ l.Pairwise fun a b => (f b).isSome → (f a).isSome := by
  induction l with
  | nil => simp
  | cons a l ih =>
    rw [List.pairwise_cons, List.forall_mem_cons]
    by_cases ha : P a = true
    · obtain ⟨b, hb⟩ := Option.isSome_iff_exists.1 (hP a ha)
      rw [List.takeWhile_cons_of_pos ha, List.filterMap_cons_some hb, List.filterMap_cons_some hb,
        List.cons_inj_right, ih, hb]
      exact ⟨fun h => ⟨⟨fun _ => ha, h.1⟩, fun _ _ _ => rfl, h.2⟩, fun h => ⟨h.1.2, h.2.2⟩⟩
    · rw [List.takeWhile_cons_of_neg ha, List.filterMap_nil, eq_comm, List.filterMap_eq_nil_iff,
        List.forall_mem_cons]
      constructor
      · rintro ⟨hnone, h⟩
        -- no item has a value
        have hnot : ∀ x ∈ l, ¬ (f x).isSome = true := by
          intro x hx hsome
          rw [h x hx] at hsome
          cases hsome
        refine ⟨⟨?_, ?_⟩, ?_, ?_⟩
        · intro hsome
          rw [hnone] at hsome
          cases hsome
        · intro x hx hsome
          exact absurd hsome (hnot x hx)
        · intro x hx hsome
          exact absurd hsome (hnot x hx)
        · apply List.pairwise_of_forall_mem_list
          intro x _ y hy hsome
          exact absurd hsome (hnot y hy)
      · rintro ⟨⟨hfirst, -⟩, h, -⟩
        have hnone : f a = none := Option.not_isSome_iff_eq_none.1 fun hsome => ha (hfirst hsome)
        refine ⟨hnone, ?_⟩
        intro x hx
        apply Option.not_isSome_iff_eq_none.1
        intro hsome
        have hsome' := h x hx hsome
        rw [hnone] at hsome'
        cases hsome'

theorem MixedMessage.told_isSome (m : MixedMessage) : m.told.isSome = m.isSupported := by
  cases m <;> rfl

/-- A template the decoder does not support. -/
theorem templateType_unknown {t : ℕ} (h15 : t ≠ 15) (h16 : t ≠ 16) (h17 : t ≠ 17) :
    templateType t = .messageUnknown := by
  unfold templateType
  split <;> first | rfl | contradiction

/-- A message that is not supported is not told of, and nothing behind it is looked at. -/
theorem visitAt_unsupported {header : SBEHeader}
    (ht : header.templateId ≠ 15 ∧ header.templateId ≠ 16 ∧ header.templateId ≠ 17)
    (h : p.Holds off (Wire.encode header)) :
    (visitAt p off).calls = [] ∧ (visitAt p off).next = none := by
  obtain ⟨h15, h16, h17⟩ := ht
  have hheader : sbeHeaderAt p off = header := copyFrom_holds h _
  have htype : templateType header.templateId.toNat = .messageUnknown := by
    refine templateType_unknown ?_ ?_ ?_ <;> intro heq
    · exact h15 (UInt16.toNat_inj.1 heq)
    · exact h16 (UInt16.toNat_inj.1 heq)
    · exact h17 (UInt16.toNat_inj.1 heq)
  have hmessage : (visitAt p off).message = none := by rw [visitAt, messageAt, hheader, htype]; rfl
  have hout : (visitAt p off).outcome = none := by rw [Visit.outcome, hmessage, Option.map_none]
  exact ⟨by rw [Visit.calls, hout], by rw [Visit.next, hout]⟩

theorem MixedMessage.encode_pos (m : MixedMessage) : 0 < m.encode.length := by
  have h8 := size_sbeHeader
  cases m with
  | supported m _ =>
    rw [encode, VersionedMessage.encode, List.length_append, Wire.encode_length]
    omega
  | unsupported t s v body _ _ =>
    rw [encode, List.length_append, Wire.encode_length]
    omega

/-- The decoder gets behind the message. -/
def MixedMessage.passed (m : MixedMessage) : Bool := m.isSupported && m.Accepted

theorem MixedMessage.passed_iff (m : MixedMessage) : (m.isSupported = true → m.passed = true) ↔ m.Accepted := by
  cases m with
  | supported m hm =>
    exact ⟨fun h => of_decide_eq_true (h rfl), fun h _ => decide_eq_true h⟩
  | unsupported t s v body unknown hlen => exact ⟨fun _ => trivial, fun _ h => h⟩

/-- **Up to the first message that is not supported** or not taken, all are told of, and none
behind it. -/
theorem calls_mixed (ms : List MixedMessage) (h : p.Holds off (ms.flatMap MixedMessage.encode))
    (hsize : size = off + (ms.flatMap MixedMessage.encode).length) :
    (walk (visitAt p) Visit.next size off).flatMap Visit.calls =
      (ms.takeWhile MixedMessage.passed).filterMap MixedMessage.told := by
  have hf := visitAt_forward p
  induction ms generalizing off with
  | nil =>
    rw [walk_of_ge (by simp [hsize])]
    rfl
  | cons m ms ih =>
    rw [List.flatMap_cons] at h hsize
    rw [List.length_append] at hsize
    have hlt : off < size := by
      have := m.encode_pos
      omega
    cases m with
    | supported m hm =>
      by_cases hacc : m.body.Accepted
      · have hm' := visitAt_supported hm hacc h.left
        have hpassed : (MixedMessage.supported m hm).passed = true := decide_eq_true hacc
        have htold : (MixedMessage.supported m hm).told = some m.told := rfl
        have hrest := ih h.right (by rw [hsize, Nat.add_assoc])
        rw [walk_some hf hlt hm'.next, List.flatMap_cons, hm'.calls, List.takeWhile_cons_of_pos hpassed,
          List.filterMap_cons_some htold]
        exact congrArg (m.told :: ·) hrest
      · obtain ⟨hcalls, hnext⟩ := visitAt_refused hm hacc h.left
        have hpassed : ¬ (MixedMessage.supported m hm).passed = true := fun h => hacc (of_decide_eq_true h)
        rw [walk_none hf hlt hnext, List.flatMap_singleton, hcalls, List.takeWhile_cons_of_neg hpassed]
        rfl
    | unsupported t s v body unknown hlen =>
      obtain ⟨hcalls, hnext⟩ := visitAt_unsupported unknown h.left.left
      rw [walk_none hf hlt hnext, List.flatMap_singleton, hcalls, List.takeWhile_cons_of_neg Bool.false_ne_true]
      rfl

/-- **When no supported message is lost**: exactly when none stands behind one that is not
supported, and a book takes the entries of each snapshot. -/
theorem skipped_iff (k : MixedPacket) (trailing : List UInt8) (past : Mem) (earlier : List Span) :
    (decodeMessage .all (k.payload trailing past) (SIMBADecoder.init.after .all earlier)).calls =
        k.messages.filterMap MixedMessage.told ↔
      (∀ m ∈ k.messages, m.Accepted) ∧ k.messages.Pairwise fun m m' => m'.isSupported → m.isSupported := by
  have hdec := decodes_after .all (k.payload trailing past) earlier
  have hbody : (k.payload trailing past).Holds k.bodyOffset (k.messages.flatMap MixedMessage.encode) :=
    k.holds_messages
  have hcalls := calls_mixed k.messages hbody k.size_messages
  have hsome : ∀ m : MixedMessage, m.passed = true → m.told.isSome = true := by
    intro m hm
    rw [m.told_isSome]
    exact (Bool.and_eq_true_iff.1 hm).1
  rw [hdec.all_calls, payloadCalls, k.visits_eq, hcalls, filterMap_takeWhile_iff hsome]
  simp only [MixedMessage.told_isSome]
  exact and_congr_left fun _ => forall₂_congr fun m _ => m.passed_iff

/-- An empty message of template 7, and an update behind it. -/
def unsupportedFirst : MixedPacket where
  sequenceNumber := 1
  messageFlags := 1
  sendingTime := 0
  incremental := none
  messages := [.unsupported 7 0 0 [] (by decide) (by decide),
    .supported ⟨0, 0, .orderUpdate (List.replicate 50 2), by decide⟩ rfl]
  body := Wire.encode (⟨0, 7, 0, 0⟩ : SBEHeader) ++
    (Wire.encode (⟨50, 15, 0, 0⟩ : SBEHeader) ++ List.replicate 50 2)
  incremental_iff := by decide
  size_le := by decide
  body_eq := by decide

/-- The update is lost. -/
theorem unsupportedFirst_lost :
    (decodeMessage .all (unsupportedFirst.payload [] fun _ => 0) .init).calls = [] ∧
      ¬ (decodeMessage .all (unsupportedFirst.payload [] fun _ => 0) (SIMBADecoder.init.after .all [])).calls =
        unsupportedFirst.messages.filterMap MixedMessage.told := by
  have hcalls : (decodeMessage .all (unsupportedFirst.payload [] fun _ => 0) .init).calls = [] := by
    refine List.eq_nil_of_length_eq_zero ?_
    decide
  refine ⟨hcalls, ?_⟩
  intro h
  exact List.cons_ne_nil _ _ (h.symm.trans hcalls)

end MoexDecoder
