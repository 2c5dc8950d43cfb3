import MoexDecoder.Proof.Versions

/-!
# Packets framed by `block_length`

* `walkedAs_iff`: when messages that follow each other are told of as they were sent.
* `framed_iff`: a packet is framed by `block_length` exactly when its messages are told apart.
-/

namespace MoexDecoder

open Walk

variable {p : Span} {off : ℕ}

/-- From `off` on a walk comes across the messages `ms` and nothing else, where they
follow each other from `o` on, and they are told of as they were sent. -/
structure WalkedAs (p : Span) (size off o : ℕ) (ms : List VersionedMessage) : Prop where
  starts : Walk.starts (visitAt p) Visit.next size off = offsets VersionedMessage.encode o ms
  calls : (walk (visitAt p) Visit.next size off).flatMap Visit.calls = ms.map (·.told)
  exception : (walk (visitAt p) Visit.next size off).findSome? Visit.exception = none
  writes : ∀ v ∈ walk (visitAt p) Visit.next size off, ∀ a ∈ v.accesses, a.WritesInside

variable {size o : ℕ} {m : VersionedMessage} {ms : List VersionedMessage}

theorem walkedAs_nil : WalkedAs p size off o [] ↔ size ≤ off := by
  constructor
  · intro h
    by_contra hlt
    have hwalk := walk_of_lt (visitAt_forward p) (not_le.1 hlt)
    have hstarts := congrArg List.length h.starts
    have hmap : ((Walk.starts (visitAt p) Visit.next size off).map (visitAt p)).length =
        (walk (visitAt p) Visit.next size off).length :=
      congrArg List.length (map_starts (visitAt_forward p) off)
    rw [List.length_map, hstarts, hwalk] at hmap
    simp [offsets] at hmap
  · intro hge
    refine ⟨?_, ?_, ?_, ?_⟩
    · rw [starts_of_ge hge, offsets]
    · rw [walk_of_ge hge]; rfl
    · rw [walk_of_ge hge]; rfl
    · simp [walk_of_ge hge]

/-- **One message of a walk**, and the walk behind it. -/
theorem walkedAs_cons (h : p.Holds off m.encode) : WalkedAs p size off o (m :: ms) ↔
    (off = o ∧ off < size) ∧ ToldAs p off m ∧ WalkedAs p size (visitAt p off).stop (o + m.encode.length) ms := by
  have hf := visitAt_forward p
  constructor
  · intro hw
    obtain ⟨ho, hlt⟩ := starts_eq_cons hf hw.starts
    obtain ⟨hstarts, hcalls, hexc, hwrites⟩ := hw
    -- no exception was raised here, so the walk goes on
    have hhere : (visitAt p off).exception = none := by
      have hmem : visitAt p off ∈ walk (visitAt p) Visit.next size off := by
        rw [walk_of_lt hf hlt]; exact List.mem_cons_self
      exact List.findSome?_eq_none_iff.1 hexc _ hmem
    have hnext := next_versioned h hhere
    obtain ⟨c, hc⟩ := Visit.calls_of_next hnext
    have hwalk := walk_some hf hlt hnext
    rw [hwalk] at hcalls hexc hwrites
    rw [starts_some hf hlt hnext, offsets] at hstarts
    rw [List.flatMap_cons, hc, List.map_cons, List.singleton_append] at hcalls
    obtain ⟨hc', hcalls'⟩ := List.cons.inj hcalls
    rw [List.findSome?_cons, hhere] at hexc
    rw [List.forall_mem_cons] at hwrites
    refine ⟨⟨ho, hlt⟩, ⟨by rw [hc, hc'], hhere, hwrites.1⟩, ?_⟩
    exact ⟨(List.cons.inj hstarts).2, hcalls', hexc, hwrites.2⟩
  · rintro ⟨⟨rfl, hlt⟩, htold, hrest⟩
    have hnext := next_versioned h htold.exception
    refine ⟨?_, ?_, ?_, ?_⟩
    · rw [starts_some hf hlt hnext, offsets, hrest.starts]
    · rw [walk_some hf hlt hnext, List.flatMap_cons, htold.calls, hrest.calls]; rfl
    · rw [walk_some hf hlt hnext, List.findSome?_cons, htold.exception]; exact hrest.exception
    · rw [walk_some hf hlt hnext, List.forall_mem_cons]
      exact ⟨htold.writes, hrest.writes⟩

/-- **Messages that follow each other** are told of as they were sent exactly when each is
readable, and each but the last is as long as its type. -/
theorem walkedAs_iff (ms : List VersionedMessage) (h : p.Holds off (ms.flatMap VersionedMessage.encode))
    (hsize : size = off + (ms.flatMap VersionedMessage.encode).length) :
    WalkedAs p size off off ms ↔ (∀ m ∈ ms, m.body.Readable) ∧ ∀ m ∈ ms.dropLast, m.body.Standard := by
  induction ms generalizing off with
  | nil => simp [walkedAs_nil, hsize]
  | cons m ms ih =>
    rw [List.flatMap_cons] at h hsize
    rw [List.length_append] at hsize
    have hlt : off < size := by
      have h8 := size_sbeHeader
      rw [VersionedMessage.encode, List.length_append, Wire.encode_length] at hsize
      omega
    have htold := toldAs_iff h.left
    rw [walkedAs_cons h.left, htold, List.forall_mem_cons]
    simp only [hlt, true_and, and_assoc]
    apply and_congr_right
    intro hread
    obtain ⟨hle, hstandard⟩ := stop_versioned h.left hread
    cases ms with
    | nil =>
      rw [List.flatMap_nil, List.length_nil] at hsize
      rw [walkedAs_nil, List.dropLast_singleton]
      simp only [List.not_mem_nil, false_imp_iff, implies_true, and_true, iff_true]
      omega
    | cons m' ms =>
      have hrest := ih h.right (by rw [hsize, Nat.add_assoc])
      have hlast : (∀ x ∈ (m :: m' :: ms).dropLast, x.body.Standard) ↔
          m.body.Standard ∧ ∀ x ∈ (m' :: ms).dropLast, x.body.Standard := by
        rw [List.dropLast_cons_cons, List.forall_mem_cons]
      rw [hlast]
      constructor
      · intro hw
        -- the next message is found where this one ends
        have hstop := (starts_eq_cons (visitAt_forward p) hw.starts).1
        rw [hstop] at hw
        obtain ⟨hread', hstandard'⟩ := hrest.1 hw
        exact ⟨hread', hstandard.2 hstop, hstandard'⟩
      · rintro ⟨hread', hhere, hstandard'⟩
        rw [hstandard.1 hhere]
        exact hrest.2 ⟨hread', hstandard'⟩

/-- A call of `decode_message`, on a decoder that was given `earlier` payloads, takes the
messages of the packet one by one, each from where the block before it ends. -/
structure FramedByBlockLength (k : VersionedPacket) (trailing : List UInt8) (past : Mem) (earlier : List Span) :
    Prop where
  /-- messages are looked for where they start -/
  starts : messageStarts (k.payload trailing past) = k.starts
  accesses : (decodeMessage .all (k.payload trailing past) (SIMBADecoder.init.after .all earlier)).accesses =
    headerAccesses (k.payload trailing past) ++
      k.starts.flatMap fun o => (visitAt (k.payload trailing past) o).accesses
  /-- each is told of once, with the fields its blocks fill -/
  calls : (decodeMessage .all (k.payload trailing past) (SIMBADecoder.init.after .all earlier)).calls =
    k.messages.map (·.told)
  exception : (decodeMessage .all (k.payload trailing past) (SIMBADecoder.init.after .all earlier)).exception = none
  /-- bytes behind the fields of a block are not copied -/
  writes : ∀ a ∈ (decodeMessage .all (k.payload trailing past) (SIMBADecoder.init.after .all earlier)).accesses,
    a.WritesInside

/-- **When messages are framed by `block_length`**: exactly when each message is readable,
and each but the last is as long as its type. -/
theorem framed_iff (k : VersionedPacket) (trailing : List UInt8) (past : Mem) (earlier : List Span) :
    FramedByBlockLength k trailing past earlier ↔ k.ToldApart := by
  have hdec := decodes_after .all (k.payload trailing past) earlier
  have hbody : (k.payload trailing past).Holds k.bodyOffset (k.messages.flatMap VersionedMessage.encode) :=
    k.holds_messages
  rw [Packed.ToldApart, ← walkedAs_iff k.messages hbody k.size_messages]
  constructor
  · rintro ⟨hstarts, -, hcalls, hexc, hwrites⟩
    rw [hdec.all_calls, payloadCalls, k.visits_eq] at hcalls
    rw [hdec.exception, payloadException, k.visits_eq] at hexc
    rw [hdec.accesses, payloadAccesses, List.forall_mem_append, List.forall_mem_flatMap, k.visits_eq] at hwrites
    rw [k.messageStarts_eq] at hstarts
    exact ⟨hstarts, hcalls, hexc, hwrites.2⟩
  · rintro ⟨hstarts, hcalls, hexc, hwrites⟩
    rw [← k.messageStarts_eq] at hstarts
    rw [← k.visits_eq] at hcalls hexc hwrites
    refine ⟨hstarts, ?_, ?_, ?_, ?_⟩
    · rw [hdec.accesses, payloadAccesses_eq, hstarts]; rfl
    · rw [hdec.all_calls, payloadCalls, hcalls]
    · rw [hdec.exception, payloadException, hexc]
    · rw [hdec.accesses, payloadAccesses, List.forall_mem_append, List.forall_mem_flatMap]
      exact ⟨headerAccesses_writes, hwrites⟩

/-- Two updates, the block of the first a byte shorter than the type. -/
def shortFirst : VersionedPacket where
  sequenceNumber := 1
  messageFlags := 0
  sendingTime := 0
  incremental := none
  messages := [⟨0, 0, .orderUpdate (List.replicate 49 0), by decide⟩,
    ⟨0, 0, .orderUpdate (List.replicate 50 1), by decide⟩]
  body := Wire.encode (⟨49, 15, 0, 0⟩ : SBEHeader) ++ List.replicate 49 0 ++
    (Wire.encode (⟨50, 15, 0, 0⟩ : SBEHeader) ++ List.replicate 50 1)
  incremental_iff := by decide
  size_le := by decide
  body_eq := by decide

/-- The second update is looked for a byte too late, and lost. -/
theorem shortFirst_lost :
    ¬ FramedByBlockLength shortFirst [] (fun _ => 0) [] ∧
      (decodeMessage .all (shortFirst.payload [] fun _ => 0) .init).calls.length = 1 := by
  have hcalls : (decodeMessage .all (shortFirst.payload [] fun _ => 0) .init).calls.length = 1 := by
    decide +kernel
  refine ⟨?_, hcalls⟩
  intro h
  have htwo := congrArg List.length h.calls
  rw [List.length_map] at htwo
  exact absurd (hcalls.symm.trans htwo) (by decide)

end MoexDecoder
