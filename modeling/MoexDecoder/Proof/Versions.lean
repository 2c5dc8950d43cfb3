import MoexDecoder.Proof.Groups
import MoexDecoder.Spec.Versions

/-!
# Messages of other layouts

What a decoder of one version makes of a message whose blocks are shorter or longer than
its types.

* `delivered_header_iff`: when the header of a snapshot is read as it was sent.
* `toldAs_iff`: when a message is told of as it was sent.
* `stop_versioned`: where the walk goes on behind it.
* `visitAt_supported`, `visitAt_refused`: what becomes of a message in the decoder's layout.
-/

namespace MoexDecoder

open Walk
open VersionedBody (groupSize filledHeader)

variable {p : Span} {off : ℕ}

/-! ## The header of a snapshot -/

/-- The header in two parts: the root block, and the group header at its place. -/
theorem decode_snapshotHeader {a : List UInt8} (ha : a.length = 16) (b c : List UInt8) :
    (Wire.decode (a ++ b) : OrderBookSnapshotHeader) =
      { (Wire.decode (a ++ c) : OrderBookSnapshotHeader) with groupSize := Wire.decode b } := by
  have h4 : Wire.size Int32 = 4 := rfl
  have h4' : Wire.size UInt32 = 4 := rfl
  have h2 : Wire.size UInt16 = 2 := rfl
  simp [Wire.decode, List.take_append, List.drop_append, ha, h4, h4', h2]

/-- A header that is filled in part is zero behind. -/
theorem memcpy_snapshotHeader {bs : List UInt8} (h : bs.length ≤ 19) :
    (Wire.memcpy {} bs : OrderBookSnapshotHeader) = Wire.decode (bs ++ List.replicate (19 - bs.length) 0) :=
  Wire.memcpy_zeros rfl h

/-- The header that is to be told of, as bytes. -/
theorem filled_header {root : List UInt8} (h : root.length ≤ 16) (g : GroupSize) :
    filledHeader root g =
      Wire.decode (root ++ List.replicate (16 - root.length) 0 ++ Wire.encode g) := by
  have hlen : (root ++ List.replicate (16 - root.length) 0).length = 16 := by simp; omega
  have hsplit : (19 - root.length) = (16 - root.length) + 3 := by omega
  rw [decode_snapshotHeader hlen _ (List.replicate 3 0), Wire.decode_encode, filledHeader,
    memcpy_snapshotHeader (by omega), hsplit, List.replicate_add, List.append_assoc]

/-- The header that the decoder makes, as bytes: the group header is where the root block ends. -/
theorem delivered_header {root : List UInt8} (h : root.length ≤ 16) (g : GroupSize) :
    (Wire.memcpy {} (root ++ Wire.encode g) : OrderBookSnapshotHeader) =
      Wire.decode (root ++ (Wire.encode g ++ List.replicate (16 - root.length) 0)) := by
  have hlen : (root ++ Wire.encode g).length = root.length + 3 := by
    rw [List.length_append, Wire.encode_length]; rfl
  have hsub : 19 - (root.length + 3) = 16 - root.length := by omega
  rw [memcpy_snapshotHeader (by omega), hlen, hsub, List.append_assoc]

theorem encode_groupSize (g : GroupSize) :
    Wire.encode g = [UInt8.ofNat g.blockSize.toNat, UInt8.ofNat (g.blockSize.toNat / 256), g.numInGroup] := by
  simp [Wire.encode, leBytes]

theorem decode_groupSize (x y z : UInt8) :
    (Wire.decode [x, y, z] : GroupSize) = ⟨UInt16.ofNat (x.toNat + 256 * y.toNat), z⟩ := by
  have h2 : Wire.size UInt16 = 2 := rfl
  simp [Wire.decode, h2, leNat]

/-- Three bytes and zeros, from one byte on or more. -/
theorem drop_three (x y z : UInt8) (k : ℕ) :
    ∃ a b, ([x, y, z] ++ List.replicate (k + 1) 0).drop (k + 1) = [a, b, 0] ∧
      (a = y ∧ b = z ∨ a = z ∧ b = 0 ∨ a = 0 ∧ b = 0) := by
  rcases k with _ | _ | k
  · exact ⟨y, z, rfl, Or.inl ⟨rfl, rfl⟩⟩
  · exact ⟨z, 0, rfl, Or.inr (Or.inl ⟨rfl, rfl⟩)⟩
  · refine ⟨0, 0, ?_, Or.inr (Or.inr ⟨rfl, rfl⟩)⟩
    have hlen : k + 1 + 1 + 1 - k = 3 := by omega
    rw [List.drop_append, List.drop_of_length_le (by simp), List.nil_append, List.length_cons, List.length_cons,
      List.length_singleton, List.drop_replicate, show k + 1 + 1 + 1 - (1 + 1 + 1) = k by omega, hlen]
    rfl

/-- A group header that reads the same one byte further on, or more, with zeros behind it is zero. -/
theorem groupSize_shifted {g : GroupSize} {k : ℕ}
    (h : (Wire.decode ((Wire.encode g ++ List.replicate (k + 1) 0).drop (k + 1)) : GroupSize) = g) :
    g = ⟨0, 0⟩ := by
  obtain ⟨blockSize, numInGroup⟩ := g
  have hlt := blockSize.toNat_lt
  obtain ⟨a, b, hdrop, hab⟩ := drop_three (UInt8.ofNat blockSize.toNat) (UInt8.ofNat (blockSize.toNat / 256))
    numInGroup k
  rw [encode_groupSize, hdrop, decode_groupSize] at h
  obtain ⟨hblock, hnum⟩ := GroupSize.mk.inj h
  -- the number of entries is read from behind the group header, and the size from its second byte at best
  have hb : b = 0 := by
    rcases hab with ⟨-, h⟩ | ⟨-, h⟩ | ⟨-, h⟩
    · rw [h, ← hnum]
    · exact h
    · exact h
  have ha : a.toNat ≤ blockSize.toNat / 256 := by
    rcases hab with ⟨h, -⟩ | ⟨h, -⟩ | ⟨h, -⟩
    · rw [h, UInt8.toNat_ofNat']; exact Nat.mod_le _ _
    · rw [h, ← hnum]; exact Nat.zero_le _
    · rw [h]; exact Nat.zero_le _
  have hval : blockSize.toNat = a.toNat := by
    rw [← hblock, hb]
    simp
  have hzero : blockSize.toNat = 0 := by omega
  rw [← hnum, ← UInt16.toNat_inj.1 (hzero.trans UInt16.toNat_zero.symm)]

/-- **The decoder's header is the one that was sent** when the root block is as long as
the decoder's, or the group header is zero. -/
theorem delivered_header_iff {root : List UInt8} (h : root.length ≤ 16) (g : GroupSize) :
    Wire.memcpy {} (root ++ Wire.encode g) = filledHeader root g ↔ root.length = 16 ∨ g = ⟨0, 0⟩ := by
  rcases Nat.eq_or_lt_of_le h with h16 | hlt
  · rw [filled_header h, delivered_header h, h16]
    simp
  · obtain ⟨k, hk⟩ : ∃ k, 16 - root.length = k + 1 := ⟨16 - root.length - 1, by omega⟩
    set rest : List UInt8 := Wire.encode g ++ List.replicate (k + 1) 0
    have hrest : rest.length = 3 + (k + 1) := by
      rw [List.length_append, Wire.encode_length, List.length_replicate]; rfl
    constructor
    · intro heq
      -- the group header is read behind the sixteenth byte
      have hlen : (root ++ rest.take (k + 1)).length = 16 := by
        rw [List.length_append, List.length_take]; omega
      have hsplit : root ++ rest = root ++ rest.take (k + 1) ++ rest.drop (k + 1) := by
        rw [List.append_assoc, List.take_append_drop]
      rw [delivered_header h, hk, hsplit, decode_snapshotHeader hlen _ []] at heq
      exact Or.inr (groupSize_shifted (congrArg OrderBookSnapshotHeader.groupSize heq))
    · rintro (h16 | rfl)
      · omega
      · have hzero : Wire.encode (⟨0, 0⟩ : GroupSize) = List.replicate 3 0 := rfl
        rw [filled_header h, delivered_header h, hzero, List.append_assoc, List.replicate_append_replicate,
          List.replicate_append_replicate, Nat.add_comm]

/-! ## One message -/

/-- A message with a call is told of, and the walk goes on behind it. -/
theorem Visit.of_call {v : Visit} {m : Message} {c : Call} (hv : v.message = some m) (hm : m.call = .ok c) :
    v.calls = [c] ∧ v.exception = none ∧ v.next = some v.stop := by
  have hout : v.outcome = some (.ok c) := by rw [outcome, hv, Option.map_some, hm]
  rw [calls, exception, next, hout]
  exact ⟨rfl, rfl, rfl⟩

theorem fillBook_snapshotHeader (b : OrderBookSnapshot) (es : List OrderBookEntry) :
    (fillBook b es).1.snapshotHeader = b.snapshotHeader := by
  induction es generalizing b with
  | nil => rfl
  | cons e es ih =>
    by_cases hacc : e.Accepted
    · simp only [fillBook, insert_of_accepted hacc b]
      exact ih (b.put e)
    · simp only [fillBook, insert_of_not_accepted hacc b]

/-- The type of the template is the type of the message. -/
def Message.type : Message → Messages
  | orderUpdate _ => .orderUpdateType
  | orderExecution _ => .orderExecutionType
  | orderBookSnapshot _ _ => .orderBookSnapshotType

section message

variable {m : VersionedMessage}

theorem sbeHeaderAt_versioned (h : p.Holds off m.encode) : sbeHeaderAt p off = m.sbeHeader :=
  copyFrom_holds h.left _

theorem blockLengthAt_versioned (h : p.Holds off m.encode) : blockLengthAt p off = m.body.block.length := by
  rw [blockLengthAt, sbeHeaderAt_versioned h]
  exact Nat.mod_eq_of_lt m.wellFormed.1

theorem typeAt_versioned (h : p.Holds off m.encode) : typeAt p off = m.body.content.type := by
  rw [typeAt, sbeHeaderAt_versioned h, VersionedMessage.sbeHeader]
  cases m.body <;> rfl

theorem holds_blocks (h : p.Holds off m.encode) : p.Holds (blockAt off) (m.body.block ++ m.body.group) := by
  have hbody := h.right
  rwa [Wire.encode_length] at hbody

/-- The end of the message. -/
theorem encode_end (m : VersionedMessage) (off : ℕ) :
    off + m.encode.length = blockAt off + m.body.block.length + m.body.group.length := by
  rw [VersionedMessage.encode, List.length_append, List.length_append, Wire.encode_length, blockAt]
  omega

/-- The message at `off` is told of as it was sent, and copied into its destinations. -/
structure ToldAs (p : Span) (off : ℕ) (m : VersionedMessage) : Prop where
  calls : (visitAt p off).calls = [m.told]
  exception : (visitAt p off).exception = none
  writes : ∀ a ∈ (visitAt p off).accesses, a.WritesInside

/-- What is read as it was sent is told of when its lengths fit. -/
theorem toldAs_of_message (hmessage : (visitAt p off).message = some m.body.content)
    (hcall : m.body.content.call = .ok m.told) : ToldAs p off m ↔ LengthsFitAt p off := by
  obtain ⟨hcalls, hexc, -⟩ := Visit.of_call hmessage hcall
  rw [← visitAt_writes]
  exact ⟨fun h => h.writes, fun h => ⟨hcalls, hexc, h⟩⟩

end message

section snapshot

variable {m : VersionedMessage} {root : List UInt8} {blockSize : UInt16} {entries : List (List UInt8)}

/-- The header the decoder makes of a snapshot. -/
theorem snapshotHeaderAt_versioned (hb : m.body = .orderBookSnapshot root blockSize entries)
    (h : p.Holds off m.encode) :
    copyFrom p (blockAt off) (blockLengthAt p off + Wire.size GroupSize) ({} : OrderBookSnapshotHeader) =
      Wire.memcpy {} (root ++ Wire.encode (groupSize blockSize entries)) := by
  have hblocks := holds_blocks h
  have hlen := blockLengthAt_versioned h
  rw [hb] at hblocks hlen
  rw [VersionedBody.group, VersionedBody.block, ← List.append_assoc] at hblocks
  have hcopy := copyFrom_bytes hblocks.left ({} : OrderBookSnapshotHeader)
  rwa [List.length_append, Wire.encode_length, ← show blockLengthAt p off = root.length from hlen] at hcopy

/-- The entries the decoder reads when it finds the group header. -/
theorem entriesAt_versioned (hb : m.body = .orderBookSnapshot root blockSize entries)
    (h : p.Holds off m.encode) (hg : groupSizeAt p off = groupSize blockSize entries) :
    entriesAt p off = upToRefused (entries.map (Wire.memcpy {})) := by
  have hblocks := holds_blocks h
  have hlen := blockLengthAt_versioned h
  have hwf := m.wellFormed.2
  rw [hb] at hblocks hlen hwf
  rw [VersionedBody.group, VersionedBody.block, ← List.append_assoc] at hblocks
  obtain ⟨hcount, hsizes⟩ := hwf
  have hgroup := hblocks.right
  rw [List.length_append, Wire.encode_length, ← show blockLengthAt p off = root.length from hlen] at hgroup
  have hnum : (groupSize blockSize entries).numInGroup.toNat = entries.length :=
    Nat.mod_eq_of_lt (by omega)
  rw [entriesAt, hg, hnum]
  exact groupAt_flatten hsizes hgroup

theorem message_snapshot (p : Span) {off : ℕ} (htype : typeAt p off = .orderBookSnapshotType) :
    (visitAt p off).message = some (.orderBookSnapshot
      (copyFrom p (blockAt off) (blockLengthAt p off + Wire.size GroupSize) {}) (entriesAt p off)) := by
  rw [visitAt_eq, htype]; rfl

theorem numInGroup_zero (hcount : entries.length ≤ 255) :
    (groupSize blockSize entries).numInGroup = 0 ↔ entries = [] := by
  rw [← List.length_eq_zero_iff, ← UInt8.toNat_inj, groupSize, UInt8.toNat_ofNat', Nat.mod_eq_of_lt (by omega)]
  rfl

/-- A group header of no entries and no size. -/
theorem groupSize_zero (hcount : entries.length ≤ 255) :
    groupSize blockSize entries = ⟨0, 0⟩ ↔ blockSize = 0 ∧ entries = [] := by
  have hnum : (groupSize blockSize entries).numInGroup = 0 ↔ entries = [] := numInGroup_zero hcount
  rw [← hnum, groupSize, GroupSize.mk.injEq]

/-- The entries of a readable snapshot are taken. -/
theorem accepted_of_readable (h : (VersionedBody.orderBookSnapshot root blockSize entries).Readable) :
    ∀ e ∈ entries.map (Wire.memcpy ({} : OrderBookEntry)), e.Accepted := by
  rw [List.forall_mem_map]
  intro e he
  exact (h.2 e he).2

/-- A snapshot that is told of as it was sent has the header and the entries that were sent. -/
theorem snapshot_of_toldAs (hb : m.body = .orderBookSnapshot root blockSize entries)
    (h : p.Holds off m.encode) (htold : ToldAs p off m) :
    Wire.memcpy {} (root ++ Wire.encode (groupSize blockSize entries)) =
        filledHeader root (groupSize blockSize entries) ∧ ∀ e ∈ entriesAt p off, e.Accepted := by
  have htype : typeAt p off = .orderBookSnapshotType := by rw [typeAt_versioned h, hb]; rfl
  have hmessage := message_snapshot p htype
  rw [snapshotHeaderAt_versioned hb h] at hmessage
  have hmem : m.told ∈ (visitAt p off).calls := by rw [htold.calls]; exact List.mem_singleton_self _
  obtain ⟨hacc, hbook⟩ := (Visit.calls_snapshot hmessage m.told).1 hmem
  rw [VersionedMessage.told, hb] at hbook
  have hsame := congrArg OrderBookSnapshot.snapshotHeader (Call.orderBookSnapshot.inj hbook)
  rw [fillBook_snapshotHeader] at hsame
  exact ⟨hsame.symm, hacc⟩

/-- The header of a snapshot whose group header is found. -/
theorem filledHeader_versioned (hb : m.body = .orderBookSnapshot root blockSize entries)
    (h : p.Holds off m.encode) (hroot : root.length = 16 ∨ root.length < 16 ∧ blockSize = 0 ∧ entries = []) :
    copyFrom p (blockAt off) (blockLengthAt p off + Wire.size GroupSize) ({} : OrderBookSnapshotHeader) =
        filledHeader root (groupSize blockSize entries) ∧
      groupSizeAt p off = groupSize blockSize entries := by
  have hcount := m.wellFormed.2
  rw [hb] at hcount
  have hheader : Wire.memcpy {} (root ++ Wire.encode (groupSize blockSize entries)) =
      filledHeader root (groupSize blockSize entries) := by
    refine (delivered_header_iff (by omega) _).2 ?_
    rcases hroot with h16 | ⟨-, hzero⟩
    · exact Or.inl h16
    · exact Or.inr ((groupSize_zero hcount.1).2 hzero)
  have hcopy := (snapshotHeaderAt_versioned hb h).trans hheader
  exact ⟨hcopy, by rw [groupSizeAt, hcopy]; rfl⟩

/-- A readable snapshot is read as it was sent. -/
theorem snapshot_of_readable (hb : m.body = .orderBookSnapshot root blockSize entries)
    (h : p.Holds off m.encode) (hread : m.body.Readable) :
    groupSizeAt p off = groupSize blockSize entries ∧ (visitAt p off).message = some m.body.content := by
  have htype : typeAt p off = .orderBookSnapshotType := by rw [typeAt_versioned h, hb]; rfl
  have hmessage := message_snapshot p htype
  rw [hb] at hread
  obtain ⟨hheader, hg⟩ := filledHeader_versioned hb h hread.1
  refine ⟨hg, ?_⟩
  rw [hmessage, hheader, entriesAt_versioned hb h hg, upToRefused_eq_self (accepted_of_readable hread), hb]
  rfl

theorem lengthsFitAt_snapshot (hb : m.body = .orderBookSnapshot root blockSize entries)
    (h : p.Holds off m.encode) : LengthsFitAt p off ↔ root.length ≤ 16 ∧
      ((groupSizeAt p off).numInGroup ≠ 0 → (groupSizeAt p off).blockSize.toNat ≤ Wire.size OrderBookEntry) := by
  have htype : typeAt p off = .orderBookSnapshotType := by rw [typeAt_versioned h, hb]; rfl
  have hlen : blockLengthAt p off = root.length := by rw [blockLengthAt_versioned h, hb]; rfl
  rw [LengthsFitAt, htype, hlen]
  exact and_congr_left fun _ => by rw [size_groupSize, size_orderBookSnapshotHeader]; omega

/-- A snapshot that is told of as it was sent, and copied into its destinations, is readable. -/
theorem readable_of_toldAs (hb : m.body = .orderBookSnapshot root blockSize entries)
    (h : p.Holds off m.encode) (htold : ToldAs p off m) : m.body.Readable := by
  have hwf := m.wellFormed.2
  rw [hb] at hwf
  obtain ⟨hcount, hsizes⟩ := hwf
  obtain ⟨hheader, hacc⟩ := snapshot_of_toldAs hb h htold
  obtain ⟨hroot, hblock⟩ := (lengthsFitAt_snapshot hb h).1 (visitAt_writes.1 htold.writes)
  have hg : groupSizeAt p off = groupSize blockSize entries := by
    rw [groupSizeAt, snapshotHeaderAt_versioned hb h, hheader]; rfl
  rw [entriesAt_versioned hb h hg] at hacc
  have hall := upToRefused_accepted hacc
  rw [hg, Ne, numInGroup_zero hcount] at hblock
  rw [hb]
  constructor
  · rcases (delivered_header_iff hroot _).1 hheader with h16 | hzero
    · exact Or.inl h16
    · rcases Nat.eq_or_lt_of_le hroot with h16 | hlt
      · exact Or.inl h16
      · exact Or.inr ⟨hlt, (groupSize_zero hcount).1 hzero⟩
  · intro e he
    refine ⟨?_, hall _ (List.mem_map_of_mem he)⟩
    rw [hsizes e he]
    exact hblock (List.ne_nil_of_mem he)

/-- A readable snapshot is told of as it was sent. -/
theorem toldAs_of_readable (hb : m.body = .orderBookSnapshot root blockSize entries)
    (h : p.Holds off m.encode) (hread : m.body.Readable) : ToldAs p off m := by
  have hwf := m.wellFormed.2
  obtain ⟨hg, hmessage⟩ := snapshot_of_readable hb h hread
  rw [hb] at hread hwf
  obtain ⟨hcount, hsizes⟩ := hwf
  have hcall : m.body.content.call = .ok m.told := by
    rw [VersionedMessage.told, hb, VersionedBody.content, Message.call, bookOf_accepted (accepted_of_readable hread)]
    rfl
  obtain ⟨hroot, hentries⟩ := hread
  rw [toldAs_of_message hmessage hcall, lengthsFitAt_snapshot hb h, hg, Ne, numInGroup_zero hcount]
  refine ⟨by omega, ?_⟩
  intro hne
  obtain ⟨e, he⟩ := List.exists_mem_of_ne_nil _ hne
  have hle := (hentries e he).1
  rwa [hsizes e he] at hle

/-- **A snapshot is told of as it was sent exactly when it is readable.** -/
theorem snapshot_toldAs (hb : m.body = .orderBookSnapshot root blockSize entries)
    (h : p.Holds off m.encode) : ToldAs p off m ↔ m.body.Readable :=
  ⟨readable_of_toldAs hb h, toldAs_of_readable hb h⟩

/-- The length of a group. -/
theorem group_length (hsizes : ∀ e ∈ entries, e.length = blockSize.toNat) :
    (VersionedBody.orderBookSnapshot root blockSize entries).group.length =
      Wire.size GroupSize + entries.length * blockSize.toNat := by
  have hflat : entries.flatten.length = entries.length * blockSize.toNat := by
    rw [List.length_flatten, List.map_congr_left hsizes, List.map_const', List.sum_replicate, smul_eq_mul]
  rw [VersionedBody.group, List.length_append, Wire.encode_length, hflat]

/-- The walk goes on at the end of a readable snapshot. -/
theorem stop_snapshot (hb : m.body = .orderBookSnapshot root blockSize entries) (h : p.Holds off m.encode)
    (hread : m.body.Readable) : (visitAt p off).stop = off + m.encode.length := by
  have htype : typeAt p off = .orderBookSnapshotType := by rw [typeAt_versioned h, hb]; rfl
  have hlen : blockLengthAt p off = root.length := by rw [blockLengthAt_versioned h, hb]; rfl
  -- behind the entries that were read
  have hstop : (visitAt p off).stop = blockAt off + (blockLengthAt p off + Wire.size GroupSize) +
      (entriesAt p off).length * (groupSizeAt p off).blockSize.toNat := by
    rw [visitAt_eq, htype]
    rfl
  obtain ⟨hg, -⟩ := snapshot_of_readable hb h hread
  have hwf := m.wellFormed.2
  have hend := encode_end m off
  rw [hb] at hread hwf hend
  rw [group_length hwf.2, VersionedBody.block] at hend
  have hsize : (groupSize blockSize entries).blockSize = blockSize := rfl
  rw [hstop, hlen, entriesAt_versioned hb h hg, upToRefused_eq_self (accepted_of_readable hread), List.length_map,
    hg, hsize, hend]
  omega

end snapshot

/-- An order in a payload: its fields are those its block fills. -/
theorem message_order {m : VersionedMessage} (h : p.Holds off m.encode)
    (htype : m.body.content.type ≠ .orderBookSnapshotType) :
    (visitAt p off).message = some m.body.content ∧ m.body.content.call = .ok m.told := by
  have htypeAt := typeAt_versioned h
  have hlen := blockLengthAt_versioned h
  have hblock := (holds_blocks h).left
  rw [VersionedMessage.told]
  rw [visitAt_eq, htypeAt, hlen]
  cases hb : m.body with
  | orderUpdate block =>
    rw [hb] at hblock
    have hcopy : copyFrom p (blockAt off) block.length ({} : OrderUpdate) = Wire.memcpy {} block :=
      copyFrom_bytes hblock _
    refine ⟨?_, rfl⟩
    simp only [VersionedBody.content, Message.type, bodyAt, hcopy, VersionedBody.block]
  | orderExecution block =>
    rw [hb] at hblock
    have hcopy : copyFrom p (blockAt off) block.length ({} : OrderExecution) = Wire.memcpy {} block :=
      copyFrom_bytes hblock _
    refine ⟨?_, rfl⟩
    simp only [VersionedBody.content, Message.type, bodyAt, hcopy, VersionedBody.block]
  | orderBookSnapshot root blockSize entries => rw [hb] at htype; exact absurd rfl htype

/-- **A message is told of as it was sent exactly when it is readable.** -/
theorem toldAs_iff {m : VersionedMessage} (h : p.Holds off m.encode) : ToldAs p off m ↔ m.body.Readable := by
  have htype := typeAt_versioned h
  have hlen := blockLengthAt_versioned h
  cases hb : m.body with
  | orderUpdate block =>
    obtain ⟨hmessage, hcall⟩ := message_order h (by rw [hb]; simp [VersionedBody.content, Message.type])
    rw [toldAs_of_message hmessage hcall, LengthsFitAt, htype, hlen, hb]; rfl
  | orderExecution block =>
    obtain ⟨hmessage, hcall⟩ := message_order h (by rw [hb]; simp [VersionedBody.content, Message.type])
    rw [toldAs_of_message hmessage hcall, LengthsFitAt, htype, hlen, hb]; rfl
  | orderBookSnapshot root blockSize entries =>
    rw [← hb]
    exact snapshot_toldAs hb h

/-- **Where the decoder goes on** behind a readable message: at its end or, behind an order
that is shorter than its type, further on. -/
theorem stop_versioned {m : VersionedMessage} (h : p.Holds off m.encode) (hread : m.body.Readable) :
    off + m.encode.length ≤ (visitAt p off).stop ∧
      (m.body.Standard ↔ (visitAt p off).stop = off + m.encode.length) := by
  have htype := typeAt_versioned h
  have hlen := blockLengthAt_versioned h
  rw [encode_end m off]
  cases hb : m.body with
  | orderUpdate block =>
    have hstop : (visitAt p off).stop = blockAt off + Wire.size OrderUpdate := by
      rw [visitAt_eq, htype, hb]; rfl
    rw [hb] at hread
    simp only [VersionedBody.Readable] at hread
    simp only [VersionedBody.Standard, VersionedBody.block, VersionedBody.group, List.length_nil, hstop]
    omega
  | orderExecution block =>
    have hstop : (visitAt p off).stop = blockAt off + Wire.size OrderExecution := by
      rw [visitAt_eq, htype, hb]; rfl
    rw [hb] at hread
    simp only [VersionedBody.Readable] at hread
    simp only [VersionedBody.Standard, VersionedBody.block, VersionedBody.group, List.length_nil, hstop]
    omega
  | orderBookSnapshot root blockSize entries =>
    have hstop := stop_snapshot hb h hread
    rw [encode_end m off, hb] at hstop
    rw [hstop]
    simp only [VersionedBody.Standard, le_refl, true_and]

/-- A walk goes on behind a visit that made a call. -/
theorem Visit.calls_of_next {v : Visit} {off' : ℕ} (h : v.next = some off') : ∃ c, v.calls = [c] := by
  unfold next at h
  unfold calls
  split at h
  · exact ⟨_, rfl⟩
  · cases h

theorem next_versioned {m : VersionedMessage} (h : p.Holds off m.encode)
    (hexc : (visitAt p off).exception = none) :
    (visitAt p off).next = some (visitAt p off).stop := by
  have hknown : typeAt p off ≠ .messageUnknown := by
    rw [typeAt_versioned h]
    cases m.body <;> simp [VersionedBody.content, Message.type]
  rcases messageAt_next p (typeAt p off) off with ⟨-, -, hnext⟩ | ⟨hnot, -⟩
  · exact hnext
  · exact absurd ⟨hexc, hknown⟩ hnot

/-! ## In the layout of the decoder -/

/-- In the layout of the decoder a message is readable when a book takes its entries. -/
theorem VersionedBody.readable_iff {m : VersionedMessage} (hm : m.body.InLayout) :
    m.body.Readable ↔ m.body.Accepted := by
  have hwf := m.wellFormed.2
  cases hb : m.body with
  | orderUpdate block =>
    rw [hb] at hm
    exact ⟨fun _ => trivial, fun _ => le_of_eq hm⟩
  | orderExecution block =>
    rw [hb] at hm
    exact ⟨fun _ => trivial, fun _ => le_of_eq hm⟩
  | orderBookSnapshot root blockSize entries =>
    rw [hb] at hm hwf
    obtain ⟨hroot, hsize⟩ := hm
    have hentry : ∀ e ∈ entries, e.length ≤ Wire.size OrderBookEntry := fun e he => by
      rw [hwf.2 e he, hsize]; rfl
    exact ⟨fun h e he => (h.2 e he).2, fun h => ⟨Or.inl hroot, fun e he => ⟨hentry e he, h e he⟩⟩⟩

theorem VersionedBody.InLayout.standard {m : VersionedBody} (hm : m.InLayout) : m.Standard := by
  cases m with
  | orderUpdate block => exact hm
  | orderExecution block => exact hm
  | orderBookSnapshot root blockSize entries => trivial

/-- A readable message ends where the bytes of it do. -/
theorem messageEnd_versioned {m : VersionedMessage} (h : p.Holds off m.encode) (hread : m.body.Readable) :
    messageEnd p off = off + m.encode.length := by
  have htype := typeAt_versioned h
  have hlen := blockLengthAt_versioned h
  have hend := encode_end m off
  cases hb : m.body with
  | orderUpdate block =>
    rw [hb] at htype hend hlen
    rw [messageEnd, htype, hend]
    simp [VersionedBody.content, Message.type, VersionedBody.group, hlen]
  | orderExecution block =>
    rw [hb] at htype hend hlen
    rw [messageEnd, htype, hend]
    simp [VersionedBody.content, Message.type, VersionedBody.group, hlen]
  | orderBookSnapshot root blockSize entries =>
    have htype' : typeAt p off = .orderBookSnapshotType := by rw [htype, hb]; rfl
    rw [← stop_snapshot hb h hread, messageEnd, visitAt_eq, htype']
    rfl

/-- A message in the decoder's layout: it is told of, the walk goes on behind it, and it is
read no further than to its end. -/
structure Delivered (p : Span) (off : ℕ) (m : VersionedMessage) : Prop extends ToldAs p off m where
  stop : (visitAt p off).stop = off + m.encode.length
  next : (visitAt p off).next = some (off + m.encode.length)
  inside : ∀ a ∈ (visitAt p off).accesses, a.InRange (off + m.encode.length)

/-- **A supported message is delivered** when a book takes its entries. -/
theorem visitAt_supported {m : VersionedMessage} (hm : m.body.InLayout) (hacc : m.body.Accepted)
    (h : p.Holds off m.encode) : Delivered p off m := by
  have hread := (VersionedBody.readable_iff hm).2 hacc
  have htold := (toldAs_iff h).2 hread
  have hstop := (stop_versioned h hread).2.1 hm.standard
  have hnext := next_versioned h htold.exception
  have hend := messageEnd_versioned h hread
  rw [hstop] at hnext
  exact ⟨htold, hstop, hnext, forall_inRange.2 ⟨visitAt_reads.2 hend.le, htold.writes⟩⟩

/-- A snapshot that no book takes is not told of, and nothing behind it is looked at. -/
theorem visitAt_refused {m : VersionedMessage} (hm : m.body.InLayout) (hacc : ¬ m.body.Accepted)
    (h : p.Holds off m.encode) : (visitAt p off).calls = [] ∧ (visitAt p off).next = none := by
  have hcalls : (visitAt p off).calls = [] := by
    cases hb : m.body with
    | orderUpdate block => rw [hb] at hacc; exact absurd trivial hacc
    | orderExecution block => rw [hb] at hacc; exact absurd trivial hacc
    | orderBookSnapshot root blockSize entries =>
      have htype : typeAt p off = .orderBookSnapshotType := by rw [typeAt_versioned h, hb]; rfl
      rw [hb] at hm hacc
      obtain ⟨-, hg⟩ := filledHeader_versioned hb h (Or.inl hm.1)
      apply List.eq_nil_iff_forall_not_mem.2
      intro c hc
      apply hacc
      obtain ⟨hall, -⟩ := (Visit.calls_snapshot (message_snapshot p htype) c).1 hc
      rw [entriesAt_versioned hb h hg] at hall
      exact fun e he => upToRefused_accepted hall _ (List.mem_map_of_mem he)
  refine ⟨hcalls, ?_⟩
  apply Option.eq_none_iff_forall_ne_some.2
  intro off' hnext
  obtain ⟨c, hc⟩ := Visit.calls_of_next hnext
  rw [hcalls] at hc
  cases hc

end MoexDecoder
