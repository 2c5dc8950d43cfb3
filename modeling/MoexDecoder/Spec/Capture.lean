import MoexDecoder.Spec.PcapBuffer

/-!
# Capture files

A capture file is a global header and records, each a header and the bytes captured.
This is the format the producer is meant to read, stated without chunks:
`Capture.bytes` is the file, `Capture.packets` what it holds. A `TruncatedCapture`
ends inside a record.

`fitting`, `headersInside` and `endsInside` are the chunks in terms of record sizes
alone: which records a chunk takes, whether every record header lies inside the chunk
that is being read when the record's turn comes, and whether every record ends before
its chunk does. A `LongestRun` is what a chunk is meant to take.
-/

namespace MoexDecoder

/-- A complete record. -/
structure Record where
  hdr : PcaprecHdr
  data : List UInt8
  length_eq : hdr.capturedLength.toNat = data.length

namespace Record

def bytes (r : Record) : List UInt8 := Wire.encode r.hdr ++ r.data

def size (r : Record) : ℕ := RECORD_HEADER_SIZE + r.data.length

@[simp] theorem bytes_length (r : Record) : r.bytes.length = r.size := by simp [bytes, size]

theorem header_le_size (r : Record) : RECORD_HEADER_SIZE ≤ r.size := Nat.le_add_right _ _

end Record

/-- The bytes of records that follow each other. -/
def recordBytes (rs : List Record) : List UInt8 := rs.flatMap Record.bytes

/-- The size of records that follow each other. -/
def recordSize (rs : List Record) : ℕ := (rs.map Record.size).sum

@[simp] theorem recordSize_nil : recordSize [] = 0 := rfl

@[simp] theorem recordSize_cons (r : Record) (rs : List Record) :
    recordSize (r :: rs) = r.size + recordSize rs := by simp [recordSize]

@[simp] theorem recordSize_append (rs rs' : List Record) :
    recordSize (rs ++ rs') = recordSize rs + recordSize rs' := by simp [recordSize]

@[simp] theorem recordBytes_length (rs : List Record) : (recordBytes rs).length = recordSize rs := by
  induction rs with
  | nil => rfl
  | cons r rs ih => simp [recordBytes, ← ih]

@[simp] theorem recordBytes_cons (r : Record) (rs : List Record) :
    recordBytes (r :: rs) = r.bytes ++ recordBytes rs := by simp [recordBytes]

@[simp] theorem recordBytes_append (rs rs' : List Record) :
    recordBytes (rs ++ rs') = recordBytes rs ++ recordBytes rs' := by simp [recordBytes]

/-- A capture file: its global header and its records. -/
structure Capture where
  header : List UInt8
  records : List Record
  header_length : header.length = HEADER_SIZE

namespace Capture

def bytes (c : Capture) : List UInt8 := c.header ++ recordBytes c.records

/-- The packets in file order. -/
def packets (c : Capture) : List (List UInt8) := c.records.map (·.data)

/-- The capture file as the producer's input. -/
def input (c : Capture) (batchSize : ℕ) (past : ℕ → Mem) : Input := ⟨batchSize, c.bytes, past⟩

/-- Every record fits a chunk of `B` bytes with a byte to spare. -/
def Fits (c : Capture) (B : ℕ) : Prop := ∀ r ∈ c.records, r.size < B

instance (c : Capture) (B : ℕ) : Decidable (c.Fits B) :=
  inferInstanceAs (Decidable (∀ r ∈ c.records, r.size < B))

end Capture

/-- Every record fits a chunk of `B` bytes. -/
def Capture.FitsChunk (c : Capture) (B : ℕ) : Prop := ∀ r ∈ c.records, r.size ≤ B

/-- A capture file cut inside one more record. -/
structure TruncatedCapture extends Capture where
  cutRecord : Record
  kept : ℕ
  kept_pos : 0 < kept
  kept_lt : kept < cutRecord.size

namespace TruncatedCapture

/-- What is left of the record that was cut. -/
def tail (c : TruncatedCapture) : List UInt8 := c.cutRecord.bytes.take c.kept

def bytes (c : TruncatedCapture) : List UInt8 := c.toCapture.bytes ++ c.tail

def input (c : TruncatedCapture) (batchSize : ℕ) (past : ℕ → Mem) : Input := ⟨batchSize, c.bytes, past⟩

end TruncatedCapture

/-- The records a chunk of `B` bytes takes behind its first `acc` bytes: as many as
end before its last byte. -/
def fitting (B : ℕ) : ℕ → List Record → List Record
  | _, [] => []
  | acc, r :: rs => if acc + r.size < B then r :: fitting B (acc + r.size) rs else []

theorem fitting_isPrefix (B : ℕ) : ∀ (rs : List Record) (acc : ℕ), fitting B acc rs <+: rs
  | [], _ => List.prefix_refl _
  | r :: rs, acc => by
    unfold fitting
    split
    · exact List.cons_prefix_cons.2 ⟨rfl, fitting_isPrefix B rs _⟩
    · exact List.nil_prefix

theorem fitting_append_drop (B acc : ℕ) (rs : List Record) :
    fitting B acc rs ++ rs.drop (fitting B acc rs).length = rs :=
  (List.prefix_iff_eq_append.1 (fitting_isPrefix B rs acc))

/-- With the chunk filled up to `acc`, the header of each record from here on lies
inside the chunk being read. A record that does not fit starts the next chunk. -/
def headersInside (B : ℕ) : ℕ → List ℕ → Prop
  | _, [] => True
  | acc, size :: sizes => acc + RECORD_HEADER_SIZE ≤ B ∧
      headersInside B (if acc + size < B then acc + size else size) sizes

instance (B : ℕ) : ∀ (acc : ℕ) (sizes : List ℕ), Decidable (headersInside B acc sizes)
  | _, [] => isTrue trivial
  | acc, size :: sizes =>
    have := instDecidableHeadersInside B (if acc + size < B then acc + size else size) sizes
    inferInstanceAs (Decidable (_ ∧ _))

/-- With the chunk filled up to `acc`, each record from here on ends before its chunk
does. A record that does not fit starts the next chunk. -/
def endsInside (B : ℕ) : ℕ → List ℕ → Prop
  | _, [] => True
  | acc, size :: sizes =>
    (if acc + size ≤ B then acc + size else size) < B ∧
      endsInside B (if acc + size ≤ B then acc + size else size) sizes

instance (B : ℕ) : ∀ (acc : ℕ) (sizes : List ℕ), Decidable (endsInside B acc sizes)
  | _, [] => isTrue trivial
  | acc, size :: sizes =>
    have := instDecidableEndsInside B (if acc + size ≤ B then acc + size else size) sizes
    inferInstanceAs (Decidable (_ ∧ _))

/-- Of the records `run ++ left`, `run` is the longest run from the first one on that
takes at most `B` bytes. -/
structure LongestRun (B : ℕ) (run left : List Record) : Prop where
  size_le : recordSize run ≤ B
  longest : ∀ more, more <+: left → recordSize run + recordSize more ≤ B → more = []

end MoexDecoder
