import MoexDecoder.Lib.Wire

/-!
# Memory behind a pointer

A read through a pointer is total: `Mem` gives the byte at every distance from the
pointer, and `Span` is a region of known bytes with whatever lies behind it. That a
read stays in its region is a property of the read (`off + n ≤ length`), not of the
memory; reads that do are those of the bytes (`Span.read_eq`, `Span.Holds.read`).
-/

/-- The bytes from a pointer on. -/
abbrev Mem := ℕ → UInt8

/-- `n` bytes at `off`. -/
def Mem.read (m : Mem) (off n : ℕ) : List UInt8 := (List.range n).map fun i => m (off + i)

@[simp] theorem Mem.read_length (m : Mem) (off n : ℕ) : (m.read off n).length = n := by
  simp [Mem.read]

theorem Mem.read_congr {m m' : Mem} {off n : ℕ} (h : ∀ i, off ≤ i → i < off + n → m i = m' i) :
    m.read off n = m'.read off n := by
  unfold Mem.read
  apply List.map_congr_left
  intro i hi
  exact h _ (by omega) (by simp at hi; omega)

theorem Mem.read_getD (m : Mem) {off n i : ℕ} (h : i < n) : (m.read off n).getD i 0 = m (off + i) := by
  simp [read, h]

/-- A region of memory, and the bytes behind it, indexed from its start. -/
structure Span where
  bytes : List UInt8
  past : Mem

namespace Span

/-- The memory from the start of the region on. -/
def mem (s : Span) : Mem := fun i => s.bytes.getD i (s.past i)

theorem mem_of_ge (s : Span) {i : ℕ} (h : s.bytes.length ≤ i) : s.mem i = s.past i := by
  simp [mem, List.getElem?_eq_none h]

theorem mem_of_lt (s : Span) {i : ℕ} (h : i < s.bytes.length) : s.mem i = s.bytes[i] := by
  simp [mem, h]

theorem mem_eq_getD (s : Span) {i : ℕ} (h : i < s.bytes.length) : s.mem i = s.bytes.getD i 0 := by
  rw [s.mem_of_lt h]
  simp [h]

/-- The region from `off` on. -/
def subspan (s : Span) (off : ℕ) : Span := ⟨s.bytes.drop off, fun i => s.past (off + i)⟩

/-- **A read inside the region reads its bytes.** -/
theorem read_eq (s : Span) {off n : ℕ} (h : off + n ≤ s.bytes.length) :
    s.mem.read off n = (s.bytes.drop off).take n := by
  apply List.ext_getElem
  · simp; omega
  · intro i h1 h2
    simp only [Mem.read_length] at h1
    simp [Mem.read, s.mem_of_lt (show off + i < s.bytes.length by omega)]

/-- Reading a part of known bytes. -/
theorem read_append {s : Span} {pre mid post : List UInt8} (hs : s.bytes = pre ++ mid ++ post) :
    s.mem.read pre.length mid.length = mid := by
  rw [s.read_eq (by simp [hs]), hs]
  simp

/-- The bytes at `off` are `bs`. -/
def Holds (s : Span) (off : ℕ) (bs : List UInt8) : Prop :=
  ∃ pre post, s.bytes = pre ++ bs ++ post ∧ pre.length = off

namespace Holds

variable {s : Span} {off : ℕ} {bs bs' : List UInt8}

theorem le (h : s.Holds off bs) : off + bs.length ≤ s.bytes.length := by
  obtain ⟨pre, post, hs, rfl⟩ := h
  simp [hs]

theorem read (h : s.Holds off bs) : s.mem.read off bs.length = bs := by
  obtain ⟨pre, post, hs, rfl⟩ := h
  exact s.read_append hs

/-- Bytes at one offset are the same, if they are as many. -/
theorem eq_of_length (h : s.Holds off bs) (h' : s.Holds off bs') (hlen : bs.length = bs'.length) : bs = bs' := by
  rw [← h.read, ← h'.read, hlen]

theorem left (h : s.Holds off (bs ++ bs')) : s.Holds off bs := by
  obtain ⟨pre, post, hs, rfl⟩ := h
  exact ⟨pre, bs' ++ post, by rw [hs]; simp, rfl⟩

theorem right (h : s.Holds off (bs ++ bs')) : s.Holds (off + bs.length) bs' := by
  obtain ⟨pre, post, hs, rfl⟩ := h
  exact ⟨pre ++ bs, post, by rw [hs]; simp, by simp⟩

theorem append (h : s.Holds off bs) (h' : s.Holds (off + bs.length) bs') : s.Holds off (bs ++ bs') := by
  obtain ⟨pre, post, hs, rfl⟩ := h
  obtain ⟨pre', post', hs', hlen⟩ := h'
  have hpre : pre' = pre ++ bs := by
    rw [hs', List.append_assoc] at hs
    exact (List.append_inj hs (by rw [hlen, List.length_append])).1
  exact ⟨pre, post', by rw [hs', hpre]; simp, rfl⟩

end Holds

/-- The bytes of a read inside the region stand in it. -/
theorem holds_read (s : Span) {off n : ℕ} (h : off + n ≤ s.bytes.length) : s.Holds off (s.mem.read off n) := by
  refine ⟨s.bytes.take off, s.bytes.drop (off + n), ?_, by rw [List.length_take]; omega⟩
  rw [s.read_eq h, List.append_assoc, ← List.drop_drop, List.take_append_drop, List.take_append_drop]

theorem holds_zero {s : Span} {bs : List UInt8} : s.Holds 0 bs ↔ bs <+: s.bytes := by
  constructor
  · rintro ⟨pre, post, hs, hlen⟩
    rw [List.length_eq_zero_iff.1 hlen, List.nil_append] at hs
    exact ⟨post, hs.symm⟩
  · rintro ⟨post, hs⟩
    exact ⟨[], post, hs.symm, rfl⟩

end Span
