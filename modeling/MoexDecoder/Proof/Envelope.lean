import MoexDecoder.Spec.Envelope

/-!
# An envelope in a payload

The decoder finds the headers of an `Envelope` as they were sent, and its messages are
those a walk over the body comes across (`Envelope.visits_eq`).
-/

namespace MoexDecoder

open Walk

variable {p : Span} {off : ℕ} {trailing : List UInt8} {past : Mem}

/-- A copy of bytes that stand in the payload. -/
theorem copyFrom_bytes {α : Type} [Wire α] {bs : List UInt8} (h : p.Holds off bs) (y : α) :
    copyFrom p off bs.length y = Wire.memcpy y bs := by
  rw [copyFrom, h.read]

/-- A copy of a whole object that stands in the payload. -/
theorem copyFrom_holds {α : Type} [Wire α] {x : α} (h : p.Holds off (Wire.encode x)) (y : α) :
    copyFrom p off (Wire.size α) y = x := by
  have hcopy := copyFrom_bytes h y
  rwa [Wire.encode_length, Wire.memcpy_encode] at hcopy

namespace Envelope

variable (k : Envelope)

theorem holds : (k.payload trailing past).Holds 0 k.encode := ⟨[], trailing, rfl, rfl⟩

theorem marketHeaderAt_eq : marketHeaderAt (k.payload trailing past) = k.header :=
  copyFrom_holds k.holds.left _

theorem messagesOffset_eq : messagesOffset (k.payload trailing past) = k.bodyOffset := by
  have hflag : (marketHeaderAt (k.payload trailing past)).Incremental ↔ k.incremental.isSome := by
    rw [k.marketHeaderAt_eq]; exact k.incremental_iff.symm
  unfold messagesOffset bodyOffset
  cases hinc : k.incremental with
  | none => rw [if_neg (by simp [hflag, hinc])]; rfl
  | some inc => rw [if_pos (by simp [hflag, hinc])]; simp

/-- Behind the headers the payload holds the messages. -/
theorem holds_body : (k.payload trailing past).Holds k.bodyOffset k.body := by
  have h : (k.payload trailing past).Holds 0 k.encode := k.holds
  have hbody := h.right.right
  rwa [Wire.encode_length, Nat.zero_add] at hbody

/-- **The messages of an envelope** are those of a walk over its body. -/
theorem visits_eq : visits (k.payload trailing past) =
    walk (visitAt (k.payload trailing past)) Visit.next k.size k.bodyOffset := by
  rw [visits, k.marketHeaderAt_eq, k.messageSize, k.messagesOffset_eq]

theorem messageStarts_eq : messageStarts (k.payload trailing past) =
    Walk.starts (visitAt (k.payload trailing past)) Visit.next k.size k.bodyOffset := by
  rw [messageStarts, k.marketHeaderAt_eq, k.messageSize, k.messagesOffset_eq]

end Envelope

namespace Packed

variable {μ : Type} {encode : μ → List UInt8} (k : Packed encode)

theorem holds_messages : (k.payload trailing past).Holds k.bodyOffset (k.messages.flatMap encode) := by
  rw [← k.body_eq]
  exact k.holds_body

theorem size_messages : k.size = k.bodyOffset + (k.messages.flatMap encode).length := by
  rw [Envelope.size, k.body_eq]

end Packed

end MoexDecoder
