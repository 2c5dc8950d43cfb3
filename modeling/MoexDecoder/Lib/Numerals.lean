import MoexDecoder.Lib.Decimal
import MoexDecoder.Lib.Fields

/-!
# Numbers in a text

A text of numbers with something else between them is that of one list of numbers, also
where blanks are put in front of them.

* `int_inj`, `nat_inj`: a text is that of one number.
* `int_append_inj`, `nat_append_inj`: a number ends where the text goes on with another
  character.
* `blanks_append_inj`: so do blanks.
* `head?_append`: what a text starts with.
-/

namespace Numerals

open Blocks Fields

variable {m m' : ℤ} {n n' : ℕ} {t t' : List Char}

/-- A character of a number. -/
def isNumeral (c : Char) : Bool := c.isDigit || c == '-'

theorem isNumeral_of_mem_int {c : Char} (h : c ∈ (toString m).toList) : isNumeral c = true := by
  rcases mem_int h with hdigit | rfl
  · simp [isNumeral, hdigit]
  · rfl

theorem isNumeral_of_mem_nat {c : Char} (h : c ∈ (toString n).toList) : isNumeral c = true := by
  simp [isNumeral, isDigit_of_mem_nat h]

theorem nat_inj (h : toString n = toString n') : n = n' := by
  have hdigits := congrArg String.toList h
  change (Nat.repr n).toList = (Nat.repr n').toList at hdigits
  rw [Nat.toList_repr, Nat.toList_repr] at hdigits
  exact Decimal.toDigits_inj hdigits

/-- **A text is that of one number.** The sign is no digit. -/
theorem int_inj (h : toString m = toString m') : m = m' := by
  have hsign : ∀ n k : ℕ, toString n ≠ "-" ++ toString k := by
    intro n k heq
    have hminus : '-' ∈ (toString n).toList := by rw [heq, String.toList_append]; exact List.mem_cons_self
    have hdigit := isDigit_of_mem_nat hminus
    simp at hdigit
  cases m with
  | ofNat n =>
    cases m' with
    | ofNat n' => rw [nat_inj h]
    | negSucc n' => exact absurd h (hsign n (n' + 1))
  | negSucc n =>
    cases m' with
    | ofNat n' => exact absurd h.symm (hsign n' (n + 1))
    | negSucc n' =>
      change "-" ++ toString (n + 1) = "-" ++ toString (n' + 1) at h
      rw [Nat.succ.inj (nat_inj ((String.append_right_inj _).1 h))]

/-- **A number, and what follows it.** -/
theorem int_append_inj (ht : ∀ c ∈ t.head?, isNumeral c = false) (ht' : ∀ c ∈ t'.head?, isNumeral c = false)
    (h : (toString m).toList ++ t = (toString m').toList ++ t') : m = m' ∧ t = t' := by
  obtain ⟨hm, htail⟩ := append_inj_of_stop (fun _ => isNumeral_of_mem_int) (fun _ => isNumeral_of_mem_int) ht ht' h
  exact ⟨int_inj (String.toList_injective hm), htail⟩

theorem nat_append_inj (ht : ∀ c ∈ t.head?, isNumeral c = false) (ht' : ∀ c ∈ t'.head?, isNumeral c = false)
    (h : (toString n).toList ++ t = (toString n').toList ++ t') : n = n' ∧ t = t' := by
  obtain ⟨hn, htail⟩ := append_inj_of_stop (fun _ => isNumeral_of_mem_nat) (fun _ => isNumeral_of_mem_nat) ht ht' h
  exact ⟨nat_inj (String.toList_injective hn), htail⟩

/-- **Blanks, and what follows them.** -/
theorem blanks_append_inj (ht : ∀ c ∈ t.head?, c ≠ ' ') (ht' : ∀ c ∈ t'.head?, c ≠ ' ')
    (h : List.replicate n ' ' ++ t = List.replicate n' ' ' ++ t') : n = n' ∧ t = t' := by
  have hblank : ∀ n : ℕ, ∀ c ∈ List.replicate n ' ', (c == ' ') = true := by
    intro n c hc
    rw [List.eq_of_mem_replicate hc]; rfl
  obtain ⟨hn, htail⟩ := append_inj_of_stop (p := (· == ' ')) (hblank n) (hblank n')
    (fun c hc => beq_false_of_ne (ht c hc)) (fun c hc => beq_false_of_ne (ht' c hc)) h
  have hlen := congrArg List.length hn
  rw [List.length_replicate, List.length_replicate] at hlen
  exact ⟨hlen, htail⟩

/-- A text that is not empty starts with one of its characters. -/
theorem head?_append {l : List Char} {p : Char → Prop} (hne : l ≠ []) (h : ∀ c ∈ l, p c) :
    ∀ c ∈ (l ++ t).head?, p c := by
  obtain ⟨d, l, rfl⟩ := List.exists_cons_of_ne_nil hne
  intro c hc
  cases hc
  exact h _ List.mem_cons_self

theorem int_head (m : ℤ) (t : List Char) : ∀ c ∈ ((toString m).toList ++ t).head?, isNumeral c = true := by
  apply head?_append ?_ fun _ => isNumeral_of_mem_int
  cases m with
  | ofNat n =>
    rw [ne_eq, String.toList_eq_nil_iff]
    exact Nat.repr_ne_empty
  | negSucc n =>
    change ("-" ++ toString (n + 1)).toList ≠ []
    simp

end Numerals
