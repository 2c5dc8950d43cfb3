import Mathlib.Data.Int.Notation
import Mathlib.Data.List.Basic

/-!
# Fields of a line

A line of comma separated values is its columns with `", "` between them, and `fields`
reads the columns back.

* `fields_intercalate`: of columns without commas and blanks, the fields are the columns.
* `mem_int`: the characters of a number.
* `plain_nat`, `plain_int`: a number is such a column.
-/

namespace Fields

/-- A text without commas and blanks. -/
def Plain (s : String) : Prop := ∀ c ∈ s.toList, c ≠ ',' ∧ c ≠ ' '

instance (s : String) : Decidable (Plain s) := List.decidableBAll _ s.toList

/-- What is between the commas, without the blanks in front. -/
def fields (row : String) : List String :=
  (row.toList.splitOn ',').map fun l => String.ofList (l.dropWhile (· = ' '))

/-- The field at a position, counted from zero. -/
def field (row : String) (i : ℕ) : String := (fields row).getD i ""

variable {cols : List String}

/-- The blanks between the columns count to those behind them. -/
theorem intercalate_blank (l : List Char) (ls : List (List Char)) :
    [',', ' '].intercalate (l :: ls) = [','].intercalate (l :: ls.map (' ' :: ·)) := by
  induction ls generalizing l with
  | nil => rfl
  | cons l' ls ih =>
    rw [List.map_cons, List.intercalate_cons_cons, List.intercalate_cons_cons, ih]
    cases ls <;> simp

theorem dropWhile_plain {s : String} (h : Plain s) : s.toList.dropWhile (· = ' ') = s.toList := by
  cases hs : s.toList with
  | nil => rfl
  | cons c l =>
    have hc := (h c (by rw [hs]; exact List.mem_cons_self)).2
    simp [hc]

/-- **The fields of a line are its columns.** -/
theorem fields_intercalate (hne : cols ≠ []) (h : ∀ s ∈ cols, Plain s) :
    fields (", ".intercalate cols) = cols := by
  obtain ⟨s, ss, rfl⟩ := List.exists_cons_of_ne_nil hne
  obtain ⟨hs, hss⟩ := List.forall_mem_cons.1 h
  have hsplit : (", ".intercalate (s :: ss)).toList.splitOn ',' =
      s.toList :: (ss.map String.toList).map (' ' :: ·) := by
    rw [String.toList_intercalate, List.map_cons]
    change ([',', ' '].intercalate _).splitOn ',' = _
    rw [intercalate_blank, List.splitOn_intercalate _ _ (List.cons_ne_nil _ _)]
    intro l hl hcomma
    rcases List.mem_cons.1 hl with rfl | hl
    · exact (hs ',' hcomma).1 rfl
    · simp only [List.map_map, List.mem_map, Function.comp_apply] at hl
      obtain ⟨t, ht, rfl⟩ := hl
      rcases List.mem_cons.1 hcomma with hblank | hcomma
      · cases hblank
      · exact (hss t ht ',' hcomma).1 rfl
  rw [fields, hsplit, List.map_cons, dropWhile_plain hs, String.ofList_toList, List.map_map, List.map_map]
  congr 1
  conv_rhs => rw [← List.map_id ss]
  apply List.map_congr_left
  intro t ht
  simp [dropWhile_plain (hss t ht)]

/-! ## Numbers -/

theorem plain_of_isDigit {s : String} (h : ∀ c ∈ s.toList, c.isDigit) : Plain s := by
  intro c hc
  have hdigit := h c hc
  constructor <;> rintro rfl <;> simp at hdigit

theorem isDigit_of_mem_nat {n : ℕ} {c : Char} (h : c ∈ (toString n).toList) : c.isDigit := by
  change c ∈ (Nat.repr n).toList at h
  rw [Nat.toList_repr] at h
  exact Nat.isDigit_of_mem_toDigits (by decide) (by decide) h

theorem mem_int {m : ℤ} {c : Char} (h : c ∈ (toString m).toList) : c.isDigit ∨ c = '-' := by
  cases m with
  | ofNat n => exact Or.inl (isDigit_of_mem_nat h)
  | negSucc n =>
    change c ∈ ("-" ++ toString (n + 1)).toList at h
    rw [String.toList_append, List.mem_append] at h
    exact h.symm.imp isDigit_of_mem_nat List.mem_singleton.1

theorem plain_nat (n : ℕ) : Plain (toString n) := plain_of_isDigit fun _ => isDigit_of_mem_nat

theorem plain_int (m : ℤ) : Plain (toString m) := by
  cases m with
  | ofNat n => exact plain_nat n
  | negSucc n =>
    intro c hc
    change c ∈ ("-" ++ toString (n + 1)).toList at hc
    rw [String.toList_append, List.mem_append] at hc
    rcases hc with hc | hc
    · rw [List.mem_singleton.1 hc]
      decide
    · exact plain_nat _ c hc

end Fields
