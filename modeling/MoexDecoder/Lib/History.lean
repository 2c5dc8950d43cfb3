import Mathlib.Tactic

/-!
# What holds at each item of a list

`AtEach P l`: at each item of `l` the property `P` holds of the items before it and the
item. A list that grows at its end keeps such a property when it holds at the new item
(`atEach_append_singleton`); where `P` is about each item before it alone, it is
`List.Pairwise` (`atEach_iff_pairwise`). Of items that make up `B` with their neighbours
there are few (`length_le_of_neighbours`).
-/

variable {α : Type*} {P Q : List α → α → Prop} {l : List α} {a : α}

/-- `P` holds at each item, behind those before it. -/
def AtEach (P : List α → α → Prop) (l : List α) : Prop := ∀ pre a post, l = pre ++ a :: post → P pre a

theorem atEach_nil (P : List α → α → Prop) : AtEach P [] := by
  intro pre a post h
  simp at h

/-- An item of a list with one more item is the new one, or was there. -/
theorem append_singleton_cases {pre post : List α} {b : α} (h : l ++ [a] = pre ++ b :: post) :
    (pre = l ∧ b = a) ∨ ∃ post', l = pre ++ b :: post' := by
  rcases List.eq_nil_or_concat post with rfl | ⟨post', c, rfl⟩
  · obtain ⟨rfl, hb⟩ := List.append_inj' h rfl
    exact Or.inl ⟨rfl, (List.cons.inj hb).1.symm⟩
  · rw [List.concat_eq_append, ← List.cons_append, ← List.append_assoc] at h
    exact Or.inr ⟨post', (List.append_inj' h rfl).1⟩

/-- **One more item.** -/
theorem atEach_append_singleton : AtEach P (l ++ [a]) ↔ AtEach P l ∧ P l a := by
  constructor
  · intro h
    refine ⟨?_, h l a [] rfl⟩
    intro pre b post hl
    exact h pre b (post ++ [a]) (by rw [hl]; simp)
  · rintro ⟨hl, ha⟩ pre b post h
    rcases append_singleton_cases h with ⟨rfl, rfl⟩ | ⟨post', hpre⟩
    · exact ha
    · exact hl pre b post' hpre

theorem AtEach.of_prefix {l' : List α} (h : AtEach P l') (hpre : l <+: l') : AtEach P l := by
  obtain ⟨more, rfl⟩ := hpre
  rintro pre a post rfl
  exact h pre a (post ++ more) (by simp)

theorem atEach_congr (h : ∀ pre a, P pre a ↔ Q pre a) : AtEach P l ↔ AtEach Q l := by
  simp only [AtEach, h]

/-- A relation of each item to all before it. -/
theorem atEach_iff_pairwise {R : α → α → Prop} : AtEach (fun pre a => ∀ b ∈ pre, R b a) l ↔ l.Pairwise R := by
  induction l using List.reverseRecOn with
  | nil => simp [atEach_nil]
  | append_singleton l a ih =>
    rw [atEach_append_singleton, ih, List.pairwise_append]
    simp

/-- **Neighbours of at least `B` together** are few: each item is in two of the pairs at most. -/
theorem length_le_of_neighbours {f : α → ℕ} {B : ℕ} (h : l.IsChain fun a b => B ≤ f a + f b) :
    (l.length - 1) * B ≤ 2 * (l.map f).sum := by
  cases l with
  | nil => simp
  | cons a l =>
    -- the first item is in one pair
    have hfirst : l.length * B + f a ≤ 2 * (f a + (l.map f).sum) := by
      induction l generalizing a with
      | nil => simp; omega
      | cons b l ih =>
        obtain ⟨hpair, hrest⟩ := List.isChain_cons_cons.1 h
        have hothers := ih b hrest
        rw [List.length_cons, Nat.succ_mul, List.map_cons, List.sum_cons]
        omega
    rw [List.length_cons, Nat.add_sub_cancel, List.map_cons, List.sum_cons]
    omega
