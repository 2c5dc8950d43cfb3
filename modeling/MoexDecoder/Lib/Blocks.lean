import Mathlib.Data.Int.Notation
import Mathlib.Data.List.Basic

/-!
# Texts made of blocks

A text of blocks that say where they end is that of one list of blocks.

* `append_inj_of_stop`: a block of characters of one kind ends where the text goes on with
  another kind.
* `terminated_inj`: blocks end at a mark that none of them holds.
* `unlines_inj`: lines end at a newline.
* `Delimited.flatMap_inj`: blocks say where they end in any other way.
* `forall₂_eq_iff`, `map_eq_map_iff`: lists of things are told apart by their texts where
  the things are.
-/

namespace Blocks

variable {α : Type*}

/-- Two texts that start with characters of one kind, and go on with another. -/
theorem append_inj_of_stop {p : α → Bool} {l l' t t' : List α} (hl : ∀ c ∈ l, p c) (hl' : ∀ c ∈ l', p c)
    (ht : ∀ c ∈ t.head?, p c = false) (ht' : ∀ c ∈ t'.head?, p c = false) (h : l ++ t = l' ++ t') :
    l = l' ∧ t = t' := by
  have hstop : ∀ l t : List α, (∀ c ∈ l, p c) → (∀ c ∈ t.head?, p c = false) → (l ++ t).takeWhile p = l := by
    intro l t hl ht
    rw [List.takeWhile_append_of_pos hl]
    cases t with
    | nil => simp
    | cons c t => simp [ht c rfl]
  have hll : l = l' := by rw [← hstop l t hl ht, h, hstop l' t' hl' ht']
  rw [hll] at h
  exact ⟨hll, List.append_cancel_left h⟩

/-- The blocks, each with a mark behind it. -/
def terminated (mark : α) (ls : List (List α)) : List α := ls.flatMap (· ++ [mark])

@[simp] theorem terminated_cons (mark : α) (l : List α) (ls : List (List α)) :
    terminated mark (l :: ls) = l ++ mark :: terminated mark ls := by
  simp [terminated]

/-- **A text of blocks that end at a mark** is that of one list of blocks. -/
theorem terminated_inj [DecidableEq α] {mark : α} {ls ls' : List (List α)} (h : ∀ l ∈ ls, mark ∉ l)
    (h' : ∀ l ∈ ls', mark ∉ l) (heq : terminated mark ls = terminated mark ls') : ls = ls' := by
  induction ls generalizing ls' with
  | nil =>
    cases ls' with
    | nil => rfl
    | cons l' ls' => rw [terminated_cons] at heq; simp [terminated] at heq
  | cons l ls ih =>
    cases ls' with
    | nil => rw [terminated_cons] at heq; simp [terminated] at heq
    | cons l' ls' =>
      rw [List.forall_mem_cons] at h h'
      have hstop : ∀ l : List α, mark ∉ l → ∀ c ∈ l, (c != mark) = true := by
        intro l hl c hc
        rw [bne_iff_ne]
        rintro rfl
        exact hl hc
      rw [terminated_cons, terminated_cons] at heq
      obtain ⟨hl, hrest⟩ := append_inj_of_stop (p := (· != mark)) (hstop l h.1) (hstop l' h'.1) (by simp) (by simp)
        heq
      rw [hl, ih h.2 h'.2 (List.cons.inj hrest).2]

/-- No block is one thing and starts another. -/
structure Delimited {β : Type*} (encode : β → List α) : Prop where
  ne_nil : ∀ x, encode x ≠ []
  eq : ∀ {x y t t'}, encode x ++ t = encode y ++ t' → x = y

/-- **A text of blocks that say where they end** is that of one list of things. -/
theorem Delimited.flatMap_inj {β : Type*} {encode : β → List α} (h : Delimited encode) {xs ys : List β}
    (heq : xs.flatMap encode = ys.flatMap encode) : xs = ys := by
  induction xs generalizing ys with
  | nil =>
    cases ys with
    | nil => rfl
    | cons y ys => exact absurd (List.append_eq_nil_iff.1 heq.symm).1 (h.ne_nil y)
  | cons x xs ih =>
    cases ys with
    | nil => exact absurd (List.append_eq_nil_iff.1 heq).1 (h.ne_nil x)
    | cons y ys =>
      obtain rfl : x = y := h.eq heq
      rw [ih (List.append_cancel_left heq)]

/-- What is in a text of blocks with marks between them. -/
theorem mem_intercalate {c : α} {sep : List α} {ls : List (List α)} (h : c ∈ sep.intercalate ls) :
    c ∈ sep ∨ ∃ l ∈ ls, c ∈ l := by
  induction ls with
  | nil => cases h
  | cons l ls ih =>
    cases ls with
    | nil => exact Or.inr ⟨l, List.mem_singleton_self l, by simpa using h⟩
    | cons l' ls =>
      rw [List.intercalate_cons_cons, List.mem_append, List.mem_append] at h
      rcases h with (h | h) | h
      · exact Or.inr ⟨l, List.mem_cons_self, h⟩
      · exact Or.inl h
      · exact (ih h).imp_right fun ⟨m, hm, hc⟩ => ⟨m, List.mem_cons_of_mem l hm, hc⟩

/-! ## Lines -/

/-- The lines, each with a newline behind it. -/
def unlines (ls : List String) : String := String.join (ls.map (· ++ "\n"))

theorem unlines_cons (s : String) (ls : List String) : unlines (s :: ls) = s ++ "\n" ++ unlines ls :=
  String.join_cons

theorem unlines_append (ls ls' : List String) : unlines (ls ++ ls') = unlines ls ++ unlines ls' := by
  rw [unlines, List.map_append, String.join_append, unlines, unlines]

theorem toList_unlines (ls : List String) : (unlines ls).toList = terminated '\n' (ls.map String.toList) := by
  rw [unlines, String.toList_join, List.flatMap_map, terminated, List.flatMap_map]
  simp only [String.toList_append]
  rfl

/-- **A text is that of one list of lines.** -/
theorem unlines_inj {ls ls' : List String} (h : ∀ s ∈ ls, '\n' ∉ s.toList) (h' : ∀ s ∈ ls', '\n' ∉ s.toList)
    (heq : unlines ls = unlines ls') : ls = ls' := by
  have hlists := congrArg String.toList heq
  rw [toList_unlines, toList_unlines] at hlists
  have hmap := terminated_inj (List.forall_mem_map.2 h) (List.forall_mem_map.2 h') hlists
  exact List.map_injective_iff.2 (fun _ _ => String.toList_injective) hmap

/-! ## Blocks of things -/

section forall₂
variable {β γ : Type*} {R : α → γ → Prop} {S : β → γ → Prop} {T : α → β → Prop}

theorem forall₂_mem {as : List α} {rs : List γ} (h : List.Forall₂ R as rs) {r : γ} (hr : r ∈ rs) :
    ∃ a ∈ as, R a r := by
  induction h with
  | nil => cases hr
  | cons hhead _ ih =>
    rcases List.mem_cons.1 hr with rfl | hr
    · exact ⟨_, List.mem_cons_self, hhead⟩
    · obtain ⟨a, ha, hR⟩ := ih hr
      exact ⟨a, List.mem_cons_of_mem _ ha, hR⟩

/-- Things with one text each have the same texts when they match one by one. -/
theorem forall₂_eq_iff {as : List α} {bs : List β} {rs rs' : List γ} (h : List.Forall₂ R as rs)
    (h' : List.Forall₂ S bs rs') (hiff : ∀ a ∈ as, ∀ b ∈ bs, ∀ r r', R a r → S b r' → (r = r' ↔ T a b)) :
    rs = rs' ↔ List.Forall₂ T as bs := by
  induction h generalizing bs rs' with
  | nil =>
    cases h' with
    | nil => simp
    | cons _ _ => exact iff_of_false nofun nofun
  | cons hhead _ ih =>
    cases h' with
    | nil => exact iff_of_false nofun nofun
    | cons hhead' htail' =>
      have hrest := ih htail' fun a ha b hb =>
        hiff a (List.mem_cons_of_mem _ ha) b (List.mem_cons_of_mem _ hb)
      rw [List.cons.injEq, List.forall₂_cons, hrest,
        hiff _ List.mem_cons_self _ List.mem_cons_self _ _ hhead hhead']

end forall₂

/-- Two texts tell things apart that are told apart one by one. -/
theorem map_eq_map_iff {β γ δ : Type*} {g : α → γ} {g' : β → γ} {k : α → δ} {k' : β → δ} {as : List α}
    {bs : List β} (h : ∀ a ∈ as, ∀ b ∈ bs, g a = g' b ↔ k a = k' b) :
    as.map g = bs.map g' ↔ as.map k = bs.map k' := by
  induction as generalizing bs with
  | nil => rw [List.map_nil, List.map_nil, List.nil_eq, List.nil_eq, List.map_eq_nil_iff, List.map_eq_nil_iff]
  | cons a as ih =>
    cases bs with
    | nil => exact iff_of_false nofun nofun
    | cons b bs =>
      have hrest := ih fun a' ha b' hb => h a' (List.mem_cons_of_mem a ha) b' (List.mem_cons_of_mem b hb)
      rw [List.map_cons, List.map_cons, List.map_cons, List.map_cons, List.cons.injEq, List.cons.injEq, hrest,
        h a List.mem_cons_self b List.mem_cons_self]

end Blocks
