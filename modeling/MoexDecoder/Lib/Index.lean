import Mathlib.Tactic

/-!
# Ordered maps filled from a list

`index cmp key l` is the map of the values of `l` by their keys. A key that is taken is
left as it is, so of the values with one key the first stays.

* `getElem?_index`: what a key stands for.
* `find?_toList`: a search through the walk is a lookup.
* `toList_map_congr`: maps with the same lookups are walked alike.
* `pairwise_zero_of_sum`, `head_eq_sum`: when a value of a list is the sum of all.
* `head_map_perm`: when the first value is, however the list is ordered.
-/

namespace Index

open Std

variable {α β γ : Type*} {cmp : α → α → Ordering}

/-- The values of `l` by their keys. -/
def index (cmp : α → α → Ordering) (key : β → α) (l : List β) : TreeMap α β cmp :=
  l.foldl (fun m b => m.insertIfNew (key b) b) {}

variable [TransCmp cmp] [LawfulEqCmp cmp] {key : β → α} {l : List β}

/-- **Maps with the same lookups** are walked alike. -/
theorem toList_map_congr {m m' : TreeMap α β cmp} (f : β → γ) (h : ∀ k : α, m[k]?.map f = m'[k]?.map f) :
    m.toList.map (fun q => (q.1, f q.2)) = m'.toList.map fun q => (q.1, f q.2) := by
  have hequiv : (m.map fun _ => f).Equiv (m'.map fun _ => f) :=
    TreeMap.Equiv.of_forall_constGet?_eq fun k => by rw [TreeMap.getElem?_map, TreeMap.getElem?_map, h k]
  have hlist := TreeMap.equiv_iff_toList_eq.1 hequiv
  rwa [TreeMap.toList_map, TreeMap.toList_map] at hlist

variable [DecidableEq α]

/-- A key that is taken is left as it is, others are taken by the first value. -/
theorem getElem?_foldl (m : TreeMap α β cmp) (l : List β) (k : α) :
    (l.foldl (fun m b => m.insertIfNew (key b) b) m)[k]? = m[k]?.or (l.find? fun b => key b = k) := by
  induction l generalizing m with
  | nil => simp
  | cons b l ih =>
    rw [List.foldl_cons, ih, TreeMap.getElem?_insertIfNew, List.find?_cons]
    by_cases hk : key b = k
    · subst hk
      by_cases hm : key b ∈ m
      · simp [hm]
      · simp [hm, ReflCmp.compare_self]
    · have hcmp : cmp (key b) k ≠ .eq := fun h => hk (LawfulEqCmp.eq_of_compare h)
      simp [hk, hcmp]

/-- **What a key stands for**: the first value with this key. -/
theorem getElem?_index (k : α) : (index cmp key l)[k]? = l.find? fun b => key b = k := by
  rw [index, getElem?_foldl, TreeMap.getElem?_emptyc, Option.none_or]

/-- A search that only one element passes finds it. -/
theorem find?_eq_some_of_unique {P : γ → Bool} {xs : List γ} {x : γ} (hx : x ∈ xs) (hP : P x = true)
    (h : ∀ y ∈ xs, P y = true → y = x) : xs.find? P = some x := by
  have hsome : (xs.find? P).isSome := List.find?_isSome.2 ⟨x, hx, hP⟩
  obtain ⟨y, hy⟩ := Option.isSome_iff_exists.1 hsome
  rw [hy, h y (List.mem_of_find?_eq_some hy) (List.find?_some hy)]

/-- **A search through the items of a map**, in any order, is a lookup. -/
theorem find?_toList (m : TreeMap α β cmp) {xs : List (α × β)} (h : ∀ q, q ∈ xs ↔ q ∈ m.toList) (k : α) :
    (xs.find? fun q => q.1 = k) = m[k]?.map (k, ·) := by
  cases hk : m[k]? with
  | none =>
    rw [Option.map_none, List.find?_eq_none]
    rintro ⟨k', b⟩ hq hk'
    have hb := TreeMap.mem_toList_iff_getElem?_eq_some.1 ((h _).1 hq)
    obtain rfl : k' = k := of_decide_eq_true hk'
    rw [hk] at hb
    cases hb
  | some b =>
    refine find?_eq_some_of_unique ((h _).2 (TreeMap.mem_toList_iff_getElem?_eq_some.2 hk)) (by simp) ?_
    rintro ⟨k', b'⟩ hq hk'
    obtain rfl : k' = k := of_decide_eq_true hk'
    have hb := TreeMap.mem_toList_iff_getElem?_eq_some.1 ((h _).1 hq)
    rw [hk] at hb
    rw [Option.some.inj hb]

/-! ## First values and sums -/

/-- Of two values that are each the sum of a list both are zero. -/
theorem pairwise_zero_of_sum {f : β → ℤ} (h : ∀ b ∈ l, f b = (l.map f).sum) :
    l.Pairwise fun a b => f a = 0 ∧ f b = 0 := by
  rcases l with _ | ⟨a, _ | ⟨b, l⟩⟩
  · exact List.Pairwise.nil
  · exact List.pairwise_singleton _ _
  · set v := ((a :: b :: l).map f).sum with hv
    have hsum : v = (a :: b :: l).length * v := by
      have hrep : (a :: b :: l).map f = List.replicate (a :: b :: l).length v :=
        List.eq_replicate_iff.2 ⟨List.length_map _, fun x hx => by
          obtain ⟨c, hc, rfl⟩ := List.mem_map.1 hx
          exact h c hc⟩
      nth_rewrite 1 [hv]
      rw [hrep, List.sum_replicate, nsmul_eq_mul]
    have hzero : v = 0 := by
      have hlen : (l.length + 1) * v = 0 := by
        rw [List.length_cons, List.length_cons] at hsum
        push_cast at hsum
        linarith
      exact (mul_eq_zero.1 hlen).resolve_left (by omega)
    exact List.pairwise_of_forall_mem_list fun x hx y hy => ⟨(h x hx).trans hzero, (h y hy).trans hzero⟩

/-- Where of any two values both are zero, the first is the sum. -/
theorem head_eq_sum {f : β → ℤ} (h : l.Pairwise fun a b => f a = 0 ∧ f b = 0) :
    l.head?.elim 0 f = (l.map f).sum := by
  cases l with
  | nil => rfl
  | cons a l =>
    have hrest : (l.map f).sum = 0 := by
      apply List.sum_eq_zero
      intro x hx
      obtain ⟨b, hb, rfl⟩ := List.mem_map.1 hx
      exact ((List.pairwise_cons.1 h).1 b hb).2
    rw [List.map_cons, List.sum_cons, hrest, add_zero]
    rfl

/-- The first value is the sum, however the list is ordered. -/
theorem head_eq_sum_of_perm {l l' : List β} {f : β → ℤ} (hperm : l'.Perm l)
    (h : l.Pairwise fun a b => f a = 0 ∧ f b = 0) : l'.head?.elim 0 f = (l.map f).sum := by
  have h' : l'.Pairwise fun a b => f a = 0 ∧ f b = 0 :=
    (hperm.pairwise_iff fun hab => ⟨hab.2, hab.1⟩).2 h
  rw [head_eq_sum h', (hperm.map f).sum_eq]

/-- **The first value does not depend on the order** where of any two values both are zero. -/
theorem head_map_perm {l l' : List β} {f : β → ℤ} (hperm : l'.Perm l)
    (h : l.Pairwise fun a b => f a = 0 ∧ f b = 0) : l'.head?.map f = l.head?.map f := by
  have hsum : l'.head?.elim 0 f = l.head?.elim 0 f := by rw [head_eq_sum_of_perm hperm h, head_eq_sum h]
  cases l with
  | nil => rw [hperm.eq_nil]
  | cons a l =>
    cases l' with
    | nil => exact absurd hperm.symm.eq_nil (List.cons_ne_nil a l)
    | cons a' l' => exact congrArg some hsum

end Index
