import Mathlib.Tactic

/-!
# Walks over a buffer

`visit off` is what lies at offset `off`, and `next` says where the walk goes on from
there, if it does. `walk visit next size off` lists what a walk from `off` comes
across before offset `size`.

* `walk_of_lt`, `walk_of_ge`: one item at a time, for a walk that only goes forward.
* `walk_rec`: induction along a walk.
* `walk_congr`: two buffers with the same items on the way.
* `walk_eq_of_chain`: a walk over items that follow each other.
* `starts`: the offsets a walk comes across, and `map_starts`: its items are what lies there.
-/

namespace Walk

variable {ν : Type*} (visit : ℕ → ν) (next : ν → Option ℕ)

/-- At most `n` items. -/
def walkFor (size : ℕ) : ℕ → ℕ → List ν
  | 0, _ => []
  | n + 1, off =>
    if off < size then
      match next (visit off) with
      | some off' => visit off :: walkFor size n off'
      | none => [visit off]
    else
      []

/-- The items from `off` on. -/
def walk (size off : ℕ) : List ν := walkFor visit next size (size - off) off

/-- The next item is further on. -/
def Forward : Prop := ∀ off off', next (visit off) = some off' → off < off'

variable {visit next} {size off off' n m : ℕ}

/-- Any two bounds that reach the end of the buffer give the same walk. -/
theorem walkFor_enough (hf : Forward visit next) : ∀ n m off, size - off ≤ n → size - off ≤ m →
    walkFor visit next size n off = walkFor visit next size m off := by
  intro n
  induction n with
  | zero =>
    intro m off hn _
    cases m with
    | zero => rfl
    | succ m => rw [walkFor, walkFor, if_neg (by omega)]
  | succ n ih =>
    intro m off hn hm
    cases m with
    | zero => rw [walkFor, walkFor, if_neg (by omega)]
    | succ m =>
      rw [walkFor, walkFor]
      split
      · cases hnext : next (visit off) with
        | none => rfl
        | some off' =>
          -- the item is behind, so both bounds still reach the end
          have := hf off off' hnext
          have hn' : size - off' ≤ n := by omega
          have hm' : size - off' ≤ m := by omega
          simp only [ih m off' hn' hm']
      · rfl

theorem walk_of_ge (h : size ≤ off) : walk visit next size off = [] := by
  rw [walk, Nat.sub_eq_zero_of_le h, walkFor]

theorem walk_of_lt (hf : Forward visit next) (h : off < size) :
    walk visit next size off = visit off ::
      match next (visit off) with
      | some off' => walk visit next size off'
      | none => [] := by
  obtain ⟨n, hn⟩ : ∃ n, size - off = n + 1 := ⟨size - off - 1, by omega⟩
  rw [walk, hn, walkFor, if_pos h]
  cases hnext : next (visit off) with
  | none => rfl
  | some off' =>
    have := hf off off' hnext
    simp only [walk, walkFor_enough hf n (size - off') off' (by omega) le_rfl]

theorem walk_none (hf : Forward visit next) (h : off < size) (hnext : next (visit off) = none) :
    walk visit next size off = [visit off] := by
  rw [walk_of_lt hf h, hnext]

theorem walk_some (hf : Forward visit next) (h : off < size) (hnext : next (visit off) = some off') :
    walk visit next size off = visit off :: walk visit next size off' := by
  rw [walk_of_lt hf h, hnext]

/-- **Induction along a walk**: it is over, or ends here, or goes on. -/
theorem walk_rec (size : ℕ) {P : ℕ → Prop} (hf : Forward visit next)
    (done : ∀ off, size ≤ off → P off)
    (last : ∀ off, off < size → next (visit off) = none → P off)
    (more : ∀ off off', off < size → next (visit off) = some off' → P off' → P off) (off : ℕ) :
    P off := by
  induction hn : size - off using Nat.strong_induction_on generalizing off with
  | _ n ih =>
    rcases Nat.lt_or_ge off size with h | h
    · cases hnext : next (visit off) with
      | none => exact last off h hnext
      | some off' =>
        have := hf off off' hnext
        exact more off off' h hnext (ih (size - off') (by omega) off' rfl)
    · exact done off h

/-- **Two buffers with the same items on the way** are walked alike. -/
theorem walk_congr {visit' : ℕ → ν} (hf : Forward visit next) (hf' : Forward visit' next)
    {Q : ν → Prop} (hQ : ∀ off, Q (visit off) → visit' off = visit off) (off : ℕ)
    (h : ∀ v ∈ walk visit next size off, Q v) : walk visit' next size off = walk visit next size off := by
  induction off using walk_rec size hf with
  | done off hge => rw [walk_of_ge hge, walk_of_ge hge]
  | last off hlt hnext =>
    rw [walk_none hf hlt hnext] at h ⊢
    have heq := hQ off (h _ (List.mem_singleton_self _))
    have hnext' : next (visit' off) = none := by rw [heq]; exact hnext
    rw [walk_none hf' hlt hnext', heq]
  | more off off' hlt hnext ih =>
    rw [walk_some hf hlt hnext] at h ⊢
    have heq := hQ off (h _ List.mem_cons_self)
    have hrest := ih fun v hv => h v (List.mem_cons_of_mem _ hv)
    have hnext' : next (visit' off) = some off' := by rw [heq]; exact hnext
    rw [walk_some hf' hlt hnext', heq, hrest]

/-- Items that follow each other from `off` to `stop`. -/
def Chain (visit : ℕ → ν) (next : ν → Option ℕ) : List ν → ℕ → ℕ → Prop
  | [], off, stop => off = stop
  | v :: vs, off, stop => visit off = v ∧ ∃ off', next v = some off' ∧ Chain visit next vs off' stop

theorem Chain.le (hf : Forward visit next) {vs : List ν} {off stop : ℕ} (h : Chain visit next vs off stop) :
    off ≤ stop := by
  induction vs generalizing off with
  | nil => exact le_of_eq h
  | cons v vs ih =>
    obtain ⟨rfl, off', hnext, hrest⟩ := h
    exact (hf off off' hnext).le.trans (ih hrest)

/-- **A walk over a chain** that ends where the walk does finds its items. -/
theorem walk_eq_of_chain (hf : Forward visit next) {vs : List ν} (h : Chain visit next vs off size) :
    walk visit next size off = vs := by
  induction vs generalizing off with
  | nil => exact walk_of_ge (ge_of_eq h)
  | cons v vs ih =>
    obtain ⟨rfl, off', hnext, hrest⟩ := h
    -- there is an item, so the walk is not over
    have hstep := hf off off' hnext
    have hlt : off < size := lt_of_lt_of_le hstep (hrest.le hf)
    rw [walk_some hf hlt hnext, ih hrest]

/-! ## Where the items start -/

/-- The offsets of the items, by a walk over what lies at each offset and the offset itself. -/
def starts (visit : ℕ → ν) (next : ν → Option ℕ) (size off : ℕ) : List ℕ :=
  (walk (fun off => (off, visit off)) (fun v => next v.2) size off).map Prod.fst

theorem Forward.located (hf : Forward visit next) :
    Forward (fun off => (off, visit off)) fun v => next v.2 :=
  fun off off' h => hf off off' h

theorem starts_of_ge (h : size ≤ off) : starts visit next size off = [] := by
  rw [starts, walk_of_ge h, List.map_nil]

theorem starts_none (hf : Forward visit next) (h : off < size) (hnext : next (visit off) = none) :
    starts visit next size off = [off] := by
  rw [starts, walk_none hf.located h hnext, List.map_singleton]

theorem starts_some (hf : Forward visit next) (h : off < size) (hnext : next (visit off) = some off') :
    starts visit next size off = off :: starts visit next size off' := by
  rw [starts, walk_some hf.located h hnext, List.map_cons, starts]

/-- A walk that is not over starts where it is. -/
theorem starts_eq_cons (hf : Forward visit next) {o : ℕ} {os : List ℕ}
    (h : starts visit next size off = o :: os) : off = o ∧ off < size := by
  rcases Nat.lt_or_ge off size with hlt | hge
  · refine ⟨?_, hlt⟩
    cases hnext : next (visit off) with
    | none => rw [starts_none hf hlt hnext] at h; exact (List.cons.inj h).1
    | some off' => rw [starts_some hf hlt hnext] at h; exact (List.cons.inj h).1
  · rw [starts_of_ge hge] at h; cases h

/-- **The items of a walk** are what lies at the offsets it comes across. -/
theorem map_starts (hf : Forward visit next) (off : ℕ) :
    (starts visit next size off).map visit = walk visit next size off := by
  induction off using walk_rec size hf with
  | done off hge => rw [starts_of_ge hge, walk_of_ge hge, List.map_nil]
  | last off hlt hnext => rw [starts_none hf hlt hnext, walk_none hf hlt hnext, List.map_singleton]
  | more off off' hlt hnext ih => rw [starts_some hf hlt hnext, walk_some hf hlt hnext, List.map_cons, ih]

/-- What holds of every item holds at every offset. -/
theorem forall_mem_walk (hf : Forward visit next) {P : ν → Prop} :
    (∀ v ∈ walk visit next size off, P v) ↔ ∀ o ∈ starts visit next size off, P (visit o) := by
  rw [← map_starts hf, List.forall_mem_map]

end Walk
