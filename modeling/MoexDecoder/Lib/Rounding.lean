import Mathlib.Tactic

/-!
# Rounding to significant digits

`Nearest P m r`: of the numbers of at most `P` significant decimal digits `r` is the one
nearest to `m`, a tie going to the even one. `roundSig P n` computes it from the digits
of `n`.

* `Nearest.unique`: there is no other.
* `roundHalfEven_nearest`: the nearest multiple of a unit.
* `nearest_roundSig`: `roundSig` is the nearest.
-/

namespace Decimal

/-! ## Digits -/

/-- The number of decimal digits. -/
def numDigits (n : ℕ) : ℕ := (Nat.toDigits 10 n).length

variable {P n k u : ℕ}

theorem numDigits_pos (n : ℕ) : 0 < numDigits n := Nat.length_toDigits_pos

theorem numDigits_le_iff (hk : 0 < k) : numDigits n ≤ k ↔ n < 10 ^ k :=
  Nat.length_toDigits_le_iff (by decide) hk

theorem lt_pow_numDigits (n : ℕ) : n < 10 ^ numDigits n := (numDigits_le_iff (numDigits_pos n)).1 le_rfl

theorem pow_le_of_lt_numDigits (hk : 0 < k) (h : k < numDigits n) : 10 ^ k ≤ n := by
  by_contra hlt
  have := (numDigits_le_iff hk).2 (not_le.1 hlt)
  omega

/-! ## The nearest number -/

/-- A number of at most `P` significant digits. -/
def Significant (P : ℕ) (r : ℤ) : Prop := ∃ (a : ℤ) (k : ℕ), a.natAbs < 10 ^ P ∧ r = a * 10 ^ k

/-- `r` is the number of at most `P` significant digits that is nearest to `m`. Of two that are
as near, it is the one that is an even multiple of their distance. -/
structure Nearest (P : ℕ) (m r : ℤ) : Prop where
  significant : Significant P r
  nearest : ∀ s, Significant P s → (m - r).natAbs < (m - s).natAbs ∨
    (m - r).natAbs = (m - s).natAbs ∧ (s = r ∨ 2 * (r - s) ∣ r)

variable {m r s : ℤ}

/-- **There is one nearest number.** -/
theorem Nearest.unique (hr : Nearest P m r) (hs : Nearest P m s) : r = s := by
  have hrs := hr.nearest s hs.significant
  have hsr := hs.nearest r hr.significant
  by_contra hne
  -- both are even multiples of their distance, and so is the distance
  have hr2 : 2 * (r - s) ∣ r := by
    rcases hrs with hlt | ⟨-, h⟩
    · rcases hsr with hlt' | ⟨heq, -⟩ <;> omega
    · exact h.resolve_left fun h => hne h.symm
  have hs2 : 2 * (r - s) ∣ s := by
    rcases hsr with hlt | ⟨-, h⟩
    · rcases hrs with hlt' | ⟨heq, -⟩ <;> omega
    · rw [← neg_sub s r, mul_neg, neg_dvd]
      exact h.resolve_left hne
  obtain ⟨c, hc⟩ := dvd_sub hr2 hs2
  have hzero : (r - s) * (2 * c - 1) = 0 := by linarith
  rcases mul_eq_zero.1 hzero with h | h
  · exact hne (sub_eq_zero.1 h)
  · omega

theorem Significant.nearest_self (h : Significant P m) : Nearest P m m := by
  refine ⟨h, ?_⟩
  intro s _
  rcases eq_or_ne s m with rfl | hne
  · exact Or.inr ⟨rfl, Or.inl rfl⟩
  · left; omega

theorem Significant.neg (h : Significant P r) : Significant P (-r) := by
  obtain ⟨a, k, ha, rfl⟩ := h
  exact ⟨-a, k, by rwa [Int.natAbs_neg], by ring⟩

/-- Rounding does not look at the sign. -/
theorem Nearest.neg (h : Nearest P m r) : Nearest P (-m) (-r) := by
  refine ⟨h.significant.neg, ?_⟩
  intro s hs
  have hm : ∀ x : ℤ, (-m - x).natAbs = (m - -x).natAbs := by intro x; omega
  rw [hm, hm, neg_neg]
  rcases h.nearest (-s) hs.neg with hlt | ⟨heq, hdvd⟩
  · exact Or.inl hlt
  · refine Or.inr ⟨heq, ?_⟩
    rcases hdvd with rfl | hdvd
    · exact Or.inl (neg_neg s).symm
    · right
      rw [show 2 * (-r - s) = -(2 * (r - -s)) by ring, neg_dvd, dvd_neg]
      exact hdvd

/-! ## Rounding -/

/-- `n / u` to the nearest integer, ties to even. -/
def roundHalfEven (n u : ℕ) : ℕ :=
  if 2 * (n % u) < u ∨ 2 * (n % u) = u ∧ n / u % 2 = 0 then n / u else n / u + 1

/-- The place of the last of `P` significant digits. -/
def place (P n : ℕ) : ℕ := 10 ^ (numDigits n - P)

/-- `n` to `P` significant digits. -/
def roundSig (P n : ℕ) : ℕ := roundHalfEven n (place P n) * place P n

/-- The multiples of a unit from zero on, and those around them. -/
theorem multiple_cases (hu : 0 < u) (e : ℤ) :
    e ≤ -1 ∧ e * u ≤ -u ∨ e = 0 ∧ e * u = 0 ∨ e = 1 ∧ e * u = u ∨ 2 ≤ e ∧ 2 * (u : ℤ) ≤ e * u := by
  have hu' : (0 : ℤ) < u := by exact_mod_cast hu
  rcases lt_trichotomy e 0 with h | h | h
  · left; exact ⟨by omega, by nlinarith⟩
  · right; left; exact ⟨h, by rw [h, zero_mul]⟩
  · rcases eq_or_lt_of_le (show 1 ≤ e by omega) with h1 | h1
    · right; right; left; exact ⟨h1.symm, by rw [← h1, one_mul]⟩
    · right; right; right; exact ⟨by omega, by nlinarith⟩

/-- **The nearest multiple of a unit.** -/
theorem roundHalfEven_nearest (hu : 0 < u) (c : ℤ) :
    ((n : ℤ) - roundHalfEven n u * u).natAbs < ((n : ℤ) - c * u).natAbs ∨
      ((n : ℤ) - roundHalfEven n u * u).natAbs = ((n : ℤ) - c * u).natAbs ∧
        (c = roundHalfEven n u ∨ 2 * ((roundHalfEven n u : ℤ) - c) ∣ roundHalfEven n u) := by
  have hn : (n : ℤ) = (n / u : ℕ) * u + (n % u : ℕ) := by
    have := Nat.div_add_mod' n u
    exact_mod_cast this.symm
  have hmod := Nat.mod_lt n hu
  generalize hq : n / u = q at hn
  generalize hr : n % u = r at hn hmod
  -- how far the multiple is from `q * u`, in units
  obtain ⟨e, rfl⟩ : ∃ e : ℤ, c = q + e := ⟨c - q, by ring⟩
  have hfar : (n : ℤ) - (q + e) * u = r - e * u := by rw [hn]; ring
  have hcase := multiple_cases hu e
  unfold roundHalfEven
  rw [hq, hr, hfar]
  split
  · rename_i hdown
    have hnear : (n : ℤ) - (q : ℕ) * u = r := by rw [hn]; ring
    rw [hnear]
    rcases hcase with ⟨h, hx⟩ | ⟨h, hx⟩ | ⟨h, hx⟩ | ⟨h, hx⟩
    · left; omega
    · right; exact ⟨by omega, Or.inl (by omega)⟩
    · rcases hdown with hlt | ⟨htie, heven⟩
      · left; omega
      · right
        refine ⟨by omega, Or.inr ?_⟩
        rw [h, show 2 * ((q : ℤ) - (q + 1)) = -2 by ring, neg_dvd]
        omega
    · left; omega
  · rename_i hup
    have hnear : (n : ℤ) - ((q + 1 : ℕ) : ℤ) * u = r - u := by rw [hn]; push_cast; ring
    rw [hnear]
    rcases hcase with ⟨h, hx⟩ | ⟨h, hx⟩ | ⟨h, hx⟩ | ⟨h, hx⟩
    · left; omega
    · by_cases htie : 2 * r = u
      · right
        refine ⟨by omega, Or.inr ?_⟩
        rw [h, show 2 * (((q + 1 : ℕ) : ℤ) - (q + 0)) = 2 by push_cast; ring]
        omega
      · left; omega
    · right; exact ⟨by omega, Or.inl (by omega)⟩
    · left; omega

theorem place_pos (P n : ℕ) : 0 < place P n := Nat.pow_pos (by decide)

theorem roundHalfEven_le (hn : n < k * u) : roundHalfEven n u ≤ k := by
  have hq : n / u < k := Nat.div_lt_of_lt_mul (by rwa [Nat.mul_comm] at hn)
  unfold roundHalfEven
  split <;> omega

theorem significant_roundSig (hP : 0 < P) (n : ℕ) : Significant P (roundSig P n) := by
  have hone : 1 < 10 ^ P := Nat.one_lt_pow (by omega) (by decide)
  have hlt : n < 10 ^ P * place P n := by
    rw [place, ← pow_add]
    exact lt_of_lt_of_le (lt_pow_numDigits n) (Nat.pow_le_pow_right (by decide) (by omega))
  rcases Nat.eq_or_lt_of_le (roundHalfEven_le hlt) with heq | hless
  · -- the last digit carries over all others
    refine ⟨1, P + (numDigits n - P), hone, ?_⟩
    rw [roundSig, heq, place, pow_add]
    push_cast
    ring
  · exact ⟨roundHalfEven n (place P n), numDigits n - P, hless, by rw [roundSig, place]; push_cast; rfl⟩

/-- A number of few digits is not rounded. -/
theorem roundSig_eq_self (h : numDigits n ≤ P) : roundSig P n = n := by
  have hplace : place P n = 1 := by rw [place, Nat.sub_eq_zero_of_le h, pow_zero]
  simp [roundSig, hplace, roundHalfEven, Nat.mod_one]

/-- Significant numbers that are large are multiples of the place. -/
theorem Significant.dvd_place (hP : 0 < P) (h : P < numDigits n) (hs : Significant P s)
    (hle : (10 : ℤ) ^ (numDigits n - 1) ≤ s) : ∃ c : ℤ, s = c * place P n := by
  obtain ⟨a, k, ha, rfl⟩ := hs
  have hk : numDigits n - P ≤ k := by
    by_contra hlt
    have hpow : (10 : ℤ) ^ P * 10 ^ k ≤ 10 ^ (numDigits n - 1) := by
      rw [← pow_add]
      exact pow_le_pow_right₀ (by norm_num) (by omega)
    have ha' : a < 10 ^ P := by
      have : (a.natAbs : ℤ) < 10 ^ P := by exact_mod_cast ha
      omega
    have hsmall : a * 10 ^ k < 10 ^ P * 10 ^ k := mul_lt_mul_of_pos_right ha' (by positivity)
    exact absurd (hle.trans_lt hsmall) (not_lt.2 hpow)
  refine ⟨a * 10 ^ (k - (numDigits n - P)), ?_⟩
  rw [place, mul_assoc]
  push_cast
  rw [← pow_add, Nat.sub_add_cancel hk]

/-- **`roundSig` rounds to the nearest.** -/
theorem nearest_roundSig (hP : 0 < P) (n : ℕ) : Nearest P n (roundSig P n) := by
  refine ⟨significant_roundSig hP n, ?_⟩
  intro s hs
  rcases Nat.lt_or_ge P (numDigits n) with hlong | hshort
  · have hlead : ((10 : ℤ) ^ (numDigits n - 1)) ≤ n := by
      exact_mod_cast pow_le_of_lt_numDigits (by omega) (Nat.sub_lt (numDigits_pos n) one_pos)
    rw [roundSig, Nat.cast_mul]
    rcases lt_or_ge s (10 ^ (numDigits n - 1)) with hless | hge
    · -- smaller numbers are further away than the first of the length of `n`
      have hfirst := roundHalfEven_nearest (n := n) (place_pos P n) (10 ^ (P - 1))
      have hpow : (10 : ℤ) ^ (P - 1) * (place P n : ℕ) = 10 ^ (numDigits n - 1) := by
        rw [place]
        push_cast
        rw [← pow_add]
        congr 1
        omega
      rw [hpow] at hfirst
      left
      omega
    · obtain ⟨c, rfl⟩ := hs.dvd_place hP hlong hge
      rcases roundHalfEven_nearest (n := n) (place_pos P n) c with hlt | ⟨heq, htie⟩
      · exact Or.inl hlt
      · refine Or.inr ⟨heq, ?_⟩
        rcases htie with hc | hdvd
        · exact Or.inl (by rw [hc])
        · right
          rw [← sub_mul, ← mul_assoc]
          exact mul_dvd_mul_right hdvd _
  · -- it has no more than `P` digits itself
    have hsig := significant_roundSig hP n
    rw [roundSig_eq_self hshort] at hsig ⊢
    exact hsig.nearest_self.nearest s hs

/-- A number that is not zero does not become zero. -/
theorem roundSig_pos (hP : 0 < P) (hn : 0 < n) : 0 < roundSig P n := by
  have hle : place P n ≤ n := by
    rcases Nat.lt_or_ge P (numDigits n) with hlong | hshort
    · have hlead := pow_le_of_lt_numDigits (n := n) (k := numDigits n - P) (by omega) (by omega)
      exact hlead
    · rw [place, Nat.sub_eq_zero_of_le hshort, pow_zero]
      exact hn
  have hq : 0 < n / place P n := Nat.div_pos hle (place_pos P n)
  have ha : 0 < roundHalfEven n (place P n) := by
    unfold roundHalfEven
    split <;> omega
  exact Nat.mul_pos ha (place_pos P n)

end Decimal
