import Mathlib.Data.List.DropRight
import MoexDecoder.Lib.Blocks
import MoexDecoder.Lib.Rounding

/-!
# Decimal numerals

`printG P scale m` is the text that `printf` gives of `m / 10 ^ scale` for `%g` with `P`
significant digits: the number is rounded, and written in fixed notation or, where its
exponent is below `-4` or not below `P`, in scientific notation, without the zeros a
fraction ends in.

* `fixed_inj`, `general_inj`: a text is that of one number.
* `printF_append_inj`: so is the text that `%f` gives, with all of its `scale` digits.
* `printG_eq_iff`: two numbers have one text exactly when one number of `P` digits is the
  nearest to both.
-/

namespace Decimal

open Blocks

variable {P scale n n' : ℕ}

/-! ## Digits of a numeral -/

theorem isDigit_of_mem {c : Char} (h : c ∈ Nat.toDigits 10 n) : c.isDigit :=
  Nat.isDigit_of_mem_toDigits (by decide) (by decide) h

theorem toDigits_inj (h : Nat.toDigits 10 n = Nat.toDigits 10 n') : n = n' := by
  have := congrArg (fun l => Nat.ofDigitChars 10 l 0) h
  simpa using this

/-- The digits of `n`, `width` of them or more. -/
def pad (width n : ℕ) : List Char := (Nat.toDigits 10 n).leftpad width '0'

theorem isDigit_of_mem_pad {c : Char} (h : c ∈ pad scale n) : c.isDigit := by
  rcases List.mem_append.1 h with h | h
  · rw [List.eq_of_mem_replicate h]; rfl
  · exact isDigit_of_mem h

theorem pad_inj (h : pad scale n = pad scale n') : n = n' := by
  have hval : ∀ n, Nat.ofDigitChars 10 (pad scale n) 0 = n := by
    intro n
    rw [pad, List.leftpad, Nat.ofDigitChars_append]
    simp
  rw [← hval n, h, hval]

theorem pad_length (hn : n < 10 ^ scale) : (pad scale n).length = max scale 1 := by
  have hpos := numDigits_pos n
  rw [pad, List.length_leftpad]
  change max scale (numDigits n) = max scale 1
  rcases Nat.eq_zero_or_pos scale with rfl | hs
  · have hzero : n = 0 := by simpa using hn
    rw [hzero]; rfl
  · have := (numDigits_le_iff hs).2 hn
    omega

/-- The digits behind the point, `scale` of them without the zeros they end in. -/
def fraction (scale n : ℕ) : List Char := (pad scale n).rdropWhile (· = '0')

theorem isDigit_of_mem_fraction {c : Char} (h : c ∈ fraction scale n) : c.isDigit :=
  isDigit_of_mem_pad ((List.rdropWhile_prefix _ _).subset h)

/-- The zeros that were dropped. -/
theorem pad_eq_fraction (hn : n < 10 ^ scale) :
    pad scale n = fraction scale n ++ List.replicate (max scale 1 - (fraction scale n).length) '0' := by
  have hsplit : fraction scale n ++ (pad scale n).rtakeWhile (· = '0') = pad scale n :=
    List.rdropWhile_append_rtakeWhile
  have hzeros : (pad scale n).rtakeWhile (· = '0') =
      List.replicate ((pad scale n).rtakeWhile (· = '0')).length '0' :=
    List.eq_replicate_of_mem fun c hc => by simpa using List.mem_rtakeWhile_imp hc
  have hlen := congrArg List.length hsplit
  rw [List.length_append, pad_length hn] at hlen
  have hcount : ((pad scale n).rtakeWhile (· = '0')).length = max scale 1 - (fraction scale n).length := by omega
  rw [← hcount, ← hzeros, hsplit]

theorem fraction_inj (hn : n < 10 ^ scale) (hn' : n' < 10 ^ scale) (h : fraction scale n = fraction scale n') :
    n = n' := by
  have hpad : pad scale n = pad scale n' := by rw [pad_eq_fraction hn, pad_eq_fraction hn', h]
  exact pad_inj hpad

/-! ## Fixed notation -/

/-- The point and what is behind it, if there is anything. -/
def point (l : List Char) : List Char := if l = [] then [] else '.' :: l

theorem point_inj {l l' : List Char} (h : point l = point l') : l = l' := by
  unfold point at h
  split at h <;> split at h <;> simp_all

/-- `n / 10 ^ scale` in fixed notation. -/
def fixed (scale n : ℕ) : List Char := Nat.toDigits 10 (n / 10 ^ scale) ++ point (fraction scale (n % 10 ^ scale))

theorem fixed_inj (h : fixed scale n = fixed scale n') : n = n' := by
  have hpow : 0 < 10 ^ scale := Nat.pow_pos (by decide)
  have hpoint : ∀ l : List Char, ∀ c ∈ (point l).head?, c.isDigit = false := by
    intro l c hc
    unfold point at hc
    split at hc
    · cases hc
    · cases hc; rfl
  obtain ⟨hint, hfrac⟩ := append_inj_of_stop (p := Char.isDigit) (fun _ => isDigit_of_mem)
    (fun _ => isDigit_of_mem) (hpoint _) (hpoint _) h
  have hdiv := toDigits_inj hint
  have hmod := fraction_inj (Nat.mod_lt n hpow) (Nat.mod_lt n' hpow) (point_inj hfrac)
  rw [← Nat.div_add_mod n (10 ^ scale), hdiv, hmod, Nat.div_add_mod]

theorem mem_fixed {c : Char} (h : c ∈ fixed scale n) : c.isDigit ∨ c = '.' := by
  rcases List.mem_append.1 h with h | h
  · exact Or.inl (isDigit_of_mem h)
  · unfold point at h
    split at h
    · cases h
    · rcases List.mem_cons.1 h with rfl | h
      · exact Or.inr rfl
      · exact Or.inl (isDigit_of_mem_fraction h)

/-- A numeral starts with a digit. -/
theorem fixed_head (scale n : ℕ) : ∃ c t, fixed scale n = c :: t ∧ c.isDigit := by
  obtain ⟨c, t, hd⟩ := List.exists_cons_of_ne_nil (Nat.toDigits_ne_nil (n := n / 10 ^ scale) (b := 10))
  exact ⟨c, _, by rw [fixed, hd]; rfl, isDigit_of_mem (by rw [hd]; exact List.mem_cons_self)⟩

/-! ## General notation -/

/-- The exponent of scientific notation: its sign, and two digits or more. -/
def exponent (x : ℤ) : List Char := (if x < 0 then '-' else '+') :: pad 2 x.natAbs

theorem exponent_inj {x x' : ℤ} (h : exponent x = exponent x') : x = x' := by
  obtain ⟨hsign, hdigits⟩ := List.cons.inj h
  have habs := pad_inj hdigits
  split at hsign <;> split at hsign <;> first | omega | simp at hsign

/-- `n / 10 ^ scale` in the notation that `%g` picks for a precision of `P`. -/
def general (P scale n : ℕ) : List Char :=
  let x : ℤ := numDigits n - 1 - scale
  if n = 0 ∨ -4 ≤ x ∧ x < P then fixed scale n else fixed (numDigits n - 1) n ++ 'e' :: exponent x

theorem e_not_mem_fixed (scale n : ℕ) : 'e' ∉ fixed scale n := by
  intro h
  rcases mem_fixed h with h | h <;> simp at h

/-- **A text is that of one number.** -/
theorem general_inj (h : general P scale n = general P scale n') : n = n' := by
  have hmark : ∀ scale n t, 'e' ∈ fixed scale n ++ 'e' :: t := by simp
  unfold general at h
  simp only at h
  split at h <;> split at h
  · exact fixed_inj h
  · exact absurd (by rw [h]; exact hmark _ _ _) (e_not_mem_fixed scale n)
  · exact absurd (by rw [← h]; exact hmark _ _ _) (e_not_mem_fixed scale n')
  · -- the exponent says how many digits there are
    have hstop : ∀ {scale n : ℕ}, ∀ c ∈ fixed scale n, (c != 'e') = true := by
      intro scale n c hc
      rw [bne_iff_ne]
      rintro rfl
      exact e_not_mem_fixed _ _ hc
    obtain ⟨hfixed, hexp⟩ := append_inj_of_stop (p := (· != 'e')) hstop hstop (by simp) (by simp) h
    have hx := exponent_inj (List.cons.inj hexp).2
    have hdigits : numDigits n = numDigits n' := by omega
    rw [hdigits] at hfixed
    exact fixed_inj hfixed

theorem general_zero (P scale : ℕ) : general P scale 0 = ['0'] := by
  have hpad : fraction scale 0 = [] := by simp [fraction, pad, List.leftpad, List.rdropWhile_eq_nil_iff]
  simp [general, fixed, point, hpad]

theorem general_head (P scale n : ℕ) : ∃ c t, general P scale n = c :: t ∧ c.isDigit := by
  unfold general
  simp only
  split
  · exact fixed_head scale n
  · obtain ⟨c, t, h, hc⟩ := fixed_head (numDigits n - 1) n
    exact ⟨c, _, by rw [h]; rfl, hc⟩

theorem mem_exponent {c : Char} {x : ℤ} (h : c ∈ exponent x) : c.isDigit ∨ c ∈ ['-', '+'] := by
  rcases List.mem_cons.1 h with rfl | h
  · right
    split <;> simp
  · exact Or.inl (isDigit_of_mem_pad h)

theorem mem_general {c : Char} (h : c ∈ general P scale n) : c.isDigit ∨ c ∈ ['-', '+', '.', 'e'] := by
  have hfixed : ∀ {scale n}, c ∈ fixed scale n → c.isDigit ∨ c ∈ ['-', '+', '.', 'e'] := by
    intro scale n hc
    rcases mem_fixed hc with hc | rfl
    · exact Or.inl hc
    · simp
  unfold general at h
  simp only at h
  split at h
  · exact hfixed h
  · rcases List.mem_append.1 h with h | h
    · exact hfixed h
    · rcases List.mem_cons.1 h with rfl | h
      · simp
      · exact (mem_exponent h).imp_right (List.mem_append_left ['.', 'e'])

/-! ## The text of a number -/

/-- `%g` of `m / 10 ^ scale`, with `P` significant digits. -/
def printG (P scale : ℕ) (m : ℤ) : String :=
  String.ofList ((if m < 0 then ['-'] else []) ++ general P scale (roundSig P m.natAbs))

theorem mem_printG {c : Char} {m : ℤ} (h : c ∈ (printG P scale m).toList) :
    c.isDigit ∨ c ∈ ['-', '+', '.', 'e'] := by
  rw [printG, String.toList_ofList] at h
  rcases List.mem_append.1 h with h | h
  · split at h
    · rw [List.mem_singleton.1 h]; simp
    · cases h
  · exact mem_general h

/-- `m` to `P` significant digits. -/
def roundInt (P : ℕ) (m : ℤ) : ℤ := if m < 0 then -roundSig P m.natAbs else roundSig P m.natAbs

theorem nearest_roundInt (hP : 0 < P) (m : ℤ) : Nearest P m (roundInt P m) := by
  have hnear := nearest_roundSig hP m.natAbs
  unfold roundInt
  split
  · rename_i hneg
    have hm : m = -(m.natAbs : ℤ) := by omega
    have := hnear.neg
    rwa [← hm] at this
  · rename_i hpos
    have hm : (m.natAbs : ℤ) = m := by omega
    rwa [hm] at hnear

/-- The text of a number is that of the nearest of `P` digits. -/
theorem printG_eq_iff_roundInt (hP : 0 < P) (scale : ℕ) (m m' : ℤ) :
    printG P scale m = printG P scale m' ↔ roundInt P m = roundInt P m' := by
  have hpos : ∀ m : ℤ, m < 0 → 0 < roundSig P m.natAbs := fun m hm => roundSig_pos hP (by omega)
  have hsign : ∀ n n', ['-'] ++ general P scale n ≠ general P scale n' := by
    intro n n' h
    obtain ⟨c, t, hc, hdigit⟩ := general_head P scale n'
    rw [hc] at h
    rw [← (List.cons.inj h).1] at hdigit
    simp at hdigit
  unfold printG roundInt
  rw [String.ofList_inj]
  by_cases hm : m < 0 <;> by_cases hm' : m' < 0
  · simp only [hm, hm', if_true, List.append_cancel_left_eq, neg_inj, Nat.cast_inj]
    exact ⟨general_inj, congrArg _⟩
  · have h1 := hpos m hm
    simp only [hm, hm', if_true, if_false, List.nil_append]
    exact ⟨fun h => absurd h (hsign _ _), fun h => by omega⟩
  · have h1 := hpos m' hm'
    simp only [hm, hm', if_true, if_false, List.nil_append]
    exact ⟨fun h => absurd h.symm (hsign _ _), fun h => by omega⟩
  · simp only [hm, hm', if_false, List.nil_append, Nat.cast_inj]
    exact ⟨general_inj, congrArg _⟩

/-- **Two numbers have one text** exactly when one number of `P` digits is nearest to both. -/
theorem printG_eq_iff (hP : 0 < P) (scale : ℕ) (m m' : ℤ) :
    printG P scale m = printG P scale m' ↔ ∃ r, Nearest P m r ∧ Nearest P m' r := by
  have hm := nearest_roundInt hP m
  have hm' := nearest_roundInt hP m'
  rw [printG_eq_iff_roundInt hP]
  constructor
  · intro h
    exact ⟨_, hm, by rw [h]; exact hm'⟩
  · rintro ⟨r, hr, hr'⟩
    rw [hm.unique hr, hm'.unique hr']

/-! ## With all digits -/

/-- `%f` of `m / 10 ^ scale`, with `scale` digits behind the point. -/
def printF (scale : ℕ) (m : ℤ) : String :=
  String.ofList ((if m < 0 then ['-'] else []) ++
    (Nat.toDigits 10 (m.natAbs / 10 ^ scale) ++ '.' :: pad scale (m.natAbs % 10 ^ scale)))

theorem mem_printF {c : Char} {m : ℤ} (h : c ∈ (printF scale m).toList) : c.isDigit ∨ c ∈ ['-', '.'] := by
  rw [printF, String.toList_ofList] at h
  rcases List.mem_append.1 h with h | h
  · split at h
    · rw [List.mem_singleton.1 h]; simp
    · cases h
  · rcases List.mem_append.1 h with h | h
    · exact Or.inl (isDigit_of_mem h)
    · rcases List.mem_cons.1 h with rfl | h
      · simp
      · exact Or.inl (isDigit_of_mem_pad h)

/-- **The text says the number**, also where other digits follow it. -/
theorem printF_append_inj {m m' : ℤ} {t t' : List Char}
    (h : (printF scale m).toList ++ t = (printF scale m').toList ++ t') : m = m' ∧ t = t' := by
  have hpow : 0 < 10 ^ scale := Nat.pow_pos (by decide)
  have hstart : ∀ (n : ℕ) (t : List Char), ∀ c ∈ (Nat.toDigits 10 n ++ t).head?, c ≠ '-' := by
    intro n t c hc
    obtain ⟨d, ds, hd⟩ := List.exists_cons_of_ne_nil (Nat.toDigits_ne_nil (n := n) (b := 10))
    rw [hd] at hc
    have hdigit := isDigit_of_mem (n := n) (c := d) (by rw [hd]; exact List.mem_cons_self)
    cases hc
    rintro rfl
    simp at hdigit
  -- behind the sign: the digits before the point, and as many behind it as there are
  have hnat : ∀ n n' : ℕ, (Nat.toDigits 10 (n / 10 ^ scale) ++ '.' :: pad scale (n % 10 ^ scale)) ++ t =
      (Nat.toDigits 10 (n' / 10 ^ scale) ++ '.' :: pad scale (n' % 10 ^ scale)) ++ t' → n = n' ∧ t = t' := by
    intro n n' hn
    rw [List.append_assoc, List.append_assoc] at hn
    obtain ⟨hint, hrest⟩ := append_inj_of_stop (p := Char.isDigit) (fun _ => isDigit_of_mem)
      (fun _ => isDigit_of_mem) (by simp) (by simp) hn
    have hlen : (pad scale (n % 10 ^ scale)).length = (pad scale (n' % 10 ^ scale)).length := by
      rw [pad_length (Nat.mod_lt n hpow), pad_length (Nat.mod_lt n' hpow)]
    obtain ⟨hfrac, ht⟩ := List.append_inj (List.cons.inj hrest).2 hlen
    have hdiv := toDigits_inj hint
    have hmod := pad_inj hfrac
    refine ⟨?_, ht⟩
    rw [← Nat.div_add_mod n (10 ^ scale), hdiv, hmod, Nat.div_add_mod]
  simp only [printF, String.toList_ofList] at h
  by_cases hm : m < 0 <;> by_cases hm' : m' < 0
  · simp only [hm, hm', if_true, List.cons_append, List.nil_append, List.cons.injEq, true_and] at h
    obtain ⟨habs, ht⟩ := hnat _ _ h
    exact ⟨by omega, ht⟩
  · simp only [hm, hm', if_true, if_false, List.cons_append, List.nil_append, List.append_assoc] at h
    exact absurd rfl (hstart _ _ '-' (by rw [← h]; rfl))
  · simp only [hm, hm', if_true, if_false, List.cons_append, List.nil_append, List.append_assoc] at h
    exact absurd rfl (hstart _ _ '-' (by rw [h]; rfl))
  · simp only [hm, hm', if_false, List.nil_append] at h
    obtain ⟨habs, ht⟩ := hnat _ _ h
    exact ⟨by omega, ht⟩

end Decimal
