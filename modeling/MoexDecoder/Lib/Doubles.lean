import MoexDecoder.Lib.Decimal

/-!
# The text of a double

A `double` is a number of binary64, as `Float.Model` has it. `text P x` is what `printf`
gives of it for `%g` with `P` significant digits: the text of the number that it is, with
all of its binary digits, or a word.

* `text_eq_iff`: two doubles have one text exactly when they are the same word or zero, or
  one number of `P` digits is the nearest to both.
* `div_ne_nan`: a number divided by one that is not zero is a number.
-/

namespace Doubles

open Float.Model

variable {P : ℕ} {x y : UnpackedFloat}

/-- `± m * 2 ^ e` in units of `10 ^ -1074`. No exponent of binary64 is below `-1074`. -/
def units (s : UnpackedFloat.Sign) (m : ℕ) (e : ℤ) : ℤ :=
  s.apply (m * 2 ^ (e + 1074).toNat * 5 ^ 1074 : ℕ)

/-- `%g` of a number that is unpacked. -/
def textOf (P : ℕ) : UnpackedFloat → String
  | .notANumber => "nan"
  | .infinity .positive => "inf"
  | .infinity .negative => "-inf"
  | .zero .positive => "0"
  | .zero .negative => "-0"
  | .finite s m e _ => Decimal.printG P 1074 (units s m e)

/-- `%g` of a `double`, with `P` significant digits. -/
def text (P : ℕ) (x : Float.Model) : String := textOf P x.unpack

/-- They are the same word or zero, or one number of `P` digits is the nearest to both. -/
def Same (P : ℕ) : UnpackedFloat → UnpackedFloat → Prop
  | .notANumber, .notANumber => True
  | .infinity s, .infinity s' | .zero s, .zero s' => s = s'
  | .finite s m e _, .finite s' m' e' _ =>
    ∃ r, Decimal.Nearest P (units s m e) r ∧ Decimal.Nearest P (units s' m' e') r
  | _, _ => False

/-! ## When two doubles have one text -/

theorem units_ne_zero {s : UnpackedFloat.Sign} {m : ℕ} (hm : 0 < m) (e : ℤ) : units s m e ≠ 0 := by
  have hpos : 0 < m * 2 ^ (e + 1074).toNat * 5 ^ 1074 := by positivity
  unfold units
  generalize m * 2 ^ (e + 1074).toNat * 5 ^ 1074 = n at hpos
  cases s <;> simp only [UnpackedFloat.Sign.apply] <;> omega

theorem textOf_words (P : ℕ) :
    textOf P .notANumber = "nan" ∧
      textOf P (.infinity .positive) = "inf" ∧ textOf P (.infinity .negative) = "-inf" ∧
      textOf P (.zero .positive) = "0" ∧ textOf P (.zero .negative) = "-0" :=
  ⟨rfl, rfl, rfl, rfl, rfl⟩

/-- The texts of the doubles that are not numbers, or zero. -/
def words : List String := ["nan", "inf", "-inf", "0", "-0"]

/-- **The text of a number is none of them.** -/
theorem printG_not_mem_words (hP : 0 < P) (scale : ℕ) {m : ℤ} (hm : m ≠ 0) : Decimal.printG P scale m ∉ words := by
  have hletter : 'n' ∉ (Decimal.printG P scale m).toList := by
    intro hmem
    rcases Decimal.mem_printG hmem with hdigit | hmark
    · simp at hdigit
    · simp at hmark
  -- it does not round to zero, and the text of zero is one digit
  have hround : Decimal.general P scale (Decimal.roundSig P m.natAbs) ≠ ['0'] := by
    have hpos : 0 < Decimal.roundSig P m.natAbs := Decimal.roundSig_pos hP (by omega)
    rw [← Decimal.general_zero P scale]
    exact fun h => hpos.ne' (Decimal.general_inj h)
  obtain ⟨c, t, hc, hdigit⟩ := Decimal.general_head P scale (Decimal.roundSig P m.natAbs)
  have hminus : c ≠ '-' := by
    rintro rfl
    simp at hdigit
  have hzero : ∀ s, s ∈ ["0", "-0"] → Decimal.printG P scale m ≠ s := by
    intro s hs h
    have hlist := congrArg String.toList h
    rw [Decimal.printG, String.toList_ofList, hc] at hlist
    rw [hc] at hround
    simp only [List.mem_cons, List.not_mem_nil, or_false] at hs
    rcases hs with rfl | rfl <;> split at hlist <;> simp_all
  intro hword
  simp only [words, List.mem_cons, List.not_mem_nil, or_false] at hword
  rcases hword with h | h | h | h | h
  · exact hletter (by rw [h]; decide)
  · exact hletter (by rw [h]; decide)
  · exact hletter (by rw [h]; decide)
  · exact hzero "0" (by simp) h
  · exact hzero "-0" (by simp) h

theorem textOf_finite_not_mem_words (hP : 0 < P) {s : UnpackedFloat.Sign} {m : ℕ} {e : ℤ} (hm : 0 < m) :
    textOf P (.finite s m e hm) ∉ words :=
  printG_not_mem_words hP 1074 (units_ne_zero hm e)

theorem textOf_eq_iff (hP : 0 < P) : textOf P x = textOf P y ↔ Same P x y := by
  have hword : ∀ {s m e} {hm : 0 < m} {t}, t ∈ words → textOf P (.finite s m e hm) ≠ t := by
    rintro s m e hm t ht rfl
    exact textOf_finite_not_mem_words hP hm ht
  cases x with
  | finite s m e hm =>
    cases y with
    | finite s' m' e' hm' => exact Decimal.printG_eq_iff hP 1074 _ _
    | notANumber => exact iff_of_false (hword (by simp [words, textOf_words])) id
    | infinity s' | zero s' => cases s' <;> exact iff_of_false (hword (by simp [words, textOf_words])) id
  | notANumber =>
    cases y with
    | finite s' m' e' hm' => exact iff_of_false (hword (by simp [words, textOf_words])).symm id
    | notANumber => exact iff_of_true rfl trivial
    | infinity s' | zero s' => cases s' <;> exact iff_of_false (by simp [textOf_words]) id
  | infinity s | zero s =>
    cases y with
    | finite s' m' e' hm' => cases s <;> exact iff_of_false (hword (by simp [words, textOf_words])).symm id
    | notANumber => cases s <;> exact iff_of_false (by simp [textOf_words]) id
    | infinity s' | zero s' =>
      cases s <;> cases s' <;>
        first | exact iff_of_true rfl rfl | exact iff_of_false (by simp [textOf_words]) (by rintro ⟨⟩)

/-- **When two doubles have one text.** -/
theorem text_eq_iff (hP : 0 < P) (x y : Float.Model) : text P x = text P y ↔ Same P x.unpack y.unpack :=
  textOf_eq_iff hP

theorem words_chars : ∀ t ∈ words, ∀ c ∈ t.toList, c.isDigit ∨ c ∈ ['-', '+', '.', 'e', 'n', 'a', 'i', 'f'] := by
  simp [words]

/-- The characters of a text. -/
theorem mem_text {c : Char} {x : Float.Model} (h : c ∈ (text P x).toList) :
    c.isDigit ∨ c ∈ ['-', '+', '.', 'e', 'n', 'a', 'i', 'f'] := by
  unfold text at h
  cases hx : x.unpack with
  | finite s m e hm =>
    rw [hx] at h
    exact (Decimal.mem_printG h).imp_right fun hmark => List.mem_append_left ['n', 'a', 'i', 'f'] hmark
  | notANumber => exact words_chars _ (by rw [hx]; simp [words, textOf_words]) c h
  | infinity s | zero s => cases s <;> exact words_chars _ (by rw [hx]; simp [words, textOf_words]) c h

theorem text_eq_nan {x : Float.Model} (hP : 0 < P) : text P x = "nan" ↔ x.unpack = .notANumber := by
  have hnan : textOf P x.unpack = textOf P .notANumber ↔ Same P x.unpack .notANumber := textOf_eq_iff hP
  rw [text, show ("nan" : String) = textOf P .notANumber from rfl, hnan]
  cases x.unpack with
  | notANumber => exact iff_of_true trivial rfl
  | infinity s | zero s | finite s m e hm => exact iff_of_false id (by rintro ⟨⟩)

/-! ## Quotients -/

variable {spec : Format}

/-- The bits of what is no number. -/
theorem bits_of_nan {b : BitVec spec.numBits} (h : UnpackedFloat.unpack spec b = .notANumber) :
    UnpackedFloat.unpackExponent b = -1#_ ∧ UnpackedFloat.unpackMantissa b ≠ 0#_ := by
  unfold UnpackedFloat.unpack at h
  dsimp only at h
  by_cases he : UnpackedFloat.unpackExponent b = -1#_
  · refine ⟨he, fun hm => ?_⟩
    rw [if_pos he, if_pos hm] at h
    cases h
  · rw [if_neg he] at h
    by_cases hzero : UnpackedFloat.unpackExponent b = 0#_
    · rw [if_pos hzero, dite_eq_iff] at h
      rcases h with ⟨_, h⟩ | ⟨_, h⟩ <;> cases h
    · rw [if_neg hzero] at h
      cases h

open UnpackedFloat in
/-- What is packed is unpacked as a number, if it was one. -/
theorem unpack_pack_ne_nan (hx : x ≠ .notANumber) : unpack spec (UnpackedFloat.pack spec x) ≠ .notANumber := by
  have hinfinity : ∀ s, unpack spec (packedInfinity spec s) ≠ .notANumber := by
    intro s h
    exact (bits_of_nan h).2 (by simp [packedInfinity])
  have hexponent : ∀ s (e : BitVec spec.exponentBits) m, e ≠ -1#_ →
      unpack spec (packComponents spec s e m) ≠ .notANumber := by
    intro s e m he h
    have hbits := (bits_of_nan h).1
    rw [unpackExponent_packComponents] at hbits
    exact he hbits
  have hzero : (0 : BitVec spec.exponentBits) ≠ -1#_ := by
    simp [Nat.pos_iff_ne_zero.1 spec.he]
  cases x with
  | notANumber => exact absurd rfl hx
  | infinity s => exact hinfinity s
  | zero s => exact hexponent s _ _ hzero
  | finite s m e hm =>
    unfold UnpackedFloat.pack
    dsimp only
    generalize (e + spec.exponentBias + spec.mantissaBitsWithoutImplicit).toNat = biased
    split
    · exact hinfinity s
    · split
      · -- the exponent is not the one of the words
        refine hexponent s _ _ ?_
        rw [ne_eq, ← BitVec.toNat_inj, BitVec.toNat_ofNat, BitVec.neg_one_eq_allOnes, BitVec.toNat_allOnes,
          Nat.mod_eq_of_lt (by omega)]
        omega
      · exact hexponent s _ _ hzero

theorem roundWithAccuracy_ne_nan (s : UnpackedFloat.Sign) (m : ℕ) (e : ℤ) (a : UnpackedFloat.Accuracy) :
    UnpackedFloat.roundWithAccuracy spec s m e a ≠ .notANumber := by
  unfold UnpackedFloat.roundWithAccuracy
  dsimp only
  rw [ne_eq, dite_eq_iff]
  rintro (⟨_, h⟩ | ⟨_, h⟩) <;> cases h

/-- The `double` of an integer is a number. -/
theorem ofInt64_ne_nan (n : Int64) : (Float.Model.ofInt64 n).unpack ≠ .notANumber := by
  refine unpack_pack_ne_nan ?_
  unfold UnpackedFloat.ofInt64 UnpackedFloat.ofInt UnpackedFloat.normalize
  split
  · exact roundWithAccuracy_ne_nan _ _ _ _
  · simp
  · exact roundWithAccuracy_ne_nan _ _ _ _

/-- **A quotient is a number**, if what is divided is one and the divisor is finite and not zero. -/
theorem div_ne_nan {a b : Float.Model} (ha : a.unpack ≠ .notANumber)
    (hb : ∃ s m e hm, b.unpack = .finite s m e hm) : (a / b).unpack ≠ .notANumber := by
  obtain ⟨s, m, e, hm, hb⟩ := hb
  refine unpack_pack_ne_nan ?_
  rw [hb]
  cases h : a.unpack with
  | notANumber => exact absurd h ha
  | infinity s' | zero s' => rintro ⟨⟩
  | finite s' m' e' hm' => exact roundWithAccuracy_ne_nan _ _ _ _

end Doubles
