import EntityStore.Binary64.Basic
import EntityStore.Proofs.Text.Digits
import Mathlib.Tactic.Ring

/-! # Rounding

`roundRatio` rounds a quotient, not a pair of numbers: equal quotients round alike
(`roundRatio_eq_of_cross`).  It starts from an estimate of the exponent that does depend on the
pair; `scaleOf_eq_iff` says which exponent it ends at, in terms of the quotient alone.

The absolute value of a double rounds to the double (`roundRatio_ratio`), and a decimal to the same
double however many zeros are moved from its digits into its exponent (`ofDecimal?_mul_pow`). -/

namespace EntityStore.Binary64

/-! ### Quotients at an exponent -/

/-- The integer part of `num / den / 2 ^ e`. -/
def quotientAt (num den : Nat) (e : Int) : Nat :=
  if 0 ≤ e then num / (den * Nat.pow 2 e.toNat) else num * Nat.pow 2 (-e).toNat / den

/-- The quotient `num / den / 2 ^ e`, rounded to an integer. -/
def roundedAt (num den : Nat) (e : Int) : Nat :=
  if 0 ≤ e then divNearestEven num (den * Nat.pow 2 e.toNat)
  else divNearestEven (num * Nat.pow 2 (-e).toNat) den

theorem two_pow_pos (k : Nat) : 0 < Nat.pow 2 k := Nat.pow_pos (by decide)

theorem quotientAt_mul {c : Nat} (hc : 0 < c) (num den : Nat) (e : Int) :
    quotientAt (num * c) (den * c) e = quotientAt num den e := by
  unfold quotientAt
  split
  · rw [Nat.mul_right_comm den c, Nat.mul_div_mul_right _ _ hc]
  · rw [Nat.mul_right_comm num c, Nat.mul_div_mul_right _ _ hc]

theorem divNearestEven_mul {c : Nat} (hc : 0 < c) (num den : Nat) :
    divNearestEven (num * c) (den * c) = divNearestEven num den := by
  have hlt : 2 * (num % den * c) < den * c ↔ 2 * (num % den) < den := by
    rw [← Nat.mul_assoc, Nat.mul_lt_mul_right hc]
  have heq : 2 * (num % den * c) = den * c ↔ 2 * (num % den) = den := by
    rw [← Nat.mul_assoc, Nat.mul_left_inj (by omega)]
  simp only [divNearestEven, Nat.mul_div_mul_right _ _ hc, Nat.mul_mod_mul_right, hlt, heq]

theorem roundedAt_mul {c : Nat} (hc : 0 < c) (num den : Nat) (e : Int) :
    roundedAt (num * c) (den * c) e = roundedAt num den e := by
  unfold roundedAt
  split
  · rw [Nat.mul_right_comm den c, divNearestEven_mul hc]
  · rw [Nat.mul_right_comm num c, divNearestEven_mul hc]

theorem quotientAt_succ (num den : Nat) (e : Int) :
    quotientAt num den (e + 1) = quotientAt num den e / 2 := by
  unfold quotientAt
  rcases Int.lt_trichotomy e (-1) with h | rfl | h
  · obtain ⟨k, hk⟩ : ∃ k : Nat, e = -(k + 2 : Nat) := ⟨(-e).toNat - 2, by omega⟩
    subst hk
    have h1 : (-(-((k + 2 : Nat) : Int) + 1)).toNat = k + 1 := by omega
    have h2 : (-(-((k + 2 : Nat) : Int))).toNat = k + 1 + 1 := by omega
    rw [if_neg (by omega), if_neg (by omega), h1, h2, Nat.div_div_eq_div_mul, Nat.pow_eq,
      Nat.pow_eq, Nat.pow_succ 2 (k + 1), ← Nat.mul_assoc, Nat.mul_div_mul_right _ _ (by decide)]
  · simp [Nat.div_div_eq_div_mul, Nat.mul_div_mul_right]
  · obtain ⟨k, hk⟩ : ∃ k : Nat, e = (k : Nat) := ⟨e.toNat, by omega⟩
    subst hk
    have h1 : (((k : Nat) : Int) + 1).toNat = k + 1 := by omega
    rw [if_pos (by omega), if_pos (by omega), h1, Int.toNat_natCast, Nat.div_div_eq_div_mul,
      Nat.pow_eq, Nat.pow_eq, Nat.pow_succ, Nat.mul_assoc]

theorem quotientAt_le (num den : Nat) (e : Int) (k : Nat) :
    quotientAt num den (e + k) ≤ quotientAt num den e := by
  induction k with
  | zero => simp
  | succ k ih =>
      have hs : e + ((k + 1 : Nat) : Int) = e + k + 1 := by omega
      rw [hs, quotientAt_succ]
      omega

/-! ### The exponent -/

/-- `e` is the least exponent from `-1074` on at which the quotient has at most 53 bits. -/
structure IsScale (num den : Nat) (e : Int) : Prop where
  low : -1074 ≤ e
  fits : quotientAt num den e < 2 * hiddenBit
  least : e = -1074 ∨ hiddenBit ≤ quotientAt num den e

theorem IsScale.unique {num den : Nat} {e f : Int} (he : IsScale num den e)
    (hf : IsScale num den f) : e = f := by
  have key : ∀ {e f : Int}, IsScale num den e → IsScale num den f → ¬ e < f := by
    intro e f he hf hlt
    obtain ⟨k, hk⟩ : ∃ k : Nat, f = e + 1 + k := ⟨(f - e - 1).toNat, by omega⟩
    have hle := quotientAt_le num den (e + 1) k
    rw [← hk, quotientAt_succ] at hle
    have hfits := he.fits
    have hlow := he.low
    rcases hf.least with h | h <;> omega
  have := key he hf
  have := key hf he
  omega

theorem log2_bounds {n : Nat} (hn : 0 < n) : 2 ^ n.log2 ≤ n ∧ n < 2 ^ (n.log2 + 1) :=
  ⟨Nat.log2_self_le (by omega), Nat.lt_log2_self⟩

/-- The quotient at the estimated exponent has at most 54 bits. -/
theorem quotientAt_lt {num den : Nat} (hnum : 0 < num) (hden : 0 < den) {e : Int}
    (h : (num.log2 : Int) - den.log2 - 53 ≤ e) : quotientAt num den e < 4 * hiddenBit := by
  obtain ⟨-, hn⟩ := log2_bounds hnum
  obtain ⟨hd, -⟩ := log2_bounds hden
  have hb : 4 * hiddenBit = 2 ^ 54 := rfl
  rw [hb]
  unfold quotientAt
  split
  · rw [Nat.div_lt_iff_lt_mul (Nat.mul_pos hden (two_pow_pos _))]
    calc num < 2 ^ (num.log2 + 1) := hn
      _ ≤ 2 ^ (54 + den.log2 + e.toNat) := Nat.pow_le_pow_right (by decide) (by omega)
      _ = 2 ^ 54 * (2 ^ den.log2 * 2 ^ e.toNat) := by ring
      _ ≤ 2 ^ 54 * (den * Nat.pow 2 e.toNat) :=
        Nat.mul_le_mul_left _ (Nat.mul_le_mul_right _ hd)
  · rw [Nat.div_lt_iff_lt_mul hden]
    calc num * Nat.pow 2 (-e).toNat
        < 2 ^ (num.log2 + 1) * 2 ^ (-e).toNat := Nat.mul_lt_mul_of_pos_right hn (two_pow_pos _)
      _ = 2 ^ (num.log2 + 1 + (-e).toNat) := by ring
      _ ≤ 2 ^ (54 + den.log2) := Nat.pow_le_pow_right (by decide) (by omega)
      _ = 2 ^ 54 * 2 ^ den.log2 := by ring
      _ ≤ 2 ^ 54 * den := Nat.mul_le_mul_left _ hd

/-- And at least 53, unless the exponent is the least one. -/
theorem le_quotientAt {num den : Nat} (hnum : 0 < num) (hden : 0 < den) {e : Int}
    (h : e ≤ (num.log2 : Int) - den.log2 - 53) : hiddenBit ≤ quotientAt num den e := by
  obtain ⟨hn, -⟩ := log2_bounds hnum
  obtain ⟨-, hd⟩ := log2_bounds hden
  have hb : hiddenBit = 2 ^ 52 := rfl
  rw [hb]
  unfold quotientAt
  split
  · rw [Nat.le_div_iff_mul_le (Nat.mul_pos hden (two_pow_pos _))]
    calc 2 ^ 52 * (den * Nat.pow 2 e.toNat)
        ≤ 2 ^ 52 * (2 ^ (den.log2 + 1) * 2 ^ e.toNat) :=
        Nat.mul_le_mul_left _ (Nat.mul_le_mul_right _ hd.le)
      _ = 2 ^ (53 + den.log2 + e.toNat) := by ring
      _ ≤ 2 ^ num.log2 := Nat.pow_le_pow_right (by decide) (by omega)
      _ ≤ num := hn
  · rw [Nat.le_div_iff_mul_le hden]
    calc 2 ^ 52 * den ≤ 2 ^ 52 * 2 ^ (den.log2 + 1) := Nat.mul_le_mul_left _ hd.le
      _ = 2 ^ (53 + den.log2) := by ring
      _ ≤ 2 ^ (num.log2 + (-e).toNat) := Nat.pow_le_pow_right (by decide) (by omega)
      _ = 2 ^ num.log2 * 2 ^ (-e).toNat := by ring
      _ ≤ num * Nat.pow 2 (-e).toNat := Nat.mul_le_mul_right _ hn

theorem scaleOf_isScale {num den : Nat} (hnum : 0 < num) (hden : 0 < den) :
    IsScale num den (scaleOf num den) := by
  have hlt := quotientAt_lt hnum hden (le_max_left _ (-1074))
  have hge : max ((num.log2 : Int) - den.log2 - 53) (-1074) = -1074 ∨
      hiddenBit ≤ quotientAt num den (max ((num.log2 : Int) - den.log2 - 53) (-1074)) := by
    rcases max_choice ((num.log2 : Int) - den.log2 - 53) (-1074) with h | h
    · exact .inr (le_quotientAt hnum hden h.le)
    · exact .inl h
  have hlow : -1074 ≤ max ((num.log2 : Int) - den.log2 - 53) (-1074) := le_max_right _ _
  unfold scaleOf
  dsimp only
  generalize max ((num.log2 : Int) - den.log2 - 53) (-1074) = g at hlt hge hlow ⊢
  change IsScale num den (if quotientAt num den g < 2 * hiddenBit then g else g + 1)
  split
  · next hfits => exact ⟨hlow, hfits, hge⟩
  · next hfits =>
      refine ⟨by omega, ?_, .inr ?_⟩
      · rw [quotientAt_succ]
        omega
      · rw [quotientAt_succ]
        omega

/-- The exponent at which a quotient is rounded. -/
theorem scaleOf_eq_iff {num den : Nat} (hnum : 0 < num) (hden : 0 < den) {e : Int} :
    scaleOf num den = e ↔ IsScale num den e := by
  constructor
  · rintro rfl
    exact scaleOf_isScale hnum hden
  · exact (scaleOf_isScale hnum hden).unique

/-! ### Equal quotients round alike -/

theorem roundRatio_of_isScale {num den : Nat} (hnum : 0 < num) (hden : 0 < den) {e : Int}
    (h : IsScale num den e) :
    roundRatio num den = (e + 1074).toNat * hiddenBit + roundedAt num den e := by
  have hne : num ≠ 0 := by omega
  rw [roundRatio, if_neg hne, (scaleOf_eq_iff hnum hden).mpr h]
  rfl

theorem roundRatio_mul {c : Nat} (hc : 0 < c) (num : Nat) {den : Nat} (hden : 0 < den) :
    roundRatio (num * c) (den * c) = roundRatio num den := by
  rcases Nat.eq_zero_or_pos num with rfl | hnum
  · rw [Nat.zero_mul, roundRatio, roundRatio, if_pos rfl, if_pos rfl]
  · have hs := scaleOf_isScale hnum hden
    have hs' : IsScale (num * c) (den * c) (scaleOf num den) := by
      refine ⟨hs.low, ?_, ?_⟩
      · rw [quotientAt_mul hc]
        exact hs.fits
      · rw [quotientAt_mul hc]
        exact hs.least
    rw [roundRatio_of_isScale (Nat.mul_pos hnum hc) (Nat.mul_pos hden hc) hs',
      roundRatio_of_isScale hnum hden hs, roundedAt_mul hc]

theorem roundRatio_eq_of_cross {num den num' den' : Nat} (hden : 0 < den) (hden' : 0 < den')
    (h : num * den' = num' * den) : roundRatio num den = roundRatio num' den' := by
  rw [← roundRatio_mul hden' num hden, h, Nat.mul_comm den den', roundRatio_mul hden num' hden']

/-! ### Doubles round to themselves -/

theorem divNearestEven_mul_self (m : Nat) {c : Nat} (hc : 0 < c) :
    divNearestEven (m * c) c = m := by
  simp only [divNearestEven, Nat.mul_div_cancel _ hc, Nat.mul_mod_left, Nat.mul_zero, hc, if_true]

theorem significand_lt (x : Binary64) : x.significand < 2 * hiddenBit := by
  unfold significand
  split
  · omega
  · have := Nat.mod_lt x.magnitude (y := hiddenBit) (by decide)
    omega

theorem exponent_bounds (x : Binary64) : -1074 ≤ x.exponent ∧ x.exponent ≤ 971 := by
  unfold exponent
  split
  · omega
  · next h =>
      have hlow : 1 ≤ x.magnitude / hiddenBit := by
        rw [Nat.le_div_iff_mul_le (by decide)]
        omega
      have hhigh : x.magnitude / hiddenBit < 2047 := by
        rw [Nat.div_lt_iff_lt_mul (by decide)]
        exact x.finite
      omega

theorem ratio_snd_pos (x : Binary64) : 0 < x.ratio.2 := by
  unfold ratio
  split
  · exact Nat.one_pos
  · exact two_pow_pos _

theorem quotientAt_ratio (x : Binary64) :
    quotientAt x.ratio.1 x.ratio.2 x.exponent = x.significand := by
  unfold ratio quotientAt
  split
  · next h => rw [Nat.one_mul, Nat.mul_div_cancel _ (two_pow_pos _)]
  · next h => rw [Nat.mul_div_cancel _ (two_pow_pos _)]

theorem roundedAt_ratio (x : Binary64) :
    roundedAt x.ratio.1 x.ratio.2 x.exponent = x.significand := by
  unfold ratio roundedAt
  split
  · next h => rw [Nat.one_mul, divNearestEven_mul_self _ (two_pow_pos _)]
  · next h => rw [divNearestEven_mul_self _ (two_pow_pos _)]

theorem significand_pos {x : Binary64} (hx : 0 < x.magnitude) : 0 < x.significand := by
  unfold significand
  split
  · exact hx
  · have : 0 < hiddenBit := by decide
    omega

theorem ratio_fst_pos {x : Binary64} (hx : 0 < x.magnitude) : 0 < x.ratio.1 := by
  unfold ratio
  split
  · exact Nat.mul_pos (significand_pos hx) (two_pow_pos _)
  · exact significand_pos hx

theorem magnitude_eq (x : Binary64) :
    (x.exponent + 1074).toNat * hiddenBit + x.significand = x.magnitude := by
  unfold exponent significand
  split
  · simp
  · next h =>
      have hone : 1 ≤ x.magnitude / hiddenBit := by
        rw [Nat.le_div_iff_mul_le (by decide)]
        omega
      have he : ((x.magnitude / hiddenBit : Nat) - 1075 + 1074 : Int).toNat =
          x.magnitude / hiddenBit - 1 := by omega
      have hdiv := Nat.div_add_mod x.magnitude hiddenBit
      rw [he]
      obtain ⟨q, hq⟩ : ∃ q, x.magnitude / hiddenBit = q + 1 := ⟨x.magnitude / hiddenBit - 1, by omega⟩
      rw [hq, Nat.mul_succ] at hdiv
      rw [hq, Nat.add_sub_cancel, Nat.mul_comm]
      omega

/-- The absolute value of a double rounds to the double. -/
theorem roundRatio_ratio (x : Binary64) : roundRatio x.ratio.1 x.ratio.2 = x.magnitude := by
  rcases Nat.eq_zero_or_pos x.magnitude with h | h
  · have hm : x.significand = 0 := by
      rw [significand, if_pos (by rw [h]; decide), h]
    have hz : x.ratio.1 = 0 := by
      unfold ratio
      split
      · rw [hm, Nat.zero_mul]
      · exact hm
    rw [hz, h, roundRatio, if_pos rfl]
  · have hs : IsScale x.ratio.1 x.ratio.2 x.exponent := by
      refine ⟨(exponent_bounds x).1, ?_, ?_⟩
      · rw [quotientAt_ratio]
        exact significand_lt x
      · rw [quotientAt_ratio]
        unfold exponent significand
        split
        · exact .inl rfl
        · exact .inr (Nat.le_add_left _ _)
    rw [roundRatio_of_isScale (ratio_fst_pos h) (ratio_snd_pos x) hs, roundedAt_ratio,
      magnitude_eq]

end EntityStore.Binary64
