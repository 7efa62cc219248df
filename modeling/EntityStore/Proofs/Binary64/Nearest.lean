import EntityStore.Proofs.Binary64.Value
import Mathlib.Algebra.Order.Ring.Abs
import Mathlib.Tactic.GCongr
import Mathlib.Tactic.Linarith

/-! # Rounding to nearest

`Binary64.roundRatio` gives the magnitude of a double that no double is nearer to, and of two that
are as near the one with the even pattern (`ofRatio?_isNearest`).

In units of the smallest double the doubles from `hiddenBit * 2 ^ k` on are multiples of `2 ^ k`
(`unitsOf_grid`), and the scale of a quotient is the `k` for which the quotient lies among the first
of them.  So the nearest double is the nearest multiple, which is what `divNearestEven` finds. -/

namespace EntityStore.Binary64

/-! ### Nearest multiples -/

/-- How far two natural numbers are apart. -/
def distance (a b : Nat) : Nat := ((a : Int) - b).natAbs

theorem divNearestEven_cases (num den : Nat) :
    divNearestEven num den = num / den ∧
        (2 * (num % den) < den ∨ 2 * (num % den) = den ∧ num / den % 2 = 0) ∨
      divNearestEven num den = num / den + 1 ∧
        (den < 2 * (num % den) ∨ 2 * (num % den) = den ∧ num / den % 2 = 1) := by
  simp only [divNearestEven]
  split
  · next hbelow => exact .inl ⟨rfl, .inl hbelow⟩
  split
  · next htie =>
      split
      · next heven => exact .inl ⟨rfl, .inr ⟨htie, heven⟩⟩
      · next hodd => exact .inr ⟨rfl, .inr ⟨htie, by omega⟩⟩
  · exact .inr ⟨rfl, .inl (by omega)⟩

/-- No multiple of the denominator is nearer to the numerator, and where another one is as near, the
even one is taken. -/
theorem divNearestEven_nearest (num : Nat) {den : Nat} (hden : 0 < den) (n : Nat) :
    distance (divNearestEven num den * den) num ≤ distance (n * den) num ∧
      (distance (divNearestEven num den * den) num = distance (n * den) num →
        n = divNearestEven num den ∨ divNearestEven num den % 2 = 0) := by
  have hdiv := Nat.div_add_mod' num den
  have hlt := Nat.mod_lt num hden
  have hnext : (num / den + 1) * den = num / den * den + den := Nat.succ_mul _ _
  -- `n` is the quotient or the integer after it, or its multiple is further off
  have hn : n = num / den ∨ n = num / den + 1 ∨ n * den + den ≤ num / den * den ∨
      num / den * den + 2 * den ≤ n * den := by
    rcases Nat.lt_trichotomy n (num / den) with hbelow | heq | habove
    · exact .inr (.inr (.inl (Nat.succ_mul n den ▸ Nat.mul_le_mul_right den hbelow)))
    · exact .inl heq
    · rcases Nat.eq_or_lt_of_le habove with heq | hfar
      · exact .inr (.inl heq.symm)
      · have hmul := Nat.mul_le_mul_right den hfar
        simp only [Nat.succ_eq_add_one, Nat.add_mul, Nat.one_mul] at hmul
        exact .inr (.inr (.inr (by omega)))
  unfold distance
  rcases divNearestEven_cases num den with ⟨hm, hr⟩ | ⟨hm, hr⟩ <;> rw [hm]
  · rcases hn with rfl | rfl | hn | hn
    · omega
    · rw [hnext]
      omega
    · omega
    · omega
  · rw [hnext]
    rcases hn with rfl | rfl | hn | hn
    · omega
    · rw [hnext]
      omega
    · omega
    · omega

/-! ### The doubles on a grid -/

theorem strictMono_unitsOf : StrictMono unitsOf := strictMono_nat_of_lt_succ unitsOf_lt_succ

/-- The double with these digits at a scale.  A significand that was rounded up to the next power of
two goes on into the next exponent. -/
theorem unitsOf_scaled {k m : Nat} (hm : m ≤ 2 * hiddenBit) (hk : k = 0 ∨ hiddenBit ≤ m) :
    unitsOf (k * hiddenBit + m) = m * 2 ^ k := by
  have hbit : 0 < hiddenBit := by decide
  rcases Nat.lt_or_ge m hiddenBit with hsmall | hlarge
  · obtain rfl : k = 0 := by omega
    rw [Nat.zero_mul, Nat.zero_add, unitsOf, if_pos hsmall, Nat.pow_zero, Nat.mul_one]
  · rw [unitsOf, if_neg (by omega)]
    rcases Nat.eq_or_lt_of_le hm with rfl | hlt
    · have heq : k * hiddenBit + 2 * hiddenBit = (k + 2) * hiddenBit := (Nat.add_mul _ _ _).symm
      rw [heq, Nat.mul_mod_left, Nat.mul_div_cancel _ hbit, Nat.zero_add,
        show k + 2 - 1 = k + 1 from rfl, Nat.pow_succ, Nat.mul_comm (2 ^ k), ← Nat.mul_assoc,
        Nat.mul_comm hiddenBit]
    · obtain ⟨j, rfl⟩ : ∃ j, m = hiddenBit + j := ⟨m - hiddenBit, by omega⟩
      have heq : k * hiddenBit + (hiddenBit + j) = j + (k + 1) * hiddenBit := by
        rw [Nat.succ_mul]
        omega
      have hj : j < hiddenBit := by omega
      rw [heq, Nat.add_mul_mod_self_right, Nat.add_mul_div_right _ _ hbit, Nat.mod_eq_of_lt hj,
        Nat.div_eq_of_lt hj, Nat.zero_add, Nat.add_sub_cancel, Nat.add_comm j]

/-- From `hiddenBit * 2 ^ k` on all doubles are multiples of `2 ^ k`. -/
theorem unitsOf_grid (k m : Nat) :
    (∃ n, unitsOf m = n * 2 ^ k) ∨ 0 < k ∧ unitsOf m < hiddenBit * 2 ^ k := by
  have hbit : 0 < hiddenBit := by decide
  rcases Nat.eq_zero_or_pos k with rfl | hk
  · exact .inl ⟨unitsOf m, (Nat.mul_one _).symm⟩
  rcases Nat.lt_or_ge m (k * hiddenBit + hiddenBit) with hlt | hge
  · refine .inr ⟨hk, ?_⟩
    rw [← unitsOf_scaled (by omega) (.inr (Nat.le_refl _))]
    exact strictMono_unitsOf hlt
  · have hdiv : k + 1 ≤ m / hiddenBit := by
      rw [Nat.le_div_iff_mul_le hbit, Nat.succ_mul]
      exact hge
    obtain ⟨j, hj⟩ : ∃ j, m / hiddenBit - 1 = j + k := ⟨m / hiddenBit - 1 - k, by omega⟩
    refine .inl ⟨(m % hiddenBit + hiddenBit) * 2 ^ j, ?_⟩
    rw [unitsOf, if_neg (by omega), hj, Nat.pow_add, Nat.mul_assoc]

/-! ### Rounding a quotient -/

/-- A quotient in units of the smallest double, at the scale with this exponent. -/
theorem roundedAt_units (num den : Nat) {e : Int} {k : Nat} (hk : e + smallestBits = k) :
    roundedAt num den e = divNearestEven (num * 2 ^ smallestBits) (den * 2 ^ k) := by
  unfold roundedAt
  split
  · have hpow : 2 ^ k = Nat.pow 2 e.toNat * 2 ^ smallestBits := by
      rw [Nat.pow_eq, ← Nat.pow_add, show k = e.toNat + smallestBits by omega]
    rw [hpow, ← Nat.mul_assoc, divNearestEven_mul (Nat.two_pow_pos _)]
  · have hpow : 2 ^ smallestBits = Nat.pow 2 (-e).toNat * 2 ^ k := by
      rw [Nat.pow_eq, ← Nat.pow_add, show smallestBits = (-e).toNat + k by omega]
    rw [hpow, ← Nat.mul_assoc, divNearestEven_mul (Nat.two_pow_pos _)]

theorem quotientAt_units (num den : Nat) {e : Int} {k : Nat} (hk : e + smallestBits = k) :
    quotientAt num den e = num * 2 ^ smallestBits / (den * 2 ^ k) := by
  unfold quotientAt
  split
  · have hpow : 2 ^ k = Nat.pow 2 e.toNat * 2 ^ smallestBits := by
      rw [Nat.pow_eq, ← Nat.pow_add, show k = e.toNat + smallestBits by omega]
    rw [hpow, ← Nat.mul_assoc, Nat.mul_div_mul_right _ _ (Nat.two_pow_pos _)]
  · have hpow : 2 ^ smallestBits = Nat.pow 2 (-e).toNat * 2 ^ k := by
      rw [Nat.pow_eq, ← Nat.pow_add, show smallestBits = (-e).toNat + k by omega]
    rw [hpow, ← Nat.mul_assoc, Nat.mul_div_mul_right _ _ (Nat.two_pow_pos _)]

/-- No magnitude stands for a double nearer to the quotient, and where another one is as near, the
even magnitude is taken. -/
theorem roundRatio_nearest (num : Nat) {den : Nat} (hden : 0 < den) (m : Nat) :
    distance (unitsOf (roundRatio num den) * den) (num * 2 ^ smallestBits) ≤
        distance (unitsOf m * den) (num * 2 ^ smallestBits) ∧
      (distance (unitsOf (roundRatio num den) * den) (num * 2 ^ smallestBits) =
          distance (unitsOf m * den) (num * 2 ^ smallestBits) →
        unitsOf m = unitsOf (roundRatio num den) ∨ roundRatio num den % 2 = 0) := by
  rcases Nat.eq_zero_or_pos num with rfl | hnum
  · rw [roundRatio, if_pos rfl, unitsOf_zero, Nat.zero_mul, Nat.zero_mul]
    exact ⟨Nat.zero_le _, fun _ => .inr rfl⟩
  have hscale := scaleOf_isScale hnum hden
  have hround := roundRatio_of_isScale hnum hden hscale
  obtain ⟨hlow, hfits, hleast⟩ := hscale
  obtain ⟨k, hk⟩ : ∃ k : Nat, scaleOf num den + smallestBits = k :=
    ⟨(scaleOf num den + smallestBits).toNat, by rw [smallestBits]; omega⟩
  have hexponent : (scaleOf num den + 1074).toNat = k := by
    rw [smallestBits] at hk
    omega
  have hunit : 0 < den * 2 ^ k := Nat.mul_pos hden (Nat.two_pow_pos k)
  rw [quotientAt_units num den hk] at hfits hleast
  rw [roundedAt_units num den hk, hexponent] at hround
  generalize num * 2 ^ smallestBits = units at *
  have hcases := divNearestEven_cases units (den * 2 ^ k)
  have hnearest := divNearestEven_nearest units hunit
  generalize divNearestEven units (den * 2 ^ k) = digits at *
  have hmagnitude : unitsOf (roundRatio num den) * den = digits * (den * 2 ^ k) := by
    have hdigits : k = 0 ∨ hiddenBit ≤ digits := by
      rcases hleast with hleast | hleast
      · exact .inl (by omega)
      · exact .inr (by omega)
    rw [hround, unitsOf_scaled (by omega) hdigits, Nat.mul_assoc, Nat.mul_comm den]
  rw [hmagnitude]
  rcases unitsOf_grid k m with ⟨n, hn⟩ | ⟨hkpos, hbelow⟩
  · obtain ⟨hle, htie⟩ := hnearest n
    have hmultiple : unitsOf m * den = n * (den * 2 ^ k) := by
      rw [hn, Nat.mul_assoc, Nat.mul_comm den]
    rw [hmultiple]
    refine ⟨hle, fun heq => ?_⟩
    rcases htie heq with rfl | heven
    · exact .inl (Nat.eq_of_mul_eq_mul_right hden (hmultiple.trans hmagnitude.symm))
    · rw [hround, hiddenBit]
      exact .inr (by omega)
  · -- the first double on the grid is between the quotient and a double below the grid
    have hgrid : hiddenBit * (den * 2 ^ k) ≤ units := by
      rcases hleast with hleast | hleast
      · omega
      · exact (Nat.le_div_iff_mul_le hunit).mp hleast
    have hfar : unitsOf m * den < hiddenBit * (den * 2 ^ k) := by
      rw [Nat.mul_comm den, ← Nat.mul_assoc]
      exact Nat.mul_lt_mul_of_pos_right hbelow hden
    have hle := (hnearest hiddenBit).1
    unfold distance at hle ⊢
    omega

/-! ### Values -/

/-- No double is nearer to the number, and of two that are as near this one has the even pattern. -/
structure IsNearest (x : Binary64) (q : ℚ) : Prop where
  nearest : ∀ y : Binary64, |x.value - q| ≤ |y.value - q|
  even : ∀ y : Binary64, |x.value - q| = |y.value - q| → y.value = x.value ∨ x.magnitude % 2 = 0

/-- How far a double without minus sign is from a quotient. -/
theorem abs_value_sub {x : Binary64} (hx : x.negative = false) (num : Nat) {den : Nat}
    (hden : 0 < den) : |x.value - num / den| =
      (distance (unitsOf x.magnitude * den) (num * 2 ^ smallestBits) : ℚ) /
        (2 ^ smallestBits * den) := by
  have hden : (0 : ℚ) < den := Nat.cast_pos.mpr hden
  have hunit : (0 : ℚ) < 2 ^ smallestBits := by positivity
  have hratio : (0 : ℚ) < x.ratio.2 := Nat.cast_pos.mpr (ratio_snd_pos x)
  have hvalue : x.value = unitsOf x.magnitude / 2 ^ smallestBits := by
    rw [value, hx, if_neg Bool.false_ne_true, div_eq_div_iff hratio.ne' hunit.ne']
    exact_mod_cast ratio_mul_units x
  have hdistance : (distance (unitsOf x.magnitude * den) (num * 2 ^ smallestBits) : ℚ) =
      |(unitsOf x.magnitude : ℚ) * den - num * 2 ^ smallestBits| := by
    rw [distance, Nat.cast_natAbs]
    push_cast
    rfl
  rw [hvalue, hdistance, div_sub_div _ _ hunit.ne' hden.ne', abs_div,
    abs_of_pos (mul_pos hunit hden), mul_comm (2 ^ smallestBits : ℚ) num]

theorem value_zero : zero.value = 0 := by
  have hrank : zero.rank = 0 := rfl
  rw [← valueOfRank_rank, hrank, valueOfRank, Int.sign_zero, Int.zero_mul, Int.cast_zero, zero_div]

theorem value_nonpos {x : Binary64} (hx : x.negative = true) : x.value ≤ 0 := by
  rw [value, hx, if_pos rfl]
  exact div_nonpos_of_nonpos_of_nonneg (neg_nonpos.mpr (Nat.cast_nonneg _)) (Nat.cast_nonneg _)

/-- A double with minus sign is no nearer to a natural quotient than zero, and as near only if it is
zero itself. -/
theorem isNearest_of_unsigned {x : Binary64} {q : ℚ} (hq : 0 ≤ q)
    (h : ∀ y : Binary64, y.negative = false → |x.value - q| ≤ |y.value - q| ∧
      (|x.value - q| = |y.value - q| → y.value = x.value ∨ x.magnitude % 2 = 0)) :
    x.IsNearest q := by
  have hzero := h zero rfl
  rw [value_zero, zero_sub, abs_neg, abs_of_nonneg hq] at hzero
  have hsigned : ∀ y : Binary64, y.negative = true → |y.value - q| = q - y.value := by
    intro y hy
    have hle := value_nonpos hy
    rw [abs_of_nonpos (by linarith), neg_sub]
  refine ⟨fun y => ?_, fun y heq => ?_⟩
  · cases hy : y.negative with
    | false => exact (h y hy).1
    | true =>
        rw [hsigned y hy]
        linarith [hzero.1, value_nonpos hy]
  · cases hy : y.negative with
    | false => exact (h y hy).2 heq
    | true =>
        rw [hsigned y hy] at heq
        have hvalue : y.value = 0 := by linarith [hzero.1, value_nonpos hy]
        rw [hvalue]
        exact hzero.2 (by linarith)

/-- A quotient is rounded to the nearest double. -/
theorem ofRatio?_isNearest {num den : Nat} (hden : 0 < den) {x : Binary64}
    (h : ofRatio? false num den = some x) : x.IsNearest (num / den) := by
  have hx : x.negative = false ∧ x.magnitude = roundRatio num den := by
    rw [ofRatio?, ofMagnitude?] at h
    split at h
    · cases h
      exact ⟨rfl, rfl⟩
    · cases h
  have hunits : (0 : ℚ) < 2 ^ smallestBits * den :=
    mul_pos (by positivity) (Nat.cast_pos.mpr hden)
  refine isNearest_of_unsigned (div_nonneg (Nat.cast_nonneg _) (Nat.cast_nonneg _)) fun y hy => ?_
  obtain ⟨hle, htie⟩ := roundRatio_nearest num hden y.magnitude
  rw [← hx.2] at hle htie
  rw [abs_value_sub hx.1 num hden, abs_value_sub hy num hden]
  refine ⟨by gcongr, fun heq => ?_⟩
  rw [div_left_inj' hunits.ne', Nat.cast_inj] at heq
  refine (htie heq).imp_left fun hsame => ?_
  have hmagnitude : y.magnitude = x.magnitude := strictMono_unitsOf.injective hsame
  rw [← valueOfRank_rank, ← valueOfRank_rank, rank, rank, hx.1, hy, hmagnitude]

end EntityStore.Binary64
