import EntityStore.Proofs.Binary64.Rounding
import Mathlib.Algebra.Order.Field.Rat
import Mathlib.Order.Compare
import Mathlib.Order.Monotone.Basic
import Mathlib.Tactic.FieldSimp
import Mathlib.Tactic.Positivity

/-! # The exact value of a double

`Binary64.value` is the rational number that a double stands for.  The patterns of doubles are in
the order of their values: `unitsOf` counts the absolute value in units of the smallest double and
grows with the magnitude (`unitsOf_lt_succ`).  So the comparison of ranks is the comparison of
values (`compare_eq_cmp`), and the comparison with an integer is exact (`compareInt_eq_cmp`). -/

namespace EntityStore.Binary64

/-- The number that a double stands for. -/
def value (x : Binary64) : ℚ := (if x.negative then -x.ratio.1 else x.ratio.1 : ℚ) / x.ratio.2

/-! ### Magnitudes in units of the smallest double -/

/-- The number of bits after the point of the smallest double. -/
def smallestBits : Nat := 1074

/-- The absolute value that a magnitude stands for, in units of the smallest double. -/
def unitsOf (m : Nat) : Nat :=
  if m < hiddenBit then m else (m % hiddenBit + hiddenBit) * 2 ^ (m / hiddenBit - 1)

theorem unitsOf_lt_succ (m : Nat) : unitsOf m < unitsOf (m + 1) := by
  have hbit : 0 < hiddenBit := by decide
  unfold unitsOf
  by_cases hsmall : m + 1 < hiddenBit
  · rw [if_pos (by omega), if_pos hsmall]
    omega
  rw [if_neg hsmall]
  by_cases hlast : m < hiddenBit
  · -- the step from the last double without a hidden bit to the first one with it
    have hm : m + 1 = hiddenBit := by omega
    rw [if_pos hlast, hm, Nat.mod_self, Nat.div_self hbit]
    omega
  rw [if_neg hlast]
  have hpow : 0 < 2 ^ (m / hiddenBit - 1) := Nat.two_pow_pos _
  by_cases hcarry : m % hiddenBit + 1 = hiddenBit
  · -- the significand is full: the next double has the next exponent
    have hone : 1 ≤ m / hiddenBit := Nat.div_pos (by omega) hbit
    have hsucc : m + 1 = hiddenBit * (m / hiddenBit + 1) := by
      have hdiv := Nat.div_add_mod m hiddenBit
      rw [Nat.mul_succ]
      omega
    obtain ⟨q, hq⟩ : ∃ q, m / hiddenBit = q + 1 := ⟨m / hiddenBit - 1, by omega⟩
    rw [hsucc, Nat.mul_mod_right, Nat.mul_div_cancel_left _ hbit, hq, Nat.add_sub_cancel,
      Nat.add_sub_cancel, Nat.pow_succ, Nat.zero_add, Nat.mul_left_comm, Nat.mul_comm (2 ^ q)]
    rw [hq, Nat.add_sub_cancel] at hpow
    exact Nat.mul_lt_mul_of_pos_right (by omega) hpow
  · have hlt := Nat.mod_lt m hbit
    have hmod : (m + 1) % hiddenBit = m % hiddenBit + 1 := by
      rw [Nat.add_mod, Nat.mod_eq_of_lt (show 1 < hiddenBit by decide), Nat.mod_eq_of_lt (by omega)]
    have hdiv : (m + 1) / hiddenBit = m / hiddenBit :=
      Nat.succ_div_of_not_dvd fun hdvd => by
        rw [Nat.dvd_iff_mod_eq_zero, hmod] at hdvd
        omega
    rw [hmod, hdiv]
    exact Nat.mul_lt_mul_of_pos_right (by omega) hpow

theorem unitsOf_zero : unitsOf 0 = 0 := rfl

/-- The absolute value of a double in units of the smallest one. -/
theorem ratio_mul_units (x : Binary64) :
    x.ratio.1 * 2 ^ smallestBits = unitsOf x.magnitude * x.ratio.2 := by
  unfold ratio unitsOf exponent significand
  by_cases hsmall : x.magnitude < hiddenBit
  · simp only [if_pos hsmall]
    have hneg : ¬ (0 : Int) ≤ -1074 := by decide
    have hbits : (-(-1074 : Int)).toNat = smallestBits := rfl
    rw [if_neg hneg, hbits, Nat.pow_eq]
  · simp only [if_neg hsmall]
    have hone : 1 ≤ x.magnitude / hiddenBit := Nat.div_pos (by omega) (by decide)
    obtain ⟨q, hq⟩ : ∃ q, x.magnitude / hiddenBit = q + 1 := ⟨x.magnitude / hiddenBit - 1, by omega⟩
    rw [hq, Nat.add_sub_cancel]
    split
    · next he =>
        have hsum : (((q + 1 : Nat) : Int) - 1075).toNat + smallestBits = q := by
          rw [smallestBits]
          omega
        simp only [Nat.mul_one, Nat.pow_eq]
        rw [Nat.mul_assoc, ← Nat.pow_add, hsum]
    · next he =>
        have hsum : q + (-(((q + 1 : Nat) : Int) - 1075)).toNat = smallestBits := by
          rw [smallestBits]
          omega
        simp only [Nat.pow_eq]
        rw [Nat.mul_assoc, ← Nat.pow_add, hsum]

/-! ### Comparing -/

/-- The value of the doubles of a rank. -/
def valueOfRank (k : ℤ) : ℚ := (k.sign * unitsOf k.natAbs : ℤ) / 2 ^ smallestBits

theorem valueOfRank_rank (x : Binary64) : valueOfRank x.rank = x.value := by
  have hden : (x.ratio.2 : ℚ) ≠ 0 := Nat.cast_ne_zero.mpr (ratio_snd_pos x).ne'
  have hunits : (x.ratio.1 : ℚ) * 2 ^ smallestBits = unitsOf x.magnitude * x.ratio.2 :=
    mod_cast ratio_mul_units x
  have hsign : ∀ m : Nat, ((m : ℤ).sign * unitsOf m : ℤ) = unitsOf m := by
    intro m
    cases m with
    | zero => rfl
    | succ m => rw [Int.sign_natCast_of_ne_zero (Nat.succ_ne_zero m), Int.one_mul]
  rw [valueOfRank, value, rank]
  cases x.negative with
  | true =>
      simp only [if_true, Int.sign_neg, Int.natAbs_neg, Int.natAbs_natCast, Int.neg_mul, hsign]
      rw [div_eq_div_iff (by positivity) hden]
      push_cast
      rw [neg_mul, neg_mul, hunits]
  | false =>
      simp only [Bool.false_eq_true, if_false, Int.natAbs_natCast, hsign]
      rw [div_eq_div_iff (by positivity) hden]
      push_cast
      rw [hunits]

theorem valueOfRank_lt_succ (k : Int) : valueOfRank k < valueOfRank (k + 1) := by
  unfold valueOfRank
  rw [div_lt_div_iff_of_pos_right (by positivity), Int.cast_lt]
  rcases lt_or_ge k 0 with hneg | hpos
  · obtain ⟨n, rfl⟩ : ∃ n : Nat, k = -((n + 1 : Nat) : ℤ) := ⟨(-k).toNat - 1, by omega⟩
    have hsucc : -((n + 1 : Nat) : ℤ) + 1 = -(n : ℤ) := by omega
    have hlt := unitsOf_lt_succ n
    rw [hsucc, Int.natAbs_neg, Int.natAbs_neg, Int.natAbs_natCast, Int.natAbs_natCast, Int.sign_neg,
      Int.sign_neg, Int.sign_natCast_of_ne_zero (Nat.succ_ne_zero n)]
    cases n with
    | zero =>
        rw [unitsOf_zero] at hlt ⊢
        omega
    | succ n =>
        rw [Int.sign_natCast_of_ne_zero (Nat.succ_ne_zero n)]
        omega
  · obtain ⟨n, rfl⟩ : ∃ n : Nat, k = (n : ℤ) := ⟨k.toNat, by omega⟩
    have hlt := unitsOf_lt_succ n
    rw [show (n : ℤ) + 1 = ((n + 1 : Nat) : ℤ) from rfl, Int.natAbs_natCast, Int.natAbs_natCast,
      Int.sign_natCast_of_ne_zero (Nat.succ_ne_zero n)]
    cases n with
    | zero =>
        rw [unitsOf_zero] at hlt ⊢
        omega
    | succ n =>
        rw [Int.sign_natCast_of_ne_zero (Nat.succ_ne_zero n)]
        omega

/-- Doubles are compared by value. -/
theorem compare_eq_cmp (x y : Binary64) : x.compare y = cmp x.value y.value := by
  have hmono : StrictMono valueOfRank := strictMono_int_of_lt_succ valueOfRank_lt_succ
  rw [← valueOfRank_rank, ← valueOfRank_rank, hmono.cmp_map_eq, compare, cmp_eq_compare]

/-- A double and an integer are compared by value. -/
theorem compareInt_eq_cmp (x : Binary64) (i : Int) : x.compareInt i = cmp x.value i := by
  have hden : (0 : ℚ) < x.ratio.2 := Nat.cast_pos.mpr (ratio_snd_pos x)
  have hmono : StrictMono fun k : ℤ => (k : ℚ) / x.ratio.2 := fun a b hab =>
    (div_lt_div_iff_of_pos_right hden).mpr (Int.cast_lt.mpr hab)
  have hvalue : x.value =
      ((if x.negative then -(x.ratio.1 : Int) else x.ratio.1 : ℤ) : ℚ) / x.ratio.2 := by
    rw [value]
    cases x.negative <;> simp
  have hinteger : (i : ℚ) = ((i * x.ratio.2 : ℤ) : ℚ) / x.ratio.2 := by
    push_cast
    rw [mul_div_cancel_right₀ _ hden.ne']
  rw [hvalue, hinteger, hmono.cmp_map_eq, compareInt, cmp_eq_compare]

end EntityStore.Binary64
