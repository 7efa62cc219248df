import EntityStore.Binary64.Decimal
import EntityStore.Proofs.Binary64.Rounding
import EntityStore.Proofs.Text.Numeral

/-! # The spelling of a double reads back

`Decimal.round` is the double that a decimal rounds to.  Moving zeros between the digits and the
exponent does not change it (`ofDecimal?_mul_pow`), so neither do the layouts of a decimal as a
numeral (`Decimal.jsonNumeral_round`).  The shortest decimal of a double rounds to the double:
where it was sought on a grid because that was asked for (`ofDecimal?_of_multiple?`), and where no
grid was fine enough because it is exact. -/

namespace EntityStore

namespace Binary64

/-! ### Decimals of equal value -/

theorem ofRatio?_eq_of_cross (s : Bool) {num den num' den' : Nat} (hden : 0 < den)
    (hden' : 0 < den') (h : num * den' = num' * den) :
    ofRatio? s num den = ofRatio? s num' den' := by
  rw [ofRatio?, ofRatio?, roundRatio_eq_of_cross hden hden' h]

theorem ten_pow_pos (k : Nat) : 0 < Nat.pow 10 k := Nat.pow_pos (by decide)

/-- A decimal with its exponent inside the range of doubles, rounded. -/
theorem ofDecimal?_eq (s : Bool) {n : Nat} (hn : 0 < n) (e : Int) :
    ofDecimal? s n e =
      if 310 < (Text.natural n).length + e then none
      else if (Text.natural n).length + e < -330 then ofMagnitude? s 0
      else if 0 ≤ e then ofRatio? s (n * Nat.pow 10 e.toNat) 1
      else ofRatio? s n (Nat.pow 10 (-e).toNat) := by
  rw [ofDecimal?, if_neg (by omega)]
  rfl

/-- Zeros at the end of the digits may as well be counted in the exponent. -/
theorem ofDecimal?_mul_pow (s : Bool) (n : Nat) (e : Int) (k : Nat) :
    ofDecimal? s (n * 10 ^ k) e = ofDecimal? s n (e + k) := by
  rcases Nat.eq_zero_or_pos n with rfl | hn
  · simp [ofDecimal?]
  have hpos : 0 < n * 10 ^ k := Nat.mul_pos hn (ten_pow_pos k)
  have hlead : ((Text.natural (n * 10 ^ k)).length : Int) + e =
      (Text.natural n).length + (e + k) := by
    rw [Text.length_natural_mul_ten_pow hn k]
    omega
  rw [ofDecimal?_eq s hpos, ofDecimal?_eq s hn, hlead]
  have hround : (if 0 ≤ e then ofRatio? s (n * 10 ^ k * Nat.pow 10 e.toNat) 1
        else ofRatio? s (n * 10 ^ k) (Nat.pow 10 (-e).toNat)) =
      (if 0 ≤ e + k then ofRatio? s (n * Nat.pow 10 (e + k).toNat) 1
        else ofRatio? s n (Nat.pow 10 (-(e + k)).toNat)) := by
    split
    · rw [if_pos (by omega)]
      have hk : (e + k).toNat = k + e.toNat := by omega
      rw [hk, Nat.pow_eq, Nat.pow_eq, Nat.pow_add, Nat.mul_assoc]
    · split
      · obtain ⟨j, hj, hk⟩ : ∃ j : Nat, (e + k).toNat = j ∧ k = j + (-e).toNat :=
          ⟨(e + k).toNat, rfl, by omega⟩
        refine ofRatio?_eq_of_cross s (ten_pow_pos _) Nat.one_pos ?_
        rw [hj, hk, Nat.pow_eq, Nat.pow_eq, Nat.pow_add, Nat.mul_one, Nat.mul_assoc]
      · obtain ⟨j, hj, hk⟩ : ∃ j : Nat, (-(e + k)).toNat = j ∧ (-e).toNat = k + j :=
          ⟨(-(e + k)).toNat, rfl, by omega⟩
        refine ofRatio?_eq_of_cross s (ten_pow_pos _) (ten_pow_pos _) ?_
        rw [hj, hk, Nat.pow_eq, Nat.pow_eq, Nat.pow_add, Nat.mul_assoc]
  rw [hround]

/-- The double with a sign in place of its own. -/
def withSign (s : Bool) (x : Binary64) : Binary64 := ⟨s, x.magnitude, x.finite⟩

theorem ofMagnitude?_sign (s : Bool) (m : Nat) :
    ofMagnitude? s m = (ofMagnitude? false m).map (withSign s) := by
  unfold ofMagnitude?
  split <;> rfl

theorem ofDecimal?_sign (s : Bool) (n : Nat) (e : Int) :
    ofDecimal? s n e = (ofDecimal? false n e).map (withSign s) := by
  simp only [ofDecimal?, ofRatio?]
  split
  · exact ofMagnitude?_sign s 0
  split
  · rfl
  split
  · exact ofMagnitude?_sign s 0
  split
  · exact ofMagnitude?_sign s _
  · exact ofMagnitude?_sign s _

theorem ofMagnitude?_magnitude (x : Binary64) : ofMagnitude? x.negative x.magnitude = some x := by
  rw [ofMagnitude?, dif_pos x.finite]

/-! ### Exact decimals -/

/-- A decimal inside the range of exponents that has the absolute value of a double. -/
theorem ofDecimal?_of_value (x : Binary64) {n : Nat} (hn : 0 < n) {e : Int}
    (hhigh : (Text.natural n).length + e ≤ 310) (hlow : -330 ≤ (Text.natural n).length + e)
    (hpos : 0 ≤ e → n * 10 ^ e.toNat * x.ratio.2 = x.ratio.1)
    (hneg : e < 0 → n * x.ratio.2 = x.ratio.1 * 10 ^ (-e).toNat) :
    ofDecimal? x.negative n e = some x := by
  rw [ofDecimal?_eq _ hn, if_neg (by omega), if_neg (by omega)]
  split
  · next h =>
      rw [ofRatio?, roundRatio_eq_of_cross Nat.one_pos (ratio_snd_pos x)
        (show n * Nat.pow 10 e.toNat * x.ratio.2 = x.ratio.1 * 1 by rw [Nat.mul_one]; exact hpos h),
        roundRatio_ratio, ofMagnitude?_magnitude]
  · next h =>
      rw [ofRatio?, roundRatio_eq_of_cross (ten_pow_pos _) (ratio_snd_pos x)
        (show n * x.ratio.2 = x.ratio.1 * Nat.pow 10 (-e).toNat from hneg (by omega)),
        roundRatio_ratio, ofMagnitude?_magnitude]

/-- The exact decimal of a double without fraction. -/
theorem ofDecimal?_integral {x : Binary64} (hx : 0 < x.magnitude) (he : 0 ≤ x.exponent) :
    ofDecimal? x.negative (x.significand * Nat.pow 2 x.exponent.toNat) 0 = some x := by
  have hpos : 0 < x.significand * Nat.pow 2 x.exponent.toNat :=
    Nat.mul_pos (significand_pos hx) (two_pow_pos _)
  have hlt : x.significand * Nat.pow 2 x.exponent.toNat < 10 ^ 310 := by
    have hb : x.exponent.toNat ≤ 971 := by
      have := (exponent_bounds x).2
      omega
    rw [Nat.pow_eq]
    calc x.significand * 2 ^ x.exponent.toNat
        ≤ 2 * hiddenBit * 2 ^ 971 :=
        Nat.mul_le_mul (significand_lt x).le (Nat.pow_le_pow_right Nat.two_pos hb)
      _ < 10 ^ 310 := by decide +kernel
  have hlen := (Text.length_natural_le (by decide)).mpr hlt
  refine ofDecimal?_of_value x hpos (by omega) (by omega) ?_ (by omega)
  intro _
  simp [ratio, he]

/-- The exact decimal of a double with a fraction. -/
theorem ofDecimal?_fraction {x : Binary64} (hx : 0 < x.magnitude) (he : x.exponent < 0) :
    ofDecimal? x.negative (x.significand * Nat.pow 5 (-x.exponent).toNat) x.exponent = some x := by
  obtain ⟨k, hk⟩ : ∃ k, (-x.exponent).toNat = k := ⟨_, rfl⟩
  have hsig := significand_pos hx
  have hbound := (exponent_bounds x).1
  have hpos : 0 < x.significand * Nat.pow 5 k := Nat.mul_pos hsig (Nat.pow_pos (by decide))
  have hhigh : x.significand * Nat.pow 5 k < 10 ^ (k + 310) := by
    calc x.significand * Nat.pow 5 k
        < 2 * hiddenBit * Nat.pow 5 k :=
        Nat.mul_lt_mul_of_pos_right (significand_lt x) (Nat.pow_pos (by decide))
      _ ≤ 10 ^ 310 * 10 ^ k :=
        Nat.mul_le_mul (by decide +kernel) (Nat.pow_le_pow_left (by decide) k)
      _ = 10 ^ (k + 310) := by rw [← Nat.pow_add, Nat.add_comm]
  -- a power of five with that exponent is not much shorter than the power of ten
  have hlow : 10 ^ (k - 331) ≤ x.significand * Nat.pow 5 k := by
    rcases Nat.lt_or_ge k 331 with h | h
    · have : k - 331 = 0 := by omega
      rw [this]
      exact hpos
    · obtain ⟨j, rfl⟩ : ∃ j, k = j + 331 := ⟨k - 331, by omega⟩
      calc 10 ^ (j + 331 - 331) = 2 ^ j * 5 ^ j := by rw [Nat.add_sub_cancel, ← Nat.mul_pow]
        _ ≤ 5 ^ 331 * 5 ^ j := by
          refine Nat.mul_le_mul_right _ ((Nat.pow_le_pow_right (by decide) ?_).trans
            (show 2 ^ 743 ≤ 5 ^ 331 by decide +kernel))
          omega
        _ = 5 ^ (j + 331) := by rw [← Nat.pow_add, Nat.add_comm]
        _ ≤ x.significand * 5 ^ (j + 331) := Nat.le_mul_of_pos_left _ hsig
  have hlen : (Text.natural (x.significand * Nat.pow 5 k)).length ≤ k + 310 :=
    (Text.length_natural_le (by omega)).mpr hhigh
  have hlen' : k - 331 < (Text.natural (x.significand * Nat.pow 5 k)).length := by
    rcases Nat.eq_zero_or_pos (k - 331) with h | h
    · rw [h]
      exact List.length_pos_iff.mpr (Text.natural_ne_nil _)
    · rw [← Nat.not_le, Text.length_natural_le h]
      omega
  rw [hk]
  refine ofDecimal?_of_value x hpos (by omega) (by omega) (by omega) ?_
  intro _
  have hten : (10 : Nat) ^ k = 5 ^ k * 2 ^ k := by rw [← Nat.mul_pow]
  simp only [ratio, if_neg (show ¬ 0 ≤ x.exponent by omega), hk, Nat.pow_eq, hten, Nat.mul_assoc]

/-- A choice between two neighbours that each pass a test passes it. -/
theorem test_of_choice {test : Nat → Bool} {below n : Nat} {up : Bool}
    (h : (if test below then if test (below + 1) && up then some (below + 1) else some below
      else if test (below + 1) then some (below + 1) else none) = some n) : test n = true := by
  split at h
  · next hbelow =>
      split at h
      · next habove =>
          rw [Bool.and_eq_true] at habove
          cases h
          exact habove.1
      · cases h
        exact hbelow
  · split at h
    · next habove =>
        cases h
        exact habove
    · cases h

/-- A multiple that was found rounds back. -/
theorem ofDecimal?_of_multiple? {x : Binary64} {e : Int} {n : Nat} (h : x.multiple? e = some n) :
    ofDecimal? x.negative n e = some x := by
  have hback : x.readsBack e n = true := test_of_choice h
  rw [readsBack, Option.any_eq_true] at hback
  obtain ⟨y, hy, hm⟩ := hback
  rw [beq_iff_eq] at hm
  rw [ofDecimal?_sign, hy, Option.map_some, withSign]
  congr 1
  cases x
  subst hm
  rfl

end Binary64

/-! ### Rounding a decimal -/

namespace Decimal

/-- The double that the decimal rounds to, with a sign. -/
def round (s : Bool) (d : Decimal) : Option Binary64 :=
  Binary64.ofDecimal? s (Text.digitsValue d.digits) (d.point - d.digits.length)

theorem dropTrailingZeros_ne_nil (ds : List Char) : dropTrailingZeros ds ≠ [] := by
  unfold dropTrailingZeros
  split
  · simp
  · next h => exact h

/-- What is dropped is zeros. -/
theorem exists_dropTrailingZeros (ds : List Char) (h : Text.digitsValue ds ≠ 0) :
    ∃ k, ds = dropTrailingZeros ds ++ List.replicate k '0' := by
  have hsplit : ds = (ds.reverse.dropWhile (· == '0')).reverse ++
      (ds.reverse.takeWhile (· == '0')).reverse := by
    rw [← List.reverse_append, List.takeWhile_append_dropWhile, List.reverse_reverse]
  have hzeros : (ds.reverse.takeWhile (· == '0')).reverse =
      List.replicate (ds.reverse.takeWhile (· == '0')).length '0' := by
    rw [List.eq_replicate_iff]
    refine ⟨List.length_reverse, fun c hc => ?_⟩
    have hall := List.all_eq_true.mp List.all_takeWhile c (List.mem_reverse.mp hc)
    simpa using hall
  refine ⟨(ds.reverse.takeWhile (· == '0')).length, ?_⟩
  rw [← hzeros]
  unfold dropTrailingZeros
  split
  · next hnil =>
      rw [hnil, List.nil_append, hzeros] at hsplit
      have hz := Text.digitsValue_zeros_append (ds.reverse.takeWhile (· == '0')).length []
      rw [List.append_nil, ← hsplit] at hz
      exact absurd hz h
  · exact hsplit

theorem ofScaled_round (s : Bool) (n : Nat) (e : Int) :
    (ofScaled n e).round s = Binary64.ofDecimal? s n e := by
  unfold ofScaled
  split
  · next h =>
      subst h
      simp [round, zero, Text.digitsValue, Text.digitValue, Binary64.ofDecimal?]
  · next h =>
      rw [← Text.digitsValue_natural n] at h
      obtain ⟨k, hk⟩ := exists_dropTrailingZeros (Text.natural n) h
      have hvalue : Text.digitsValue (dropTrailingZeros (Text.natural n)) * 10 ^ k = n := by
        rw [← Text.digitsValue_append_zeros, ← hk, Text.digitsValue_natural]
      have hlen : (Text.natural n).length = (dropTrailingZeros (Text.natural n)).length + k := by
        conv_lhs => rw [hk]
        simp
      have he : ((Text.natural n).length : Int) + e - (dropTrailingZeros (Text.natural n)).length =
          e + k := by omega
      rw [round, he, ← Binary64.ofDecimal?_mul_pow, hvalue]

/-- The shortest decimal of a double was sought among those that round to it. -/
theorem exists_shortest (x : Binary64) (h : x.isZero = false) :
    ∃ n e, x.shortest = ofScaled n e ∧ Binary64.ofDecimal? x.negative n e = some x := by
  have hx : 0 < x.magnitude := by
    simp only [Binary64.isZero, beq_eq_false_iff_ne] at h
    omega
  have hgrid : ∀ (lead : Int) (fuel count : Nat), ∃ n e, x.shortestFrom lead fuel count =
      ofScaled n e ∧ Binary64.ofDecimal? x.negative n e = some x := by
    intro lead fuel
    induction fuel with
    | zero =>
        intro count
        unfold Binary64.shortestFrom
        split
        · next he => exact ⟨_, _, rfl, Binary64.ofDecimal?_integral hx he⟩
        · next he => exact ⟨_, _, rfl, Binary64.ofDecimal?_fraction hx (by omega)⟩
    | succ fuel ih =>
        intro count
        unfold Binary64.shortestFrom
        split
        · next n hn => exact ⟨_, _, rfl, Binary64.ofDecimal?_of_multiple? hn⟩
        · exact ih _
  rw [Binary64.shortest, h]
  exact hgrid _ 17 1

/-- The shortest decimal of a double rounds to it. -/
theorem shortest_round (x : Binary64) : x.shortest.round x.negative = some x := by
  cases h : x.isZero with
  | true =>
      have hm : x.magnitude = 0 := by simpa [Binary64.isZero] using h
      rw [Binary64.shortest, h, ← Binary64.ofMagnitude?_magnitude x, hm]
      rfl
  | false =>
      obtain ⟨n, e, hshortest, hround⟩ := exists_shortest x h
      rw [hshortest, ofScaled_round, hround]

/-! ### Layouts -/

/-- The double that a numeral rounds to. -/
def roundNumeral (n : Numeral) : Option Binary64 := Binary64.ofDecimal? n.negative n.digits n.scale

theorem roundNumeral_point (s : Bool) (whole fraction : List Char) :
    roundNumeral ⟨s, whole, some fraction, none⟩ =
      Binary64.ofDecimal? s (Text.digitsValue (whole ++ fraction)) (-(fraction.length : Int)) := by
  simp [roundNumeral, Numeral.digits, Numeral.scale]

theorem pointNumeral_of_fraction (s : Bool) {d : Decimal} {whole fraction : List Char}
    (h : d.positional = (whole, fraction)) (hne : fraction ≠ []) :
    d.pointNumeral s = ⟨s, whole, some fraction, none⟩ := by
  rw [pointNumeral, h]
  cases fraction with
  | nil => exact absurd rfl hne
  | cons c cs => rfl

theorem pointNumeral_round (s : Bool) {d : Decimal} (h : d.digits ≠ []) :
    roundNumeral (d.pointNumeral s) = d.round s := by
  rw [round]
  by_cases hpoint : d.point ≤ 0
  · have hp : d.positional = (['0'], List.replicate (-d.point).toNat '0' ++ d.digits) := by
      rw [positional, if_pos hpoint]
    rw [pointNumeral_of_fraction s hp (by simp [h]), roundNumeral_point, ← List.append_assoc,
      List.singleton_append, ← List.replicate_succ, Text.digitsValue_zeros_append]
    congr 1
    simp only [List.length_append, List.length_replicate]
    omega
  by_cases hlen : d.digits.length ≤ d.point.toNat
  · have hp : d.positional =
        (d.digits ++ List.replicate (d.point.toNat - d.digits.length) '0', []) := by
      simp only [positional, if_neg hpoint, List.drop_eq_nil_of_le hlen,
        List.take_of_length_le hlen]
    rw [pointNumeral, hp]
    dsimp only
    rw [roundNumeral_point, List.append_assoc, ← List.replicate_succ',
      Text.digitsValue_append_zeros, Binary64.ofDecimal?_mul_pow]
    congr 1
    simp only [List.length_singleton]
    omega
  · have hz : d.point.toNat - d.digits.length = 0 := by omega
    have hp : d.positional = (d.digits.take d.point.toNat, d.digits.drop d.point.toNat) := by
      simp only [positional, if_neg hpoint, hz, List.replicate_zero, List.append_nil]
    have hne : d.digits.drop d.point.toNat ≠ [] := by
      rw [ne_eq, List.drop_eq_nil_iff]
      exact hlen
    rw [pointNumeral_of_fraction s hp hne, roundNumeral_point, List.take_append_drop,
      List.length_drop]
    congr 1
    omega

/-- A JSON spelling rounds like the decimal. -/
theorem jsonNumeral_round (s : Bool) {d : Decimal} (h : d.digits ≠ []) :
    roundNumeral (d.jsonNumeral s) = d.round s := by
  unfold jsonNumeral
  dsimp only
  split
  · exact pointNumeral_round s h
  · have hlen := List.length_pos_iff.mpr h
    have hfraction : (if d.digits.length ≤ 1 then none else some (d.digits.drop 1)).getD [] =
        d.digits.drop 1 := by
      split
      · next hone => rw [List.drop_eq_nil_of_le hone, Option.getD_none]
      · rfl
    rw [roundNumeral, round]
    simp only [Numeral.digits, Numeral.scale, hfraction, List.take_append_drop, List.length_drop,
      Text.digitsValue_natural]
    congr 1
    split
    · rw [if_pos rfl]
      omega
    · rw [if_neg (by decide)]
      omega

theorem jsonNumeral_not_isInteger (s : Bool) (d : Decimal) :
    (d.jsonNumeral s).isInteger = false := by
  unfold jsonNumeral
  dsimp only
  split
  · unfold pointNumeral
    split <;> rfl
  · simp [Numeral.isInteger]

/-! ### Spelling -/

/-- Digits without a zero at the front, or the decimal zero. -/
def Tidy (d : Decimal) : Prop := d = zero ∨ Text.IsRun d.digits ∧ d.digits.head? ≠ some '0'

theorem ofScaled_tidy (n : Nat) (e : Int) : (ofScaled n e).Tidy := by
  unfold ofScaled
  split
  · exact .inl rfl
  · next h =>
      refine .inr ?_
      have hvalue : Text.digitsValue (Text.natural n) ≠ 0 := by
        rw [Text.digitsValue_natural]
        exact h
      obtain ⟨k, hk⟩ := exists_dropTrailingZeros (Text.natural n) hvalue
      have hne := dropTrailingZeros_ne_nil (Text.natural n)
      have hhead := Text.natural_head_ne_zero (n := n) (by omega)
      refine ⟨⟨hne, fun c hc => ?_⟩, ?_⟩
      · refine Text.isDigit_of_mem_natural (n := n) ?_
        rw [hk]
        exact List.mem_append_left _ hc
      · rw [hk] at hhead
        dsimp only
        cases hds : dropTrailingZeros (Text.natural n) with
        | nil => exact absurd hds hne
        | cons d ds =>
            rw [hds] at hhead
            exact hhead

theorem shortest_tidy (x : Binary64) : x.shortest.Tidy := by
  cases h : x.isZero with
  | true =>
      rw [Binary64.shortest, h]
      exact .inl rfl
  | false =>
      obtain ⟨n, e, hshortest, -⟩ := exists_shortest x h
      rw [hshortest]
      exact ofScaled_tidy n e

theorem isRun_digits {d : Decimal} (h : d.Tidy) : Text.IsRun d.digits := by
  rcases h with rfl | h
  · exact ⟨by simp [zero], by simp [zero, Text.isDigit]⟩
  · exact h.1

theorem isRun_zeros_append (k : Nat) {ds : List Char} (h : Text.IsRun ds) :
    Text.IsRun (List.replicate k '0' ++ ds) := by
  refine ⟨by simp [h.ne_nil], fun c hc => ?_⟩
  rw [List.mem_append] at hc
  rcases hc with hc | hc
  · rw [(List.mem_replicate.mp hc).2]
    rfl
  · exact h.digits c hc

theorem isWhole_zeros {d : Decimal} (h : d.Tidy) {n : Nat} (hn : 0 < n) (hpoint : d.point = n) :
    Numeral.IsWhole (d.digits.take n ++ List.replicate (n - d.digits.length) '0') := by
  rcases h with rfl | ⟨⟨hne, hdigits⟩, hhead⟩
  · have : n = 1 := by
      simp only [zero] at hpoint
      omega
    subst this
    exact .inl rfl
  · refine .inr ⟨⟨?_, ?_⟩, ?_⟩
    · simp only [ne_eq, List.append_eq_nil_iff, List.take_eq_nil_iff, hne, or_false, not_and]
      omega
    · intro c hc
      rw [List.mem_append] at hc
      rcases hc with hc | hc
      · exact hdigits c (List.mem_of_mem_take hc)
      · rw [(List.mem_replicate.mp hc).2]
        rfl
    · obtain ⟨c, cs, hds⟩ := List.exists_cons_of_ne_nil hne
      obtain ⟨m, rfl⟩ : ∃ m, n = m + 1 := ⟨n - 1, by omega⟩
      rw [hds] at hhead ⊢
      exact hhead

/-- A numeral without exponent. -/
theorem wellSpelled_point (s : Bool) {whole fraction : List Char} (hw : Numeral.IsWhole whole)
    (hf : Text.IsRun fraction) : Numeral.WellSpelled ⟨s, whole, some fraction, none⟩ where
  whole := hw
  fraction ds h := by
    cases h
    exact hf
  exponent mark sign ds h := by cases h

theorem pointNumeral_wellSpelled (s : Bool) {d : Decimal} (h : d.Tidy) :
    (d.pointNumeral s).WellSpelled := by
  have hrun := isRun_digits h
  by_cases hpoint : d.point ≤ 0
  · have hp : d.positional = (['0'], List.replicate (-d.point).toNat '0' ++ d.digits) := by
      rw [positional, if_pos hpoint]
    rw [pointNumeral_of_fraction s hp (by simp [hrun.ne_nil])]
    exact wellSpelled_point s (.inl rfl) (isRun_zeros_append _ hrun)
  · have hwhole := isWhole_zeros h (n := d.point.toNat) (by omega) (by omega)
    have hp : d.positional = (d.digits.take d.point.toNat ++
        List.replicate (d.point.toNat - d.digits.length) '0', d.digits.drop d.point.toNat) := by
      rw [positional, if_neg hpoint]
    by_cases hdrop : d.digits.drop d.point.toNat = []
    · rw [pointNumeral, hp, hdrop]
      exact wellSpelled_point s hwhole Text.isRun_zero
    · rw [pointNumeral_of_fraction s hp hdrop]
      exact wellSpelled_point s hwhole
        ⟨hdrop, fun c hc => hrun.digits c (List.mem_of_mem_drop hc)⟩

theorem isRun_drop {ds : List Char} (h : Text.IsRun ds) {k : Nat} (hk : k < ds.length) :
    Text.IsRun (ds.drop k) :=
  ⟨fun hnil => by rw [List.drop_eq_nil_iff] at hnil; omega,
    fun c hc => h.digits c (List.mem_of_mem_drop hc)⟩

theorem isRun_padded (width n : Nat) : Text.IsRun (Text.padded width n) :=
  ⟨by simp [Text.padded, Text.natural_ne_nil], fun _ hc => Text.isDigit_of_mem_padded hc⟩

/-- A numeral with exponent. -/
theorem wellSpelled_scientific (s : Bool) {d : Decimal} (h : d.Tidy)
    {fraction : Option (List Char)} (hfraction : ∀ ds, fraction = some ds → Text.IsRun ds)
    {sign : Char} (hsign : sign = '+' ∨ sign = '-') {exponent : List Char}
    (hexponent : Text.IsRun exponent) :
    Numeral.WellSpelled ⟨s, d.digits.take 1, fraction, some ('e', some sign, exponent)⟩ where
  whole := by
    have hrun := isRun_digits h
    obtain ⟨c, cs, hds⟩ := List.exists_cons_of_ne_nil hrun.ne_nil
    rw [hds]
    by_cases hc : c = '0'
    · exact .inl (by rw [hc]; rfl)
    · refine .inr ⟨⟨by simp, ?_⟩, by simpa using hc⟩
      intro e he
      rw [List.take_succ_cons, List.take_zero, List.mem_singleton] at he
      rw [he]
      exact hrun.digits c (by rw [hds]; exact List.mem_cons_self)
  fraction := hfraction
  exponent mark sign' ds hexp := by
    cases hexp
    refine ⟨.inl rfl, ?_, hexponent⟩
    rcases hsign with rfl | rfl
    · exact .inr (.inl rfl)
    · exact .inr (.inr rfl)

theorem sign_or (negative : Prop) [Decidable negative] :
    (if negative then '-' else '+') = '+' ∨ (if negative then '-' else '+') = '-' := by
  split
  · exact .inr rfl
  · exact .inl rfl

theorem jsonNumeral_wellSpelled (s : Bool) {d : Decimal} (h : d.Tidy) :
    (d.jsonNumeral s).WellSpelled := by
  unfold jsonNumeral
  dsimp only
  split
  · exact pointNumeral_wellSpelled s h
  · refine wellSpelled_scientific s h (fun ds hds => ?_) (sign_or _) (Text.isRun_natural _)
    split at hds
    · cases hds
    · cases hds
      exact isRun_drop (isRun_digits h) (by omega)

theorem columnNumeral_wellSpelled (s : Bool) {d : Decimal} (h : d.Tidy) :
    (d.columnNumeral s).WellSpelled := by
  unfold columnNumeral
  dsimp only
  split
  · exact pointNumeral_wellSpelled s h
  · refine wellSpelled_scientific s h (fun ds hds => ?_) (sign_or _) (isRun_padded _ _)
    cases hds
    split
    · exact Text.isRun_zero
    · exact isRun_drop (isRun_digits h) (by omega)

end Decimal

/-- The spelling of a double follows the grammar. -/
theorem Binary64.jsonNumeral_wellSpelled (x : Binary64) : x.jsonNumeral.WellSpelled :=
  Decimal.jsonNumeral_wellSpelled _ (Decimal.shortest_tidy x)

/-- The spelling of a double rounds to the double. -/
theorem Binary64.jsonNumeral_round (x : Binary64) : Decimal.roundNumeral x.jsonNumeral = some x := by
  rw [Binary64.jsonNumeral,
    Decimal.jsonNumeral_round _ (Decimal.isRun_digits (Decimal.shortest_tidy x)).ne_nil,
    Decimal.shortest_round]

end EntityStore
