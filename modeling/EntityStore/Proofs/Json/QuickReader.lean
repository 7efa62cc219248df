import EntityStore.Proofs.Json.ReadBack

/-! # Quick reading of short numbers

Quick reading rounds in two places: where the digits become a double, and where this is multiplied or
divided by a power of ten.  If the digits make an integer of fifty-three bits and the power of ten is
not above the twenty-second, both of them are doubles.  Then only the product or the quotient is
rounded, so what is read is the nearest double (`FloatReader.magnitude?_of_short`).

So values whose doubles are all that short read back with a quick reader too
(`Json.readsBack_quick`). -/

namespace EntityStore

/-! ### Integers that are doubles -/

namespace Binary64

/-- The double with a pattern that has its leading bit. -/
theorem significand_exponent_of_pattern {x : Binary64} {q r : Nat} (hq : 0 < q) (hr : r < hiddenBit)
    (h : x.magnitude = q * hiddenBit + r) :
    x.significand = hiddenBit + r ∧ x.exponent = (q : Int) - 1075 := by
  have hpos : 0 < hiddenBit := by decide
  have hnormal : ¬ x.magnitude < hiddenBit := by
    have hone : 1 * hiddenBit ≤ q * hiddenBit := Nat.mul_le_mul_right _ hq
    omega
  rw [significand, exponent, if_neg hnormal, if_neg hnormal, h, Nat.mul_comm q, Nat.mul_add_mod,
    Nat.mod_eq_of_lt hr, Nat.mul_add_div hpos, Nat.div_eq_of_lt hr, Nat.add_zero, Nat.add_comm r]
  exact ⟨rfl, rfl⟩

/-- The bits of an integer of at most fifty-three bits are moved up until the leading one is the
hidden one. -/
theorem exists_shift {n : Nat} (hpos : 0 < n) (h : n < 2 * hiddenBit) :
    ∃ k r, k ≤ 52 ∧ r < hiddenBit ∧ n * 2 ^ k = hiddenBit + r := by
  obtain ⟨hlow, hhigh⟩ := log2_bounds hpos
  have hlog : n.log2 ≤ 52 := by
    by_contra hlarge
    have hpow : 2 ^ 53 ≤ 2 ^ n.log2 := Nat.pow_le_pow_right (by decide) (by omega)
    rw [hiddenBit] at h
    omega
  obtain ⟨k, hk⟩ := Nat.exists_eq_add_of_le hlog
  have hbit : hiddenBit = 2 ^ n.log2 * 2 ^ k := by
    rw [← Nat.pow_add, ← hk]
    rfl
  have hle : hiddenBit ≤ n * 2 ^ k := by
    rw [hbit]
    exact Nat.mul_le_mul_right _ hlow
  have hlt : n * 2 ^ k < 2 * hiddenBit := by
    rw [hbit, ← Nat.mul_assoc, ← Nat.pow_succ']
    exact Nat.mul_lt_mul_of_pos_right hhigh (Nat.two_pow_pos k)
  obtain ⟨r, hr⟩ := Nat.exists_eq_add_of_le hle
  exact ⟨k, r, by omega, by omega, hr⟩

/-- A positive integer of at most fifty-three bits is a double. -/
theorem exists_of_integer {n : Nat} (hpos : 0 < n) (h : n < 2 * hiddenBit) :
    ∃ x : Binary64, x.negative = false ∧ x.ratio.1 = n * x.ratio.2 := by
  obtain ⟨k, r, hk, hr, hshift⟩ := exists_shift hpos h
  have hfinite : (1075 - k) * hiddenBit + r < infiniteMagnitude := by
    have hle : (1075 - k) * hiddenBit ≤ 1075 * hiddenBit := Nat.mul_le_mul_right _ (by omega)
    rw [infiniteMagnitude]
    omega
  let x : Binary64 := ⟨false, (1075 - k) * hiddenBit + r, hfinite⟩
  obtain ⟨hsignificand, hexponent⟩ :=
    significand_exponent_of_pattern (x := x) (q := 1075 - k) (by omega) hr rfl
  have hexponent' : x.exponent = -(k : Int) := by omega
  refine ⟨x, rfl, ?_⟩
  rw [ratio, hsignificand, hexponent', ← hshift]
  split
  · next hzero =>
      obtain rfl : k = 0 := by omega
      change n * 1 * 1 = n * 1
      rw [Nat.mul_one]
  · rw [Int.neg_neg, Int.toNat_natCast]
    rfl

theorem ratio_ofInt {n : Nat} (h : n < 2 * hiddenBit) :
    (ofInt n).ratio.1 = n * (ofInt n).ratio.2 := by
  rcases Nat.eq_zero_or_pos n with rfl | hpos
  · decide +kernel
  obtain ⟨x, hsign, hx⟩ := exists_of_integer hpos h
  have hcross : n * x.ratio.2 = x.ratio.1 * 1 := by rw [hx, Nat.mul_one]
  have hround : ofRatio? false n 1 = some x := by
    rw [ofRatio?_eq_of_cross false Nat.one_pos (ratio_snd_pos x) hcross, ofRatio?, roundRatio_ratio,
      ← hsign, ofMagnitude?_magnitude]
  have hnegative : decide ((n : Int) < 0) = false := decide_eq_false (by omega)
  rw [ofInt, hnegative, Int.natAbs_natCast, hround]
  exact hx

end Binary64

/-! ### Quick reading -/

namespace FloatReader

open Binary64 (ratio_ofInt ratio_snd_pos ofRatio?_eq_of_cross ten_pow_pos)

/-- The powers of ten up to the twenty-second are doubles. -/
theorem ratio_powerOfTen : ∀ k < 23,
    (powerOfTen k).ratio.1 = 10 ^ k * (powerOfTen k).ratio.2 := by
  decide +kernel

variable {x y : Binary64} {a b : Nat}

theorem times?_integers (hx : x.ratio.1 = a * x.ratio.2) (hy : y.ratio.1 = b * y.ratio.2) :
    times? x y = Binary64.ofRatio? false (a * b) 1 := by
  refine ofRatio?_eq_of_cross false (Nat.mul_pos (ratio_snd_pos x) (ratio_snd_pos y)) Nat.one_pos ?_
  rw [hx, hy, Nat.mul_one]
  ac_rfl

theorem over?_integers (hb : 0 < b) (hx : x.ratio.1 = a * x.ratio.2)
    (hy : y.ratio.1 = b * y.ratio.2) : over? x y = Binary64.ofRatio? false a b := by
  have hpos : 0 < x.ratio.2 * y.ratio.1 := by
    rw [hy]
    exact Nat.mul_pos (ratio_snd_pos x) (Nat.mul_pos hb (ratio_snd_pos y))
  refine ofRatio?_eq_of_cross false hpos hb ?_
  rw [hx, hy]
  ac_rfl

/-- An integer of fifty-three bits times a small power of ten is rounded once. -/
theorem scale?_of_short {n : Nat} (hn : n < 2 * hiddenBit) {e : Int} (he : e.natAbs < 23) (fuel : Nat) :
    scale? (fuel + 1) (.ofInt n) e = Binary64.ofDecimal? false n e := by
  have hinteger := ratio_ofInt hn
  have hpower := ratio_powerOfTen e.natAbs he
  rw [scale?, if_pos (by rw [maxExponent]; omega), times?_integers hinteger hpower,
    over?_integers (ten_pow_pos _) hinteger hpower]
  rcases Nat.eq_zero_or_pos n with rfl | hpos
  · rw [Nat.zero_mul]
    split <;> rfl
  · have hlength : (Text.natural n).length ≤ 16 := by
      rw [Text.length_natural_le (by decide)]
      rw [hiddenBit] at hn
      omega
    rw [Binary64.ofDecimal?_eq false hpos,
      if_neg (show ¬ 310 < ((Text.natural n).length : Int) + e by omega),
      if_neg (show ¬ ((Text.natural n).length : Int) + e < -330 by omega)]
    by_cases hsign : 0 ≤ e
    · have hnat : e.natAbs = e.toNat := by omega
      rw [if_pos hsign, if_pos hsign, hnat, Nat.pow_eq]
    · have hnat : e.natAbs = (-e).toNat := by omega
      rw [if_neg hsign, if_neg hsign, hnat]

/-- Digits are all taken as long as their value fits 64 bits. -/
theorem take_of_lt : ∀ (ds : List Char) {m : Nat},
    m * 10 ^ ds.length + Text.digitsValue ds < unsignedBound →
      take m ds = (m * 10 ^ ds.length + Text.digitsValue ds, 0)
  | [], m, _ => by rw [take, List.length_nil, Nat.pow_zero, Nat.mul_one]; rfl
  | d :: ds, m, h => by
      have hvalue : m * 10 ^ (d :: ds).length + Text.digitsValue (d :: ds) =
          (m * 10 + Text.digitValue d) * 10 ^ ds.length + Text.digitsValue ds := by
        rw [Text.digitsValue_cons, List.length_cons, Nat.pow_succ', ← Nat.mul_assoc, Nat.add_mul,
          Nat.add_assoc]
      rw [hvalue] at h ⊢
      have hnext : m * 10 + Text.digitValue d < unsignedBound := by
        have hle := Nat.le_mul_of_pos_right (m * 10 + Text.digitValue d)
          (Nat.pow_pos (n := ds.length) (by decide : 0 < 10))
        omega
      rw [take, if_pos hnext]
      exact take_of_lt ds h

theorem parts_of_lt {n : Numeral} (h : n.digits < unsignedBound) : parts n = (n.digits, n.scale) := by
  have hdigits : n.digits = Text.digitsValue n.whole * 10 ^ (n.fraction.getD []).length +
      Text.digitsValue (n.fraction.getD []) := by
    rw [Numeral.digits, Text.digitsValue, List.foldl_append, Text.foldl_digitValue]
    rfl
  have hwhole : Text.digitsValue n.whole < unsignedBound := by
    have hle := Nat.le_mul_of_pos_right (Text.digitsValue n.whole)
      (Nat.pow_pos (n := (n.fraction.getD []).length) (by decide : 0 < 10))
    omega
  have htaken : take 0 n.whole = (Text.digitsValue n.whole, 0) := by
    rw [take_of_lt n.whole (by rwa [Nat.zero_mul, Nat.zero_add]), Nat.zero_mul, Nat.zero_add]
  have hfraction := take_of_lt (n.fraction.getD []) (hdigits ▸ h)
  rw [← hdigits] at hfraction
  simp only [parts, htaken, hfraction]
  rw [Int.natCast_zero, Int.add_zero, Int.add_zero]

end FloatReader

/-- A numeral is short if its digits are an integer of fifty-three bits and its power of ten is not
above the twenty-second. -/
structure Numeral.Short (n : Numeral) : Prop where
  digits : n.digits < 2 * hiddenBit
  scale : n.scale.natAbs < 23

instance (n : Numeral) : Decidable n.Short :=
  decidable_of_iff (n.digits < 2 * hiddenBit ∧ n.scale.natAbs < 23)
    ⟨fun h => ⟨h.1, h.2⟩, fun h => ⟨h.digits, h.scale⟩⟩

namespace FloatReader

/-- Of a short numeral the nearest double is read. -/
theorem magnitude?_of_short {n : Numeral} (h : n.Short) :
    magnitude? n = Binary64.ofDecimal? false n.digits n.scale := by
  have hdigits : n.digits < unsignedBound := Nat.lt_trans h.digits (by decide)
  rw [magnitude?, parts_of_lt hdigits]
  exact scale?_of_short h.digits h.scale 2

/-- Of a short numeral a quick reader reads what any other one does. -/
theorem quick_read_of_short {n : Numeral} {nearest : Binary64} (h : n.Short)
    (hnearest : Binary64.ofDecimal? n.negative n.digits n.scale = some nearest) :
    quick.read n nearest = nearest := by
  rw [Binary64.ofDecimal?_sign, ← magnitude?_of_short h] at hnearest
  obtain ⟨x, hx, rfl⟩ := Option.map_eq_some_iff.mp hnearest
  unfold quick
  dsimp only
  rw [hx]
  rfl

end FloatReader

/-! ### Values -/

/-- Doubles with a short spelling are read as they were written. -/
def FloatReader.ReadsShort [FloatReader] : Prop :=
  ∀ x : Binary64, x.jsonNumeral.Short → x.reread = x

theorem FloatReader.readsShort_quick : @ReadsShort .quick := fun x h =>
  quick_read_of_short h (Binary64.jsonNumeral_round x)

/-- `19.99` is short. -/
example : (Binary64.jsonNumeral ⟨false, 0x4033FD70A3D70A3D, by decide⟩).Short := by decide +kernel

namespace Json

mutual
/-- All doubles in the value have a short spelling. -/
def ShortDoubles : Json → Prop
  | .number (.float x) => x.jsonNumeral.Short
  | .array items => ShortDoublesItems items
  | .object fields => ShortDoublesFields fields
  | _ => True

def ShortDoublesItems : List Json → Prop
  | [] => True
  | j :: rest => ShortDoubles j ∧ ShortDoublesItems rest

def ShortDoublesFields : List (String × Json) → Prop
  | [] => True
  | (_, j) :: rest => ShortDoubles j ∧ ShortDoublesFields rest
end

mutual
theorem reread_of_short [FloatReader] (hread : FloatReader.ReadsShort) :
    ∀ j : Json, j.ShortDoubles → j.reread = j
  | .null, _ | .bool _, _ | .string _, _ | .number (.integer _), _ => rfl
  | .number (.float x), h => by rw [reread, Number.reread, hread x h]
  | .array items, h => by rw [reread, rereadItems_of_short hread items h]
  | .object fields, h => by rw [reread, rereadFields_of_short hread fields h]

theorem rereadItems_of_short [FloatReader] (hread : FloatReader.ReadsShort) :
    ∀ items : List Json, ShortDoublesItems items → rereadItems items = items
  | [], _ => rfl
  | j :: rest, h => by
      rw [rereadItems, reread_of_short hread j h.1, rereadItems_of_short hread rest h.2]

theorem rereadFields_of_short [FloatReader] (hread : FloatReader.ReadsShort) :
    ∀ fields : List (String × Json), ShortDoublesFields fields → rereadFields fields = fields
  | [], _ => rfl
  | (_, j) :: rest, h => by
      rw [rereadFields, reread_of_short hread j h.1, rereadFields_of_short hread rest h.2]
end

/-- A quick reader gives back every value whose doubles are short. -/
theorem readsBack_quick {j : Json} (h : j.ShortDoubles) : @ReadsBack .quick j :=
  @reread_of_short .quick FloatReader.readsShort_quick j h

end Json
end EntityStore
