import EntityStore.Proofs.Binary64.Nearest
import EntityStore.Proofs.Json.ReadBack
import EntityStore.Sql.Eval
import Mathlib.Algebra.Order.Ring.Cast
import Mathlib.Order.WithBot

/-! # Numbers in the database

A number of the database is an integer of 64 bits or a real, and a real may be infinite, so numbers
have their place in `Extended`.  A JSON number is bound as `Number.bound`: exactly, if it is an
integer of 64 bits with sign, and as the nearest double if it is not.  A stored one is read from its
spelling, and then it is `Number.stored`: the same for integers of 64 bits (`stored_integer`), and
otherwise what `Real.ofNumeral` makes of the spelling, which is not always the nearest double.
Numbers are compared by exact value, whatever form they have (`Value.compare?_number`). -/

namespace EntityStore

/-- The number that is bound for a JSON number. -/
def Number.bound : Number → ℚ
  | .integer i => if isSigned64 i then i else (Binary64.ofInt i).value
  | .float x => x.value

theorem Number.bound_integer {i : Int} (h : isSigned64 i = true) : (Number.integer i).bound = i :=
  if_pos h

namespace Sql

/-- The rational numbers and two infinities. -/
abbrev Extended := WithBot (WithTop ℚ)

/-- A rational number as an extended one. -/
def extend (a : ℚ) : Extended := ((a : WithTop ℚ) : WithBot (WithTop ℚ))

theorem strictMono_extend : StrictMono extend :=
  WithBot.coe_strictMono.comp WithTop.coe_strictMono

theorem extend_lt_top (a : ℚ) : extend a < ⊤ := WithBot.coe_lt_coe.mpr (WithTop.coe_lt_top a)

theorem bot_lt_extend (a : ℚ) : ⊥ < extend a := WithBot.bot_lt_coe _

/-! ### Values of reals -/

/-- What a real stands for. -/
def Real.value : Real → Extended
  | .finite x => extend x.value
  | .infinite false => ⊤
  | .infinite true => ⊥

theorem Real.compare_eq_cmp (x y : Real) : x.compare y = cmp x.value y.value := by
  cases x with
  | finite x =>
      cases y with
      | finite y => rw [compare, Binary64.compare_eq_cmp, value, value, strictMono_extend.cmp_map_eq]
      | infinite negative =>
          cases negative with
          | false => exact (extend_lt_top x.value).cmp_eq_lt.symm
          | true => exact (bot_lt_extend x.value).cmp_eq_gt.symm
  | infinite negative =>
      cases y with
      | finite y =>
          cases negative with
          | false => exact (extend_lt_top y.value).cmp_eq_gt.symm
          | true => exact (bot_lt_extend y.value).cmp_eq_lt.symm
      | infinite negative' =>
          have hlt : (⊥ : Extended) < ⊤ := bot_lt_top
          cases negative with
          | false =>
              cases negative' with
              | false => exact (cmp_self_eq_eq _).symm
              | true => exact hlt.cmp_eq_gt.symm
          | true =>
              cases negative' with
              | false => exact hlt.cmp_eq_lt.symm
              | true => exact (cmp_self_eq_eq _).symm

theorem Real.compareInt_eq_cmp (x : Real) (i : Int) :
    x.compareInt i = cmp x.value (extend i) := by
  cases x with
  | finite x => rw [compareInt, Binary64.compareInt_eq_cmp, value, strictMono_extend.cmp_map_eq]
  | infinite negative =>
      cases negative with
      | false => exact (extend_lt_top i).cmp_eq_gt.symm
      | true => exact (bot_lt_extend i).cmp_eq_lt.symm

/-! ### Values that are numbers -/

/-- What a value stands for that is a number. -/
def Value.number? : Value → Option Extended
  | .integer i => some (extend i)
  | .real x => some x.value
  | .null | .text _ => none

/-- Numbers are compared by exact value. -/
theorem Value.compare?_number {x y : Value} {a b : Extended} (hx : x.number? = some a)
    (hy : y.number? = some b) : x.compare? y = some (cmp a b) := by
  cases x with
  | null | text cs => cases hx
  | integer i =>
      cases hx
      cases y with
      | null | text cs => cases hy
      | integer j =>
          cases hy
          rw [compare?, strictMono_extend.cmp_map_eq, Int.cast_strictMono.cmp_map_eq,
            cmp_eq_compare]
      | real y =>
          cases hy
          rw [compare?, Real.compareInt_eq_cmp, cmp_swap]
  | real x =>
      cases hx
      cases y with
      | null | text cs => cases hy
      | integer j =>
          cases hy
          rw [compare?, Real.compareInt_eq_cmp]
      | real y =>
          cases hy
          rw [compare?, Real.compare_eq_cmp]

/-- Numbers are equal by exact value. -/
theorem equal_test_number {x y : Value} {a b : Extended} (hx : x.number? = some a)
    (hy : y.number? = some b) : Relation.equal.test x y = some true ↔ a = b := by
  rw [Relation.test, Value.compare?_number hx hy, Option.map_some, Option.some_inj,
    ← cmp_eq_eq_iff a b]
  cases cmp a b <;> simp

end Sql

/-- The relation that a comparison asks for. -/
def Query.Comparison.Relates {α : Type} [LT α] [LE α] (relation : Query.Comparison) (a b : α) :
    Prop :=
  match relation with
  | .greater => b < a
  | .greaterEqual => b ≤ a
  | .less => a < b
  | .lessEqual => a ≤ b

namespace Sql

/-- Numbers stand in a relation by exact value. -/
theorem order_test_number {x y : Value} {a b : Extended} (hx : x.number? = some a)
    (hy : y.number? = some b) (relation : Query.Comparison) :
    (Relation.order relation).test x y = some true ↔ relation.Relates a b := by
  rw [Relation.test, Value.compare?_number hx hy, Option.map_some, Option.some_inj]
  cases relation with
  | greater =>
      rw [Query.Comparison.Relates, ← cmp_eq_gt_iff]
      cases cmp a b <;> simp
  | less =>
      rw [Query.Comparison.Relates, ← cmp_eq_lt_iff]
      cases cmp a b <;> simp
  | greaterEqual =>
      rw [Query.Comparison.Relates, ← not_lt, ← cmp_eq_lt_iff]
      cases cmp a b <;> simp
  | lessEqual =>
      rw [Query.Comparison.Relates, ← not_lt, ← cmp_eq_gt_iff]
      cases cmp a b <;> simp

theorem ofNumber_number? (n : Number) :
    (Param.ofNumber n).value.number? = some (extend n.bound) := by
  cases n with
  | float x => rfl
  | integer i =>
      rw [Param.ofNumber, Number.bound]
      cases isSigned64 i <;> rfl

end Sql

/-- The number that the database reads where a JSON number is stored. -/
def Number.stored : Number → Sql.Extended
  | .integer i =>
    if isSigned64 i then Sql.extend i else (Sql.Real.ofNumeral (Number.integer i).numeral).value
  | .float x => (Sql.Real.ofNumeral x.jsonNumeral).value

/-- An integer of 64 bits is stored as it is bound. -/
theorem Number.stored_integer {i : Int} (h : isSigned64 i = true) :
    (Number.integer i).stored = Sql.extend (Number.integer i).bound := by
  rw [Number.bound_integer h]
  exact if_pos h

namespace Sql

/-- The spelling of a double is read as a real. -/
theorem numeralValue_float (x : Binary64) :
    numeralValue x.jsonNumeral = .real (.ofNumeral x.jsonNumeral) := by
  rw [numeralValue, show x.jsonNumeral.isInteger = false from
    Decimal.jsonNumeral_not_isInteger x.negative x.shortest]
  rfl

/-- The spelling of an integer is read as an integer if that fits, and as a real if it does not. -/
theorem numeralValue_integer (i : Int) :
    numeralValue (Number.integer i).numeral =
      if isSigned64 i then .integer i else .real (.ofNumeral (Number.integer i).numeral) := by
  have hinteger : (Number.numeral (.integer i)).isInteger = true := rfl
  have hnegative : (Number.numeral (.integer i)).negative = decide (i < 0) := rfl
  rw [numeralValue, Number.digits_integer, hinteger, hnegative, Number.signed_natAbs, Bool.true_and]

/-- What is read where a number is stored. -/
theorem numeralValue_number? (n : Number) : (numeralValue n.numeral).number? = some n.stored := by
  cases n with
  | float x =>
      rw [Number.numeral, numeralValue_float]
      rfl
  | integer i =>
      rw [numeralValue_integer, Number.stored]
      cases isSigned64 i <;> rfl

/-! ### Doubles of large integers -/

/-- An integer of 64 bits without sign rounds to a finite double. -/
theorem roundRatio_lt {n : Nat} (hlow : signedBound ≤ n) (hhigh : n < unsignedBound) :
    Binary64.roundRatio n 1 < infiniteMagnitude := by
  have hquotient : Binary64.quotientAt n 1 11 = n / 2048 := by
    rw [Binary64.quotientAt, if_pos (by decide), Nat.one_mul]
    rfl
  have hscale : Binary64.IsScale n 1 11 := by
    refine ⟨by decide, ?_, .inr ?_⟩
    · rw [hquotient, hiddenBit]
      rw [unsignedBound] at hhigh
      omega
    · rw [hquotient, hiddenBit]
      rw [signedBound] at hlow
      omega
  have hrounded : Binary64.roundedAt n 1 11 ≤ n / 2048 + 1 := by
    rw [Binary64.roundedAt, if_pos (by decide), Nat.one_mul]
    change Binary64.divNearestEven n 2048 ≤ n / 2048 + 1
    rcases Binary64.divNearestEven_cases n 2048 with ⟨heq, -⟩ | ⟨heq, -⟩ <;> omega
  rw [Binary64.roundRatio_of_isScale (by rw [signedBound] at hlow; omega) Nat.one_pos hscale,
    infiniteMagnitude, hiddenBit]
  rw [unsignedBound] at hhigh
  have htoNat : ((11 : Int) + 1074).toNat = 1085 := rfl
  omega

theorem ofRatio?_integer (i : Int) (hlow : signedBound ≤ i) (hhigh : i < unsignedBound) :
    Binary64.ofRatio? false i.natAbs 1 = some (.ofInt i) := by
  have hround := roundRatio_lt (n := i.natAbs) (by omega) (by omega)
  have hsign : decide (i < 0) = false := decide_eq_false (by omega)
  rw [Binary64.ofInt, hsign, Binary64.ofRatio?, Binary64.ofMagnitude?, dif_pos hround]
  rfl

theorem ofDecimal?_integer (i : Int) (hlow : signedBound ≤ i) (hhigh : i < unsignedBound) :
    Binary64.ofDecimal? false i.natAbs 0 = some (.ofInt i) := by
  have hne : i.natAbs ≠ 0 := by
    rw [signedBound] at hlow
    omega
  have hlength : (Nat.toDigits 10 i.natAbs).length ≤ 20 :=
    Nat.length_toDigits_le_iff (by decide) (by decide) |>.mpr (by rw [unsignedBound] at hhigh; omega)
  rw [Binary64.ofDecimal?, if_neg hne]
  dsimp only
  rw [if_neg (by omega), if_neg (by omega), if_pos (Int.le_refl 0)]
  change Binary64.ofRatio? false (i.natAbs * 1) 1 = _
  rw [Nat.mul_one, ofRatio?_integer i hlow hhigh]

end Sql
end EntityStore
