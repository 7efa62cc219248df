import EntityStore.Proofs.Binary64.Nearest
import EntityStore.Proofs.Json.Text
import EntityStore.Proofs.Query.Literals
import EntityStore.Proofs.Query.Placeholders
import EntityStore.Proofs.Sql.Number

/-! # Numbers and their texts as operands

The JSON text of a number, with any white space around it, is an operand that is bound like the
number itself (`operand?_text`): an integer of 64 bits with sign as that integer, any other number as
its nearest double.  So a comparison with the text compiles exactly if the comparison with the number
does, and then to the same statement (`comparison_text_eq`). -/

namespace EntityStore

/-! ### White space around a text -/

namespace Text

theorem dropWhile_isBlank_eq_self {cs : List Char} (h : ∀ c ∈ cs, isBlank c = false) :
    cs.dropWhile isBlank = cs := by
  cases cs with
  | nil => rfl
  | cons c rest => rw [List.dropWhile_cons, if_neg (by rw [h c List.mem_cons_self]; decide)]

/-- A text without white space is what is left when white space around it is trimmed. -/
theorem trimList_padded {before cs after : List Char} (hbefore : ∀ c ∈ before, isBlank c = true)
    (hcs : ∀ c ∈ cs, isBlank c = false) (hafter : ∀ c ∈ after, isBlank c = true) :
    trimList (before ++ cs ++ after) = cs := by
  cases cs with
  | nil =>
      rw [trimList_eq_nil_iff, List.append_nil, List.all_append, Bool.and_eq_true,
        List.all_eq_true, List.all_eq_true]
      exact ⟨hbefore, hafter⟩
  | cons c rest =>
      have hfront : (before ++ c :: rest ++ after).dropWhile isBlank = c :: rest ++ after := by
        rw [List.append_assoc, List.dropWhile_append_of_pos hbefore, List.cons_append,
          List.dropWhile_cons, if_neg (by rw [hcs c List.mem_cons_self]; decide)]
      rw [trimList, hfront, List.reverse_append,
        List.dropWhile_append_of_pos fun d hd => hafter d (List.mem_reverse.mp hd),
        dropWhile_isBlank_eq_self fun d hd => hcs d (List.mem_reverse.mp hd), List.reverse_reverse]

theorem isBlank_of_isDigit {c : Char} (h : isDigit c = true) : isBlank c = false := by
  obtain ⟨hlow, hhigh⟩ := isDigit_iff.mp h
  simp only [isBlank, Bool.or_eq_false_iff, Bool.and_eq_false_iff, decide_eq_false_iff_not,
    beq_eq_false_iff_ne]
  omega

end Text

/-! ### Numerals as literals -/

namespace Numeral

theorem isBlank_of_mem_text {n : Numeral} (h : n.WellSpelled) :
    ∀ c ∈ n.text, Text.isBlank c = false := by
  intro c hc
  rcases mem_text h hc with hdigit | rfl | rfl | rfl | rfl | rfl
  · exact Text.isBlank_of_isDigit hdigit
  all_goals decide

end Numeral

namespace Query

open Sql (Param)

theorem sign_text (negative : Bool) : Sign (if negative then ['-'] else []) negative := by
  cases negative with
  | false => exact .none
  | true => exact .minus

/-- The text of a numeral as a sign, a mantissa and an exponent. -/
theorem text_parts (n : Numeral) : n.text = (if n.negative then ['-'] else []) ++
    ((n.whole ++ Numeral.fractionText n.fraction) ++ Numeral.exponentText n.exponent) := by
  rw [← List.append_nil n.text, Numeral.text_eq, List.append_nil, List.append_assoc n.whole]

/-- An integer is spelled by an integer literal. -/
theorem integerLiteral_text {n : Numeral} (h : n.WellSpelled) (hinteger : n.isInteger = true) :
    IntegerLiteral n.text (signed n.negative n.digits) := by
  rw [Numeral.isInteger, Bool.and_eq_true, Option.isNone_iff_eq_none, Option.isNone_iff_eq_none]
    at hinteger
  rw [text_parts, Numeral.digits, hinteger.1, hinteger.2, Numeral.fractionText,
    Numeral.exponentText, List.append_nil, List.append_nil, Option.getD_none, List.append_nil]
  exact .intro (sign_text n.negative) (Numeral.isRun_whole h.whole)

theorem IntegerLiteral.eq_signed {cs : List Char} {i : Int} (h : IntegerLiteral cs i) :
    i = signed (takeSign cs).1 (Text.digitsValue (takeSign cs).2) := by
  obtain ⟨hsign, hrun⟩ := h
  rw [takeSign_sign hsign (unsigned_run hrun)]

/-- A literal has one value. -/
theorem IntegerLiteral.unique {cs : List Char} {i j : Int} (hi : IntegerLiteral cs i)
    (hj : IntegerLiteral cs j) : i = j := hi.eq_signed.trans hj.eq_signed.symm

theorem mem_integerLiteral {cs : List Char} {i : Int} (h : IntegerLiteral cs i) {c : Char}
    (hc : c ∈ cs) : Text.isDigit c = true ∨ c = '+' ∨ c = '-' := by
  obtain ⟨hsign, hrun⟩ := h
  rcases List.mem_append.mp hc with hc | hc
  · cases hsign with
    | none => cases hc
    | plus => exact .inr (.inl (List.mem_singleton.mp hc))
    | minus => exact .inr (.inr (List.mem_singleton.mp hc))
  · exact .inl (hrun.digits c hc)

/-- A numeral with a point or an exponent is no integer literal. -/
theorem not_integerLiteral_text {n : Numeral} (h : n.WellSpelled) (hinteger : n.isInteger = false)
    (i : Int) : ¬ IntegerLiteral n.text i := by
  obtain ⟨c, hc, hmark⟩ : ∃ c ∈ n.text, c = '.' ∨ c = 'e' ∨ c = 'E' := by
    rw [text_parts]
    cases hf : n.fraction with
    | some ds => exact ⟨'.', by simp [Numeral.fractionText], .inl rfl⟩
    | none =>
        cases he : n.exponent with
        | none =>
            rw [Numeral.isInteger, hf, he] at hinteger
            cases hinteger
        | some e =>
            obtain ⟨mark, sign, ds⟩ := e
            exact ⟨mark, by simp [Numeral.exponentText], .inr (h.exponent mark sign ds he).1⟩
  intro hliteral
  have hdigit := mem_integerLiteral hliteral hc
  rcases hmark with rfl | rfl | rfl <;> exact absurd hdigit (by decide)

theorem mantissa_text {n : Numeral} (h : n.WellSpelled) :
    Mantissa (n.whole ++ Numeral.fractionText n.fraction) n.whole (n.fraction.getD []) := by
  have hwhole := Numeral.isRun_whole h.whole
  cases hf : n.fraction with
  | none =>
      rw [Numeral.fractionText, List.append_nil]
      exact .whole hwhole
  | some ds =>
      refine .point hwhole.digits (h.fraction ds hf).digits fun hnil => ?_
      exact hwhole.ne_nil (List.append_eq_nil_iff.mp hnil).1

/-- The exponent of a numeral, together with the places after the point. -/
theorem exponentLiteral_text {n : Numeral} (h : n.WellSpelled) :
    ExponentLiteral (Numeral.exponentText n.exponent) (n.scale + (n.fraction.getD []).length) := by
  rw [Numeral.scale, Int.sub_add_cancel]
  cases he : n.exponent with
  | none => exact .none
  | some e =>
      obtain ⟨mark, sign, ds⟩ := e
      obtain ⟨hmark, hsign, hrun⟩ := h.exponent mark sign ds he
      refine .exponent hmark ?_
      rcases hsign with rfl | rfl | rfl
      · exact .intro .none hrun
      · exact .intro .plus hrun
      · exact .intro .minus hrun

/-- A numeral is a decimal literal of the double that it rounds to. -/
theorem decimalLiteral_text {n : Numeral} (h : n.WellSpelled) {x : Binary64}
    (hx : Decimal.roundNumeral n = some x) : DecimalLiteral n.text x := by
  rw [text_parts]
  refine .intro (sign_text n.negative) (mantissa_text h) (exponentLiteral_text h) ?_
  rw [Int.add_sub_cancel]
  exact hx

/-! ### Operands -/

/-- The number that the text of a number stands for: the number itself, or the nearest double of an
integer that is too large for 64 bits with sign. -/
def textOperand : Number → Number
  | .integer i => if isSigned64 i then .integer i else .float (.ofInt i)
  | .float x => .float x

theorem ofNumber_textOperand (n : Number) : Param.ofNumber (textOperand n) = Param.ofNumber n := by
  cases n with
  | float x => rfl
  | integer i =>
      rw [textOperand, Param.ofNumber]
      split
      · next hi => rw [Param.ofNumber, if_pos hi]
      · rfl

/-- The text of a number is an operand, whatever white space is around it. -/
theorem operand?_text {n : Number} (h : n.Fits) {before after : List Char}
    (hbefore : ∀ c ∈ before, Text.isBlank c = true) (hafter : ∀ c ∈ after, Text.isBlank c = true) :
    operand? (.string (String.ofList (before ++ n.numeral.text ++ after))) =
      some (textOperand n) := by
  have hspelled := n.numeral_wellSpelled
  have htrim : Text.trimList (String.ofList (before ++ n.numeral.text ++ after)).toList =
      n.numeral.text := by
    rw [String.toList_ofList]
    exact Text.trimList_padded hbefore (Numeral.isBlank_of_mem_text hspelled) hafter
  rw [operand?_eq_some]
  -- an integer of 64 bits with sign is read as one; any other number is no such integer, and is read
  -- as the decimal that its text is as well
  cases n with
  | float x =>
      refine .decimal (fun i hi => ?_) ?_
      · rw [htrim] at hi
        have hnot := Decimal.jsonNumeral_not_isInteger x.negative x.shortest
        exact absurd hi (not_integerLiteral_text hspelled hnot i)
      · rw [htrim]
        exact decimalLiteral_text hspelled x.jsonNumeral_round
  | integer i =>
      have hvalue : signed (Number.numeral (.integer i)).negative i.natAbs = i :=
        Number.signed_natAbs i
      have hliteral := integerLiteral_text hspelled rfl
      rw [Number.digits_integer, hvalue] at hliteral
      rw [textOperand]
      cases hi : isSigned64 i with
      | true =>
          rw [if_pos rfl]
          rw [← htrim] at hliteral
          exact .integer hliteral hi
      | false =>
          have hbig := Number.signedBound_le h hi
          rw [if_neg Bool.false_ne_true]
          refine .decimal (fun j hj => ?_) ?_
          · rw [htrim] at hj
            rw [hj.unique hliteral, hi]
          · have hround : Decimal.roundNumeral (Number.numeral (.integer i)) = some (.ofInt i) := by
              rw [Decimal.roundNumeral, Number.digits_integer, ← Sql.ofDecimal?_integer i hbig h.2]
              have hsign : (Number.numeral (.integer i)).negative = false :=
                decide_eq_false (by omega)
              rw [hsign]
              rfl
            rw [htrim]
            exact decimalLiteral_text hspelled hround

/-! ### Filters that come to the same -/

/-- The predicates have the same condition and bind the same values. -/
def Predicate.Alike (p q : Predicate) : Prop := ∀ b : Binder, p.condition b = q.condition b

/-- Both are refused for the same reason, or both have a predicate and these are alike. -/
inductive SameOutcome : Except Error Predicate → Except Error Predicate → Prop
  | error (e : Error) : SameOutcome (.error e) (.error e)
  | ok {p q : Predicate} : p.Alike q → SameOutcome (.ok p) (.ok q)

theorem SameOutcome.refl : ∀ r : Except Error Predicate, SameOutcome r r
  | .error e => .error e
  | .ok _ => .ok fun _ => rfl

theorem conditions_alike {ps qs : List Predicate} (h : List.Forall₂ Predicate.Alike ps qs) :
    ∀ b : Binder, conditions ps b = conditions qs b := by
  induction h with
  | nil => exact fun _ => rfl
  | cons hpq _ ih =>
      intro b
      rw [conditions, conditions, hpq b]
      dsimp only
      rw [ih]

theorem compileAll_alike {fs gs : List Filter}
    (h : List.Forall₂ (fun f g => SameOutcome f.compile g.compile) fs gs) :
    (∃ e, Filter.compileAll fs = .error e ∧ Filter.compileAll gs = .error e) ∨
      ∃ ps qs, Filter.compileAll fs = .ok ps ∧ Filter.compileAll gs = .ok qs ∧
        List.Forall₂ Predicate.Alike ps qs := by
  induction h with
  | nil => exact .inr ⟨[], [], rfl, rfl, .nil⟩
  | @cons f g fs gs hfg _ ih =>
      rw [Filter.compileAll, Filter.compileAll]
      generalize f.compile = first at hfg ⊢
      generalize g.compile = second at hfg ⊢
      cases hfg with
      | error e => exact .inl ⟨e, rfl, rfl⟩
      | ok hpq =>
          obtain ⟨e, hfs, hgs⟩ | ⟨ps, qs, hfs, hgs, hpqs⟩ := ih
          · exact .inl ⟨e, by rw [hfs], by rw [hgs]⟩
          · exact .inr ⟨_, _, by rw [hfs], by rw [hgs], .cons hpq hpqs⟩

/-- Searches whose filters come to the same, one by one, are refused for the same reason or have the
same statement. -/
theorem Search.statement_alike {s : Search} {fs : List Filter}
    (h : List.Forall₂ (fun f g => SameOutcome f.compile g.compile) s.filters fs) (limits : Limits)
    (first : Nat) : (s.compile limits).map (Plan.statement · first) =
      (Search.compile limits { s with filters := fs }).map (Plan.statement · first) := by
  rw [Search.compile, Search.compile]
  obtain ⟨e, hfs, hgs⟩ | ⟨ps, qs, hfs, hgs, hpqs⟩ := compileAll_alike h
  · rw [hfs, hgs]
  · rw [hfs, hgs]
    dsimp only
    cases Order.compile s.orderBy s.direction with
    | error e => rfl
    | ok order =>
        simp only [Except.map, Plan.statement, conditions_alike hpqs]

/-! ### Comparisons with a number and with its text -/

/-- How a number is bound: an integer of 64 bits with sign as that integer, a double as itself, and
any other integer as the nearest double. -/
inductive BoundAs : Number → Param → Prop
  | integer {i : Int} : isSigned64 i = true → BoundAs (.integer i) (.integer i)
  | float (x : Binary64) : BoundAs (.float x) (.real x)
  | large {i : Int} {x : Binary64} : isSigned64 i = false → x.IsNearest i →
      BoundAs (.integer i) (.real x)

theorem ofInt_isNearest {i : Int} (hlow : signedBound ≤ i) (hhigh : i < unsignedBound) :
    (Binary64.ofInt i).IsNearest i := by
  have hratio := Sql.ofRatio?_integer i hlow hhigh
  have hnearest := Binary64.ofRatio?_isNearest Nat.one_pos hratio
  have hvalue : (i.natAbs : ℚ) / (1 : Nat) = i := by
    rw [Nat.cast_one, div_one, Nat.cast_natAbs, abs_of_nonneg (by omega)]
  rwa [hvalue] at hnearest

theorem boundAs_ofNumber {n : Number} (h : n.Fits) : BoundAs n (.ofNumber n) := by
  cases n with
  | float x => exact .float x
  | integer i =>
      rw [Param.ofNumber]
      cases hi : isSigned64 i with
      | true =>
          rw [if_pos rfl]
          exact .integer hi
      | false =>
          rw [if_neg Bool.false_ne_true]
          exact .large hi (ofInt_isNearest (Number.signedBound_le h hi) h.2)

/-- A comparison whose operand is known compiles to that comparison. -/
theorem compile_comparison {property : String} {path : Path} {operator : Operator}
    {relation : Comparison} {value : Json} {n : Number} (hpath : readPath property = .ok path)
    (hrelation : operator.comparison? = some relation) (hvalue : operand? value = some n) :
    (Filter.mk property operator value).compile = .ok (.compares path relation n) := by
  rw [Filter.compile, hpath]
  dsimp only
  cases operator with
  | greater | greaterEqual | less | lessEqual =>
      cases hrelation
      simp only [Filter.predicateAt, hvalue]
  | equal | notEqual | contains | present | among => cases hrelation

theorem alike_compares (path : Path) (relation : Comparison) {m n : Number}
    (h : Param.ofNumber m = Param.ofNumber n) :
    Predicate.Alike (.compares path relation m) (.compares path relation n) := by
  intro b
  simp only [Predicate.condition, Predicate.path, h]

/-- A numeric operand means the same as a number and as its text.  A comparison with the JSON text of
a number, whatever white space is around it, is refused exactly if the comparison with the number is,
and then for the same reason; otherwise both bind the path and the number: an integer of 64 bits
with sign exactly, any other number as the nearest double.  In every search the one can stand for the
other, and nothing changes in the statement. -/
theorem comparison_text_eq {n : Number} (hn : n.Fits) {operator : Operator} {relation : Comparison}
    (hrelation : operator.comparison? = some relation) (property : String)
    {before after : List Char} (hbefore : ∀ c ∈ before, Text.isBlank c = true)
    (hafter : ∀ c ∈ after, Text.isBlank c = true) :
    let number : Filter := ⟨property, operator, .number n⟩
    let text : Filter := ⟨property, operator,
      .string (String.ofList (before ++ (Json.number n).print.toList ++ after))⟩
    (∀ e, readPath property = .error e → number.compile = .error e ∧ text.compile = .error e) ∧
    (∀ path, readPath property = .ok path → ∃ m param,
      number.compile = .ok (.compares path relation n) ∧
      text.compile = .ok (.compares path relation m) ∧
      (Predicate.compares path relation m).Alike (.compares path relation n) ∧
      (Predicate.compares path relation n).values = [.text path.jsonPath, param] ∧
      (Predicate.compares path relation m).values = [.text path.jsonPath, param] ∧
      BoundAs n param) ∧
    ∀ (limits : Limits) (s : Search) (front behind : List Filter) (first : Nat),
      (Search.compile limits { s with filters := front ++ number :: behind }).map
          (Plan.statement · first) =
        (Search.compile limits { s with filters := front ++ text :: behind }).map
          (Plan.statement · first) := by
  intro number text
  have hvalue : operand? text.value = some (textOperand n) := by
    have hprint : (Json.number n).print.toList = n.numeral.text := by
      rw [Json.print, String.toList_ofList, Json.source, Source.text]
    have hpadded := operand?_text hn hbefore hafter
    rwa [← hprint] at hpadded
  have herror : ∀ e, readPath property = .error e →
      number.compile = .error e ∧ text.compile = .error e := by
    intro e he
    exact ⟨by rw [Filter.compile, he], by rw [Filter.compile, he]⟩
  have hok : ∀ path, readPath property = .ok path →
      number.compile = .ok (.compares path relation n) ∧
        text.compile = .ok (.compares path relation (textOperand n)) := fun path hpath =>
    ⟨compile_comparison hpath hrelation rfl, compile_comparison hpath hrelation hvalue⟩
  have hsame : SameOutcome number.compile text.compile := by
    cases hpath : readPath property with
    | error e =>
        rw [(herror e hpath).1, (herror e hpath).2]
        exact .error e
    | ok path =>
        rw [(hok path hpath).1, (hok path hpath).2]
        exact .ok (alike_compares path relation (ofNumber_textOperand n).symm)
  refine ⟨herror, fun path hpath => ⟨textOperand n, .ofNumber n, (hok path hpath).1,
    (hok path hpath).2, alike_compares path relation (ofNumber_textOperand n), rfl, ?_,
    boundAs_ofNumber hn⟩, fun limits s front behind first => ?_⟩
  · rw [← ofNumber_textOperand]
    rfl
  refine Search.statement_alike (s := { s with filters := front ++ number :: behind }) ?_ limits first
  have hrefl : ∀ fs : List Filter, List.Forall₂ (fun f g => SameOutcome f.compile g.compile) fs fs :=
    fun fs => List.forall₂_same.mpr fun f _ => .refl f.compile
  exact List.rel_append (hrefl front) (.cons hsame (hrefl behind))

/-- The least integer that is too large for 64 bits with sign, and its text between a tab and an
ideographic space. -/
theorem comparison_text_eq_large : ∃ path m x,
    (Filter.mk "size" .greaterEqual (.number (.integer 9223372036854775808))).compile =
      .ok (.compares path .greaterEqual (.integer 9223372036854775808)) ∧
    (Filter.mk "size" .greaterEqual (.string "\t9223372036854775808\u3000")).compile =
      .ok (.compares path .greaterEqual m) ∧
    (Predicate.compares path .greaterEqual m).Alike
      (.compares path .greaterEqual (.integer 9223372036854775808)) ∧
    (Predicate.compares path .greaterEqual m).values = [.text path.jsonPath, .real x] ∧
    x.IsNearest (9223372036854775808 : Int) := by
  have hrelation : Operator.greaterEqual.comparison? = some .greaterEqual := rfl
  have htab : ∀ c ∈ ['\t'], Text.isBlank c = true := List.forall_mem_singleton.mpr rfl
  have hspace : ∀ c ∈ ['\u3000'], Text.isBlank c = true := List.forall_mem_singleton.mpr rfl
  obtain ⟨-, hok, -⟩ := comparison_text_eq (n := .integer 9223372036854775808) (by decide)
    hrelation "size" htab hspace
  obtain ⟨m, param, hnumber, htext, halike, -, hvalues, hbound⟩ := hok _ rfl
  cases hbound with
  | integer hi => cases hi
  | large hi hx => exact ⟨_, m, _, hnumber, htext, halike, hvalues, hx⟩

end Query
end EntityStore
