import EntityStore.Proofs.Text.Numeral
import EntityStore.Query.Operand
import Mathlib.Data.List.TakeWhile

/-! # Number literals

What a text has to look like to be a number (`IntegerLiteral`, `DecimalLiteral`), and what is read
of it: exactly the integer literals of 64 bits are read as integers (`integerLiteral?_eq_some`), and
exactly the decimal literals with a finite double as decimals (`decimalLiteral?_eq_some`).  So a text
stands for a number if it is such a literal with white space around it, and an integer goes before a
decimal (`operand?_eq_some`). -/

namespace EntityStore.Query

/-! ### Literals -/

/-- A sign that may be missing, and whether it is a minus. -/
inductive Sign : List Char → Bool → Prop
  | none : Sign [] false
  | plus : Sign ['+'] false
  | minus : Sign ['-'] true

/-- The number with that sign. -/
def signed (negative : Bool) (n : Nat) : Int := if negative then -n else n

/-- `[+-]?[0-9]+` and its value. -/
inductive IntegerLiteral : List Char → Int → Prop
  | intro {sign ds : List Char} {negative : Bool} : Sign sign negative → Text.IsRun ds →
      IntegerLiteral (sign ++ ds) (signed negative (Text.digitsValue ds))

/-- `([eE][+-]?[0-9]+)?` and its value. -/
inductive ExponentLiteral : List Char → Int → Prop
  | none : ExponentLiteral [] 0
  | exponent {mark : Char} {cs : List Char} {e : Int} : mark = 'e' ∨ mark = 'E' →
      IntegerLiteral cs e → ExponentLiteral (mark :: cs) e

/-- `[0-9]+`, `[0-9]+\.[0-9]*` or `[0-9]*\.[0-9]+`, and the digits before and after the point. -/
inductive Mantissa : List Char → List Char → List Char → Prop
  | whole {ds : List Char} : Text.IsRun ds → Mantissa ds ds []
  | point {whole fraction : List Char} : (∀ c ∈ whole, Text.isDigit c = true) →
      (∀ c ∈ fraction, Text.isDigit c = true) → whole ++ fraction ≠ [] →
      Mantissa (whole ++ '.' :: fraction) whole fraction

/-- A sign, a mantissa and an exponent, and the double nearest to the number, which is finite. -/
inductive DecimalLiteral : List Char → Binary64 → Prop
  | intro {sign mantissa whole fraction exponent : List Char} {negative : Bool} {e : Int}
      {x : Binary64} : Sign sign negative → Mantissa mantissa whole fraction →
      ExponentLiteral exponent e →
      Binary64.ofDecimal? negative (Text.digitsValue (whole ++ fraction)) (e - fraction.length) =
        some x →
      DecimalLiteral (sign ++ (mantissa ++ exponent)) x

/-! ### Signs -/

/-- No sign stands at the front. -/
def Unsigned (cs : List Char) : Prop := cs.head? ≠ some '+' ∧ cs.head? ≠ some '-'

theorem unsigned_run {ds : List Char} (h : Text.IsRun ds) : Unsigned ds := by
  obtain ⟨hne, hdigits⟩ := h
  cases ds with
  | nil => exact absurd rfl hne
  | cons d ds =>
      have hd := hdigits d List.mem_cons_self
      constructor <;> (intro heq; rw [Option.some.inj heq] at hd; exact absurd hd (by decide))

theorem takeSign_sign {sign rest : List Char} {negative : Bool} (h : Sign sign negative)
    (hrest : Unsigned rest) : takeSign (sign ++ rest) = (negative, rest) := by
  cases h with
  | plus | minus => rfl
  | none =>
      rw [List.nil_append]
      fun_cases takeSign rest with
      | case1 rest => exact absurd rfl hrest.2
      | case2 rest => exact absurd rfl hrest.1
      | case3 => rfl

theorem exists_sign (cs : List Char) :
    ∃ sign, Sign sign (takeSign cs).1 ∧ cs = sign ++ (takeSign cs).2 := by
  fun_cases takeSign cs with
  | case1 rest => exact ⟨['-'], .minus, rfl⟩
  | case2 rest => exact ⟨['+'], .plus, rfl⟩
  | case3 => exact ⟨[], .none, rfl⟩

/-! ### Integers -/

theorem isRun_iff {ds : List Char} :
    Text.IsRun ds ↔ (ds.isEmpty || !ds.all Text.isDigit) = false := by
  rw [Bool.or_eq_false_iff, Bool.not_eq_false', List.all_eq_true]
  exact ⟨fun h => ⟨by simpa using h.ne_nil, h.digits⟩, fun h => ⟨by simpa using h.1, h.2⟩⟩

theorem signed64?_eq_some {negative : Bool} {n : Nat} {i : Int} :
    signed64? negative n = some i ↔ i = signed negative n ∧ isSigned64 i = true := by
  rw [signed64?, signed, isSigned64, Bool.and_eq_true, decide_eq_true_eq, decide_eq_true_eq]
  cases negative with
  | true =>
      rw [if_pos rfl, if_pos rfl]
      split
      · simp only [Option.some.injEq]
        have hbound : 0 < signedBound := by decide
        omega
      · refine iff_of_false nofun ?_
        omega
  | false =>
      rw [if_neg Bool.false_ne_true, if_neg Bool.false_ne_true]
      split
      · simp only [Option.some.injEq]
        omega
      · refine iff_of_false nofun ?_
        omega

/-- What is read as an integer. -/
theorem integerLiteral?_eq_some {cs : List Char} {i : Int} :
    integerLiteral? cs = some i ↔ IntegerLiteral cs i ∧ isSigned64 i = true := by
  constructor
  · intro h
    obtain ⟨sign, hsign, hcs⟩ := exists_sign cs
    simp only [integerLiteral?] at h
    split at h
    · cases h
    · next hrun =>
        obtain ⟨rfl, hbounds⟩ := signed64?_eq_some.mp h
        rw [Bool.not_eq_true, ← isRun_iff] at hrun
        refine ⟨?_, hbounds⟩
        have hliteral := IntegerLiteral.intro hsign hrun
        rwa [← hcs] at hliteral
  · rintro ⟨⟨hsign, hrun⟩, hbounds⟩
    rw [integerLiteral?, takeSign_sign hsign (unsigned_run hrun)]
    dsimp only
    rw [isRun_iff.mp hrun, if_neg Bool.false_ne_true]
    exact signed64?_eq_some.mpr ⟨rfl, hbounds⟩

/-! ### Decimals -/

/-- What is read as an exponent. -/
theorem exponentLiteral?_eq_some {cs : List Char} {e : Int} :
    exponentLiteral? cs = some e ↔ ExponentLiteral cs e := by
  constructor
  · intro h
    cases cs with
    | nil =>
        cases h
        exact .none
    | cons mark rest =>
        simp only [exponentLiteral?] at h
        split at h
        · next hmark =>
            split at h
            · cases h
            · next hrun =>
                rw [Bool.not_eq_true, ← isRun_iff] at hrun
                obtain ⟨sign, hsign, hcs⟩ := exists_sign rest
                have hliteral := IntegerLiteral.intro hsign hrun
                rw [← hcs, signed, Option.some.inj h] at hliteral
                exact .exponent hmark hliteral
        · cases h
  · intro h
    cases h with
    | none => rfl
    | exponent hmark hliteral =>
        obtain ⟨hsign, hrun⟩ := hliteral
        rw [exponentLiteral?, if_pos hmark, takeSign_sign hsign (unsigned_run hrun)]
        dsimp only
        rw [isRun_iff.mp hrun, if_neg Bool.false_ne_true, signed]

/-- An exponent goes on with no digit and no point. -/
theorem ExponentLiteral.head {cs : List Char} {e : Int} (h : ExponentLiteral cs e) :
    Text.Bounded cs ∧ cs.head? ≠ some '.' := by
  cases h with
  | none => exact ⟨Text.bounded_nil, nofun⟩
  | exponent hmark _ =>
      rcases hmark with rfl | rfl
      · exact ⟨Text.bounded_cons (by decide) _, by simp⟩
      · exact ⟨Text.bounded_cons (by decide) _, by simp⟩

theorem Mantissa.isEmpty_eq {cs whole fraction : List Char} (h : Mantissa cs whole fraction) :
    (whole.isEmpty && fraction.isEmpty) = false := by
  rw [Bool.eq_false_iff, ne_eq, Bool.and_eq_true, List.isEmpty_iff, List.isEmpty_iff]
  cases h with
  | whole hrun => exact fun h => hrun.ne_nil h.1
  | point _ _ hne => exact fun h => hne (List.append_eq_nil_iff.mpr h)

theorem unsigned_of_head {c : Char} {cs : List Char} (h : Text.isDigit c = true ∨ c = '.') :
    Unsigned (c :: cs) := by
  constructor <;>
  · intro heq
    rw [List.head?_cons, Option.some.injEq] at heq
    rw [heq] at h
    exact absurd h (by decide)

/-- A mantissa starts with a digit or the point. -/
theorem Mantissa.unsigned {cs whole fraction : List Char} (h : Mantissa cs whole fraction)
    (rest : List Char) : Unsigned (cs ++ rest) := by
  cases h with
  | whole hrun =>
      cases cs with
      | nil => exact absurd rfl hrun.ne_nil
      | cons d ds => exact unsigned_of_head (.inl (hrun.digits d List.mem_cons_self))
  | point hwhole _ _ =>
      cases whole with
      | nil => exact unsigned_of_head (.inr rfl)
      | cons d ds => exact unsigned_of_head (.inl (hwhole d List.mem_cons_self))

/-- The digits after the point, none where there is no point, and what comes after them. -/
def takeFraction : List Char → List Char × List Char
  | '.' :: rest => rest.span Text.isDigit
  | rest => ([], rest)

/-- The digits before and after the point, and what comes after them. -/
def takeMantissa (cs : List Char) : List Char × List Char × List Char :=
  ((cs.span Text.isDigit).1, takeFraction (cs.span Text.isDigit).2)

theorem takeFraction_of_ne {rest : List Char} (hpoint : rest.head? ≠ some '.') :
    takeFraction rest = ([], rest) := by
  fun_cases takeFraction rest with
  | case1 rest => exact absurd rfl hpoint
  | case2 => rfl

theorem takeMantissa_mantissa {mantissa whole fraction rest : List Char}
    (h : Mantissa mantissa whole fraction) (hbounded : Text.Bounded rest)
    (hpoint : rest.head? ≠ some '.') : takeMantissa (mantissa ++ rest) = (whole, fraction, rest) := by
  cases h with
  | whole hrun =>
      rw [takeMantissa, Text.span_run hrun.digits hbounded, takeFraction_of_ne hpoint]
  | point hwhole hfraction _ =>
      rw [takeMantissa, List.append_assoc, List.cons_append,
        Text.span_run hwhole (Text.bounded_cons (by decide) _), takeFraction,
        Text.span_run hfraction hbounded]

/-- What is taken is a mantissa, unless there is no digit. -/
theorem exists_mantissa {cs whole fraction rest : List Char}
    (h : takeMantissa cs = (whole, fraction, rest))
    (hdigits : (whole.isEmpty && fraction.isEmpty) = false) :
    ∃ mantissa, Mantissa mantissa whole fraction ∧ cs = mantissa ++ rest := by
  have hdigit : ∀ cs : List Char, ∀ c ∈ cs.takeWhile Text.isDigit, Text.isDigit c = true :=
    fun _ _ => List.mem_takeWhile_imp
  have hsplit : ∀ cs : List Char, cs.takeWhile Text.isDigit ++ cs.dropWhile Text.isDigit = cs :=
    fun _ => List.takeWhile_append_dropWhile
  rw [takeMantissa, List.span_eq_takeWhile_dropWhile, Prod.mk.injEq] at h
  obtain ⟨rfl, hfraction⟩ := h
  have hcs := hsplit cs
  generalize cs.dropWhile Text.isDigit = behind at hfraction hcs
  fun_cases takeFraction behind with
  | case1 tail =>
      rw [takeFraction, List.span_eq_takeWhile_dropWhile, Prod.mk.injEq] at hfraction
      obtain ⟨rfl, rfl⟩ := hfraction
      refine ⟨_, .point (hdigit cs) (hdigit tail) ?_, ?_⟩
      · rw [Ne, List.append_eq_nil_iff]
        rintro ⟨hwhole, hnone⟩
        rw [hwhole, hnone] at hdigits
        cases hdigits
      · rw [List.append_assoc, List.cons_append, hsplit tail, hcs]
  | case2 behind hpoint =>
      rw [takeFraction, Prod.mk.injEq] at hfraction
      · obtain ⟨rfl, rfl⟩ := hfraction
        refine ⟨_, .whole ⟨fun hwhole => ?_, hdigit cs⟩, hcs.symm⟩
        rw [hwhole] at hdigits
        cases hdigits
      · exact hpoint

/-- A decimal is read as a sign, a mantissa and an exponent. -/
theorem decimalLiteral?_eq (cs : List Char) : decimalLiteral? cs =
    let (whole, fraction, rest) := takeMantissa (takeSign cs).2
    if whole.isEmpty && fraction.isEmpty then none
    else match exponentLiteral? rest with
      | none => none
      | some e => Binary64.ofDecimal? (takeSign cs).1 (Text.digitsValue (whole ++ fraction))
          (e - fraction.length) := rfl

/-- What is read as a decimal. -/
theorem decimalLiteral?_eq_some {cs : List Char} {x : Binary64} :
    decimalLiteral? cs = some x ↔ DecimalLiteral cs x := by
  rw [decimalLiteral?_eq]
  constructor
  · intro h
    obtain ⟨sign, hsign, hcs⟩ := exists_sign cs
    obtain ⟨whole, fraction, rest, htaken⟩ :
      ∃ whole fraction rest, takeMantissa (takeSign cs).2 = (whole, fraction, rest) := ⟨_, _, _, rfl⟩
    rw [htaken] at h
    dsimp only at h
    split at h
    · cases h
    · next hdigits =>
        split at h
        · cases h
        · next e hexponent =>
            obtain ⟨mantissa, hmantissa, hrest⟩ :=
              exists_mantissa htaken (Bool.not_eq_true _ ▸ hdigits)
            have hliteral := DecimalLiteral.intro hsign hmantissa
              (exponentLiteral?_eq_some.mp hexponent) h
            rwa [← hrest, ← hcs] at hliteral
  · rintro ⟨hsign, hmantissa, hexponent, hround⟩
    obtain ⟨hbounded, hpoint⟩ := hexponent.head
    rw [takeSign_sign hsign (hmantissa.unsigned _)]
    dsimp only
    rw [takeMantissa_mantissa hmantissa hbounded hpoint]
    dsimp only
    rw [hmantissa.isEmpty_eq, if_neg Bool.false_ne_true, exponentLiteral?_eq_some.mpr hexponent]
    exact hround

/-! ### Operands -/

/-- The number that a value stands for: a number itself, or what a text spells apart from white
space around it.  An integer of 64 bits goes before a decimal. -/
inductive StandsFor : Json → Number → Prop
  | number (n : Number) : StandsFor (.number n) n
  | integer {text : String} {i : Int} : IntegerLiteral (Text.trimList text.toList) i →
      isSigned64 i = true → StandsFor (.string text) (.integer i)
  | decimal {text : String} {x : Binary64} :
      (∀ i, IntegerLiteral (Text.trimList text.toList) i → isSigned64 i = false) →
      DecimalLiteral (Text.trimList text.toList) x → StandsFor (.string text) (.float x)

/-- What a comparison takes as its operand. -/
theorem operand?_eq_some {value : Json} {n : Number} : operand? value = some n ↔ StandsFor value n := by
  have htext : ∀ text : String, numberOfText? text = some n ↔ StandsFor (.string text) n := by
    intro text
    rw [numberOfText?]
    constructor
    · intro h
      split at h
      · next i hi =>
          cases h
          obtain ⟨hliteral, hbounds⟩ := integerLiteral?_eq_some.mp hi
          exact .integer hliteral hbounds
      · next hnone =>
          obtain ⟨x, hx, rfl⟩ := Option.map_eq_some_iff.mp h
          refine .decimal (fun i hi => ?_) (decimalLiteral?_eq_some.mp hx)
          rw [← Bool.not_eq_true]
          intro hbounds
          rw [integerLiteral?_eq_some.mpr ⟨hi, hbounds⟩] at hnone
          cases hnone
    · intro h
      cases h with
      | integer hliteral hbounds => rw [integerLiteral?_eq_some.mpr ⟨hliteral, hbounds⟩]
      | decimal hnot hliteral =>
          have hnone : integerLiteral? (Text.trimList text.toList) = none := by
            rw [Option.eq_none_iff_forall_ne_some]
            intro i hi
            obtain ⟨hinteger, hbounds⟩ := integerLiteral?_eq_some.mp hi
            rw [hnot i hinteger] at hbounds
            cases hbounds
          rw [hnone, decimalLiteral?_eq_some.mpr hliteral]
          rfl
  cases value with
  | number m =>
      rw [operand?, Option.some.injEq]
      exact ⟨fun h => h ▸ .number m, fun h => by cases h; rfl⟩
  | string text => exact htext text
  | null | bool _ | array _ | object _ => exact iff_of_false nofun nofun

end EntityStore.Query
