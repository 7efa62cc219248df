import EntityStore.Proofs.Text.Digits
import EntityStore.Text.Numeral
import Mathlib.Data.List.TakeDrop

/-! # Numerals read back

A numeral that follows the grammar (`Numeral.WellSpelled`) is read from its own text
(`Numeral.read?_text`), provided that what follows the text does not continue it. -/

namespace EntityStore

/-! ### Digit runs -/

namespace Text

/-- The text does not go on with a digit. -/
def Bounded (cs : List Char) : Prop := ∀ c ∈ cs.head?, isDigit c = false

theorem bounded_nil : Bounded [] := by simp [Bounded]

theorem bounded_cons {c : Char} (h : isDigit c = false) (cs : List Char) : Bounded (c :: cs) := by
  simpa [Bounded] using h

/-- A nonempty run of digits. -/
structure IsRun (ds : List Char) : Prop where
  ne_nil : ds ≠ []
  digits : ∀ c ∈ ds, isDigit c = true

theorem span_run {ds rest : List Char} (hds : ∀ c ∈ ds, isDigit c = true) (hrest : Bounded rest) :
    (ds ++ rest).span isDigit = (ds, rest) := by
  have htake : (ds ++ rest).takeWhile isDigit = ds := by
    rw [List.takeWhile_append_of_pos hds]
    cases rest with
    | nil => simp
    | cons c rest =>
        have hc : isDigit c = false := hrest c rfl
        simp [hc]
  have hdrop : (ds ++ rest).dropWhile isDigit = rest := by
    have h := List.takeWhile_append_dropWhile (p := isDigit) (l := ds ++ rest)
    rw [htake] at h
    exact List.append_cancel_left h
  rw [List.span_eq_takeWhile_dropWhile, htake, hdrop]

theorem isRun_zero : IsRun ['0'] := ⟨by simp, by simp [isDigit]⟩

theorem isRun_natural (n : Nat) : IsRun (natural n) :=
  ⟨natural_ne_nil n, fun _ h => isDigit_of_mem_natural h⟩

/-- No natural number but zero is written with a zero at the front. -/
theorem natural_head_ne_zero : ∀ {n : Nat}, 0 < n → (natural n).head? ≠ some '0' := by
  intro n
  induction n using Nat.strongRecOn with
  | ind n ih =>
      intro hn
      by_cases h : n < 10
      · have hdigit : ∀ m < 10, 0 < m → [Nat.digitChar m].head? ≠ some '0' := by decide
        rw [natural, Nat.toDigits_of_lt_base h]
        exact hdigit n h hn
      · have hpos : 0 < n / 10 := Nat.div_pos (by omega) (by decide)
        have hprefix := ih (n / 10) (Nat.div_lt_self hn (by decide)) hpos
        rw [natural, Nat.toDigits_of_base_le (by decide) (by omega)]
        rw [natural] at hprefix
        cases hds : Nat.toDigits 10 (n / 10) with
        | nil => exact absurd hds Nat.toDigits_ne_nil
        | cons d ds =>
            rw [hds] at hprefix
            exact hprefix

end Text

namespace Numeral

/-! ### The grammar -/

/-- `0` alone, or a run of digits that does not start with `0`. -/
def IsWhole (ds : List Char) : Prop := ds = ['0'] ∨ Text.IsRun ds ∧ ds.head? ≠ some '0'

/-- The numeral follows the grammar of numbers. -/
structure WellSpelled (n : Numeral) : Prop where
  whole : IsWhole n.whole
  fraction : ∀ ds, n.fraction = some ds → Text.IsRun ds
  exponent : ∀ mark sign ds, n.exponent = some (mark, sign, ds) →
    (mark = 'e' ∨ mark = 'E') ∧ (sign = none ∨ sign = some '+' ∨ sign = some '-') ∧ Text.IsRun ds

/-- The text ends a number: it goes on with no digit, no point and no exponent mark. -/
structure Ends (rest : List Char) : Prop where
  bounded : Text.Bounded rest
  point : rest.head? ≠ some '.'
  mark : rest.head? ≠ some 'e' ∧ rest.head? ≠ some 'E'

/-! ### Reading -/

theorem readDigits?_run {ds rest : List Char} (h : Text.IsRun ds) (hrest : Text.Bounded rest) :
    readDigits? (ds ++ rest) = some (ds, rest) := by
  obtain ⟨hne, hdigits⟩ := h
  rw [readDigits?, Text.span_run hdigits hrest]
  cases ds with
  | nil => exact absurd rfl hne
  | cons d ds => rfl

theorem readWhole?_whole {ds rest : List Char} (h : IsWhole ds) (hrest : Text.Bounded rest) :
    readWhole? (ds ++ rest) = some (ds, rest) := by
  rcases h with rfl | ⟨hrun, hzero⟩
  · rfl
  · rw [← readDigits?_run hrun hrest]
    obtain ⟨hne, -⟩ := hrun
    cases ds with
    | nil => exact absurd rfl hne
    | cons d ds =>
        have hd : d ≠ '0' := fun h => hzero (by rw [h, List.head?_cons])
        rw [List.cons_append, readWhole?]
        intro _ heq
        exact hd (List.cons.inj heq).1

/-- The part of a text that the point starts. -/
def fractionText : Option (List Char) → List Char
  | none => []
  | some ds => '.' :: ds

def exponentText : Option (Char × Option Char × List Char) → List Char
  | none => []
  | some (mark, sign, ds) => mark :: sign.toList ++ ds

theorem readFraction?_text {fraction : Option (List Char)} {rest : List Char}
    (h : ∀ ds, fraction = some ds → Text.IsRun ds) (hrest : Text.Bounded rest)
    (hpoint : rest.head? ≠ some '.') :
    readFraction? (fractionText fraction ++ rest) = some (fraction, rest) := by
  cases fraction with
  | none =>
      rw [fractionText, List.nil_append, readFraction?]
      rintro tail rfl
      exact hpoint rfl
  | some ds =>
      rw [fractionText, List.cons_append, readFraction?, readDigits?_run (h ds rfl) hrest,
        Option.map_some]

/-- A run of digits has no sign. -/
theorem readSign_run {ds rest : List Char} (h : Text.IsRun ds) :
    readSign (ds ++ rest) = (none, ds ++ rest) := by
  obtain ⟨hne, hdigits⟩ := h
  cases ds with
  | nil => exact absurd rfl hne
  | cons d ds =>
      have hd := hdigits d List.mem_cons_self
      rw [List.cons_append, readSign]
      · intro tail heq
        rw [(List.cons.inj heq).1] at hd
        exact absurd hd (by decide)
      · intro tail heq
        rw [(List.cons.inj heq).1] at hd
        exact absurd hd (by decide)

theorem readExponent?_text {exponent : Option (Char × Option Char × List Char)} {rest : List Char}
    (h : ∀ mark sign ds, exponent = some (mark, sign, ds) → (mark = 'e' ∨ mark = 'E') ∧
      (sign = none ∨ sign = some '+' ∨ sign = some '-') ∧ Text.IsRun ds)
    (hrest : Ends rest) :
    readExponent? (exponentText exponent ++ rest) = some (exponent, rest) := by
  cases exponent with
  | none =>
      obtain ⟨-, -, hlower, hupper⟩ := hrest
      cases rest with
      | nil => rfl
      | cons c rest =>
          have hmark : ¬ (c = 'e' ∨ c = 'E') := by
            rintro (rfl | rfl)
            · exact hlower rfl
            · exact hupper rfl
          rw [exponentText, List.nil_append, readExponent?, if_neg hmark]
  | some e =>
      obtain ⟨mark, sign, ds⟩ := e
      obtain ⟨hmark, hsign, hrun⟩ := h mark sign ds rfl
      have hread := readDigits?_run hrun hrest.bounded
      simp only [exponentText, List.cons_append, List.append_assoc, readExponent?, if_pos hmark]
      rcases hsign with rfl | rfl | rfl
      · simp only [Option.toList_none, List.nil_append, readSign_run hrun, hread, Option.map_some]
      · simp only [Option.toList_some, List.singleton_append, readSign, hread, Option.map_some]
      · simp only [Option.toList_some, List.singleton_append, readSign, hread, Option.map_some]

theorem bounded_fractionText {fraction : Option (List Char)} {rest : List Char}
    (hrest : Text.Bounded rest) : Text.Bounded (fractionText fraction ++ rest) := by
  cases fraction with
  | none => exact hrest
  | some ds => exact Text.bounded_cons (by decide) _

/-- An exponent starts with no digit and no point. -/
theorem exponentText_head {exponent : Option (Char × Option Char × List Char)} {rest : List Char}
    (h : ∀ mark sign ds, exponent = some (mark, sign, ds) → mark = 'e' ∨ mark = 'E')
    (hrest : Ends rest) : Text.Bounded (exponentText exponent ++ rest) ∧
      (exponentText exponent ++ rest).head? ≠ some '.' := by
  cases exponent with
  | none => exact ⟨hrest.bounded, hrest.point⟩
  | some e =>
      obtain ⟨mark, sign, ds⟩ := e
      rcases h mark sign ds rfl with rfl | rfl
      · exact ⟨Text.bounded_cons (by decide) _, by simp [exponentText]⟩
      · exact ⟨Text.bounded_cons (by decide) _, by simp [exponentText]⟩

theorem whole_head_ne_minus {whole rest : List Char} (h : IsWhole whole) :
    (whole ++ rest).head? ≠ some '-' := by
  rcases h with rfl | ⟨⟨hne, hdigits⟩, -⟩
  · simp
  · cases whole with
    | nil => exact absurd rfl hne
    | cons d ds =>
        intro heq
        have hd := hdigits d List.mem_cons_self
        rw [Option.some.inj heq] at hd
        exact absurd hd (by decide)

theorem text_eq (n : Numeral) (rest : List Char) : n.text ++ rest =
    (if n.negative then ['-'] else []) ++
      (n.whole ++ (fractionText n.fraction ++ (exponentText n.exponent ++ rest))) := by
  simp only [Numeral.text, List.append_assoc]
  rfl

theorem isRun_whole {ds : List Char} (h : IsWhole ds) : Text.IsRun ds := by
  rcases h with rfl | ⟨hrun, -⟩
  · exact Text.isRun_zero
  · exact hrun

/-- A character of a numeral that is no digit. -/
def IsMark (c : Char) : Prop := c = '-' ∨ c = '+' ∨ c = '.' ∨ c = 'e' ∨ c = 'E'

/-- What the text of a numeral consists of. -/
theorem mem_text {n : Numeral} (h : n.WellSpelled) {c : Char} (hc : c ∈ n.text) :
    Text.isDigit c = true ∨ IsMark c := by
  obtain ⟨hwhole, hfraction, hexponent⟩ := h
  rw [← List.append_nil n.text, text_eq, List.append_nil, List.mem_append, List.mem_append,
    List.mem_append] at hc
  rcases hc with hc | hc | hc | hc
  · cases hn : n.negative with
    | false => rw [hn] at hc; cases hc
    | true =>
        rw [hn] at hc
        exact .inr (.inl (List.mem_singleton.mp hc))
  · exact .inl ((isRun_whole hwhole).digits c hc)
  · cases hf : n.fraction with
    | none => rw [hf] at hc; cases hc
    | some ds =>
        rw [hf] at hc
        rcases List.mem_cons.mp hc with rfl | hc
        · exact .inr (.inr (.inr (.inl rfl)))
        · exact .inl ((hfraction ds hf).digits c hc)
  · cases he : n.exponent with
    | none => rw [he] at hc; cases hc
    | some e =>
        obtain ⟨mark, sign, ds⟩ := e
        obtain ⟨hmark, hsign, hrun⟩ := hexponent mark sign ds he
        rw [he, exponentText, List.mem_append, List.mem_cons, Option.mem_toList] at hc
        rcases hc with (rfl | hc) | hc
        · exact .inr (.inr (.inr (.inr hmark)))
        · rcases hsign with rfl | rfl | rfl
          · cases hc
          · exact .inr (.inr (.inl (Option.some.inj hc).symm))
          · exact .inr (.inl (Option.some.inj hc).symm)
        · exact .inl (hrun.digits c hc)

/-- A numeral is read from its text. -/
theorem read?_text {n : Numeral} {rest : List Char} (h : n.WellSpelled) (hrest : Ends rest) :
    read? (n.text ++ rest) = some (n, rest) := by
  obtain ⟨hwhole, hfraction, hexponent⟩ := h
  obtain ⟨hbounded, hpoint⟩ := exponentText_head (fun m s ds he => (hexponent m s ds he).1) hrest
  have hbehind : Text.Bounded (fractionText n.fraction ++ (exponentText n.exponent ++ rest)) :=
    bounded_fractionText hbounded
  have hreadWhole := readWhole?_whole hwhole hbehind
  have hreadFraction := readFraction?_text hfraction hbounded hpoint
  have hreadExponent := readExponent?_text hexponent hrest
  have hminus : (n.whole ++ (fractionText n.fraction ++ (exponentText n.exponent ++ rest))).head? ≠
      some '-' := whole_head_ne_minus hwhole
  rw [text_eq]
  cases hn : n.negative with
  | true =>
      have heta : (⟨true, n.whole, n.fraction, n.exponent⟩ : Numeral) = n := by rw [← hn]
      simp [read?, hreadWhole, hreadFraction, hreadExponent, heta]
  | false =>
      have heta : (⟨false, n.whole, n.fraction, n.exponent⟩ : Numeral) = n := by rw [← hn]
      rw [if_neg (by decide), List.nil_append]
      generalize n.whole ++ (fractionText n.fraction ++ (exponentText n.exponent ++ rest)) = cs
        at hreadWhole hminus
      cases cs with
      | nil => simp [read?, hreadWhole, hreadFraction, hreadExponent, heta]
      | cons c cs =>
          have hc : c ≠ '-' := fun h => hminus (by rw [h, List.head?_cons])
          simp [read?, hc, hreadWhole, hreadFraction, hreadExponent, heta]

end Numeral
end EntityStore
