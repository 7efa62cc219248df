import EntityStore.Proofs.Text.Numeral
import Mathlib.Data.List.TakeWhile

/-! # What is read as a numeral

`Numeral.read?` takes from the front of a text the text of a numeral that follows the grammar, and
leaves the rest (`Numeral.read?_sound`): one lemma for each part of a numeral. -/

namespace EntityStore.Numeral

theorem readDigits?_sound {cs ds rest : List Char} (h : readDigits? cs = some (ds, rest)) :
    cs = ds ++ rest ∧ Text.IsRun ds := by
  unfold readDigits? at h
  rw [List.span_eq_takeWhile_dropWhile] at h
  split at h
  · cases h
  · next found hne =>
      cases h
      refine ⟨List.takeWhile_append_dropWhile.symm, fun hnil => hne _ (by rw [hnil]), ?_⟩
      exact fun c hc => List.mem_takeWhile_imp hc

theorem readWhole?_sound {cs ds rest : List Char} (h : readWhole? cs = some (ds, rest)) :
    cs = ds ++ rest ∧ IsWhole ds := by
  unfold readWhole? at h
  split at h
  · cases h
    exact ⟨rfl, .inl rfl⟩
  · next cs' hzero =>
      obtain ⟨rfl, hrun⟩ := readDigits?_sound h
      refine ⟨rfl, .inr ⟨hrun, fun hhead => ?_⟩⟩
      obtain ⟨tail, rfl⟩ := List.head?_eq_some_iff.mp hhead
      exact hzero _ rfl

theorem readFraction?_sound {cs rest : List Char} {fraction : Option (List Char)}
    (h : readFraction? cs = some (fraction, rest)) :
    cs = fractionText fraction ++ rest ∧ ∀ ds, fraction = some ds → Text.IsRun ds := by
  unfold readFraction? at h
  split at h
  · obtain ⟨⟨ds, rest'⟩, hdigits, hfound⟩ := Option.map_eq_some_iff.mp h
    cases hfound
    obtain ⟨rfl, hrun⟩ := readDigits?_sound hdigits
    refine ⟨rfl, fun es hes => ?_⟩
    cases hes
    exact hrun
  · cases h
    exact ⟨rfl, nofun⟩

theorem readSign_sound {cs rest : List Char} {sign : Option Char}
    (h : readSign cs = (sign, rest)) :
    cs = sign.toList ++ rest ∧ (sign = none ∨ sign = some '+' ∨ sign = some '-') := by
  unfold readSign at h
  split at h
  · cases h
    exact ⟨rfl, .inr (.inl rfl)⟩
  · cases h
    exact ⟨rfl, .inr (.inr rfl)⟩
  · cases h
    exact ⟨rfl, .inl rfl⟩

theorem readExponent?_sound {cs rest : List Char}
    {exponent : Option (Char × Option Char × List Char)}
    (h : readExponent? cs = some (exponent, rest)) :
    cs = exponentText exponent ++ rest ∧ ∀ mark sign ds, exponent = some (mark, sign, ds) →
      (mark = 'e' ∨ mark = 'E') ∧ (sign = none ∨ sign = some '+' ∨ sign = some '-') ∧
        Text.IsRun ds := by
  unfold readExponent? at h
  split at h
  · cases h
    exact ⟨rfl, nofun⟩
  · next c cs' =>
      split at h
      · next hmark =>
          obtain ⟨sign, signless, hread⟩ : ∃ sign signless, readSign cs' = (sign, signless) :=
            ⟨_, _, rfl⟩
          rw [hread] at h
          obtain ⟨⟨ds, rest'⟩, hdigits, hfound⟩ := Option.map_eq_some_iff.mp h
          cases hfound
          obtain ⟨rfl, hsign⟩ := readSign_sound hread
          obtain ⟨rfl, hrun⟩ := readDigits?_sound hdigits
          refine ⟨?_, fun m s es hes => ?_⟩
          · rw [exponentText, List.cons_append, List.cons_append, List.append_assoc]
          · cases hes
            exact ⟨hmark, hsign, hrun⟩
      · cases h
        exact ⟨rfl, nofun⟩

/-- What is read follows the grammar, and its text stands at the front. -/
theorem read?_sound {cs rest : List Char} {n : Numeral} (h : read? cs = some (n, rest)) :
    n.WellSpelled ∧ cs = n.text ++ rest := by
  have hparts : ∀ {negative : Bool} {cs₀ cs₁ cs₂ cs₃ whole : List Char}
      {fraction : Option (List Char)} {exponent : Option (Char × Option Char × List Char)},
      readWhole? cs₀ = some (whole, cs₁) → readFraction? cs₁ = some (fraction, cs₂) →
      readExponent? cs₂ = some (exponent, cs₃) →
      (⟨negative, whole, fraction, exponent⟩, cs₃) = (n, rest) →
      n.WellSpelled ∧ (if negative then ['-'] else []) ++ cs₀ = n.text ++ rest := by
    intro negative cs₀ cs₁ cs₂ cs₃ whole fraction exponent hwhole hfraction hexponent hread
    cases hread
    obtain ⟨rfl, hw⟩ := readWhole?_sound hwhole
    obtain ⟨rfl, hf⟩ := readFraction?_sound hfraction
    obtain ⟨rfl, he⟩ := readExponent?_sound hexponent
    exact ⟨⟨hw, hf, he⟩, (text_eq ⟨negative, whole, fraction, exponent⟩ rest).symm⟩
  by_cases hminus : ∃ tail, cs = '-' :: tail
  · obtain ⟨tail, rfl⟩ := hminus
    rw [read?] at h
    obtain ⟨⟨whole, cs₁⟩, hwhole, h⟩ := Option.bind_eq_some_iff.mp h
    obtain ⟨⟨fraction, cs₂⟩, hfraction, h⟩ := Option.bind_eq_some_iff.mp h
    obtain ⟨⟨exponent, cs₃⟩, hexponent, h⟩ := Option.bind_eq_some_iff.mp h
    exact hparts hwhole hfraction hexponent (Option.some.inj h)
  · rw [read?] at h
    · obtain ⟨⟨whole, cs₁⟩, hwhole, h⟩ := Option.bind_eq_some_iff.mp h
      obtain ⟨⟨fraction, cs₂⟩, hfraction, h⟩ := Option.bind_eq_some_iff.mp h
      obtain ⟨⟨exponent, cs₃⟩, hexponent, h⟩ := Option.bind_eq_some_iff.mp h
      exact hparts hwhole hfraction hexponent (Option.some.inj h)
    · exact fun tail heq => hminus ⟨tail, heq⟩

end EntityStore.Numeral
