import EntityStore.Proofs.Json.Text
import EntityStore.Proofs.Text.NumeralRead
import EntityStore.Sql.Document

/-! # Texts that spell a number

A text spells a numeral if there is nothing but white space around it (`Spells`).  These are the
texts that are read as a document that is a number (`parse?_eq_number_iff`), and the real at the
front of such a text is the real of the numeral (`leadingReal_of_spells`). -/

namespace EntityStore.Sql

open Source (isSpace skipSpace)

/-- The text is a numeral that follows the grammar, with white space before and after it. -/
structure Spells (cs : List Char) (n : Numeral) : Prop where
  wellSpelled : n.WellSpelled
  spaced : ∃ before after, cs = before ++ (n.text ++ after) ∧ (∀ c ∈ before, isSpace c = true) ∧
    ∀ c ∈ after, isSpace c = true

/-! ### White space -/

theorem skipSpace_append {before : List Char} (h : ∀ c ∈ before, isSpace c = true)
    (cs : List Char) : skipSpace (before ++ cs) = skipSpace cs :=
  List.dropWhile_append_of_pos h

theorem skipSpace_eq_nil {cs : List Char} : skipSpace cs = [] ↔ ∀ c ∈ cs, isSpace c = true :=
  List.dropWhile_eq_nil_iff

/-- White space ends a number, and so does a character that cannot go on with it. -/
theorem ends_of_head {cs : List Char} (h : ∀ c ∈ cs.head?, isSpace c = true ∨ c.toNat = 0) :
    Numeral.Ends cs := by
  cases cs with
  | nil => exact ⟨Text.bounded_nil, by simp, by simp⟩
  | cons c cs =>
      have hc := h c rfl
      have hne : ∀ d : Char, isSpace d = false → d.toNat ≠ 0 → c ≠ d := by
        rintro d hspace hnul rfl
        rcases hc with hc | hc
        · rw [hspace] at hc
          cases hc
        · exact hnul hc
      refine ⟨Text.bounded_cons ?_ _, ?_, ?_, ?_⟩
      · cases hd : Text.isDigit c with
        | false => rfl
        | true =>
            refine absurd rfl (hne c (Source.Starts.not_space (by simp [Source.Starts, hd])) ?_)
            exact Source.noNul_run (List.forall_mem_singleton.mpr hd) c List.mem_cons_self
      · simpa using hne '.' (by decide) (by decide)
      · simpa using hne 'e' (by decide) (by decide)
      · simpa using hne 'E' (by decide) (by decide)

/-- The first character of a numeral is no white space. -/
theorem skipSpace_numeral {n : Numeral} (h : n.WellSpelled) (rest : List Char) :
    skipSpace (n.text ++ rest) = n.text ++ rest := by
  obtain ⟨c, cs, hc, hstart⟩ := Source.exists_cons_text (s := .number n) h
  have hc : n.text = c :: cs := hc
  rw [hc, List.cons_append, Source.skipSpace_cons hstart.not_space]

/-! ### Reading -/

/-- Nothing but a number is read as one, whatever the limit of depth. -/
theorem readValue?_number {fuel limit : Nat} {cs rest : List Char} {n : Numeral}
    (h : Source.readValue? fuel limit cs = some (.number n, rest)) :
    Numeral.read? (skipSpace cs) = some (n, rest) := by
  have hscalar : Source.readScalar? (skipSpace cs) = some (.number n, rest) →
      Numeral.read? (skipSpace cs) = some (n, rest) := by
    intro hread
    unfold Source.readScalar? at hread
    split at hread
    · cases hread
    · cases hread
    · cases hread
    · obtain ⟨_, _, hfound⟩ := Option.map_eq_some_iff.mp hread
      cases hfound
    · obtain ⟨_, hnumeral, hfound⟩ := Option.map_eq_some_iff.mp hread
      cases hfound
      exact hnumeral
  cases limit with
  | zero =>
      rw [Source.readValue?] at h
      exact hscalar h
  | succ limit =>
      rw [Source.readValue?.eq_def] at h
      dsimp only at h
      split at h
      · split at h
        · cases h
        · obtain ⟨_, _, hfound⟩ := Option.map_eq_some_iff.mp h
          cases hfound
      · split at h
        · cases h
        · obtain ⟨_, _, hfound⟩ := Option.map_eq_some_iff.mp h
          cases hfound
      · exact hscalar h

theorem readValue?_numeral {n : Numeral} (h : n.WellSpelled) {rest : List Char}
    (hrest : Numeral.Ends rest) (fuel limit : Nat) {cs : List Char}
    (hcs : skipSpace cs = n.text ++ rest) :
    Source.readValue? fuel limit cs = some (.number n, rest) := by
  obtain ⟨c, tail, hc, hstart⟩ := Source.exists_cons_numeral h
  have hread := Source.readScalar?_numeral h hrest
  rw [hc, List.cons_append] at hcs hread
  have hopen : c ≠ '[' ∧ c ≠ '\x7b' := by
    rcases hstart with rfl | hd
    · decide
    · constructor <;> (rintro rfl; exact absurd hd (by decide))
  cases limit with
  | zero => rw [Source.readValue?, hcs, hread]
  | succ limit =>
      rw [Source.readValue?.eq_def]
      dsimp only
      rw [hcs]
      split
      · next heq => exact absurd (List.cons.inj heq).1 hopen.1
      · next heq => exact absurd (List.cons.inj heq).1 hopen.2
      · exact hread

/-- The texts that are read as a number are the texts that spell it. -/
theorem parse?_eq_number_iff {limit : Nat} {cs : List Char} {n : Numeral} :
    Source.parse? limit cs = some (.number n) ↔ Spells cs n := by
  constructor
  · intro h
    rw [Source.parse?] at h
    split at h
    · next source rest hvalue =>
        split at h
        · next hspace =>
            cases h
            obtain ⟨hn, hcs⟩ := Numeral.read?_sound (readValue?_number hvalue)
            refine ⟨hn, cs.takeWhile isSpace, rest, ?_, fun c hc => List.mem_takeWhile_imp hc,
              skipSpace_eq_nil.mp hspace⟩
            rw [← hcs]
            exact List.takeWhile_append_dropWhile.symm
        · cases h
    · cases h
  · rintro ⟨hn, before, after, rfl, hbefore, hafter⟩
    have hends : Numeral.Ends after :=
      ends_of_head fun c hc => .inl (hafter c (List.mem_of_mem_head? hc))
    have hskip : skipSpace (before ++ (n.text ++ after)) = n.text ++ after := by
      rw [skipSpace_append hbefore, skipSpace_numeral hn]
    rw [Source.parse?, readValue?_numeral hn hends _ _ hskip]
    dsimp only
    rw [if_pos (skipSpace_eq_nil.mpr hafter)]

/-- A text spells one number at most. -/
theorem Spells.unique {cs : List Char} {m n : Numeral} (hm : Spells cs m) (hn : Spells cs n) :
    m = n := by
  have hread : Source.parse? 0 cs = some (.number m) := parse?_eq_number_iff.mpr hm
  rw [parse?_eq_number_iff.mpr hn] at hread
  injection hread with hread
  injection hread with hread
  exact hread.symm

/-- What follows the first NUL of a text. -/
theorem exists_untilNul (cs : List Char) :
    ∃ tail, cs = Text.untilNul cs ++ tail ∧ ∀ c ∈ tail.head?, c.toNat = 0 := by
  refine ⟨cs.dropWhile (fun c => c.toNat ≠ 0), List.takeWhile_append_dropWhile.symm, ?_⟩
  intro c hc
  have hstop := List.head?_dropWhile_not (fun c : Char => decide (c.toNat ≠ 0)) cs
  rw [hc] at hstop
  simpa using hstop

/-- The real at the front of a text that spells a number up to its first NUL. -/
theorem leadingReal_of_spells {cs : List Char} {n : Numeral} (h : Spells (Text.untilNul cs) n) :
    leadingReal cs = .ofNumeral n := by
  obtain ⟨hn, before, after, hcs, hbefore, hafter⟩ := h
  obtain ⟨tail, htail, hnul⟩ := exists_untilNul cs
  have hends : Numeral.Ends (after ++ tail) := by
    refine ends_of_head fun c hc => ?_
    cases after with
    | nil => exact .inr (hnul c hc)
    | cons d after =>
        cases hc
        exact .inl (hafter _ List.mem_cons_self)
  have hskip : skipSpace cs = n.text ++ (after ++ tail) := by
    rw [htail, hcs, List.append_assoc, skipSpace_append hbefore, List.append_assoc,
      skipSpace_numeral hn]
  rw [leadingReal, hskip, Numeral.read?_text hn hends]

end EntityStore.Sql
