import EntityStore.Proofs.Time.Stored
import Mathlib.Data.List.TakeWhile

/-! # Shown instants read back

The text that shows an instant is read as that instant, with all of its nanoseconds
(`readField?_shown`), for the storable instants.  And what is read of any text is an instant that
there is (`Instant.Valid`): offsets are whole minutes, so a leap second stays at the end of a minute
(`valid_of_readField?`). -/

namespace EntityStore.Time

/-! ### Pieces -/

theorem isBlank_of_isDigit {c : Char} (h : Text.isDigit c = true) : Text.isBlank c = false := by
  obtain ⟨hlow, hhigh⟩ := Text.isDigit_iff.mp h
  simp only [Text.isBlank, Bool.or_eq_false_iff, Bool.and_eq_false_iff, decide_eq_false_iff_not,
    beq_eq_false_iff_ne]
  omega

theorem skipBlank_cons {c : Char} (h : Text.isBlank c = false) (rest : List Char) :
    skipBlank (c :: rest) = c :: rest :=
  List.dropWhile_cons_of_neg (by rw [h]; exact Bool.false_ne_true)

/-- Padded digits begin with a digit. -/
theorem exists_padded (width n : Nat) :
    ∃ d ds, Text.padded width n = d :: ds ∧ Text.isDigit d = true := by
  cases hds : Text.padded width n with
  | nil =>
      rw [Text.padded, List.append_eq_nil_iff] at hds
      exact absurd hds.2 (Text.natural_ne_nil n)
  | cons d ds =>
      exact ⟨d, ds, rfl, Text.isDigit_of_mem_padded (hds ▸ List.mem_cons_self)⟩

theorem skipBlank_padded (width n : Nat) (rest : List Char) :
    skipBlank (Text.padded width n ++ rest) = Text.padded width n ++ rest := by
  obtain ⟨d, ds, hds, hd⟩ := exists_padded width n
  rw [hds]
  exact skipBlank_cons (isBlank_of_isDigit hd) _

section padded
variable {n : Nat} (rest : List Char)

/-- As many digits as are allowed are read. -/
theorem readNumber?_padded {width : Nat} (hw : 0 < width) (h : n < 10 ^ width) :
    readNumber? width (Text.padded width n ++ rest) = some (n, rest) := by
  have hlen := Text.length_padded hw h
  have htake : (Text.padded width n).takeWhile Text.isDigit = Text.padded width n :=
    List.takeWhile_eq_self_iff.mpr fun c hc => Text.isDigit_of_mem_padded hc
  obtain ⟨d, ds, hds, -⟩ := exists_padded width n
  have hne : (Text.padded width n).isEmpty = false := by
    rw [hds]
    rfl
  simp only [readNumber?, List.take_left' hlen, htake, hne, Bool.false_eq_true, if_false, hlen,
    List.drop_left' hlen, Text.digitsValue_padded]

theorem readShort?_padded (h : n < 100) :
    readShort? (Text.padded 2 n ++ rest) = some (n, rest) := by
  rw [readShort?, skipBlank_padded]
  exact readNumber?_padded rest (by decide) h

theorem readYear?_padded (h : n < 10000) :
    readYear? (Text.padded 4 n ++ rest) = some ((n : Int), rest) := by
  have hread := readNumber?_padded rest (by decide) (show n < 10 ^ 4 from h)
  rw [readYear?, skipBlank_padded]
  obtain ⟨d, ds, hds, hd⟩ := exists_padded 4 n
  rw [hds, List.cons_append] at hread ⊢
  split
  · next heq =>
      cases heq
      exact absurd hd (by decide)
  · next heq =>
      cases heq
      exact absurd hd (by decide)
  · rw [hread]
    rfl

/-- A separator is read, with blanks before it or without. -/
theorem readSeparator?_self (loose : Bool) {c : Char} (hc : Text.isBlank c = false) :
    readSeparator? loose c (c :: rest) = some rest := by
  rw [readSeparator?]
  split
  · rw [skipBlank_cons hc]
    exact if_pos rfl
  · exact if_pos rfl

end padded

/-- A fraction is read as the nanoseconds that it was written for. -/
theorem readNanos?_fractionText {nanos : Nat} (h : nanos < 1000000000) :
    readNanos? (Instant.fractionText nanos ++ ['Z']) = some (nanos, ['Z']) := by
  unfold Instant.fractionText
  split
  · next hzero =>
      rw [hzero]
      rfl
  · split
    · next hmillis =>
        have hread : readNanos? ('.' :: Text.padded 3 (nanos / 1000000) ++ ['Z']) =
            some (nanos / 1000000 * 10 ^ (9 - 3), ['Z']) :=
          readNanos?_padded (by decide) (by decide) (by omega)
        rwa [show nanos / 1000000 * 10 ^ (9 - 3) = nanos by omega] at hread
    · split
      · next hmicros =>
          have hread : readNanos? ('.' :: Text.padded 6 (nanos / 1000) ++ ['Z']) =
              some (nanos / 1000 * 10 ^ (9 - 6), ['Z']) :=
            readNanos?_padded (by decide) (by decide) (by omega)
          rwa [show nanos / 1000 * 10 ^ (9 - 6) = nanos by omega] at hread
      · have hread : readNanos? ('.' :: Text.padded 9 nanos ++ ['Z']) =
            some (nanos * 10 ^ (9 - 9), ['Z']) := readNanos?_padded (by decide) (by decide) h
        rwa [show nanos * 10 ^ (9 - 9) = nanos by omega] at hread

/-! ### Texts that show an instant -/

namespace Instant

section civil
variable {i : Instant} (h : i.Storable) (loose : Bool) (rest : List Char)
include h

theorem readDate?_civil : readDate? loose (Text.padded 4 i.civil.date.year.toNat ++ '-' ::
    (Text.padded 2 i.civil.date.month ++ '-' :: (Text.padded 2 i.civil.date.day ++ rest))) =
      some (i.civil.date, rest) := by
  obtain ⟨hfirst, hlast, hmonth, hdate, -⟩ := fits_civil h
  have hday := Date.day_le hdate
  rw [readDate?]
  refine (bind_of_eq_some (readYear?_padded _ (by omega))).trans ?_
  refine (bind_of_eq_some (readSeparator?_self _ loose rfl)).trans ?_
  refine (bind_of_eq_some (readShort?_padded _ (by omega))).trans ?_
  refine (bind_of_eq_some (readSeparator?_self _ loose rfl)).trans ?_
  refine (bind_of_eq_some (readShort?_padded _ (by omega))).trans ?_
  rw [Int.toNat_of_nonneg hfirst]
  rfl

theorem readClock?_civil : readClock? loose (Text.padded 2 i.civil.hour ++ ':' ::
    (Text.padded 2 i.civil.minute ++ ':' :: (Text.padded 2 i.civil.second ++ rest))) =
      some ((i.civil.hour, i.civil.minute, i.civil.second), rest) := by
  obtain ⟨-, -, -, -, hhour, hminute, hsecond, -⟩ := fits_civil h
  rw [readClock?]
  refine (bind_of_eq_some (readShort?_padded _ (by omega))).trans ?_
  refine (bind_of_eq_some (readSeparator?_self _ loose rfl)).trans ?_
  refine (bind_of_eq_some (readShort?_padded _ (by omega))).trans ?_
  refine (bind_of_eq_some (readSeparator?_self _ loose rfl)).trans ?_
  exact bind_of_eq_some (readShort?_padded _ (by omega))

end civil

/-- The text that shows an instant is read piece by piece. -/
theorem readLoose?_shown {i : Instant} (h : i.Storable) :
    readLoose? i.shown.toList = Civil.instant?
      ⟨i.civil.date, i.civil.hour, i.civil.minute, i.civil.second, i.civil.nanos⟩ 0 := by
  have hmark : ∀ rest, readMark? ('T' :: rest) = some rest := fun _ => rfl
  have hoffset : readLooseOffset? (skipBlank ['Z']) = some (0, []) := rfl
  simp only [shown, secondsText, String.toList_ofList, yearText_civil h, List.append_assoc,
    List.cons_append, readLoose?]
  refine (bind_of_eq_some (readDate?_civil h true _)).trans ?_
  refine (bind_of_eq_some (hmark _)).trans ?_
  refine (bind_of_eq_some (readClock?_civil h true _)).trans ?_
  refine (bind_of_eq_some (readNanos?_fractionText (fits_civil h).nanos)).trans ?_
  exact bind_of_eq_some hoffset

/-- The text that shows an instant is read as it. -/
theorem readField?_shown {i : Instant} (h : i.Storable) : readField? i.shown = some i := by
  have hnanos : i.civil.nanos = if 1000000000 ≤ i.nanos then i.nanos - 1000000000 else i.nanos := rfl
  have hexact : (if 1000000000 ≤ i.nanos then i.civil.nanos + 1000000000 else i.civil.nanos) =
      i.nanos := by
    rw [hnanos]
    split <;> omega
  rw [readField?, readLoose?_shown h, instant?_civil h (fits_civil h).nanos, hexact]

/-! ### Instants that are read -/

/-- The instant is one that there is: a leap second stands at the end of a minute. -/
structure Valid (i : Instant) : Prop where
  nanos : i.nanos < 2000000000
  leap : 1000000000 ≤ i.nanos → i.seconds % 60 = 59

/-- The year has up to four digits. -/
def Dated (i : Instant) : Prop := 0 ≤ i.civil.date.year ∧ i.civil.date.year ≤ 9999

theorem storable_iff {i : Instant} : i.Storable ↔ i.Valid ∧ i.Dated :=
  ⟨fun h => ⟨⟨h.nanos, h.leap⟩, h.firstYear, h.lastYear⟩,
    fun ⟨hvalid, hfirst, hlast⟩ => ⟨hfirst, hlast, hvalid.nanos, hvalid.leap⟩⟩

end Instant

/-- What a clock shows is an instant where the offset is whole minutes. -/
theorem valid_of_instant? {c : Civil} {offset : Int} {i : Instant} (hoffset : offset % 60 = 0)
    (h : c.instant? offset = some i) : i.Valid := by
  rw [Civil.instant?] at h
  split at h
  · next hvalid =>
      dsimp only at h
      split at h
      · cases h
        simp only [Civil.isValid, Bool.and_eq_true, decide_eq_true_eq] at hvalid
        obtain ⟨⟨⟨⟨⟨⟨-, hhour⟩, hminute⟩, hsecond⟩, hnanos⟩, -⟩, -⟩ := hvalid
        by_cases hleap : c.second = 60
        · refine ⟨?_, fun _ => ?_⟩ <;> simp only [Civil.instant, if_pos hleap] <;> omega
        · refine ⟨?_, fun hle => ?_⟩ <;> simp only [Civil.instant, if_neg hleap] at * <;> omega
      · cases h
  · cases h

/-- An offset is whole minutes. -/
theorem whole_of_readOffset? {colon : List Char → Option (List Char)} {cs rest : List Char}
    {offset : Int} (h : readOffset? colon cs = some (offset, rest)) : offset % 60 = 0 := by
  unfold readOffset? at h
  split at h
  · cases h
    rfl
  · cases h
    rfl
  · split at h
    · simp only [Option.bind_eq_bind, Option.bind_eq_some_iff, Option.pure_def, Option.some.injEq,
        Prod.mk.injEq] at h
      obtain ⟨⟨hours, _⟩, -, _, -, ⟨minutes, _⟩, -, seconds, hseconds, rfl, -⟩ := h
      rw [offsetSeconds?] at hseconds
      dsimp only at hseconds
      split at hseconds
      · cases hseconds
        split <;> omega
      · cases hseconds
    · cases h
  · cases h

theorem whole_of_readLooseOffset? {cs rest : List Char} {offset : Int}
    (h : readLooseOffset? cs = some (offset, rest)) : offset % 60 = 0 := by
  rw [readLooseOffset?] at h
  split at h
  · cases h
    rfl
  · exact whole_of_readOffset? h

/-- What is read of a text is an instant that there is. -/
theorem valid_of_readField? {text : String} {i : Instant} (h : readField? text = some i) :
    i.Valid := by
  simp only [readField?, readLoose?, Option.bind_eq_bind, Option.bind_eq_some_iff] at h
  obtain ⟨_, -, _, -, _, -, _, -, ⟨offset, _⟩, hoffset, h⟩ := h
  split at h
  · exact valid_of_instant? (whole_of_readLooseOffset? hoffset) h
  · cases h

end EntityStore.Time
