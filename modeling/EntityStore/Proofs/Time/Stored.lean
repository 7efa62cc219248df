import EntityStore.Proofs.Text.Digits
import EntityStore.Proofs.Time.Calendar
import EntityStore.Time.Reader

/-! # Stored instants read back

The text under which an instant is stored is read as the instant to the microsecond
(`readStored?_stored`), for the `Storable` instants: those of years with four digits, in which a
leap second stands at the end of a minute.  The text has no NUL (`toNat_of_mem_stored`). -/

namespace EntityStore.Time

/-- A number of fixed width is read. -/
theorem readFixed?_padded {width n : Nat} (hw : 0 < width) (h : n < 10 ^ width)
    (rest : List Char) : readFixed? width (Text.padded width n ++ rest) = some (n, rest) := by
  have hlen := Text.length_padded hw h
  have hall : (Text.padded width n).all Text.isDigit = true :=
    List.all_eq_true.mpr fun c hc => Text.isDigit_of_mem_padded hc
  rw [readFixed?, List.take_left' hlen, List.drop_left' hlen]
  simp [hlen, hall, Text.digitsValue_padded]

/-- Up to nine digits after the point are read as nanoseconds. -/
theorem readNanos?_padded {width n : Nat} (hw : 0 < width) (hnine : width ≤ 9) (h : n < 10 ^ width) :
    readNanos? ('.' :: Text.padded width n ++ ['Z']) = some (n * 10 ^ (9 - width), ['Z']) := by
  have hlen : (Text.padded width n).length = width := Text.length_padded hw h
  have htake : (Text.padded width n ++ ['Z']).takeWhile Text.isDigit = Text.padded width n := by
    rw [List.takeWhile_append_of_pos fun c hc => Text.isDigit_of_mem_padded hc]
    simp [Text.isDigit]
  have hne : (Text.padded width n).isEmpty = false := by
    rw [List.isEmpty_eq_false_iff]
    intro hnil
    rw [hnil] at hlen
    exact absurd hlen (Nat.ne_of_lt hw)
  have htake9 : (Text.padded width n).take 9 = Text.padded width n :=
    List.take_of_length_le (by omega)
  simp only [List.cons_append, readNanos?, htake, hne, Bool.false_eq_true, if_false, htake9, hlen,
    List.drop_left' hlen, Text.digitsValue_append_zeros, Text.digitsValue_padded]

/-- An instant whose stored text can be read: the year has four digits, and a leap second is the end
of a minute. -/
structure Instant.Storable (i : Instant) : Prop where
  firstYear : 0 ≤ i.civil.date.year
  lastYear : i.civil.date.year ≤ 9999
  nanos : i.nanos < 2000000000
  leap : 1000000000 ≤ i.nanos → i.seconds % 60 = 59

instance (i : Instant) : Decidable i.Storable :=
  decidable_of_iff (0 ≤ i.civil.date.year ∧ i.civil.date.year ≤ 9999 ∧ i.nanos < 2000000000 ∧
      (1000000000 ≤ i.nanos → i.seconds % 60 = 59))
    ⟨fun ⟨hfirst, hlast, hnanos, hleap⟩ => ⟨hfirst, hlast, hnanos, hleap⟩,
      fun h => ⟨h.firstYear, h.lastYear, h.nanos, h.leap⟩⟩

namespace Instant

/-- What a clock shows is inside the widths of the stored text. -/
structure Fits (c : Civil) : Prop where
  firstYear : 0 ≤ c.date.year
  lastYear : c.date.year ≤ 9999
  month : c.date.month ≤ 12
  date : c.date.isValid = true
  hour : c.hour < 24
  minute : c.minute < 60
  second : c.second ≤ 60
  nanos : c.nanos < 1000000000

theorem fits_civil {i : Instant} (h : i.Storable) : Fits i.civil where
  firstYear := h.firstYear
  lastYear := h.lastYear
  month := Date.month_ofDay_le _
  date := Date.isValid_ofDay _
  hour := by
    simp only [civil]
    omega
  minute := by
    simp only [civil]
    omega
  second := by
    simp only [civil]
    split <;> omega
  nanos := by
    have := h.nanos
    simp only [civil]
    split <;> omega

/-- What follows a piece that can be read. -/
theorem bind_of_eq_some {α β : Type} {x : Option α} {a : α} {f : α → Option β} (h : x = some a) :
    x >>= f = f a := by
  rw [h]
  rfl

/-- What a clock shows to the second, with a mark between the date and the time of day. -/
def clockText (mark : Char) (c : Civil) : List Char :=
  yearText c.date.year ++ '-' :: Text.padded 2 c.date.month ++ '-' :: Text.padded 2 c.date.day ++
    mark :: Text.padded 2 c.hour ++ ':' :: Text.padded 2 c.minute ++ ':' :: Text.padded 2 c.second

/-- The year of a storable instant is written with four digits. -/
theorem yearText_civil {i : Instant} (h : i.Storable) :
    yearText i.civil.date.year = Text.padded 4 i.civil.date.year.toNat :=
  if_pos ⟨h.firstYear, h.lastYear⟩

/-- What a clock shows is read in the format of fixed width, up to the fraction and the offset. -/
theorem readStrict?_clockText {i : Instant} (h : i.Storable) {mark : Char}
    (hmark : ∀ rest, readMark? (mark :: rest) = some rest) (rest : List Char) :
    readStrict? (clockText mark i.civil ++ rest) = (do
      let (nanos, cs) ← readNanos? rest
      let (offset, cs) ← readOffset? (readChar? ':') cs
      if cs.isEmpty then
        Civil.instant? ⟨i.civil.date, i.civil.hour, i.civil.minute, i.civil.second, nanos⟩ offset
      else none) := by
  obtain ⟨hfirst, hlast, hmonth, hdate, hhour, hminute, hsecond, -⟩ := fits_civil h
  have hday := Date.day_le hdate
  have hpair : ∀ n < 100, ∀ rest, readFixed? 2 (Text.padded 2 n ++ rest) = some (n, rest) :=
    fun n hn => readFixed?_padded (by decide) hn
  have hreadYear : ∀ rest, readFixed? 4 (Text.padded 4 i.civil.date.year.toNat ++ rest) =
      some (i.civil.date.year.toNat, rest) :=
    readFixed?_padded (by decide) (show i.civil.date.year.toNat < 10000 by omega)
  have hreadMonth := hpair i.civil.date.month (by omega)
  have hreadDay := hpair i.civil.date.day (by omega)
  have hreadHour := hpair i.civil.hour (by omega)
  have hreadMinute := hpair i.civil.minute (by omega)
  have hreadSecond := hpair i.civil.second (by omega)
  have hnext : ∀ (c : Char) (rest : List Char), readChar? c (c :: rest) = some rest :=
    fun _ _ => if_pos rfl
  simp only [clockText, yearText_civil h, List.append_assoc, List.cons_append, readStrict?]
  -- one piece after the other is read off the front
  refine (bind_of_eq_some (hreadYear _)).trans ?_
  refine (bind_of_eq_some (hnext '-' _)).trans ?_
  refine (bind_of_eq_some (hreadMonth _)).trans ?_
  refine (bind_of_eq_some (hnext '-' _)).trans ?_
  refine (bind_of_eq_some (hreadDay _)).trans ?_
  refine (bind_of_eq_some (hmark _)).trans ?_
  refine (bind_of_eq_some (hreadHour _)).trans ?_
  refine (bind_of_eq_some (hnext ':' _)).trans ?_
  refine (bind_of_eq_some (hreadMinute _)).trans ?_
  refine (bind_of_eq_some (hnext ':' _)).trans ?_
  refine (bind_of_eq_some (hreadSecond _)).trans ?_
  rw [Int.toNat_of_nonneg hfirst]

/-- The stored text is read in the format of fixed width. -/
theorem readStrict?_stored {i : Instant} (h : i.Storable) :
    readStrict? i.stored.toList = Civil.instant?
      ⟨i.civil.date, i.civil.hour, i.civil.minute, i.civil.second, i.civil.nanos / 1000 * 1000⟩
      0 := by
  have hnanos := (fits_civil h).nanos
  have htext : i.stored.toList = clockText 'T' i.civil ++
      ('.' :: (Text.padded 6 (i.civil.nanos / 1000) ++ ['Z'])) := by
    rw [stored, String.toList_ofList, List.append_assoc]
    rfl
  have hmicros : readNanos? ('.' :: (Text.padded 6 (i.civil.nanos / 1000) ++ ['Z'])) =
      some (i.civil.nanos / 1000 * 1000, ['Z']) :=
    readNanos?_padded (by decide) (by decide) (show i.civil.nanos / 1000 < 1000000 by omega)
  have hoffset : readOffset? (readChar? ':') ['Z'] = some (0, []) := rfl
  rw [htext, readStrict?_clockText h fun _ => rfl]
  refine (bind_of_eq_some hmicros).trans ?_
  refine (bind_of_eq_some hoffset).trans ?_
  rfl

/-- What a clock shows gives back the second. -/
theorem instant_civil {i : Instant} (h : i.Storable) (nanos : Nat) :
    Civil.instant ⟨i.civil.date, i.civil.hour, i.civil.minute, i.civil.second, nanos⟩ 0 =
      ⟨i.seconds, if 1000000000 ≤ i.nanos then nanos + 1000000000 else nanos⟩ := by
  have hday : i.civil.date.toDay = i.seconds / 86400 := Date.toDay_ofDay _
  have hleap := h.leap
  by_cases hnanos : 1000000000 ≤ i.nanos
  · have hsecond : i.civil.second = 60 := by
      simp only [civil, if_pos hnanos]
      omega
    simp only [Civil.instant, hsecond, hday, if_true, if_pos hnanos, Instant.mk.injEq, and_true]
    simp only [civil]
    omega
  · have hsecond : i.civil.second ≠ 60 := by
      simp only [civil, if_neg hnanos]
      omega
    simp only [Civil.instant, hsecond, hday, if_false, if_neg hnanos, Instant.mk.injEq, and_true]
    simp only [civil, if_neg hnanos]
    omega

/-- What a clock shows exists, with any nanoseconds. -/
theorem isValid_civil {i : Instant} (h : i.Storable) {nanos : Nat} (hnanos : nanos < 1000000000) :
    Civil.isValid ⟨i.civil.date, i.civil.hour, i.civil.minute, i.civil.second, nanos⟩ = true := by
  obtain ⟨hfirst, hlast, -, hdate, hhour, hminute, hsecond, -⟩ := fits_civil h
  have hlow : Time.firstYear ≤ i.civil.date.year := Int.le_trans (by decide) hfirst
  have hhigh : i.civil.date.year ≤ Time.lastYear := Int.le_trans hlast (by decide)
  simp [Civil.isValid, hdate, hhour, hminute, hsecond, hnanos, hlow, hhigh]

/-- The year is one of a date. -/
theorem year_civil {i : Instant} (h : i.Storable) :
    Time.firstYear ≤ (Date.ofDay (i.seconds / 86400)).year ∧
      (Date.ofDay (i.seconds / 86400)).year ≤ Time.lastYear :=
  ⟨Int.le_trans (by decide) h.firstYear, Int.le_trans h.lastYear (by decide)⟩

/-- The instant of what a clock shows to the second, with any nanoseconds. -/
theorem instant?_civil {i : Instant} (h : i.Storable) {nanos : Nat} (hnanos : nanos < 1000000000) :
    Civil.instant? ⟨i.civil.date, i.civil.hour, i.civil.minute, i.civil.second, nanos⟩ 0 =
      some ⟨i.seconds, if 1000000000 ≤ i.nanos then nanos + 1000000000 else nanos⟩ := by
  rw [Civil.instant?, if_pos (isValid_civil h hnanos), instant_civil h]
  exact if_pos (year_civil h)

/-- A stored text consists of digits and separators. -/
theorem mem_stored {i : Instant} (h : i.Storable) {c : Char} (hc : c ∈ i.stored.toList) :
    Text.isDigit c = true ∨ c ∈ ['-', 'T', ':', '.', 'Z'] := by
  simp only [stored, secondsText, String.toList_ofList, yearText_civil h, List.mem_append,
    List.mem_cons, List.not_mem_nil, or_false] at hc
  repeat' rcases hc with hc | hc
  all_goals first | exact .inl (Text.isDigit_of_mem_padded hc) | exact .inr (by decide)

/-- All characters of a stored text are encoded as one byte, and none ends it. -/
theorem toNat_of_mem_stored {i : Instant} (h : i.Storable) {c : Char}
    (hc : c ∈ i.stored.toList) : c.toNat ≠ 0 ∧ c.toNat < 128 := by
  rcases mem_stored h hc with hdigit | hseparator
  · have := Text.isDigit_iff.mp hdigit
    omega
  · simp only [List.mem_cons, List.not_mem_nil, or_false] at hseparator
    rcases hseparator with rfl | rfl | rfl | rfl | rfl <;> decide

/-- A stored text is read as the instant to the microsecond. -/
theorem readStored?_stored {i : Instant} (h : i.Storable) :
    readStored? i.stored = some i.toMicros := by
  have hnanos : i.civil.nanos = if 1000000000 ≤ i.nanos then i.nanos - 1000000000 else i.nanos := rfl
  have hlt := (fits_civil h).nanos
  have hcut : (if 1000000000 ≤ i.nanos then i.civil.nanos / 1000 * 1000 + 1000000000
      else i.civil.nanos / 1000 * 1000) = i.nanos / 1000 * 1000 := by
    rw [hnanos]
    split <;> omega
  rw [readStored?, readStrict?_stored h, instant?_civil h (by omega), hcut, Option.some_or]
  rfl

end Instant
end EntityStore.Time
