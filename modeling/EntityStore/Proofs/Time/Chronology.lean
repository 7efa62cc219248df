import EntityStore.Proofs.Text.Bytes
import EntityStore.Proofs.Time.Order
import EntityStore.Proofs.Time.Shown

/-! # Stored instants in order

The stored text of an instant has all its parts, from the year to the microseconds, each at its full
width.  So the texts of all instants have one length, and of two instants the earlier one has the
smaller text (`bytes_stored_lt`): the parts are compared in the order in which a clock is read
(`Civil.Before`), and a leap second is second 60.

The database writes times to the second in a format of its own, with a blank after the date and
without offset (`plain`).  What it stands for is also what is read of the text with `Z` or with the
offset of any clock (`readStored?_plain`, `readStored?_shown`, `readStored?_withOffset`). -/

namespace EntityStore.Time

/-! ### The order of clocks -/

/-- From the year to the microseconds. -/
def Civil.Before (c d : Civil) : Prop :=
  c.date.year < d.date.year ∨ c.date.year = d.date.year ∧
  (c.date.month < d.date.month ∨ c.date.month = d.date.month ∧
  (c.date.day < d.date.day ∨ c.date.day = d.date.day ∧
  (c.hour < d.hour ∨ c.hour = d.hour ∧
  (c.minute < d.minute ∨ c.minute = d.minute ∧
  (c.second < d.second ∨ c.second = d.second ∧
  c.nanos / 1000 < d.nanos / 1000)))))

namespace Instant
variable {i j : Instant}

theorem lt_iff : i < j ↔ i.seconds < j.seconds ∨ i.seconds = j.seconds ∧ i.nanos < j.nanos :=
  Prod.Lex.toLex_lt_toLex

/-- Of two instants that differ in microseconds a clock shows the earlier one first. -/
theorem before_civil (hi : i.Storable) (h : i.toMicros < j.toMicros) :
    i.civil.Before j.civil := by
  have hleap := hi.leap
  rw [lt_iff] at h
  simp only [toMicros] at h
  rcases Int.lt_trichotomy (i.seconds / 86400) (j.seconds / 86400) with hday | hday | hday
  · rcases Date.before_ofDay hday with hyear | ⟨hyear, hmonth | ⟨hmonth, hdate⟩⟩
    · exact .inl hyear
    · exact .inr ⟨hyear, .inl hmonth⟩
    · exact .inr ⟨hyear, .inr ⟨hmonth, .inl hdate⟩⟩
  · have hdate : i.civil.date = j.civil.date := congrArg Date.ofDay hday
    rw [Civil.Before, hdate]
    refine .inr ⟨rfl, .inr ⟨rfl, .inr ⟨rfl, ?_⟩⟩⟩
    simp only [civil]
    split <;> split <;> omega
  · omega

/-! ### The order of texts -/

/-- Numbers of one width are compared before what follows a separator. -/
theorem padded_cons_lt {width m n : Nat} (hw : 0 < width) (hm : m < 10 ^ width)
    (hn : n < 10 ^ width) (c : Char) {x y : List Char} (h : m < n ∨ m = n ∧ x < y) :
    Text.padded width m ++ c :: x < Text.padded width n ++ c :: y :=
  Text.padded_append_lt hw hm hn (h.imp_right fun ⟨heq, hxy⟩ =>
    ⟨heq, List.cons_lt_cons_iff.mpr (.inr ⟨rfl, hxy⟩)⟩)

theorem toList_stored (h : i.Storable) : i.stored.toList =
    Text.padded 4 i.civil.date.year.toNat ++ '-' :: (Text.padded 2 i.civil.date.month ++
      '-' :: (Text.padded 2 i.civil.date.day ++ 'T' :: (Text.padded 2 i.civil.hour ++
        ':' :: (Text.padded 2 i.civil.minute ++ ':' :: (Text.padded 2 i.civil.second ++
          '.' :: (Text.padded 6 (i.civil.nanos / 1000) ++ ['Z'])))))) := by
  simp only [stored, secondsText, String.toList_ofList, yearText_civil h, List.append_assoc,
    List.cons_append]

/-- The earlier instant has the smaller text. -/
theorem stored_lt_of_lt (hi : i.Storable) (hj : j.Storable) (h : i.toMicros < j.toMicros) :
    i.stored < j.stored := by
  obtain ⟨hfirst, hlast, hmonth, hdate, hhour, hminute, hsecond, hnanos⟩ := fits_civil hi
  obtain ⟨hfirst', hlast', hmonth', hdate', hhour', hminute', hsecond', hnanos'⟩ := fits_civil hj
  have hday := Date.day_le hdate
  have hday' := Date.day_le hdate'
  rw [String.lt_iff_toList_lt, toList_stored hi, toList_stored hj]
  -- a part decides, or it is the same and the next one does
  refine padded_cons_lt (by decide) (by omega) (by omega) '-'
    ((before_civil hi h).imp (by omega) (And.imp (congrArg Int.toNat) fun h => ?_))
  refine padded_cons_lt (by decide) (by omega) (by omega) '-' (h.imp_right (And.imp_right fun h => ?_))
  refine padded_cons_lt (by decide) (by omega) (by omega) 'T' (h.imp_right (And.imp_right fun h => ?_))
  refine padded_cons_lt (by decide) (by omega) (by omega) ':' (h.imp_right (And.imp_right fun h => ?_))
  refine padded_cons_lt (by decide) (by omega) (by omega) ':' (h.imp_right (And.imp_right fun h => ?_))
  refine padded_cons_lt (by decide) (by omega) (by omega) '.' (h.imp_right (And.imp_right fun h => ?_))
  exact Text.padded_append_lt (by decide) (by omega) (by omega) (.inl h)

/-- What is below a microsecond is not stored. -/
theorem stored_toMicros (i : Instant) : i.toMicros.stored = i.stored := by
  have hleap : 1000000000 ≤ i.nanos / 1000 * 1000 ↔ 1000000000 ≤ i.nanos := by omega
  have hmicros : (if 1000000000 ≤ i.nanos then i.nanos / 1000 * 1000 - 1000000000
      else i.nanos / 1000 * 1000) / 1000 =
        (if 1000000000 ≤ i.nanos then i.nanos - 1000000000 else i.nanos) / 1000 := by
    split <;> omega
  simp only [stored, secondsText, civil, toMicros, hleap, hmicros]

/-- Instants are in the order of the bytes of their texts. -/
theorem bytes_stored_lt (hi : i.Storable) (hj : j.Storable) :
    Text.bytes i.stored < Text.bytes j.stored ↔ i.toMicros < j.toMicros := by
  rw [Text.bytes_lt_bytes]
  refine ⟨fun hlt => ?_, stored_lt_of_lt hi hj⟩
  rcases lt_trichotomy i.toMicros j.toMicros with h | h | h
  · exact h
  · have htext := congrArg stored h
    rw [stored_toMicros, stored_toMicros] at htext
    exact absurd (htext ▸ hlt) (lt_irrefl _)
  · exact absurd hlt (lt_asymm (stored_lt_of_lt hj hi h))

/-- A stored text has a byte for each digit and each separator. -/
theorem length_bytes_stored (h : i.Storable) : (Text.bytes i.stored).length = 27 := by
  obtain ⟨hfirst, hlast, hmonth, hdate, hhour, hminute, hsecond, hnanos⟩ := fits_civil h
  have hday := Date.day_le hdate
  have hpair : ∀ n < 100, (Text.padded 2 n).length = 2 := fun n hn =>
    Text.length_padded (by decide) hn
  have hyear : (Text.padded 4 i.civil.date.year.toNat).length = 4 :=
    Text.length_padded (by decide) (by omega)
  have hmicros : (Text.padded 6 (i.civil.nanos / 1000)).length = 6 :=
    Text.length_padded (by decide) (by omega)
  rw [Text.length_bytes fun c hc => (toNat_of_mem_stored h hc).2, toList_stored h]
  simp only [List.length_append, List.length_cons, List.length_nil, hyear, hmicros,
    hpair i.civil.date.month (by omega), hpair i.civil.date.day (by omega),
    hpair i.civil.hour (by omega), hpair i.civil.minute (by omega),
    hpair i.civil.second (by omega)]

/-! ### Two formats -/

theorem eq_of_whole (h : i.civil.nanos = 0) :
    (⟨i.seconds, if 1000000000 ≤ i.nanos then 0 + 1000000000 else 0⟩ : Instant) = i := by
  simp only [civil] at h
  obtain ⟨seconds, nanos⟩ := i
  refine congrArg (Instant.mk seconds) ?_
  dsimp only at h ⊢
  split at h <;> split <;> omega

/-- What a clock without offset would show when a clock that is minutes ahead shows the instant. -/
def ahead (minutes : Int) (i : Instant) : Instant := ⟨i.seconds + minutes * 60, i.nanos⟩

/-- A sign, hours and minutes. -/
def offsetText (minutes : Int) : List Char :=
  (if minutes < 0 then '-' else '+') ::
    Text.padded 2 (minutes.natAbs / 60) ++ ':' :: Text.padded 2 (minutes.natAbs % 60)

/-- Date and time of day to the second, with the offset of the clock that shows them. -/
def withOffset (minutes : Int) (i : Instant) : String :=
  String.ofList (clockText 'T' (i.ahead minutes).civil ++ offsetText minutes)

/-- After a sign come hours and minutes. -/
theorem readOffset?_of_sign {sign : Char} (hsign : sign = '+' ∨ sign = '-')
    (colon : List Char → Option (List Char)) (cs : List Char) :
    readOffset? colon (sign :: cs) =
      (readFixed? 2 cs).bind fun hours =>
        (colon hours.2).bind fun rest =>
          (readFixed? 2 rest).bind fun minutes =>
            (offsetSeconds? (sign ≠ '+') hours.1 minutes.1).bind fun seconds =>
              some (seconds, minutes.2) := by
  rcases hsign with rfl | rfl <;> rfl

/-- A sign with hours and minutes is read as seconds. -/
theorem readOffset?_sign {sign : Char} (hsign : sign = '+' ∨ sign = '-') {minutes : Nat}
    (h : minutes < 1440) : readOffset? (readChar? ':')
      (sign :: Text.padded 2 (minutes / 60) ++ ':' :: Text.padded 2 (minutes % 60)) =
      some (if sign ≠ '+' then -((minutes * 60 : Nat) : Int) else (minutes * 60 : Nat), []) := by
  have hhours : ∀ rest, readFixed? 2 (Text.padded 2 (minutes / 60) ++ rest) =
      some (minutes / 60, rest) :=
    readFixed?_padded (by decide) (show minutes / 60 < 100 by omega)
  have hminutes : readFixed? 2 (Text.padded 2 (minutes % 60)) = some (minutes % 60, []) := by
    have hread := readFixed?_padded (by decide) (show minutes % 60 < 10 ^ 2 by omega) []
    rwa [List.append_nil] at hread
  have hcolon : ∀ rest, readChar? ':' (':' :: rest) = some rest := fun _ => rfl
  have hseconds : offsetSeconds? (sign ≠ '+') (minutes / 60) (minutes % 60) =
      some (if sign ≠ '+' then -((minutes * 60 : Nat) : Int) else (minutes * 60 : Nat)) := by
    have hparts : minutes / 60 * 60 + minutes % 60 = minutes := by omega
    have hfits : (decide (minutes % 60 < 60) && decide (minutes * 60 < 86400)) = true := by
      rw [Bool.and_eq_true, decide_eq_true_eq, decide_eq_true_eq]
      omega
    rw [offsetSeconds?, hparts, if_pos hfits]
    simp only [decide_eq_true_eq]
  simp only [List.cons_append, readOffset?_of_sign hsign, hhours, hcolon, hminutes, hseconds,
    Option.bind_some]

theorem readOffset?_offsetText {minutes : Int} (h : minutes.natAbs < 1440) :
    readOffset? (readChar? ':') (offsetText minutes) = some (minutes * 60, []) := by
  rw [offsetText]
  split
  · next hnegative =>
      rw [readOffset?_sign (.inr rfl) h, if_pos (by decide)]
      exact congrArg (fun n => some (n, [])) (by omega)
  · next hpositive =>
      rw [readOffset?_sign (.inl rfl) h, if_neg (by decide)]
      exact congrArg (fun n => some (n, [])) (by omega)

/-- What a clock with an offset shows is the instant. -/
theorem instant?_ahead (hi : i.Storable) {minutes : Int} (hj : (i.ahead minutes).Storable) {nanos : Nat}
    (hnanos : nanos < 1000000000) :
    Civil.instant? ⟨(i.ahead minutes).civil.date, (i.ahead minutes).civil.hour,
        (i.ahead minutes).civil.minute, (i.ahead minutes).civil.second, nanos⟩ (minutes * 60) =
      some ⟨i.seconds, if 1000000000 ≤ i.nanos then nanos + 1000000000 else nanos⟩ := by
  have hclock := instant_civil hj nanos
  have hinstant : Civil.instant ⟨(i.ahead minutes).civil.date, (i.ahead minutes).civil.hour,
      (i.ahead minutes).civil.minute, (i.ahead minutes).civil.second, nanos⟩ (minutes * 60) =
        ⟨i.seconds, if 1000000000 ≤ i.nanos then nanos + 1000000000 else nanos⟩ := by
    simp only [Civil.instant, Instant.mk.injEq] at hclock ⊢
    refine ⟨?_, hclock.2⟩
    have hseconds : (i.ahead minutes).seconds = i.seconds + minutes * 60 := rfl
    omega
  rw [Civil.instant?, if_pos (isValid_civil hj hnanos), hinstant]
  exact if_pos (year_civil hi)

/-- What a clock shows is read with what follows it as an offset. -/
theorem readStored?_clockText (hi : i.Storable) {minutes : Int} (hj : (i.ahead minutes).Storable)
    (hwhole : i.civil.nanos = 0) {zone : List Char} (hnanos : readNanos? zone = some (0, zone))
    (hzone : readOffset? (readChar? ':') zone = some (minutes * 60, [])) :
    readStored? (String.ofList (clockText 'T' (i.ahead minutes).civil ++ zone)) = some i := by
  have hstrict : readStrict? (clockText 'T' (i.ahead minutes).civil ++ zone) = some i := by
    rw [readStrict?_clockText hj fun _ => rfl]
    refine (bind_of_eq_some hnanos).trans ?_
    refine (bind_of_eq_some hzone).trans ?_
    exact (instant?_ahead hi hj (by decide)).trans (congrArg some (eq_of_whole hwhole))
  rw [readStored?, String.toList_ofList, hstrict]
  rfl

/-- A text with an offset is read as the instant. -/
theorem readStored?_withOffset (hi : i.Storable) {minutes : Int} (hj : (i.ahead minutes).Storable)
    (hminutes : minutes.natAbs < 1440) (hwhole : i.civil.nanos = 0) :
    readStored? (i.withOffset minutes) = some i := by
  have hnanos : readNanos? (offsetText minutes) = some (0, offsetText minutes) := by
    rw [offsetText]
    split <;> rfl
  exact readStored?_clockText hi hj hwhole hnanos (readOffset?_offsetText hminutes)

theorem ahead_zero (i : Instant) : i.ahead 0 = i := by
  rw [ahead, Int.zero_mul, Int.add_zero]

/-- A text that shows a whole second is read as the instant. -/
theorem readStored?_shown (h : i.Storable) (hwhole : i.civil.nanos = 0) :
    readStored? i.shown = some i := by
  have hself : (i.ahead 0).Storable := by rwa [ahead_zero]
  have hread : readStored? (String.ofList (clockText 'T' (i.ahead 0).civil ++ ['Z'])) = some i :=
    readStored?_clockText h hself hwhole rfl rfl
  have hshown : i.shown = String.ofList (clockText 'T' i.civil ++ ['Z']) := by
    simp only [shown, hwhole, fractionText, if_true, List.append_nil]
    rfl
  simp only [ahead_zero] at hread
  rw [hshown]
  exact hread

/-- Date and time of day as the database writes them. -/
def plain (i : Instant) : String := String.ofList (clockText ' ' i.civil)

/-- The text of the database is read as the instant. -/
theorem readStored?_plain (h : i.Storable) (hwhole : i.civil.nanos = 0) :
    readStored? i.plain = some i := by
  have hstrict : readStrict? (clockText ' ' i.civil) = none := by
    have hmark : ∀ rest, readMark? (' ' :: rest) = some rest := fun _ => rfl
    have hread := readStrict?_clockText h hmark []
    rw [List.append_nil] at hread
    rw [hread]
    rfl
  have hblank : ∀ rest, readClock? false (' ' :: rest) = readClock? false rest := fun _ => rfl
  have hplain : readPlain? (clockText ' ' i.civil) = some i := by
    have hclock := readClock?_civil h false []
    rw [List.append_nil, ← hblank] at hclock
    simp only [clockText, yearText_civil h, List.append_assoc, List.cons_append, readPlain?]
    refine (bind_of_eq_some (readDate?_civil h false _)).trans ?_
    refine (bind_of_eq_some hclock).trans ?_
    exact (instant?_civil h (by decide)).trans (congrArg some (eq_of_whole hwhole))
  rw [readStored?, plain, String.toList_ofList, hstrict, hplain]
  rfl

end Instant
end EntityStore.Time
