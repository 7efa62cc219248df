import EntityStore.Time.Calendar

/-! # Dates and day numbers

`Date.ofDay` finds a date that exists (`Date.isValid_ofDay`) and whose day number is the given one
(`Date.toDay_ofDay`), for every day number.  The year is estimated from the mean length of a year;
the estimate is off by at most one (`daysBeforeYear_yearOf`).  The month is the last one that starts
on or before the day (`daysBeforeMonth_monthFrom_le`, `lt_daysBeforeMonth`).  Days are in the order
of their dates (`Date.before_ofDay`). -/

namespace EntityStore.Time

/-- The days of a year. -/
def yearLength (leap : Bool) : Nat := if leap then 366 else 365

theorem daysBeforeYear_succ (year : Int) :
    daysBeforeYear (year + 1) = daysBeforeYear year + yearLength (isLeap year) := by
  cases h : isLeap year with
  | true =>
      simp only [isLeap, Bool.and_eq_true, Bool.or_eq_true, decide_eq_true_eq] at h
      simp only [daysBeforeYear, yearLength, if_true]
      omega
  | false =>
      simp only [isLeap, Bool.and_eq_false_iff, Bool.or_eq_false_iff, decide_eq_false_iff_not] at h
      simp only [daysBeforeYear, yearLength, Bool.false_eq_true, if_false]
      omega

theorem daysBeforeMonth_thirteen (leap : Bool) : daysBeforeMonth leap 13 = yearLength leap := by
  cases leap <;> rfl

/-- A year has 146097 four-hundredths of a day on average. -/
theorem daysBeforeYear_bounds (year : Int) : 146097 * year - 396 ≤ 400 * daysBeforeYear year ∧
    400 * daysBeforeYear year ≤ 146097 * year + 699 := by
  simp only [daysBeforeYear]
  omega

theorem daysBeforeYear_le {year later : Int} (h : year ≤ later) :
    daysBeforeYear year ≤ daysBeforeYear later := by
  simp only [daysBeforeYear]
  omega

namespace Date

/-- A day lies in its year. -/
theorem daysBeforeYear_yearOf (day : Int) :
    daysBeforeYear (yearOf day) ≤ day ∧ day < daysBeforeYear (yearOf day + 1) := by
  unfold yearOf
  dsimp only
  split
  · next h =>
      have hnext := (daysBeforeYear_bounds (day * 400 / 146097 + 1 + 1)).1
      omega
  split
  · next h =>
      have hlast := (daysBeforeYear_bounds (day * 400 / 146097 - 1)).2
      rw [Int.sub_add_cancel]
      omega
  · next hnext hlast => omega

theorem monthFrom_bounds (leap : Bool) (day k : Nat) :
    1 ≤ monthFrom leap day k ∧ monthFrom leap day k ≤ max k 1 := by
  induction k with
  | zero => simp [monthFrom]
  | succ k ih =>
      unfold monthFrom
      split <;> omega

theorem daysBeforeMonth_monthFrom_le (leap : Bool) (day k : Nat) :
    daysBeforeMonth leap (monthFrom leap day k) ≤ day := by
  induction k with
  | zero => simp [monthFrom, daysBeforeMonth]
  | succ k ih =>
      unfold monthFrom
      split
      · next h => exact h
      · exact ih

/-- Months after the one that was found start later. -/
theorem lt_daysBeforeMonth {leap : Bool} {day k m : Nat} (h : monthFrom leap day k < m)
    (hm : m ≤ k) : day < daysBeforeMonth leap m := by
  induction k with
  | zero => omega
  | succ k ih =>
      unfold monthFrom at h
      split at h
      · omega
      · next hlater =>
          by_cases hk : m = k + 1
          · rw [hk]
            omega
          · exact ih h (by omega)

/-- A day of a year lies in the month that was found. -/
theorem day_in_month {leap : Bool} {day : Nat} (h : day < yearLength leap) :
    daysBeforeMonth leap (monthFrom leap day 12) ≤ day ∧
      day < daysBeforeMonth leap (monthFrom leap day 12) +
        monthLength leap (monthFrom leap day 12) := by
  refine ⟨daysBeforeMonth_monthFrom_le leap day 12, ?_⟩
  obtain ⟨hlow, hhigh⟩ := monthFrom_bounds leap day 12
  have hnext : daysBeforeMonth leap (monthFrom leap day 12 + 1) =
      daysBeforeMonth leap (monthFrom leap day 12) + monthLength leap (monthFrom leap day 12) := by
    obtain ⟨m, hm⟩ : ∃ m, monthFrom leap day 12 = m + 1 := ⟨monthFrom leap day 12 - 1, by omega⟩
    rw [hm]
    rfl
  rw [← hnext]
  by_cases hlast : monthFrom leap day 12 = 12
  · rw [hlast, daysBeforeMonth_thirteen]
    exact h
  · exact lt_daysBeforeMonth (k := 12) (by omega) (by omega)

section ofDay
variable (day : Int)

/-- The day of the year that a day number stands for, counted from zero. -/
theorem dayOfYear_lt : (day + epochDay - daysBeforeYear (yearOf (day + epochDay))).toNat <
    yearLength (isLeap (yearOf (day + epochDay))) := by
  obtain ⟨hle, hlt⟩ := daysBeforeYear_yearOf (day + epochDay)
  rw [daysBeforeYear_succ] at hlt
  omega

/-- The date of a day number exists. -/
theorem isValid_ofDay : (ofDay day).isValid = true := by
  obtain ⟨hle, hlt⟩ := day_in_month (dayOfYear_lt day)
  rw [isValid, Bool.and_eq_true, decide_eq_true_eq, decide_eq_true_eq]
  simp only [ofDay]
  omega

theorem month_ofDay_le : (ofDay day).month ≤ 12 :=
  (monthFrom_bounds _ _ 12).2

/-- The day number of the date of a day number. -/
theorem toDay_ofDay : (ofDay day).toDay = day := by
  obtain ⟨hle, hlt⟩ := daysBeforeYear_yearOf (day + epochDay)
  obtain ⟨hmonth, -⟩ := day_in_month (dayOfYear_lt day)
  simp only [toDay, ofDay]
  omega

end ofDay

theorem day_le {d : Date} (h : d.isValid = true) : d.day ≤ 31 := by
  rw [isValid, Bool.and_eq_true, decide_eq_true_eq, decide_eq_true_eq] at h
  have hlen : monthLength (isLeap d.year) d.month ≤ 31 := by
    unfold monthLength
    split
    case h_12 => split <;> decide
    all_goals decide
  omega

/-! ### The order of dates -/

/-- Years first, then months, then days. -/
def Before (d e : Date) : Prop :=
  d.year < e.year ∨ d.year = e.year ∧ (d.month < e.month ∨ d.month = e.month ∧ d.day < e.day)

/-- Of two days of a year the earlier one is in an earlier month, or earlier in the month. -/
theorem month_before {leap : Bool} {m n : Nat} (h : m < n) :
    monthFrom leap m 12 < monthFrom leap n 12 ∨ monthFrom leap m 12 = monthFrom leap n 12 ∧
      m - daysBeforeMonth leap (monthFrom leap m 12) + 1 <
        n - daysBeforeMonth leap (monthFrom leap n 12) + 1 := by
  have hm := daysBeforeMonth_monthFrom_le leap m 12
  rcases Nat.lt_trichotomy (monthFrom leap m 12) (monthFrom leap n 12) with hlt | heq | hgt
  · exact .inl hlt
  · rw [heq] at hm ⊢
    exact .inr ⟨rfl, by omega⟩
  · have hn := lt_daysBeforeMonth hgt (monthFrom_bounds leap m 12).2
    omega

/-- Of two days the earlier one has the date that comes first. -/
theorem before_ofDay {m n : Int} (h : m < n) : (ofDay m).Before (ofDay n) := by
  obtain ⟨hle, -⟩ := daysBeforeYear_yearOf (m + epochDay)
  obtain ⟨-, hlt⟩ := daysBeforeYear_yearOf (n + epochDay)
  simp only [Before, ofDay]
  rcases Int.lt_trichotomy (yearOf (m + epochDay)) (yearOf (n + epochDay)) with hyear | hyear | hyear
  · exact .inl hyear
  · rw [hyear] at hle ⊢
    obtain ⟨hstart, -⟩ := daysBeforeYear_yearOf (n + epochDay)
    have hrest : (m + epochDay - daysBeforeYear (yearOf (n + epochDay))).toNat <
        (n + epochDay - daysBeforeYear (yearOf (n + epochDay))).toNat := by omega
    exact .inr ⟨rfl, month_before hrest⟩
  · have hnext := daysBeforeYear_le (Int.add_one_le_of_lt hyear)
    omega

end Date
end EntityStore.Time
