import Mathlib.Data.List.Lex
import Mathlib.Order.Basic
import Mathlib.Order.Nat
import Mathlib.Tactic.Ring
import Winnow.Instant.Rfc3339

/-!
# The order of timestamps

Years follow each other without a gap, and so do the months of a year. Of two days the earlier one
is the one whose stretch comes first or, in the same stretch, the one that is nearer to its start
(`add_lt_add_iff_stretch`), however long the stretches are. So timestamps with one offset are
ordered by their parts, from the year on down (`Timestamp.toInstant_lt_iff`), and the offset only
moves them (`Timestamp.toInstant_withOffset`).
-/

namespace Winnow

section Stretches

variable {start size : Nat → Nat} {index other rest otherRest : Nat}

/-- A stretch ends before every later one starts. -/
theorem start_add_size_le (next : ∀ index, start (index + 1) = start index + size index)
    (earlier : index < other) : start index + size index ≤ start other := by
  induction earlier with
  | refl => exact (next index).ge
  | @step other _ inductionHypothesis =>
      rw [next other]
      exact Nat.le_add_right_of_le inductionHypothesis

/-- Places in stretches that follow each other are ordered by their stretches, and within one
stretch by their distance from its start. -/
theorem add_lt_add_iff_stretch (next : ∀ index, start (index + 1) = start index + size index)
    (within : rest < size index) (otherWithin : otherRest < size other) :
    start index + rest < start other + otherRest ↔
      index < other ∨ index = other ∧ rest < otherRest := by
  rcases Nat.lt_trichotomy index other with earlier | rfl | later
  · have ends := start_add_size_le next earlier
    exact iff_of_true (by omega) (.inl earlier)
  · simp
  · have ends := start_add_size_le next later
    exact iff_of_false (by omega) (by omega)

end Stretches

namespace Calendar

variable {year month day otherYear otherMonth otherDay : Nat}

/-- The months of a year follow each other. -/
theorem daysBeforeMonth_succ (year month : Nat) :
    daysBeforeMonth year (month + 1) = daysBeforeMonth year month + monthLength year month := by
  cases month with
  | zero => rfl
  | succ month =>
      simp only [daysBeforeMonth, Nat.add_sub_cancel, ← List.sum_eq_foldr]
      rw [List.range'_1_concat, List.map_append, List.sum_append, Nat.add_comm 1 month]
      rfl

/-- A day of some month, both of them counted from 1. -/
structure IsDate (year month day : Nat) : Prop where
  month_le : month ≤ 12
  day_pos : 0 < day
  day_le : day ≤ monthLength year month

/-- A day is within its year. -/
theorem IsDate.dayOfYear_lt (isDate : IsDate year month day) :
    daysBeforeMonth year month + (day - 1) < if isLeapYear year then 366 else 365 := by
  have ends := @start_add_size_le (daysBeforeMonth year) (monthLength year) month 13
    (daysBeforeMonth_succ year) (Nat.lt_succ_of_le isDate.month_le)
  rw [daysBeforeMonth_thirteen] at ends
  obtain ⟨-, dayPos, dayLe⟩ := isDate
  omega

/-- Days are numbered in the order of their years, months and days. -/
theorem dayNumber_lt_iff (isDate : IsDate year month day)
    (otherIsDate : IsDate otherYear otherMonth otherDay) :
    dayNumber year month day < dayNumber otherYear otherMonth otherDay ↔
      year < otherYear ∨ year = otherYear ∧ (month < otherMonth ∨ month = otherMonth ∧
        day < otherDay) := by
  have yearFirst := add_lt_add_iff_stretch daysBeforeYear_succ isDate.dayOfYear_lt
    otherIsDate.dayOfYear_lt
  rw [dayNumber, dayNumber, Nat.add_assoc, Nat.add_assoc, yearFirst]
  refine or_congr_right (and_congr_right fun sameYear => ?_)
  subst sameYear
  obtain ⟨-, dayPos, dayLe⟩ := isDate
  obtain ⟨-, otherDayPos, otherDayLe⟩ := otherIsDate
  rw [add_lt_add_iff_stretch (daysBeforeMonth_succ year) (by omega) (by omega)]
  refine or_congr_right (and_congr_right fun _ => ?_)
  omega

/-- Different days have different numbers. -/
theorem dayNumber_eq_iff (isDate : IsDate year month day)
    (otherIsDate : IsDate otherYear otherMonth otherDay) :
    dayNumber year month day = dayNumber otherYear otherMonth otherDay ↔
      year = otherYear ∧ month = otherMonth ∧ day = otherDay := by
  have before := dayNumber_lt_iff isDate otherIsDate
  have after := dayNumber_lt_iff otherIsDate isDate
  omega

end Calendar

/-- An instant some minutes later, or earlier for a negative number. -/
def Instant.plusMinutes (instant : Instant) (minutes : Int) : Instant :=
  ⟨instant.nanoseconds + minutes * 60 * perSecond⟩

namespace Rfc3339.Timestamp

open Calendar

variable {earlier later : Timestamp}

/-- The parts of a timestamp apart from its offset, the largest first. -/
def fields (timestamp : Timestamp) : List Nat :=
  [timestamp.year, timestamp.month, timestamp.day, timestamp.hour, timestamp.minute,
    timestamp.second, timestamp.nanosecond]

/-- The date of a timestamp is in the calendar, and its time on a clock without leap seconds. -/
structure IsRegular (timestamp : Timestamp) : Prop where
  isDate : IsDate timestamp.year timestamp.month timestamp.day
  hour : timestamp.hour < 24
  minute : timestamp.minute < 60
  second : timestamp.second < 60
  nanosecond : timestamp.nanosecond < 1000000000

/-- The nanoseconds before a timestamp on its own clock, from the start of the year 0. -/
def elapsed (timestamp : Timestamp) : Nat :=
  (((dayNumber timestamp.year timestamp.month timestamp.day * 24 + timestamp.hour) * 60 +
    timestamp.minute) * 60 + timestamp.second) * 1000000000 + timestamp.nanosecond

/-- An instant is what its timestamp's clock has counted, less the offset and the years before
1970. -/
theorem nanoseconds_toInstant (timestamp : Timestamp) :
    timestamp.toInstant.nanoseconds =
      timestamp.elapsed - (epochDay * 1440 + timestamp.offset) * 60 * 1000000000 := by
  change (((dayNumber timestamp.year timestamp.month timestamp.day - epochDay : Int) * 1440 +
    timestamp.hour * 60 + timestamp.minute - timestamp.offset) * 60 + timestamp.second) *
      1000000000 + timestamp.nanosecond = _
  rw [elapsed]
  push_cast
  ring

/-- Another offset moves the instant by the difference. -/
theorem toInstant_withOffset (timestamp : Timestamp) (offset : Int) :
    { timestamp with offset }.toInstant =
      timestamp.toInstant.plusMinutes (timestamp.offset - offset) := by
  have sameElapsed : { timestamp with offset }.elapsed = timestamp.elapsed := rfl
  refine congrArg Instant.mk (Eq.trans (nanoseconds_toInstant _) ?_)
  rw [nanoseconds_toInstant, sameElapsed, Instant.perSecond]
  push_cast
  ring

/-- Clocks count in the order of the parts of their timestamps. -/
theorem elapsed_lt_iff (isRegular : earlier.IsRegular) (laterIsRegular : later.IsRegular) :
    earlier.elapsed < later.elapsed ↔ earlier.fields < later.fields := by
  have days := dayNumber_lt_iff isRegular.isDate laterIsRegular.isDate
  have sameDay := dayNumber_eq_iff isRegular.isDate laterIsRegular.isDate
  obtain ⟨-, hour, minute, second, nanosecond⟩ := isRegular
  obtain ⟨-, laterHour, laterMinute, laterSecond, laterNanosecond⟩ := laterIsRegular
  simp only [fields, List.cons_lt_cons_iff, List.not_lt_nil, and_false, or_false]
  rw [elapsed, elapsed]
  omega

/-- Timestamps with one offset denote instants in the order of their parts. -/
theorem toInstant_lt_iff (isRegular : earlier.IsRegular) (laterIsRegular : later.IsRegular)
    (sameOffset : earlier.offset = later.offset) :
    earlier.toInstant < later.toInstant ↔ earlier.fields < later.fields := by
  rw [← elapsed_lt_iff isRegular laterIsRegular, Instant.lt_def, nanoseconds_toInstant,
    nanoseconds_toInstant, sameOffset]
  omega

/-- Timestamps with one offset denote the same instant if their parts are the same. -/
theorem toInstant_eq_iff (isRegular : earlier.IsRegular) (laterIsRegular : later.IsRegular)
    (sameOffset : earlier.offset = later.offset) :
    earlier.toInstant = later.toInstant ↔ earlier.fields = later.fields := by
  constructor
  · intro same
    have before := toInstant_lt_iff isRegular laterIsRegular sameOffset
    have after := toInstant_lt_iff laterIsRegular isRegular sameOffset.symm
    rw [same] at before after
    exact le_antisymm (not_lt.1 (after.not.1 (Int.lt_irrefl _)))
      (not_lt.1 (before.not.1 (Int.lt_irrefl _)))
  · intro same
    simp only [fields, List.cons.injEq, and_true] at same
    simp only [toInstant, same, sameOffset]

end Rfc3339.Timestamp

end Winnow
