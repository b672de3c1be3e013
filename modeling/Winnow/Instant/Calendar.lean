/-!
# The Gregorian calendar

Days are counted from the first day of the year 0, with the Gregorian rule for leap years
applied to every year.
-/

namespace Winnow.Calendar

/-- Every fourth year is a leap year, except for full centuries that are no multiple of four
centuries. -/
def isLeapYear (year : Nat) : Bool :=
  year % 4 == 0 && (year % 100 != 0 || year % 400 == 0)

/-- The days of a month, which is counted from 1; there are none in any other month. -/
def monthLength (year month : Nat) : Nat :=
  match month with
  | 1 | 3 | 5 | 7 | 8 | 10 | 12 => 31
  | 4 | 6 | 9 | 11 => 30
  | 2 => if isLeapYear year then 29 else 28
  | _ => 0

/-- The days of the years before `year`: each has 365, and the leap years among them have one
more. -/
def daysBeforeYear (year : Nat) : Nat :=
  365 * year + (year + 3) / 4 - (year + 99) / 100 + (year + 399) / 400

/-- The days of the months before `month` in its year. -/
def daysBeforeMonth (year month : Nat) : Nat :=
  ((List.range' 1 (month - 1)).map (monthLength year)).foldr (· + ·) 0

/-- The number of a day. -/
def dayNumber (year month day : Nat) : Nat :=
  daysBeforeYear year + daysBeforeMonth year month + (day - 1)

/-- The number of the first day of 1970. -/
def epochDay : Nat := dayNumber 1970 1 1

/-- A year has 366 days if it is a leap year and 365 otherwise. -/
theorem daysBeforeYear_succ (year : Nat) :
    daysBeforeYear (year + 1) = daysBeforeYear year + if isLeapYear year then 366 else 365 := by
  have fours : (year + 1 + 3) / 4 = (year + 3) / 4 + if year % 4 = 0 then 1 else 0 := by
    split <;> omega
  have hundreds :
      (year + 1 + 99) / 100 = (year + 99) / 100 + if year % 100 = 0 then 1 else 0 := by
    split <;> omega
  have fourHundreds :
      (year + 1 + 399) / 400 = (year + 399) / 400 + if year % 400 = 0 then 1 else 0 := by
    split <;> omega
  have enough : (year + 99) / 100 ≤ 365 * year := by omega
  have everyHundred : year % 100 = 0 → year % 4 = 0 := by omega
  have everyFourHundred : year % 400 = 0 → year % 100 = 0 := by omega
  unfold daysBeforeYear
  rw [fours, hundreds, fourHundreds]
  generalize (year + 3) / 4 = fourth at *
  generalize (year + 99) / 100 = century at *
  generalize (year + 399) / 400 = fourCenturies at *
  by_cases four : year % 4 = 0 <;> by_cases hundred : year % 100 = 0 <;>
    by_cases fourHundred : year % 400 = 0 <;>
    simp_all [isLeapYear] <;> omega

/-- The months of a year take up the whole year. -/
theorem daysBeforeMonth_thirteen (year : Nat) :
    daysBeforeMonth year 13 = if isLeapYear year then 366 else 365 := by
  cases leap : isLeapYear year <;> simp [daysBeforeMonth, List.range', monthLength, leap]

end Winnow.Calendar
