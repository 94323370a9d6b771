/-!
# The civil calendar

Dates of the Gregorian calendar, extended to all years.  Moving by one
day is all that a time zone offset needs; moving by many days first
takes whole cycles of four hundred years, which all have the same
number of days.

* `Date.isValid` — the month and day exist;
* `Date.next`, `Date.previous` — the neighbouring days;
* `Date.addDays` — the day some days later.
-/

namespace PubSub

/-- A calendar date. -/
structure Date where
  year : Int
  month : Nat
  day : Nat
  deriving DecidableEq, Repr

namespace Date

/-- Does the year have a 29 February? -/
def isLeap (year : Int) : Bool :=
  year % 4 = 0 && (year % 100 ≠ 0 || year % 400 = 0)

/-- The number of days in a month. -/
def daysIn (year : Int) (month : Nat) : Nat :=
  if month = 2 then (if isLeap year then 29 else 28)
  else if month = 4 ∨ month = 6 ∨ month = 9 ∨ month = 11 then 30
  else 31

/-- The month and the day exist. -/
def isValid (d : Date) : Bool :=
  1 ≤ d.month && d.month ≤ 12 && 1 ≤ d.day && d.day ≤ daysIn d.year d.month

/-- The day after. -/
def next (d : Date) : Date :=
  if d.day < daysIn d.year d.month then { d with day := d.day + 1 }
  else if d.month < 12 then ⟨d.year, d.month + 1, 1⟩
  else ⟨d.year + 1, 1, 1⟩

/-- The day before. -/
def previous (d : Date) : Date :=
  if 1 < d.day then { d with day := d.day - 1 }
  else if 1 < d.month then ⟨d.year, d.month - 1, daysIn d.year (d.month - 1)⟩
  else ⟨d.year - 1, 12, 31⟩

/-- The day `n` days later, one day at a time. -/
def walk (d : Date) : Nat → Date
  | 0 => d
  | n + 1 => d.next.walk n

/-- Days in four hundred years. -/
def cycle : Nat := 146097

/-- The day `n` days later. -/
def addDays (d : Date) (n : Nat) : Date :=
  let walked := d.walk (n % cycle)
  { walked with year := walked.year + 400 * Int.ofNat (n / cycle) }

end Date
end PubSub
