import RecipeClient.Time.Date

/-!
# Instants

A point in time of the world's common clock: a date, a second of the day, and nanoseconds. In the
last second of a minute the nanoseconds may run up to twice a second; the second half of them is
a leap second, written as second 60.
-/

namespace RecipeClient

namespace Date

/-- The year, month and day of a number of days since 1 January 1970. Years are counted from
March here, so that a leap day is the last day of its year, and in eras of 400 years, which are
all of one length. -/
def civil (days : Int) : Int × Nat × Nat :=
  let fromMarch := days + 719468
  let era := Int.fdiv fromMarch 146097
  let dayOfEra := (Int.fmod fromMarch 146097).toNat
  let yearOfEra := (dayOfEra - dayOfEra / 1460 + dayOfEra / 36524 - dayOfEra / 146096) / 365
  let dayOfYear := dayOfEra - (365 * yearOfEra + yearOfEra / 4 - yearOfEra / 100)
  let monthOfYear := (5 * dayOfYear + 2) / 153
  let day := dayOfYear - (153 * monthOfYear + 2) / 5 + 1
  let month := if monthOfYear < 10 then monthOfYear + 3 else monthOfYear - 9
  (era * 400 + yearOfEra + (if month ≤ 2 then 1 else 0), month, day)

/-- The date that lies a number of days after 1 January 1970. -/
def ofDays? (days : Int) : Option Date :=
  let (year, month, day) := civil days
  of? year month day

end Date

/-- The number of seconds of a day. -/
def Instant.secondsOfDay : Nat := 86400

/-- The number of nanoseconds of a second. -/
def Instant.nanosOfSecond : Nat := 1000000000

/-- A point in time. -/
structure Instant where
  /-- The day. -/
  date : Date
  /-- The second of the day, from 0. -/
  second : Nat
  /-- The nanoseconds of the second. -/
  nanos : Nat
  second_lt : second < Instant.secondsOfDay
  /-- Only the last second of a minute is followed by a leap second. -/
  nanos_lt : nanos < Instant.nanosOfSecond ∨
    (nanos < 2 * Instant.nanosOfSecond ∧ second % 60 = 59)
deriving DecidableEq

namespace Instant

/-- The instant that lies a number of seconds and nanoseconds after the start of 1970. -/
def ofSeconds? (seconds : Int) (nanos : Nat) : Option Instant :=
  match Date.ofDays? (Int.fdiv seconds secondsOfDay) with
  | none => none
  | some date =>
    let second := (Int.fmod seconds secondsOfDay).toNat
    if h : second < secondsOfDay ∧
        (nanos < nanosOfSecond ∨ (nanos < 2 * nanosOfSecond ∧ second % 60 = 59)) then
      some ⟨date, second, nanos, h.1, h.2⟩
    else none

/-- The fraction of a second: a point and 3, 6 or 9 digits, the fewest that are exact, or nothing
when the fraction is zero. -/
def fraction (nanos : Nat) : List Char :=
  if nanos = 0 then []
  else if nanos % 1000000 = 0 then '.' :: Date.padded 3 (nanos / 1000000)
  else if nanos % 1000 = 0 then '.' :: Date.padded 6 (nanos / 1000)
  else '.' :: Date.padded 9 nanos

/-- A written instant: date, `T`, hour, minute and second, the fraction, and no distance from the
common clock. -/
def chars (t : Instant) : List Char :=
  let leap := t.nanos / nanosOfSecond
  t.date.chars ++ 'T' :: Date.padded 2 (t.second / 3600) ++ ':' ::
    Date.padded 2 (t.second / 60 % 60) ++ ':' :: Date.padded 2 (t.second % 60 + leap) ++
    fraction (t.nanos % nanosOfSecond) ++ "+00:00".toList

def text (t : Instant) : String := String.ofList t.chars

end Instant

end RecipeClient
