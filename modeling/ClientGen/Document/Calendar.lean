/-!
# Dates and moments

The calendar values that a document can hold: a date, and a moment, which is a date with a time of day
and, if it is known, the distance of its zone from universal time.
-/

namespace ClientGen.Document

/-- A calendar date. -/
structure Date where
  year : Nat
  month : Nat
  day : Nat
  deriving DecidableEq, Repr

/-- A date with a time of day. The zone is in minutes east of universal time. -/
structure Moment where
  date : Date
  hour : Nat
  minute : Nat
  second : Nat
  micro : Nat
  zone : Option Int
  deriving DecidableEq, Repr

/-- The number with zeros before it up to a width. -/
def padded (width n : Nat) : String :=
  let digits := toString n
  .ofList (List.replicate (width - digits.length) '0') ++ digits

namespace Date

/-- Is the year a leap year? -/
def isLeap (year : Nat) : Bool := year % 4 == 0 && (year % 100 != 0 || year % 400 == 0)

/-- The number of days of a month. -/
def monthDays (year month : Nat) : Nat :=
  match month with
  | 2 => if isLeap year then 29 else 28
  | 4 | 6 | 9 | 11 => 30
  | _ => 31

/-- The days of a year before a month. -/
def daysBefore (year month : Nat) : Nat :=
  (List.range (month - 1)).foldl (fun n m => n + monthDays year (m + 1)) 0

/-- The days before the date, counted from the first day of year 1. -/
def ordinal (d : Date) : Nat :=
  let y := d.year - 1
  y * 365 + y / 4 - y / 100 + y / 400 + daysBefore d.year d.month + d.day - 1

/-- The date as `2020-01-31`. -/
def text (d : Date) : String := s!"{padded 4 d.year}-{padded 2 d.month}-{padded 2 d.day}"

end Date

namespace Moment

/-- The distance of a zone as `+05:30`. -/
def zoneText (minutes : Int) : String :=
  let size := minutes.natAbs
  (if minutes < 0 then "-" else "+") ++ padded 2 (size / 60) ++ ":" ++ padded 2 (size % 60)

/-- The moment as `2001-12-14 21:59:43.100000-05:00`, without the parts it lacks. -/
def text (m : Moment) : String :=
  m.date.text ++ " " ++ padded 2 m.hour ++ ":" ++ padded 2 m.minute ++ ":" ++ padded 2 m.second
    ++ (if m.micro = 0 then "" else "." ++ padded 6 m.micro)
    ++ (m.zone.map zoneText).getD ""

/-- Microseconds since the beginning of year 1, in the moment's own zone or, if it has one, in
universal time. -/
def instant (m : Moment) : Int :=
  let minutes : Int := (m.date.ordinal * 1440 + m.hour * 60 + m.minute : Nat) - m.zone.getD 0
  minutes * 60000000 + (m.second * 1000000 + m.micro : Nat)

end Moment

end ClientGen.Document
