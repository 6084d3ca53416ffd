import SqlAnalysis.Text.Number
import SqlAnalysis.Text.Split

/-!
# Dates and times of day

A date is written with a four-digit year and one or two digits each for month
and day, and must exist in the Gregorian calendar. A date and time adds one
blank and `HH:MM:SS`. The normal form has every field at full width.
-/
namespace SqlAnalysis

namespace Calendar

def isLeapYear (year : Nat) : Bool :=
  (year % 4 == 0 && year % 100 != 0) || year % 400 == 0

/-- The number of days of a month; a number that is no month has none. -/
def daysInMonth (year month : Nat) : Nat :=
  match month with
  | 1 | 3 | 5 | 7 | 8 | 10 | 12 => 31
  | 4 | 6 | 9 | 11 => 30
  | 2 => if isLeapYear year then 29 else 28
  | _ => 0

/-- A field of decimal digits whose number lies between the two bounds. -/
def field? (least most : Nat) (cs : List Char) : Option Nat :=
  if least ≤ cs.length ∧ cs.length ≤ most then Text.natural? cs else none

end Calendar

/-- A day of the Gregorian calendar. -/
structure Date where
  year : Nat
  month : Nat
  day : Nat
deriving DecidableEq, Inhabited

namespace Date

/-- The form to show where a date is asked for. -/
def form : String := "YYYY-MM-DD"

/-- Whether the numbers name a day. -/
def exists? (d : Date) : Bool :=
  decide (1 ≤ d.day) && decide (d.day ≤ Calendar.daysInMonth d.year d.month)

def ofChars? (cs : List Char) : Option Date :=
  match Text.split '-' cs with
  | [y, m, d] => do
    let year ← Calendar.field? 4 4 y
    let month ← Calendar.field? 1 2 m
    let day ← Calendar.field? 1 2 d
    let date : Date := ⟨year, month, day⟩
    if date.exists? then some date else none
  | _ => none

def ofText? (s : String) : Option Date :=
  ofChars? s.toList

/-- The normal form. -/
def render (d : Date) : String :=
  s!"{Text.padded 4 d.year}-{Text.padded 2 d.month}-{Text.padded 2 d.day}"

/-- The normal form of a text that is a date. -/
def normalize? (s : String) : Option String :=
  (ofText? s).map render

end Date

/-- A time of day to the second. -/
structure TimeOfDay where
  hour : Nat
  minute : Nat
  second : Nat
deriving DecidableEq, Inhabited

namespace TimeOfDay

def exists? (t : TimeOfDay) : Bool :=
  decide (t.hour ≤ 23) && decide (t.minute ≤ 59) && decide (t.second ≤ 59)

def ofChars? (cs : List Char) : Option TimeOfDay :=
  match Text.split ':' cs with
  | [h, m, s] => do
    let hour ← Calendar.field? 2 2 h
    let minute ← Calendar.field? 2 2 m
    let second ← Calendar.field? 2 2 s
    let time : TimeOfDay := ⟨hour, minute, second⟩
    if time.exists? then some time else none
  | _ => none

/-- The normal form. -/
def render (t : TimeOfDay) : String :=
  s!"{Text.padded 2 t.hour}:{Text.padded 2 t.minute}:{Text.padded 2 t.second}"

end TimeOfDay

/-- A day with a time of day. -/
structure Moment where
  date : Date
  time : TimeOfDay
deriving DecidableEq, Inhabited

namespace Moment

/-- The form to show where a date and time is asked for. -/
def form : String := "YYYY-MM-DD HH:MM:SS"

def ofText? (s : String) : Option Moment := do
  let (date, time) ← Text.splitFirst? ' ' s.toList
  return ⟨← Date.ofChars? date, ← TimeOfDay.ofChars? time⟩

/-- The normal form. -/
def render (m : Moment) : String :=
  s!"{m.date.render} {m.time.render}"

/-- The normal form of a text that is a date and time. -/
def normalize? (s : String) : Option String :=
  (ofText? s).map render

end Moment
end SqlAnalysis
