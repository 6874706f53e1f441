import LetStack.Trace.Event

/-!
Moments in writing: the date of the proleptic Gregorian calendar, the time of day in microseconds,
and how far the clock is from UTC.
-/

namespace LetStack.Trace

structure Date where
  year : Int
  month : Nat
  day : Nat
  deriving DecidableEq, Repr

/-- The date that lies a number of days after the start of 1970. Years are counted from March, so
that a leap day ends its year, in eras of 400 years. -/
def Date.ofDays (days : Int) : Date :=
  let shifted := days + 719468
  let era := shifted / 146097
  let dayOfEra := (shifted % 146097).toNat
  let yearOfEra := (dayOfEra - dayOfEra / 1460 + dayOfEra / 36524 - dayOfEra / 146096) / 365
  let dayOfYear := dayOfEra - (365 * yearOfEra + yearOfEra / 4 - yearOfEra / 100)
  let month := (5 * dayOfYear + 2) / 153
  let calendarMonth := if month < 10 then month + 3 else month - 9
  { year := era * 400 + yearOfEra + (if calendarMonth ≤ 2 then 1 else 0)
    month := calendarMonth
    day := dayOfYear - (153 * month + 2) / 5 + 1 }

/-- How many seconds the first moment that can be written lies before the start of 1970: it is the
start of March of the year -292277022400. -/
def secondsBefore1970 : Int := 9223372028741760000

/-- The seconds since 1970 of a clock that counts in 64 bits from the first moment and then starts
again. -/
def clockSeconds (seconds : Int) : Int :=
  (seconds + secondsBefore1970) % 18446744073709551616 - secondsBefore1970

def padded (width n : Nat) : Bytes := Bytes.padZeros width (Bytes.ofNat n)

/-- The distance from UTC in hours and minutes, `Z` for none. -/
def zoneText (offset : Int) : Bytes :=
  if offset = 0 then "Z"
  else
    let minutes := offset.tdiv 60
    (if minutes < 0 then Bytes.ofString "-" else "+") ++ padded 2 (minutes.natAbs / 60) ++ ":" ++
      padded 2 (minutes.natAbs % 60)

/-- `2006-01-02T15:04:05.000000Z`. -/
def Moment.render (m : Moment) : Bytes :=
  let seconds := clockSeconds (m.nanos / 1000000000 + m.offset)
  let micros := (m.nanos % 1000000000).toNat / 1000
  let date := Date.ofDays (seconds / 86400)
  let clock := (seconds % 86400).toNat
  let year := padded 4 date.year.natAbs
  (if date.year < 0 then "-" ++ year else year) ++ "-" ++ padded 2 date.month ++ "-" ++ padded 2 date.day ++
    "T" ++ padded 2 (clock / 3600) ++ ":" ++ padded 2 (clock / 60 % 60) ++ ":" ++ padded 2 (clock % 60) ++
    "." ++ padded 6 micros ++ zoneText m.offset

end LetStack.Trace
