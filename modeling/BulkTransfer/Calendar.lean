import BulkTransfer.Text.Segment

/-!
# Dates in listings

Times are counted in seconds from 1970-01-01 00:00:00 UTC and shown in the
proleptic Gregorian calendar as `2023/11/14 22:13:20`.  Days are counted in
400-year eras that start on the first of March, so that a leap day ends its
year.
-/

namespace BulkTransfer
namespace Calendar

/-- A calendar day. -/
structure Day where
  year : Int
  month : Nat
  day : Nat
deriving DecidableEq, Repr

/-- The calendar day with a given number of days since 1970-01-01. -/
def dayOfEpoch (days : Int) : Day :=
  let shifted := days + 719468
  let era := shifted.fdiv 146097
  let dayOfEra := (shifted.fmod 146097).toNat
  let yearOfEra :=
    (dayOfEra - dayOfEra / 1460 + dayOfEra / 36524 - dayOfEra / 146096) / 365
  let dayOfYear := dayOfEra - (365 * yearOfEra + yearOfEra / 4 - yearOfEra / 100)
  let monthFromMarch := (5 * dayOfYear + 2) / 153
  let day := dayOfYear - (153 * monthFromMarch + 2) / 5 + 1
  let month := if monthFromMarch < 10 then monthFromMarch + 3 else monthFromMarch - 9
  let year := (yearOfEra : Int) + era * 400
  { year := if month ≤ 2 then year + 1 else year, month := month, day := day }

/-- Four digits; a year outside them carries its sign. -/
def yearText (year : Int) : String :=
  if 0 ≤ year ∧ year ≤ 9999 then Text.padLeft 4 '0' (toString year.toNat)
  else (if year < 0 then "-" else "+") ++ Text.padLeft 4 '0' (toString year.natAbs)

/-- Two digits. -/
def twoDigits (n : Nat) : String :=
  Text.padLeft 2 '0' (toString n)

/-- Date and time of day, as listings show them. -/
def dateText (seconds : Int) : String :=
  let day := dayOfEpoch (seconds.fdiv 86400)
  let second := (seconds.fmod 86400).toNat
  yearText day.year ++ "/" ++ twoDigits day.month ++ "/" ++ twoDigits day.day ++ " " ++
    twoDigits (second / 3600) ++ ":" ++ twoDigits (second / 60 % 60) ++ ":" ++
    twoDigits (second % 60)

end Calendar
end BulkTransfer
