/-!
# Time in log records

The calendar date and the time of day of a count of seconds since the beginning of 1970.
-/
namespace SourceTree.Clock

/-- The number with zeros in front up to `width` digits. -/
def padded (width n : Nat) : String :=
  let digits := toString n
  String.ofList (List.replicate (width - digits.length) '0') ++ digits

/-- A calendar date. -/
structure Date where
  year : Nat
  month : Nat
  day : Nat
  deriving DecidableEq

/-- The date of a day, counted from the first of January 1970. Years are taken to begin in March, so
that the odd day of a leap year is their last one; 400 of them have 146097 days. -/
def Date.ofDay (day : Nat) : Date :=
  let days := day + 719468
  let inEra := days % 146097
  let year := (inEra - inEra / 1460 + inEra / 36524 - inEra / 146096) / 365
  let inYear := inEra - (365 * year + year / 4 - year / 100)
  let month := (5 * inYear + 2) / 153
  let inMonth := inYear - (153 * month + 2) / 5
  let calendarMonth := if month < 10 then month + 3 else month - 9
  let calendarYear := year + days / 146097 * 400 + if calendarMonth ≤ 2 then 1 else 0
  ⟨calendarYear, calendarMonth, inMonth + 1⟩

example : Date.ofDay 0 = ⟨1970, 1, 1⟩ := by decide

example : Date.ofDay 11016 = ⟨2000, 2, 29⟩ := by decide

/-- The date and time of day, to the millisecond. -/
def text (seconds milliseconds : Nat) : String :=
  let date := Date.ofDay (seconds / 86400)
  let inDay := seconds % 86400
  padded 4 date.year ++ "-" ++ padded 2 date.month ++ "-" ++ padded 2 date.day ++ " " ++
    padded 2 (inDay / 3600) ++ ":" ++ padded 2 (inDay / 60 % 60) ++ ":" ++ padded 2 (inDay % 60) ++
    "," ++ padded 3 milliseconds

end SourceTree.Clock
