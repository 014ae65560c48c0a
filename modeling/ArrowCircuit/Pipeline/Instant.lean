import ArrowCircuit.Number.Numeral

/-!
# Instants

The text of an instant that is given in seconds since the start of 1970, in universal time. Years are
counted from March, so that the day a leap year adds comes last; four hundred of them have a fixed
number of days.
-/

namespace ArrowCircuit.Instant

/-- A day of the calendar. -/
structure Day where
  year : Nat
  month : Nat
  day : Nat
  deriving DecidableEq, Repr

/-- The days of four hundred years. -/
def cycleDays : Nat := 146097

/-- The days from March of year 0 to the start of 1970. -/
def epochDays : Nat := 719468

/-- The day that comes a number of days after the start of 1970. -/
def dayAfter (days : Nat) : Day :=
  let n := days + epochDays
  let inCycle := n % cycleDays
  let year := (inCycle - inCycle / 1460 + inCycle / 36524 - inCycle / 146096) / 365
  let inYear := inCycle - (365 * year + year / 4 - year / 100)
  let month := (5 * inYear + 2) / 153
  let day := inYear - (153 * month + 2) / 5 + 1
  let isNextYear := 10 ≤ month
  ⟨n / cycleDays * 400 + year + (if isNextYear then 1 else 0),
    if isNextYear then month - 9 else month + 3, day⟩

/-- A number with zeros before it. -/
def padded (width n : Nat) : String :=
  let digits := Numeral.decimalNat n
  String.ofList (List.replicate (width - digits.length) '0') ++ digits

/-- The text of an instant. -/
def text (seconds : Nat) : String :=
  let d := dayAfter (seconds / 86400)
  let rest := seconds % 86400
  padded 4 d.year ++ "-" ++ padded 2 d.month ++ "-" ++ padded 2 d.day ++ "T" ++
    padded 2 (rest / 3600) ++ ":" ++ padded 2 (rest / 60 % 60) ++ ":" ++ padded 2 (rest % 60) ++ "+00:00"

end ArrowCircuit.Instant
