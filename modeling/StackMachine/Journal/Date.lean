import StackMachine.Text.Number

namespace StackMachine.Journal

structure Date where
  year : Nat
  month : Nat
  day : Nat
  deriving Repr, DecidableEq

namespace Date

/-- The days from 1 March of the year 0 to 1 January 1970. Counted from there, a leap day is the
last day of its year, and the calendar repeats every 400 years. -/
def shift : Nat := 719468

/-- The date so many days after 1 January 1970. Years are kept in 32 bits. -/
def ofDays (days : Nat) : Date :=
  let count := days + shift
  let era := count / 146097
  let dayOfEra := count % 146097
  let yearOfEra :=
    (dayOfEra - dayOfEra / 1460 + dayOfEra / 36524 - dayOfEra / 146096) / 365
  let dayOfYear := dayOfEra - (365 * yearOfEra + yearOfEra / 4 - yearOfEra / 100)
  let monthFromMarch := (5 * dayOfYear + 2) / 153
  let day := dayOfYear - (153 * monthFromMarch + 2) / 5 + 1
  let month := if monthFromMarch < 10 then monthFromMarch + 3 else monthFromMarch - 9
  let year := yearOfEra + era * 400
  ⟨(if month ≤ 2 then year + 1 else year) % 0x100000000, month, day⟩

def text (d : Date) : String :=
  Text.digits 10 4 d.year ++ "-" ++ Text.digits 10 2 d.month ++ "-" ++ Text.digits 10 2 d.day

end Date

structure Time where
  seconds : Nat
  nanoseconds : Nat
  deriving Repr, DecidableEq

namespace Time

/-- A time before 1970 counts as the start of 1970. -/
def ofClock (seconds : Int) (nanoseconds : Nat) : Time :=
  if seconds < 0 then ⟨0, 0⟩ else ⟨seconds.toNat, nanoseconds⟩

/-- The date and the time of day, to a thousandth of a second. -/
def text (t : Time) : String :=
  (Date.ofDays (t.seconds / 86400)).text ++ " " ++
    Text.digits 10 2 (t.seconds / 3600 % 24) ++ ":" ++
    Text.digits 10 2 (t.seconds / 60 % 60) ++ ":" ++
    Text.digits 10 2 (t.seconds % 60) ++ "." ++
    Text.digits 10 3 (t.nanoseconds / 1000000)

end Time

end StackMachine.Journal
