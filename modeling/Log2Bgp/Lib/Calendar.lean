import Log2Bgp.Lib.Text

/-!
# Calendar times

`gmtime` on the proleptic Gregorian calendar, and the formats of `strftime` in the C locale.
-/

namespace Log2Bgp.Lib

/-- `tm`, with the full year and months from 1 on. -/
structure Tm where
  year : Int
  month : Nat
  day : Nat
  weekday : Nat
  hour : Nat
  min : Nat
  sec : Nat
deriving DecidableEq, Repr

/-- The time of day and the date. Years are counted from March on, in eras of 400 years. -/
def calendarTime (t : Int) : Tm :=
  let days := t / 86400
  let sec := (t % 86400).toNat
  let z := days + 719468
  let dayOfEra := (z % 146097).toNat
  let yearOfEra := (dayOfEra - dayOfEra / 1460 + dayOfEra / 36524 - dayOfEra / 146096) / 365
  let dayOfYear := dayOfEra - (365 * yearOfEra + yearOfEra / 4 - yearOfEra / 100)
  let fromMarch := (5 * dayOfYear + 2) / 153
  let month := if fromMarch < 10 then fromMarch + 3 else fromMarch - 9
  { year := yearOfEra + z / 146097 * 400 + (if month ≤ 2 then 1 else 0)
    month := month
    day := dayOfYear - (153 * fromMarch + 2) / 5 + 1
    weekday := ((days + 4) % 7).toNat
    hour := sec / 3600
    min := sec % 3600 / 60
    sec := sec % 60 }

/-- `gmtime`. The year is kept in an int that counts from 1900 on, and the pointer is null where it does not fit. -/
def gmtime (t : Int) : Option Tm :=
  let year := (calendarTime t).year - 1900
  if -2147483648 ≤ year ∧ year ≤ 2147483647 then some (calendarTime t) else none

theorem gmtime_eq_some {t : Int} {tm : Tm} (h : gmtime t = some tm) : tm = calendarTime t := by
  simp only [gmtime, Option.ite_none_right_eq_some, Option.some.injEq] at h
  exact h.2.symm

/-- A number of at least two characters, filled up in front. -/
def pad2 (fill : Char) (n : Nat) : Text := if n < 10 then fill :: decimal n else decimal n

namespace Tm

/-- `%H:%M:%S`. -/
def clock (tm : Tm) : Text := pad2 '0' tm.hour ++ ':' :: (pad2 '0' tm.min ++ ':' :: pad2 '0' tm.sec)

/-- `%F %T`. -/
def iso (tm : Tm) : Text :=
  decimalInt tm.year ++ '-' :: (pad2 '0' tm.month ++ '-' :: (pad2 '0' tm.day ++ ' ' :: tm.clock))

/-- `%m-%d-%Y %H:%M:%S`. -/
def american (tm : Tm) : Text :=
  pad2 '0' tm.month ++ '-' :: (pad2 '0' tm.day ++ '-' :: (decimalInt tm.year ++ ' ' :: tm.clock))

def weekdayNames : List String := ["Sun", "Mon", "Tue", "Wed", "Thu", "Fri", "Sat"]

def monthNames : List String :=
  ["Jan", "Feb", "Mar", "Apr", "May", "Jun", "Jul", "Aug", "Sep", "Oct", "Nov", "Dec"]

/-- `%c`, which is `%a %b %e %H:%M:%S %Y`. -/
def full (tm : Tm) : Text :=
  (weekdayNames.getD tm.weekday "?").toList ++ ' ' ::
    ((monthNames.getD (tm.month - 1) "?").toList ++ ' ' ::
      (pad2 ' ' tm.day ++ ' ' :: (tm.clock ++ ' ' :: decimalInt tm.year)))

end Tm

example : (gmtime 0).map Tm.iso = some "1970-01-01 00:00:00".toList := by decide

example : (gmtime 951827696).map Tm.full = some "Tue Feb 29 12:34:56 2000".toList := by decide

example : gmtime 9223372036854775807 = none := by decide

end Log2Bgp.Lib
