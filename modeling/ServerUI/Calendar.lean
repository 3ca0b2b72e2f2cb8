import ServerUI.Binary64

/-!
Dates and times of day in the calendar that counts a leap year every four years, except in
three of every four centuries.
-/

set_option autoImplicit false

namespace ServerUI

structure DateTime where
  year : Nat
  month : Nat
  day : Nat
  hour : Nat
  minute : Nat
  second : Nat
  microsecond : Nat
deriving DecidableEq, Repr

namespace DateTime

def ofDays (days : Nat) : Nat × Nat × Nat :=
  -- Years are counted from March, so that a leap day is the last of its year; 400 of them have
  -- 146097 days.
  let era := days / 146097
  let dayOfEra := days % 146097
  let yearOfEra := (dayOfEra - dayOfEra / 1460 + dayOfEra / 36524 - dayOfEra / 146096) / 365
  let dayOfYear := dayOfEra - (365 * yearOfEra + yearOfEra / 4 - yearOfEra / 100)
  let monthFromMarch := (5 * dayOfYear + 2) / 153
  let day := dayOfYear - (153 * monthFromMarch + 2) / 5 + 1
  let month := if monthFromMarch < 10 then monthFromMarch + 3 else monthFromMarch - 9
  (era * 400 + yearOfEra + (if month ≤ 2 then 1 else 0), month, day)

def epochDays : Nat := 719468

def ofSeconds (seconds microsecond : Nat) : DateTime :=
  let (year, month, day) := ofDays (epochDays + seconds / 86400)
  let s := seconds % 86400
  ⟨year, month, day, s / 3600, s / 60 % 60, s % 60, microsecond⟩

def pad (width n : Nat) : String :=
  let s := toString n
  String.ofList (List.replicate (width - s.length) '0') ++ s

def iso (t : DateTime) : String :=
  pad 4 t.year ++ "-" ++ pad 2 t.month ++ "-" ++ pad 2 t.day ++ "T" ++ pad 2 t.hour ++ ":" ++
    pad 2 t.minute ++ ":" ++ pad 2 t.second ++
    (if t.microsecond = 0 then "" else "." ++ pad 6 t.microsecond)

def maxYear : Nat := 9999

def splitSeconds (x : Binary64) : Option (Nat × Nat) :=
  match x.toRatio? with
  | some (.ofNat n, d) =>
      -- The fraction of a second is exact; its product with a million is rounded to binary64, and
      -- that to the nearest whole number, a tie to the even one.
      match ((Binary64.ofRatio false (n % d) d).mul (Binary64.ofNat 1000000)).toRatio? with
      | some (.ofNat m, e) =>
          let us := Binary64.roundDiv m e
          some (if us < 1000000 then (n / d, us) else (n / d + 1, us - 1000000))
      | _ => none
  | _ => none

end DateTime

end ServerUI
