import Mathlib.Tactic.Common

/-!
# Days of the Gregorian year

Months are numbered from 0 and the days of a month from 1.  A day of the year
is one day of one month (`dayOfYear_injective`), since no month reaches into
the next (`daysBefore_add_monthLength_le`).
-/

namespace Gregorian

def leapYear (year : Int) : Bool := year % 4 = 0 ∧ (year % 100 ≠ 0 ∨ year % 400 = 0)

def monthLength (leap : Bool) : Nat → Nat
  | 1 => if leap then 29 else 28
  | 3 | 5 | 8 | 10 => 30
  | _ => 31

/-- The days of the year before a month. -/
def daysBefore (leap : Bool) : Nat → Nat
  | 0 => 0
  | mon + 1 => daysBefore leap mon + monthLength leap mon

variable {leap : Bool} {mon mon' mday mday' : Nat}

theorem daysBefore_mono (h : mon ≤ mon') : daysBefore leap mon ≤ daysBefore leap mon' := by
  induction h with
  | refl => exact Nat.le_refl _
  | step _ ih => exact Nat.le_add_right_of_le ih

theorem daysBefore_add_monthLength_le (leap : Bool) (h : mon < mon') :
    daysBefore leap mon + monthLength leap mon ≤ daysBefore leap mon' := daysBefore_mono h

/-- **A day of the year determines its month and its day of the month.** -/
theorem dayOfYear_injective (hpos : 1 ≤ mday) (hpos' : 1 ≤ mday') (hle : mday ≤ monthLength leap mon)
    (hle' : mday' ≤ monthLength leap mon') (h : daysBefore leap mon + mday = daysBefore leap mon' + mday') :
    mon = mon' ∧ mday = mday' := by
  rcases Nat.lt_trichotomy mon mon' with hlt | rfl | hgt
  · have := daysBefore_add_monthLength_le leap hlt
    omega
  · exact ⟨rfl, by omega⟩
  · have := daysBefore_add_monthLength_le leap hgt
    omega

/-- A year has at most 366 days. -/
theorem dayOfYear_le (hmon : mon ≤ 11) (hle : mday ≤ monthLength leap mon) : daysBefore leap mon + mday ≤ 366 := by
  have hyear : daysBefore leap 12 ≤ 366 := by
    cases leap with
    | true => decide
    | false => decide
  have := daysBefore_add_monthLength_le leap (show mon < 12 by omega)
  omega

end Gregorian
