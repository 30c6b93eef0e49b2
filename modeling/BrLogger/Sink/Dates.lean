import BrLogger.Lib.Gregorian
import BrLogger.Sink.DailyFileSink

/-!
# The day key and the date in a file's name

`GetDay` multiplies the year by 366 and adds the day of the year;
`MakeFilename` prints year, month and day.  On consistent calendar dates both
tell the same days apart (`getDay_eq_iff`): 366 is more than any day of the
year, a date is printed with two bytes for its month and for its day, and the
day of the year is one day of one month.
-/

namespace BrLogger

variable {L : Limits}

/-- A date of the Gregorian calendar whose day key fits an `int`. -/
structure YearTm.Consistent (tm : YearTm) : Prop where
  mon : 0 ≤ tm.tmMon.toInt ∧ tm.tmMon.toInt ≤ 11
  mday : 1 ≤ tm.tmMday.toInt ∧
    tm.tmMday.toInt ≤ Gregorian.monthLength (Gregorian.leapYear (tm.tmYear.toInt + 1900)) tm.tmMon.toInt.toNat
  yday : tm.tmYday.toInt =
    Gregorian.daysBefore (Gregorian.leapYear (tm.tmYear.toInt + 1900)) tm.tmMon.toInt.toNat + tm.tmMday.toInt - 1
  fits : -2 ^ 31 ≤ tm.tmYear.toInt * 366 + tm.tmYday.toInt ∧ tm.tmYear.toInt * 366 + tm.tmYday.toInt < 2 ^ 31

namespace YearTm.Consistent

variable {tm tm' : YearTm}

theorem yday_bounds (h : tm.Consistent) : 0 ≤ tm.tmYday.toInt ∧ tm.tmYday.toInt ≤ 365 := by
  have hmon := h.mon
  have hmday := h.mday
  have hyear : Gregorian.daysBefore (Gregorian.leapYear (tm.tmYear.toInt + 1900)) tm.tmMon.toInt.toNat +
      tm.tmMday.toInt.toNat ≤ 366 := Gregorian.dayOfYear_le (by omega) (by omega)
  rw [h.yday]
  omega

theorem mday_le (h : tm.Consistent) : tm.tmMday.toInt ≤ 31 := by
  have hlen : ∀ leap mon, Gregorian.monthLength leap mon ≤ 31 := by
    intro leap mon
    rw [Gregorian.monthLength.eq_def]
    split
    · split <;> omega
    all_goals omega
  have := h.mday.2
  have := hlen (Gregorian.leapYear (tm.tmYear.toInt + 1900)) tm.tmMon.toInt.toNat
  omega

/-- The day key does not overflow. -/
theorem toInt_dayKey (h : tm.Consistent) :
    (tm.tmYday + tm.tmYear * 366).toInt = tm.tmYear.toInt * 366 + tm.tmYday.toInt := by
  have h366 : (366 : Int32).toInt = 366 := by decide
  rw [Int32.toInt_add, Int32.toInt_mul, h366, Int.add_bmod_bmod]
  have := h.fits
  rw [Int.bmod_eq_of_le (by omega) (by omega)]
  omega

/-- Each part of a consistent date has its width. -/
theorem length_parts (h : tm.Consistent) :
    (zeroPadded 4 (tm.tmYear.toInt + 1900)).length ≤ 8 ∧ (zeroPadded 2 (tm.tmMon.toInt + 1)).length = 2 ∧
      (zeroPadded 2 tm.tmMday.toInt).length = 2 := by
  have hmon := h.mon
  have hmday := h.mday.1
  have hmday' := h.mday_le
  have hfits := h.fits
  have hyday := h.yday_bounds
  refine ⟨?_, length_zeroPadded_eq (by decide) (by omega) (by omega), length_zeroPadded_eq (by decide) (by omega)
    (by omega)⟩
  exact length_zeroPadded_le (k := 7) (by decide) (by omega)

/-- `date_str` has room for it. -/
theorem length_dateText (h : tm.Consistent) : (dateText tm.toTm).length ≤ 31 := by
  obtain ⟨hyear, hmon, hmday⟩ := h.length_parts
  have hsep : (ascii "-").length = 1 := by decide
  simp only [dateText, List.length_append]
  omega

/-- **A date's text tells the date.** -/
theorem dateText_inj (h : tm.Consistent) (h' : tm'.Consistent) :
    dateText tm.toTm = dateText tm'.toTm ↔
      tm.tmYear.toInt = tm'.tmYear.toInt ∧ tm.tmMon.toInt = tm'.tmMon.toInt ∧ tm.tmMday.toInt = tm'.tmMday.toInt := by
  constructor
  · intro he
    obtain ⟨_, hmon, hmday⟩ := h.length_parts
    obtain ⟨_, hmon', hmday'⟩ := h'.length_parts
    -- the parts behind the year are as long on both sides
    obtain ⟨he, heq⟩ := List.append_inj' he (by rw [hmday, hmday'])
    obtain ⟨he, _⟩ := List.append_inj' he rfl
    obtain ⟨he, heqm⟩ := List.append_inj' he (by rw [hmon, hmon'])
    obtain ⟨heqy, _⟩ := List.append_inj' he rfl
    have hy := zeroPadded_injective heqy
    have hm := zeroPadded_injective heqm
    exact ⟨by omega, by omega, zeroPadded_injective heq⟩
  · intro he
    rw [dateText, dateText, he.1, he.2.1, he.2.2]

/-- **The day key tells the date.** -/
theorem dayKey_inj (h : tm.Consistent) (h' : tm'.Consistent) :
    tm.tmYday + tm.tmYear * 366 = tm'.tmYday + tm'.tmYear * 366 ↔ dateText tm.toTm = dateText tm'.toTm := by
  rw [← Int32.toInt_inj, h.toInt_dayKey, h'.toInt_dayKey, h.dateText_inj h']
  have hyday := h.yday_bounds
  have hyday' := h'.yday_bounds
  constructor
  · intro he
    have hyear : tm.tmYear.toInt = tm'.tmYear.toInt := by omega
    have hday : tm.tmYday.toInt = tm'.tmYday.toInt := by omega
    have hmon := h.mon
    have hmon' := h'.mon
    have hmday := h.mday
    have hmday' := h'.mday
    rw [h.yday, h'.yday, hyear] at hday
    rw [hyear] at hmday
    have hle : tm.tmMday.toInt.toNat ≤
        Gregorian.monthLength (Gregorian.leapYear (tm'.tmYear.toInt + 1900)) tm.tmMon.toInt.toNat := by omega
    have hle' : tm'.tmMday.toInt.toNat ≤
        Gregorian.monthLength (Gregorian.leapYear (tm'.tmYear.toInt + 1900)) tm'.tmMon.toInt.toNat := by omega
    obtain ⟨heqm, heqd⟩ := Gregorian.dayOfYear_injective (by omega) (by omega) hle hle' (by omega)
    exact ⟨hyear, by omega, by omega⟩
  · intro he
    have hday : tm.tmYday.toInt = tm'.tmYday.toInt := by rw [h.yday, h'.yday, he.1, he.2.1, he.2.2]
    omega

end YearTm.Consistent

/-- Both calendars show a consistent date at this time. -/
def Calendar.Consistent (calendar : Calendar) (t : Int) : Prop :=
  (calendar.gmtime t).Consistent ∧ (calendar.localtime t).Consistent

theorem consistent_january1970 (t : Int) : Calendar.january1970.Consistent t := by
  have h : ∀ t, (january1970 t).Consistent := by
    intro t
    have hyear : (january1970 t).tmYear = 70 := rfl
    have hmon : (january1970 t).tmMon = 0 := rfl
    by_cases ht : t < 86400
    · have hmday : (january1970 t).tmMday = 1 := if_pos ht
      have hyday : (january1970 t).tmYday = 0 := if_pos ht
      constructor <;> simp only [hyear, hmon, hmday, hyday] <;> decide
    · have hmday : (january1970 t).tmMday = 2 := if_neg ht
      have hyday : (january1970 t).tmYday = 1 := if_neg ht
      constructor <;> simp only [hyear, hmon, hmday, hyday] <;> decide
  exact ⟨h t, h t⟩

namespace DailyFileSink

variable {calendar : Calendar} {sink : DailyFileSink L} {t t' : Int}

theorem tmOf_consistent (h : calendar.Consistent t) (sink : DailyFileSink L) : (sink.tmOf calendar t).Consistent := by
  rw [tmOf]
  split
  · exact h.1
  · exact h.2

/-- The whole date is in the name. -/
theorem dateStr_eq (h : calendar.Consistent t) (sink : DailyFileSink L) :
    sink.dateStr calendar t = dateText (sink.tmOf calendar t).toTm :=
  List.take_of_length_le (tmOf_consistent h sink).length_dateText

/-- **The day key changes exactly when the file name does.** -/
theorem getDay_eq_iff (h : calendar.Consistent t) (h' : calendar.Consistent t') (sink : DailyFileSink L) :
    sink.getDay calendar t = sink.getDay calendar t' ↔
      sink.makeFilename calendar t = sink.makeFilename calendar t' := by
  rw [getDay, getDay, (tmOf_consistent h sink).dayKey_inj (tmOf_consistent h' sink), ← dateStr_eq h, ← dateStr_eq h',
    makeFilename, makeFilename, fullPath, fullPath, List.append_cancel_left_eq, List.append_cancel_right_eq,
    List.append_cancel_left_eq]

end DailyFileSink

end BrLogger
