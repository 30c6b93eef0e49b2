import BrLogger.Lib.Decimal
import BrLogger.Lib.Memory

/-!
# `format_timestamp` and `format_date`

`timestamp.cpp`.  The broken-down time comes from the C library's
`localtime_r`, of which nothing is assumed: whatever seven numbers it leaves in
the `struct tm`, the text fits the formatters' 128 bytes and is made of digits,
signs and the separators of the format (`formatTimestamp_text`,
`mem_timestampText`).
-/

namespace BrLogger

/-- The `int` members of a `struct tm` that are printed. -/
structure Tm where
  tmYear : Int32
  tmMon : Int32
  tmMday : Int32
  tmHour : Int32
  tmMin : Int32
  tmSec : Int32

/-- `localtime_r`: what it leaves in the `struct tm` for these seconds. -/
abbrev LocalTime := Int → Tm

def decomposeWallNs (localtime : LocalTime) (wallNs : UInt64) : Tm × UInt32 :=
  (localtime (wallNs.toNat / 1000000000), UInt32.ofNat (wallNs.toNat % 1000000000 / 1000))

/-- `"%04d-%02d-%02d %02d:%02d:%02d.%06u"`. -/
def timestampText (tm : Tm) (us : UInt32) : List Byte :=
  zeroPadded 4 (tm.tmYear.toInt + 1900) ++ ascii "-" ++ zeroPadded 2 (tm.tmMon.toInt + 1) ++ ascii "-" ++
    zeroPadded 2 tm.tmMday.toInt ++ ascii " " ++ zeroPadded 2 tm.tmHour.toInt ++ ascii ":" ++
    zeroPadded 2 tm.tmMin.toInt ++ ascii ":" ++ zeroPadded 2 tm.tmSec.toInt ++ ascii "." ++
    zeroPadded 6 us.toNat

/-- `"%04d-%02d-%02d"`. -/
def dateText (tm : Tm) : List Byte :=
  zeroPadded 4 (tm.tmYear.toInt + 1900) ++ ascii "-" ++ zeroPadded 2 (tm.tmMon.toInt + 1) ++ ascii "-" ++
    zeroPadded 2 tm.tmMday.toInt

/-- The body the three formatting functions share, for the text one of them prints. -/
def formatWall (text : Tm → UInt32 → List Byte) (localtime : LocalTime) (wallNs : UInt64) (buf : Region)
    (bufSize : Nat) : Region × Nat :=
  if bufSize = 0 then (buf, 0)
  else
    let (tm, us) := decomposeWallNs localtime wallNs
    let (buf, n) := buf.snprintf bufSize (text tm us)
    (buf, if 0 < n ∧ n.toNat < bufSize then n.toNat else bufSize - 1)

/-- `format_timestamp(wall_ns, buf, buf_size)`. -/
def formatTimestamp : LocalTime → UInt64 → Region → Nat → Region × Nat := formatWall timestampText

/-- `format_date(wall_ns, buf, buf_size)`. -/
def formatDate : LocalTime → UInt64 → Region → Nat → Region × Nat := formatWall fun tm _ => dateText tm

/-- The text of a wall clock reading. -/
def wallText (localtime : LocalTime) (wallNs : UInt64) : List Byte :=
  timestampText (decomposeWallNs localtime wallNs).1 (decomposeWallNs localtime wallNs).2

theorem length_zeroPadded_int32 {w : Nat} (hw : w ≤ 11) (n : Int32) {k : Int} (hk : 0 ≤ k) (hk' : k ≤ 1900) :
    (zeroPadded w (n.toInt + k)).length ≤ 11 := by
  have hlow := Int32.le_toInt n
  have hhigh := Int32.toInt_lt n
  have hlen : (zeroPadded w (n.toInt + k)).length ≤ max w (10 + 1) :=
    length_zeroPadded_le (by decide) (by omega)
  omega

theorem length_timestampText (tm : Tm) (us : UInt32) : (timestampText tm us).length < 128 := by
  have hyear := length_zeroPadded_int32 (w := 4) (by decide) tm.tmYear (k := 1900) (by decide) (by decide)
  have hmon := length_zeroPadded_int32 (w := 2) (by decide) tm.tmMon (k := 1) (by decide) (by decide)
  have hday := length_zeroPadded_int32 (w := 2) (by decide) tm.tmMday (Int.le_refl 0) (by decide)
  have hhour := length_zeroPadded_int32 (w := 2) (by decide) tm.tmHour (Int.le_refl 0) (by decide)
  have hmin := length_zeroPadded_int32 (w := 2) (by decide) tm.tmMin (Int.le_refl 0) (by decide)
  have hsec := length_zeroPadded_int32 (w := 2) (by decide) tm.tmSec (Int.le_refl 0) (by decide)
  have hus : (zeroPadded 6 us.toNat).length ≤ max 6 (10 + 1) := by
    have := us.toNat_lt
    exact length_zeroPadded_le (by decide) (by omega)
  rw [Int.add_zero] at hday hhour hmin hsec
  simp only [timestampText, List.length_append]
  have hsep : (ascii "-").length = 1 ∧ (ascii " ").length = 1 ∧ (ascii ":").length = 1 ∧
      (ascii ".").length = 1 := by decide
  omega

/-- A text that is not empty and fits is formatted whole, whatever the buffer held before. -/
theorem formatWall_of_fits {text : Tm → UInt32 → List Byte} {localtime : LocalTime} {wallNs : UInt64}
    (buf : Region) {bufSize : Nat}
    (hpos : 0 < (text (decomposeWallNs localtime wallNs).1 (decomposeWallNs localtime wallNs).2).length)
    (hlen : (text (decomposeWallNs localtime wallNs).1 (decomposeWallNs localtime wallNs).2).length < bufSize)
    (hint : (text (decomposeWallNs localtime wallNs).1 (decomposeWallNs localtime wallNs).2).length < 2 ^ 31) :
    (formatWall text localtime wallNs buf bufSize).1.bytes (formatWall text localtime wallNs buf bufSize).2 =
      text (decomposeWallNs localtime wallNs).1 (decomposeWallNs localtime wallNs).2 := by
  rw [formatWall]
  generalize decomposeWallNs localtime wallNs = d at hpos hlen hint ⊢
  have hread := buf.bytes_snprintf hlen
  have hn := buf.snprintf_result bufSize hint
  rw [if_neg (by omega)]
  simp only [hn, Int.toNat_natCast]
  rw [if_pos ⟨by omega, hlen⟩]
  exact hread

theorem length_timestampText_pos (tm : Tm) (us : UInt32) : 0 < (timestampText tm us).length := by
  have : (ascii "-").length = 1 := by decide
  simp only [timestampText, List.length_append]
  omega

/-- Where the text fits, `format_timestamp` prints it whole. -/
theorem formatTimestamp_of_fits (localtime : LocalTime) (wallNs : UInt64) (buf : Region) {bufSize : Nat}
    (h : (wallText localtime wallNs).length < bufSize) :
    (formatTimestamp localtime wallNs buf bufSize).1.bytes (formatTimestamp localtime wallNs buf bufSize).2 =
      wallText localtime wallNs :=
  formatWall_of_fits buf (length_timestampText_pos _ _) h (Nat.lt_trans (length_timestampText _ _) (by decide))

/-- **`format_timestamp` prints the whole text.** -/
theorem formatTimestamp_text (localtime : LocalTime) (wallNs : UInt64) (buf : Region) :
    (formatTimestamp localtime wallNs buf 128).1.bytes (formatTimestamp localtime wallNs buf 128).2 =
      wallText localtime wallNs :=
  formatTimestamp_of_fits localtime wallNs buf (length_timestampText _ _)

theorem length_dateText (tm : Tm) : (dateText tm).length < 128 ∧ 0 < (dateText tm).length := by
  have hyear := length_zeroPadded_int32 (w := 4) (by decide) tm.tmYear (k := 1900) (by decide) (by decide)
  have hmon := length_zeroPadded_int32 (w := 2) (by decide) tm.tmMon (k := 1) (by decide) (by decide)
  have hday := length_zeroPadded_int32 (w := 2) (by decide) tm.tmMday (Int.le_refl 0) (by decide)
  have hsep : (ascii "-").length = 1 := by decide
  rw [Int.add_zero] at hday
  simp only [dateText, List.length_append]
  omega

/-- **`format_date` prints the whole date.** -/
theorem formatDate_text (localtime : LocalTime) (wallNs : UInt64) (buf : Region) :
    (formatDate localtime wallNs buf 128).1.bytes (formatDate localtime wallNs buf 128).2 =
      dateText (decomposeWallNs localtime wallNs).1 :=
  formatWall_of_fits buf (length_dateText _).2 (length_dateText _).1 (Nat.lt_trans (length_dateText _).1 (by decide))

/-- The bytes of a date. -/
theorem mem_dateText {tm : Tm} {b : Byte} (h : b ∈ dateText tm) : b = 45 ∨ isDigit b = true := by
  have hsep : ∀ b ∈ ascii "-", b = 45 ∨ isDigit b = true := by
    intro b hb
    exact Or.inl (List.mem_singleton.mp hb)
  simp only [dateText, List.mem_append] at h
  rcases h with (((h | h) | h) | h) | h
  · exact mem_zeroPadded h
  · exact hsep b h
  · exact mem_zeroPadded h
  · exact hsep b h
  · exact mem_zeroPadded h

/-- The bytes of a timestamp. -/
theorem mem_wallText {localtime : LocalTime} {wallNs : UInt64} {b : Byte}
    (h : b ∈ wallText localtime wallNs) :
    isDigit b = true ∨ b = 45 ∨ b = 32 ∨ b = 58 ∨ b = 46 := by
  have hnum : ∀ w n, b ∈ zeroPadded w n → isDigit b = true ∨ b = 45 ∨ b = 32 ∨ b = 58 ∨ b = 46 := by
    intro w n hb
    rcases mem_zeroPadded hb with hb | hb
    · exact Or.inr (Or.inl hb)
    · exact Or.inl hb
  have hsep : ∀ s : List Byte, (s.all fun c => c == 45 || c == 32 || c == 58 || c == 46) = true → b ∈ s →
      isDigit b = true ∨ b = 45 ∨ b = 32 ∨ b = 58 ∨ b = 46 := by
    intro s hs hb
    have := List.all_eq_true.mp hs b hb
    simp only [Bool.or_eq_true, beq_iff_eq, or_assoc] at this
    exact Or.inr this
  simp only [wallText, timestampText, List.mem_append] at h
  rcases h with (((((((((((h | h) | h) | h) | h) | h) | h) | h) | h) | h) | h) | h) | h
  all_goals first
    | exact hnum _ _ h
    | exact hsep _ (by decide) h

end BrLogger
