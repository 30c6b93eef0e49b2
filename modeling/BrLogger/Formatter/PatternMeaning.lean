import BrLogger.Formatter.PatternFormatter

/-!
# What a pattern means

`meaning` reads a pattern from left to right and puts the field's rendering for
each placeholder it meets, which is the text a caller expects.  The formatter
takes two steps to it.  `CompilePattern` collects literals and flushes them in
front of a field; whatever the pattern, its operations say what the pattern
means (`compilePattern_meaning`).  `Format` appends one operation after the
other to a buffer that is never longer than it may be, so cutting each piece
where it goes in is cutting the whole text at the end (`appendOp_eq`).

`format_meaning` puts them together.
-/

namespace BrLogger

variable {L : Limits}

/-! ### The rendering of a field -/

def tagText (tag : LogTag L) : List Byte := tag.key.cstr ++ ascii "=" ++ tag.value.cstr

/-- Tags between brackets with bars between them, or nothing. -/
def tagsText (entry : LogEntry L) : List Byte :=
  if 0 < entry.tagCount.toNat then
    ascii "[" ++ (ascii "|").intercalate (entry.usedTags.map tagText) ++ ascii "]"
  else []

def OpType.rendering (localtime : LocalTime) (enableColor : Bool) (entry : LogEntry L) : OpType → List Byte
  | .date => dateText (localtime (entry.wallClockNs.toNat / 1000000000))
  | .time => timeText (localtime (entry.wallClockNs.toNat / 1000000000))
  | .microseconds =>
    ascii "." ++ zeroPadded 6 (UInt32.ofNat (entry.wallClockNs.toNat / 1000 % 1000000)).toNat
  | .levelFull => entry.level.toString
  | .levelShort => [entry.level.toShortChar]
  | .fileName => entry.fileName.elim [] CStr.bytes
  | .filePath => entry.filePath.elim [] CStr.bytes
  | .funcName => entry.functionName.elim [] CStr.bytes
  | .prettyFunc => entry.prettyFunction.elim [] CStr.bytes
  | .line => decimal entry.line.toNat
  | .threadId => decimal entry.threadId.toNat
  | .processId => decimal entry.processId.toNat
  | .threadName => entry.threadName.cstr
  | .sequenceId => decimal entry.sequenceId.toNat
  | .tags => tagsText entry
  | .message => entry.message
  | .colorStart => if enableColor then entry.level.color else []
  | .colorReset => if enableColor then ascii "\x1b[0m" else []

/-- What stands in the output for `%` and the byte behind it. -/
def percentText (render : OpType → List Byte) (next : Byte) : List Byte :=
  match OpType.ofByte next with
  | some type => render type
  | none => if next = 37 then [37] else [37, next]

/-- The pattern read from left to right. -/
def meaning (render : OpType → List Byte) : List Byte → List Byte
  | [] => []
  | [ch] => [ch]
  | ch :: next :: rest =>
    if ch = 37 then percentText render next ++ meaning render rest else ch :: meaning render (next :: rest)

/-! ### Compiling keeps the meaning -/

def FormatOp.rendering (render : OpType → List Byte) : FormatOp → List Byte
  | .literal text => text
  | .field type => render type

section
variable {render : OpType → List Byte}

theorem meaning_cons {ch : Byte} (h : ch ≠ 37) (rest : List Byte) :
    meaning render (ch :: rest) = ch :: meaning render rest := by
  cases rest with
  | nil => rfl
  | cons next rest => rw [meaning, if_neg h]

theorem meaning_percent (next : Byte) (rest : List Byte) :
    meaning render (37 :: next :: rest) = percentText render next ++ meaning render rest := by
  rw [meaning, if_pos rfl]

theorem flushLiteral_rendering (literal : List Byte) (ops : List FormatOp) :
    (flushLiteral literal ops).flatMap (FormatOp.rendering render) =
      ops.flatMap (FormatOp.rendering render) ++ literal := by
  rw [flushLiteral]
  split
  · rename_i h
    rw [h, List.append_nil]
  · rw [List.flatMap_append, List.flatMap_singleton]
    rfl

theorem compileLoop_cons {ch : Byte} (h : ch ≠ 37) (rest literal : List Byte) (ops : List FormatOp) :
    compileLoop (ch :: rest) literal ops = compileLoop rest (literal ++ [ch]) ops := by
  conv_lhs => unfold compileLoop
  exact if_pos h

theorem compileLoop_last (literal : List Byte) (ops : List FormatOp) :
    compileLoop [37] literal ops = compileLoop [] (literal ++ [37]) ops := by
  conv_lhs => unfold compileLoop
  rfl

theorem compileLoop_percent (next : Byte) (rest literal : List Byte) (ops : List FormatOp) :
    compileLoop (37 :: next :: rest) literal ops =
      match OpType.ofByte next with
      | some type => compileLoop rest [] (flushLiteral literal ops ++ [.field type])
      | none => compileLoop rest (literal ++ if next = 37 then [37] else [37, next]) ops := by
  conv_lhs => unfold compileLoop
  exact if_neg (fun h => h rfl)

/-- The operations so far, the literal not flushed yet, and what is left of the pattern. -/
theorem compileLoop_meaning (pattern literal : List Byte) (ops : List FormatOp) :
    (compileLoop pattern literal ops).flatMap (FormatOp.rendering render) =
      ops.flatMap (FormatOp.rendering render) ++ literal ++ meaning render pattern := by
  induction pattern, literal, ops using compileLoop.induct with
  | case1 literal ops => rw [compileLoop, flushLiteral_rendering, meaning, List.append_nil]
  | case2 ch rest literal ops hch ih =>
    rw [compileLoop_cons hch, ih, meaning_cons hch, List.append_assoc, List.append_assoc, List.append_assoc,
      List.singleton_append]
  | case3 ch literal ops hch ih =>
    obtain rfl : ch = 37 := not_not.mp hch
    rw [compileLoop_last, ih, meaning, meaning, List.append_nil, List.append_assoc]
  | case4 ch literal ops hch next rest type htype ih =>
    obtain rfl : ch = 37 := not_not.mp hch
    rw [compileLoop_percent, htype, ih, meaning_percent, percentText, htype, List.flatMap_append,
      flushLiteral_rendering, List.flatMap_singleton, List.append_nil]
    simp only [List.append_assoc]
    rfl
  | case5 ch literal ops hch next rest hnone ih =>
    obtain rfl : ch = 37 := not_not.mp hch
    rw [compileLoop_percent, hnone, ih, meaning_percent, percentText, hnone, List.append_assoc, List.append_assoc,
      List.append_assoc]

theorem compilePattern_meaning (pattern : List Byte) :
    (compilePattern pattern).flatMap (FormatOp.rendering render) = meaning render pattern :=
  compileLoop_meaning pattern [] []

end

/-! ### Appending and cutting -/

/-- The buffer that holds what fits of `text`, terminated. -/
def cutText (buf : Region) (bufSize : Nat) (text : List Byte) : Cursor :=
  ⟨buf.blit 0 (text.take (bufSize - 1) ++ [0]), (text.take (bufSize - 1)).length⟩

theorem take_append_take {α : Type} (n : Nat) (s t : List α) : (s.take n ++ t).take n = (s ++ t).take n := by
  rw [List.take_append, List.take_append, List.take_take, Nat.min_self, List.length_take]
  congr 2
  omega

theorem intercalate_cons {α : Type} (sep s : List α) (l : List (List α)) :
    sep.intercalate (s :: l) = s ++ l.flatMap (sep ++ ·) := by
  induction l generalizing s with
  | nil => rw [List.intercalate_singleton, List.flatMap_nil, List.append_nil]
  | cons t l ih =>
    rw [List.intercalate_cons_cons, ih, List.flatMap_cons, List.append_assoc, List.append_assoc]

/-- Data copied over the NUL, and a new NUL behind them. -/
theorem blit_terminated (buf : Region) (out data : List Byte) :
    ((buf.blit 0 (out ++ [0])).blit out.length data).store (out.length + data.length) 0 =
      buf.blit 0 (out ++ data ++ [0]) := by
  have hnul : buf.blit 0 (out ++ [0]) = (buf.blit 0 out).blit out.length [0] := by
    rw [← buf.blit_blit 0 out [0], Nat.zero_add]
  have hdata : buf.blit 0 (out ++ (data ++ [0])) = (buf.blit 0 out).blit out.length (data ++ [0]) := by
    rw [← buf.blit_blit 0 out (data ++ [0]), Nat.zero_add]
  rw [Region.store, Region.blit_blit, hnul, Region.blit_over _ _ (by simp), List.append_assoc, hdata]

section
variable {bufSize : Nat} (hB : 0 < bufSize) (buf : Region) (text : List Byte)
include hB

/-- **`append_data` puts its data behind the text, as far as they fit.** -/
theorem appendData_cutText (data : List Byte) :
    appendData bufSize (cutText buf bufSize text) data = cutText buf bufSize (text ++ data) := by
  have hlen : (text.take (bufSize - 1)).length ≤ bufSize - 1 := List.length_take_le _ _
  have hpos : (cutText buf bufSize text).pos = (text.take (bufSize - 1)).length := rfl
  rw [appendData, hpos]
  by_cases hdata : data = []
  · rw [if_pos (Or.inr hdata), hdata, List.append_nil]
  · rw [if_neg (by simp [hdata]; omega)]
    simp only [if_pos (show (text.take (bufSize - 1)).length < bufSize by omega), sizeSub_one hB, sizeSub_of_le hlen]
    -- what fits of the longer text
    have hcut : (text ++ data).take (bufSize - 1) =
        text.take (bufSize - 1) ++ data.take (bufSize - 1 - (text.take (bufSize - 1)).length) := by
      rw [← take_append_take, List.take_append, List.take_take, Nat.min_self]
    by_cases hfull : bufSize - 1 - (text.take (bufSize - 1)).length = 0
    · rw [hfull, List.take_zero, List.append_nil] at hcut
      rw [if_pos hfull, cutText, cutText, hcut]
    · rw [if_neg hfull]
      have htake : ∀ n, data.take (if data.length < n then data.length else n) = data.take n := by
        intro n
        split
        · rw [List.take_length, List.take_of_length_le (by omega)]
        · rfl
      have hcount : ∀ n, (if data.length < n then data.length else n) = (data.take n).length := by
        intro n
        rw [List.length_take]
        split <;> omega
      rw [htake, hcount, cutText, cutText, hcut, blit_terminated, List.length_append]

theorem appendCstr_cutText (s : Option CStr) :
    appendCstr bufSize (cutText buf bufSize text) s = cutText buf bufSize (text ++ s.elim [] CStr.bytes) := by
  cases s with
  | none => rw [Option.elim_none, List.append_nil, appendCstr]
  | some s => exact appendData_cutText hB buf text s.bytes

/-- A rendering that fits the 128 bytes of `temp` is appended whole. -/
theorem appendPrinted_cutText {printed : List Byte} (h : printed.length < 128) :
    appendPrinted bufSize (cutText buf bufSize text) printed = cutText buf bufSize (text ++ printed) := by
  have hread := Region.zero.bytes_snprintf h
  have hn := Region.zero.snprintf_result 128 (show printed.length < 2 ^ 31 by omega)
  rw [appendPrinted]
  simp only [hn, Int.toNat_natCast, hread]
  by_cases hpos : 0 < printed.length
  · rw [if_pos (by omega)]
    exact appendData_cutText hB buf text printed
  · have hnil : printed = [] := List.eq_nil_of_length_eq_zero (by omega)
    rw [if_neg (by omega), hnil, List.append_nil]

/-- The tags from index `i` on, with a bar in front of all but the first. -/
theorem appendTagList_cutText (tags : List (LogTag L)) (i : Nat) :
    appendTagList bufSize i tags (cutText buf bufSize text) =
      cutText buf bufSize (text ++
        if 0 < i then tags.flatMap fun tag => ascii "|" ++ tagText tag
        else (ascii "|").intercalate (tags.map tagText)) := by
  induction tags generalizing i text with
  | nil => simp [appendTagList]
  | cons tag tags ih =>
    have hsep : (if 0 < i then appendData bufSize (cutText buf bufSize text) (ascii "|") else cutText buf bufSize text) =
        cutText buf bufSize (text ++ if 0 < i then ascii "|" else []) := by
      split
      · exact appendData_cutText hB buf text _
      · rw [List.append_nil]
    rw [appendTagList, hsep, appendData_cutText hB, appendData_cutText hB, appendData_cutText hB, ih,
      if_pos (Nat.succ_pos i)]
    congr 1
    split
    · simp [tagText]
    · rw [List.map_cons, intercalate_cons, List.flatMap_map]
      simp [tagText]

end

/-! ### Every operation -/

theorem length_timeText (tm : Tm) : (timeText tm).length < 128 := by
  have hhour := length_zeroPadded_int32 (w := 2) (by decide) tm.tmHour (Int.le_refl 0) (by decide)
  have hmin := length_zeroPadded_int32 (w := 2) (by decide) tm.tmMin (Int.le_refl 0) (by decide)
  have hsec := length_zeroPadded_int32 (w := 2) (by decide) tm.tmSec (Int.le_refl 0) (by decide)
  have hsep : (ascii ":").length = 1 := by decide
  rw [Int.add_zero] at hhour hmin hsec
  simp only [timeText, List.length_append]
  omega

theorem length_microseconds (us : UInt32) : (ascii "." ++ zeroPadded 6 us.toNat).length < 128 := by
  have hus : (zeroPadded 6 us.toNat).length ≤ max 6 (10 + 1) := by
    have := us.toNat_lt
    exact length_zeroPadded_le (by decide) (by omega)
  have hsep : (ascii ".").length = 1 := by decide
  rw [List.length_append]
  omega

theorem length_decimal_uint32 (n : UInt32) : (decimal n.toNat).length < 128 := by
  have := n.toNat_lt
  have := length_decimal_le (n := n.toNat) (k := 10) (by decide) (by omega)
  omega

theorem length_decimal_uint64 (n : UInt64) : (decimal n.toNat).length < 128 := by
  have := n.toNat_lt
  have := length_decimal_le (n := n.toNat) (k := 20) (by decide) (by omega)
  omega

/-- **An operation appends its rendering.** -/
theorem appendOp_eq {bufSize : Nat} (hB : 0 < bufSize) (localtime : LocalTime) (enableColor : Bool) (entry : LogEntry L)
    (buf : Region) (text : List Byte) (op : FormatOp) :
    appendOp localtime enableColor entry bufSize (cutText buf bufSize text) op =
      cutText buf bufSize (text ++ op.rendering (OpType.rendering localtime enableColor entry)) := by
  cases op with
  | literal literal => exact appendData_cutText hB buf text literal
  | field type =>
    cases type with
    | date =>
      rw [appendOp]
      simp only [formatDate_text]
      exact appendData_cutText hB buf text _
    | levelFull => exact appendData_cutText hB buf text _
    | levelShort => exact appendData_cutText hB buf text _
    | threadName => exact appendData_cutText hB buf text _
    | message => exact appendData_cutText hB buf text _
    | fileName => exact appendCstr_cutText hB buf text _
    | filePath => exact appendCstr_cutText hB buf text _
    | funcName => exact appendCstr_cutText hB buf text _
    | prettyFunc => exact appendCstr_cutText hB buf text _
    | time => exact appendPrinted_cutText hB buf text (length_timeText _)
    | microseconds => exact appendPrinted_cutText hB buf text (length_microseconds _)
    | line => exact appendPrinted_cutText hB buf text (length_decimal_uint32 _)
    | threadId => exact appendPrinted_cutText hB buf text (length_decimal_uint32 _)
    | processId => exact appendPrinted_cutText hB buf text (length_decimal_uint32 _)
    | sequenceId => exact appendPrinted_cutText hB buf text (length_decimal_uint64 _)
    | tags =>
      rw [appendOp, FormatOp.rendering, OpType.rendering, tagsText]
      split
      · rw [appendData_cutText hB, appendTagList_cutText hB, appendData_cutText hB, if_neg (Nat.lt_irrefl 0),
          List.append_assoc, List.append_assoc, List.append_assoc]
      · rw [List.append_nil]
    | colorStart =>
      rw [appendOp, FormatOp.rendering, OpType.rendering]
      split
      · exact appendData_cutText hB buf text _
      · rw [List.append_nil]
    | colorReset =>
      rw [appendOp, FormatOp.rendering, OpType.rendering]
      split
      · exact appendData_cutText hB buf text _
      · rw [List.append_nil]

theorem foldl_appendOp_eq {bufSize : Nat} (hB : 0 < bufSize) (localtime : LocalTime) (enableColor : Bool)
    (entry : LogEntry L) (buf : Region) (ops : List FormatOp) (text : List Byte) :
    ops.foldl (appendOp localtime enableColor entry bufSize) (cutText buf bufSize text) =
      cutText buf bufSize (text ++ ops.flatMap (FormatOp.rendering (OpType.rendering localtime enableColor entry))) := by
  induction ops generalizing text with
  | nil => rw [List.foldl_nil, List.flatMap_nil, List.append_nil]
  | cons op ops ih => rw [List.foldl_cons, appendOp_eq hB, ih, List.flatMap_cons, List.append_assoc]

namespace PatternFormatter

/-- The full text of an entry. -/
def full (localtime : LocalTime) (f : PatternFormatter) (entry : LogEntry L) : List Byte :=
  meaning (OpType.rendering localtime f.enableColor entry) f.pattern

theorem format_eq {bufSize : Nat} (hB : 0 < bufSize) (localtime : LocalTime) (f : PatternFormatter) (entry : LogEntry L)
    (buf : Region) :
    f.format localtime entry buf bufSize =
      (buf.blit 0 ((f.full localtime entry).take (bufSize - 1) ++ [0]), ((f.full localtime entry).take (bufSize - 1)).length) := by
  have hstart : (⟨buf.store 0 0, 0⟩ : Cursor) = cutText buf bufSize [] := by rw [cutText, List.take_nil]; rfl
  rw [format, if_neg (Nat.ne_of_gt hB), hstart, ops]
  simp only [foldl_appendOp_eq hB, compilePattern_meaning, List.nil_append]
  rfl

theorem format_bytes {bufSize : Nat} (hB : 0 < bufSize) (localtime : LocalTime) (f : PatternFormatter)
    (entry : LogEntry L) (buf : Region) :
    (f.format localtime entry buf bufSize).1.bytes (f.format localtime entry buf bufSize).2 =
      (f.full localtime entry).take (bufSize - 1) := by
  rw [format_eq hB]
  exact buf.bytes_blit_left _ _

theorem format_extent {bufSize : Nat} (hB : 0 < bufSize) (localtime : LocalTime) (f : PatternFormatter)
    (entry : LogEntry L) (buf : Region) :
    (f.format localtime entry buf bufSize).1.extent ≤ max buf.extent bufSize := by
  rw [format_eq hB]
  apply Region.extent_blit_le (Nat.le_max_left _ _)
  rw [List.length_append, List.length_take, List.length_singleton]
  omega

theorem renders (localtime : LocalTime) (f : PatternFormatter) :
    (f.toIFormatter L localtime).Renders fun entry bufSize => (f.full localtime entry).take (bufSize - 1) :=
  ⟨fun entry buf _ hB => f.format_bytes hB localtime entry buf, fun entry buf _ hB => f.format_extent hB localtime entry buf⟩

/-- **`Format` writes what fits of the pattern's meaning, and a NUL behind it**: the
length returned counts the bytes in front of the NUL, and no store is made at
`buf_size` or behind. -/
theorem format_meaning {bufSize : Nat} (hB : 0 < bufSize) (localtime : LocalTime) (f : PatternFormatter)
    (entry : LogEntry L) (buf : Region) :
    (f.format localtime entry buf bufSize).2 = min (f.full localtime entry).length (bufSize - 1) ∧
      (f.format localtime entry buf bufSize).1.bytes (f.format localtime entry buf bufSize).2 =
        (f.full localtime entry).take (f.format localtime entry buf bufSize).2 ∧
      (f.format localtime entry buf bufSize).1.byte (f.format localtime entry buf bufSize).2 = 0 ∧
      (∀ j, bufSize ≤ j → (f.format localtime entry buf bufSize).1.byte j = buf.byte j) ∧
      (f.format localtime entry buf bufSize).1.extent ≤ max buf.extent bufSize := by
  have hlen : (f.format localtime entry buf bufSize).2 = ((f.full localtime entry).take (bufSize - 1)).length := by
    rw [format_eq hB]
  refine ⟨?_, ?_, ?_, ?_, f.format_extent hB localtime entry buf⟩
  · rw [hlen, List.length_take, Nat.min_comm]
  · rw [format_bytes hB, hlen, List.length_take, List.take_eq_take_iff]
    omega
  · have hnul : ((f.full localtime entry).take (bufSize - 1) ++ [0])[((f.full localtime entry).take (bufSize - 1)).length]? =
        some (0 : Byte) := List.getElem?_concat_length ..
    have hbyte := buf.blit_byte_inside 0 hnul
    rw [format_eq hB]
    rwa [Nat.zero_add] at hbyte
  · intro j hj
    rw [format_eq hB]
    apply Region.blit_byte_of_ge
    rw [List.length_append, List.length_take, List.length_singleton]
    omega

/-- The level of an entry, cut to three bytes. -/
theorem format_meaning_cut :
    (format (fun _ => ⟨70, 0, 1, 0, 0, 0⟩) ⟨ascii "%L", false⟩ (LogEntry.zero Limits.desktop) Region.zero 4).2 =
      min (full (fun _ => ⟨70, 0, 1, 0, 0, 0⟩) ⟨ascii "%L", false⟩ (LogEntry.zero Limits.desktop)).length (4 - 1) :=
  (format_meaning (by decide) (fun _ => ⟨70, 0, 1, 0, 0, 0⟩) ⟨ascii "%L", false⟩ (LogEntry.zero Limits.desktop)
    Region.zero).1

end PatternFormatter

end BrLogger
