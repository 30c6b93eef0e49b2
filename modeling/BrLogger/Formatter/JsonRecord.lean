import BrLogger.Formatter.JsonFormatter
import BrLogger.Lib.Json.Parser

/-!
# The record a JSON line carries

A `JsonRecord` is what a line says: the eleven members, their strings before
escaping.  It is written as raw and escaped pieces (`pieces`) that `Format`
puts one after the other (`appends_eq`), so what a call returns is decided by
`BoundedText` (`output_eq`).

The whole text is an object of the grammar (`derives_text`): every byte is
spelled by its escape (`chars_escape`), so **no content closes its string**.
-/

namespace BrLogger

open BoundedText (Piece assemble escape text)

structure JsonRecord where
  ts : List Byte
  level : List Byte
  file : List Byte
  line : Nat
  func : List Byte
  tid : Nat
  pid : Nat
  thread : List Byte
  seq : Nat
  tags : List (List Byte × List Byte)
  msg : List Byte
  ts_plain : ∀ b ∈ ts, Json.isPlain b = true
  level_plain : ∀ b ∈ level, Json.isPlain b = true

theorem wallText_plain (localtime : LocalTime) (wallNs : UInt64) :
    ∀ b ∈ wallText localtime wallNs, Json.isPlain b = true := by
  intro b hb
  rcases mem_wallText hb with hb | rfl | rfl | rfl | rfl
  · rw [isDigit, Bool.and_eq_true, decide_eq_true_eq, decide_eq_true_eq] at hb
    have hlow : 48 ≤ b.toNat := hb.1
    have hhigh : b.toNat ≤ 57 := hb.2
    have hne : b ≠ 34 ∧ b ≠ 92 := by
      refine ⟨?_, ?_⟩ <;> rintro rfl
      · exact absurd hlow (by decide)
      · exact absurd hhigh (by decide)
    have hle : (32 : Byte) ≤ b := UInt8.le_iff_toNat_le.mpr (Nat.le_trans (by decide) hlow)
    simp [Json.isPlain, hne.1, hne.2, hle]
  all_goals decide

theorem LogLevel.toString_plain (level : LogLevel) : ∀ b ∈ level.toString, Json.isPlain b = true := by
  apply List.all_eq_true.mp
  cases level <;> decide

variable {L : Limits}

/-- What the record of an entry says. -/
def LogEntry.record (localtime : LocalTime) (entry : LogEntry L) : JsonRecord where
  ts := wallText localtime entry.wallClockNs
  level := entry.level.toString
  file := entry.fileName.elim [] CStr.bytes
  line := entry.line.toNat
  func := entry.functionName.elim [] CStr.bytes
  tid := entry.threadId.toNat
  pid := entry.processId.toNat
  thread := entry.threadName.cstr
  seq := entry.sequenceId.toNat
  tags := entry.usedTags.map fun tag => (tag.key.cstr, tag.value.cstr)
  msg := entry.message
  ts_plain := wallText_plain localtime entry.wallClockNs
  level_plain := entry.level.toString_plain

namespace JsonRecord

open JsonFormatter

variable (pretty : Bool) (r : JsonRecord)

/-- The members of the object. -/
def members : List (List Byte × Json.Value) :=
  [(ascii "ts", .str r.ts), (ascii "level", .str r.level), (ascii "file", .str r.file), (ascii "line", .num r.line),
    (ascii "func", .str r.func), (ascii "tid", .num r.tid), (ascii "pid", .num r.pid),
    (ascii "thread", .str r.thread), (ascii "seq", .num r.seq),
    (ascii "tags", .obj (r.tags.map fun tag => (tag.1, .str tag.2))), (ascii "msg", .str r.msg)]

/-- Everything up to the last tag. -/
def headPieces : List Piece :=
  [.raw (ascii "\x7b" ++ nl pretty ++ ind pretty ++ ascii "\"ts\"" ++ sep pretty ++ ascii "\"" ++ r.ts ++
      ascii "\"" ++ comma pretty ++ ind pretty ++ ascii "\"level\"" ++ sep pretty ++ ascii "\"" ++ r.level ++
      ascii "\"" ++ comma pretty ++ ind pretty ++ ascii "\"file\"" ++ sep pretty ++ ascii "\""),
    .escaped r.file,
    .raw (ascii "\"" ++ comma pretty ++ ind pretty ++ ascii "\"line\"" ++ sep pretty ++ decimal r.line ++
      comma pretty ++ ind pretty ++ ascii "\"func\"" ++ sep pretty ++ ascii "\""),
    .escaped r.func,
    .raw (ascii "\"" ++ comma pretty ++ ind pretty ++ ascii "\"tid\"" ++ sep pretty ++ decimal r.tid ++
      comma pretty ++ ind pretty ++ ascii "\"pid\"" ++ sep pretty ++ decimal r.pid ++
      comma pretty ++ ind pretty ++ ascii "\"thread\"" ++ sep pretty ++ ascii "\""),
    .escaped r.thread,
    .raw (ascii "\"" ++ comma pretty ++ ind pretty ++ ascii "\"seq\"" ++ sep pretty ++ decimal r.seq ++
      comma pretty ++ ind pretty ++ ascii "\"tags\"" ++ sep pretty ++ ascii "\x7b")] ++
  tagPieces (sep pretty) 0 r.tags

/-- From behind the tags to the opening quote of the message. -/
def msgKey : List Byte :=
  ascii "\x7d" ++ comma pretty ++ ind pretty ++ ascii "\"msg\"" ++ sep pretty ++ ascii "\""

/-- What closes the message and the record. -/
def closing : List Byte := ascii "\"" ++ nl pretty ++ ascii "\x7d"

def pieces : List Piece :=
  headPieces pretty r ++ [.raw (msgKey pretty), .escaped r.msg, .raw (closing pretty)]

end JsonRecord

namespace JsonFormatter

/-- **`Format` puts the pieces of the record, one after the other.** -/
theorem appends_eq {bufSize : Nat} (hB : 0 < bufSize) (localtime : LocalTime) (pretty : Bool)
    (entry : LogEntry L) (buf : Region) :
    appends localtime pretty entry bufSize ⟨buf, 0⟩ =
      written buf (assemble escapeUnit (bufSize - 1) [] ((entry.record localtime).pieces pretty)) := by
  have hstart : (⟨buf, 0⟩ : Cursor) = written buf [] := (Cursor.write_nil _).symm
  have hline : entry.line.toNat < 10 ^ 20 := Nat.lt_trans entry.line.toNat_lt (by decide)
  have htid : entry.threadId.toNat < 10 ^ 20 := Nat.lt_trans entry.threadId.toNat_lt (by decide)
  have hpid : entry.processId.toNat < 10 ^ 20 := Nat.lt_trans entry.processId.toNat_lt (by decide)
  have hseq : entry.sequenceId.toNat < 10 ^ 20 := Nat.lt_trans entry.sequenceId.toNat_lt (by decide)
  rw [hstart, appends]
  simp only [safeAppend_eq hB, appendTimestamp_eq hB, appendEscapedStr_eq hB, appendNumber_eq hB hline,
    appendNumber_eq hB htid, appendNumber_eq hB hpid, appendNumber_eq hB hseq, appendTags_eq hB,
    appendEscaped_eq hB, BoundedText.put_raw_raw]
  rw [JsonRecord.pieces, BoundedText.assemble_append, JsonRecord.headPieces, BoundedText.assemble_append]
  rfl

/-- **What a call returns is the record's text as it was assembled.** -/
theorem output_eq {bufSize : Nat} (hB : 0 < bufSize) (localtime : LocalTime) (pretty : Bool)
    (entry : LogEntry L) (buf : Region) :
    output localtime pretty entry buf bufSize =
      assemble escapeUnit (bufSize - 1) [] ((entry.record localtime).pieces pretty) := by
  rw [output, format, if_neg (Nat.ne_of_gt hB)]
  simp only [appends_eq hB, written_pos]
  generalize assemble escapeUnit (bufSize - 1) [] ((entry.record localtime).pieces pretty) = out
  have hbytes := buf.bytes_blit 0 out
  rw [Nat.zero_add] at hbytes
  rw [Region.store, Region.bytes_blit_of_le (Nat.le_refl _)]
  exact hbytes

theorem length_assemble_le (bufSize : Nat) (pieces : List Piece) :
    (assemble escapeUnit (bufSize - 1) [] pieces).length ≤ bufSize - 1 := by
  rw [BoundedText.assemble_eq (Nat.zero_le _)]
  exact List.length_take_le _ _

theorem format_length_lt (localtime : LocalTime) (pretty : Bool) (entry : LogEntry L) (buf : Region) {bufSize : Nat}
    (hB : 0 < bufSize) : (format localtime pretty entry buf bufSize).2 < bufSize := by
  have hlen := length_assemble_le bufSize ((entry.record localtime).pieces pretty)
  rw [format, if_neg (Nat.ne_of_gt hB)]
  simp only [appends_eq hB, written_pos]
  omega

/-- The formatter a sink holds. -/
def toIFormatter (L : Limits) (localtime : LocalTime) (pretty : Bool) : IFormatter L where
  format := format localtime pretty
  length_le entry buf _ hB := Nat.le_of_lt (format_length_lt localtime pretty entry buf hB)

theorem renders (localtime : LocalTime) (pretty : Bool) :
    (toIFormatter L localtime pretty).Renders fun entry bufSize =>
      assemble escapeUnit (bufSize - 1) [] ((entry.record localtime).pieces pretty) := by
  constructor
  case bytes => exact fun entry buf bufSize hB => output_eq hB localtime pretty entry buf
  case extent =>
    intro entry buf bufSize hB
    have hlen := length_assemble_le bufSize ((entry.record localtime).pieces pretty)
    show (format localtime pretty entry buf bufSize).1.extent ≤ _
    rw [format, if_neg (Nat.ne_of_gt hB)]
    simp only [appends_eq hB, written_pos]
    apply Region.extent_store_le
    · exact Region.extent_blit_le (Nat.le_max_left _ _) (by show 0 + _ ≤ _; omega)
    · omega

end JsonFormatter

/-! ## The text of a record -/

theorem codeUnit_hexDigits {c : Byte} (hc : c ≤ 0x1F) :
    Json.codeUnit (hexDigit (c.toNat >>> 12 &&& 0x0F)) (hexDigit (c.toNat >>> 8 &&& 0x0F))
      (hexDigit (c.toNat >>> 4 &&& 0x0F)) (hexDigit (c.toNat &&& 0x0F)) = some c.toNat := by
  have hall : ∀ n < 32, Json.codeUnit (hexDigit (n >>> 12 &&& 0x0F)) (hexDigit (n >>> 8 &&& 0x0F))
      (hexDigit (n >>> 4 &&& 0x0F)) (hexDigit (n &&& 0x0F)) = some n := by decide
  exact hall c.toNat (Nat.lt_of_le_of_lt (UInt8.le_iff_toNat_le.mp hc) (by decide))

/-- The unit of a byte spells the byte. -/
theorem chars_escapeUnit (c : Byte) {s t : List Byte} (h : Json.Chars s t) :
    Json.Chars (c :: s) (escapeUnit c ++ t) := by
  rw [escapeUnit]
  by_cases h34 : c = 34
  · subst h34
    exact Json.Chars.short (by decide) h
  by_cases h92 : c = 92
  · subst h92
    exact Json.Chars.short (by decide) h
  rw [if_neg h34, if_neg h92]
  by_cases h10 : c = 10
  · subst h10
    exact Json.Chars.short (by decide) h
  by_cases h13 : c = 13
  · subst h13
    exact Json.Chars.short (by decide) h
  by_cases h9 : c = 9
  · subst h9
    exact Json.Chars.short (by decide) h
  rw [if_neg h10, if_neg h13, if_neg h9]
  by_cases hc : c ≤ 0x1F
  · have hutf8 : Json.utf8 c.toNat = [c] := by
      have hlt : c.toNat < 0x80 := Nat.lt_of_le_of_lt (UInt8.le_iff_toNat_le.mp hc) (by decide)
      rw [Json.utf8, if_pos hlt, UInt8.ofNat_toNat]
    have := Json.Chars.unicode (codeUnit_hexDigits hc) h
    rw [hutf8] at this
    rw [if_pos hc]
    exact this
  · have hle : (32 : Byte) ≤ c := by
      rw [UInt8.le_iff_toNat_le] at hc ⊢
      exact Nat.lt_of_not_le hc
    rw [if_neg hc]
    exact Json.Chars.plain (by simp [Json.isPlain, h34, h92, hle]) h

/-- **Every string is spelled by its escape.** -/
theorem chars_escape (s : List Byte) : Json.Chars s (escape escapeUnit s) := by
  induction s with
  | nil => exact Json.Chars.nil
  | cons c s ih =>
    rw [BoundedText.escape_cons]
    exact chars_escapeUnit c ih

/-- A text between quotes. -/
def quoted (t : List Byte) : List Byte := Json.quote :: (t ++ [Json.quote])

theorem spells_str {k kt s t : List Byte} (hk : Json.Chars k kt) (h : Json.Chars s t) :
    Json.Spells (k, .str s) (kt, quoted t) := ⟨hk, Json.Derives.str h⟩

/-- The space behind a colon. -/
def colonSpace (pretty : Bool) : List Byte := if pretty then ascii " " else []

/-- The name and the value of a tag as they are written. -/
def tagField (tag : List Byte × List Byte) : List Byte × List Byte :=
  (escape escapeUnit tag.1, quoted (escape escapeUnit tag.2))

theorem sep_eq (pretty : Bool) : JsonFormatter.sep pretty = Json.colon :: colonSpace pretty := by
  cases pretty <;> rfl

theorem comma_eq (pretty : Bool) : JsonFormatter.comma pretty = Json.comma :: JsonFormatter.nl pretty := by
  cases pretty <;> rfl

/-- One tag, behind a comma when it is not the first. -/
theorem text_tagPieces_cons (pretty : Bool) (t : Nat) (tag : List Byte × List Byte)
    (tags : List (List Byte × List Byte)) :
    text escapeUnit (tagPieces (JsonFormatter.sep pretty) t (tag :: tags)) =
      (if 0 < t then [Json.comma] else []) ++
        Json.memberText [] (colonSpace pretty) (tagField tag).1 (tagField tag).2 ++
        text escapeUnit (tagPieces (JsonFormatter.sep pretty) (t + 1) tags) := by
  rw [tagPieces]
  simp only [BoundedText.text_cons, Piece.text, Json.memberText, tagField, quoted, sep_eq]
  simp [ascii]

theorem text_tagPieces (pretty : Bool) (tags : List (List Byte × List Byte)) :
    text escapeUnit (tagPieces (JsonFormatter.sep pretty) 0 tags) =
      Json.membersText [] [] (colonSpace pretty) (tags.map tagField) := by
  have hsucc : ∀ (tags : List (List Byte × List Byte)) (t : Nat),
      text escapeUnit (tagPieces (JsonFormatter.sep pretty) (t + 1) tags) =
        if tags = [] then [] else Json.comma :: Json.membersText [] [] (colonSpace pretty) (tags.map tagField) := by
    intro tags
    induction tags with
    | nil => intro t; rfl
    | cons tag tags ih =>
      intro t
      rw [text_tagPieces_cons, if_pos (Nat.succ_pos t), ih, if_neg (List.cons_ne_nil tag tags)]
      cases tags <;> simp [Json.membersText]
  cases tags with
  | nil => rfl
  | cons tag tags =>
    rw [text_tagPieces_cons, if_neg (Nat.lt_irrefl 0), hsucc]
    cases tags <;> simp [Json.membersText]

namespace JsonRecord

open JsonFormatter

variable (pretty : Bool) (r : JsonRecord)

/-- The names and values as they are written. -/
def fields : List (List Byte × List Byte) :=
  [(ascii "ts", quoted r.ts), (ascii "level", quoted r.level), (ascii "file", quoted (escape escapeUnit r.file)),
    (ascii "line", decimal r.line), (ascii "func", quoted (escape escapeUnit r.func)), (ascii "tid", decimal r.tid),
    (ascii "pid", decimal r.pid), (ascii "thread", quoted (escape escapeUnit r.thread)),
    (ascii "seq", decimal r.seq),
    (ascii "tags", Json.objectText [] [] (colonSpace pretty) (r.tags.map tagField)),
    (ascii "msg", quoted (escape escapeUnit r.msg))]

theorem text_pieces : text escapeUnit (r.pieces pretty) =
    Json.objectText (nl pretty) (ind pretty) (colonSpace pretty) (r.fields pretty) := by
  rw [pieces, headPieces]
  simp only [BoundedText.text_append, BoundedText.text_cons, BoundedText.text_nil, Piece.text,
    text_tagPieces]
  simp only [sep_eq, comma_eq, msgKey, closing, fields, Json.objectText, Json.membersText, Json.memberText,
    quoted]
  simp [ascii]

theorem spells_fields : List.Forall₂ Json.Spells r.members (r.fields pretty) := by
  have hkey : ∀ k, k.all Json.isPlain = true → Json.Chars k k :=
    fun k hk => Json.Chars.of_plain (List.all_eq_true.mp hk)
  have hnum : ∀ k (n : Nat), k.all Json.isPlain = true → Json.Spells (k, .num (n : ℚ)) (k, decimal n) :=
    fun k n hk => ⟨hkey k hk, Json.Derives.num (Json.numberValue_decimal n)⟩
  have hstr : ∀ k s, k.all Json.isPlain = true →
      Json.Spells (k, .str s) (k, quoted (escape escapeUnit s)) :=
    fun k s hk => spells_str (hkey k hk) (chars_escape s)
  have htag : List.Forall₂ Json.Spells (r.tags.map fun tag => (tag.1, .str tag.2)) (r.tags.map tagField) := by
    induction r.tags with
    | nil => exact List.Forall₂.nil
    | cons tag tags ih => exact List.Forall₂.cons (spells_str (chars_escape tag.1) (chars_escape tag.2)) ih
  have htags : Json.Spells (ascii "tags", .obj (r.tags.map fun tag => (tag.1, .str tag.2)))
      (ascii "tags", Json.objectText [] [] (colonSpace pretty) (r.tags.map tagField)) := by
    refine ⟨hkey (ascii "tags") (by decide), Json.derives_object Json.isWs_nil Json.isWs_nil ?_ htag⟩
    cases pretty <;> decide
  rw [members, fields]
  apply List.Forall₂.cons (spells_str (hkey (ascii "ts") (by decide)) (Json.Chars.of_plain r.ts_plain))
  apply List.Forall₂.cons (spells_str (hkey (ascii "level") (by decide)) (Json.Chars.of_plain r.level_plain))
  apply List.Forall₂.cons (hstr (ascii "file") _ (by decide))
  apply List.Forall₂.cons (hnum (ascii "line") _ (by decide))
  apply List.Forall₂.cons (hstr (ascii "func") _ (by decide))
  apply List.Forall₂.cons (hnum (ascii "tid") _ (by decide))
  apply List.Forall₂.cons (hnum (ascii "pid") _ (by decide))
  apply List.Forall₂.cons (hstr (ascii "thread") _ (by decide))
  apply List.Forall₂.cons (hnum (ascii "seq") _ (by decide))
  apply List.Forall₂.cons htags
  exact List.Forall₂.cons (hstr (ascii "msg") _ (by decide)) List.Forall₂.nil

/-- **The whole text of a record is an object, and says what the record says.** -/
theorem derives_text : Json.Derives (.value (.obj r.members)) (text escapeUnit (r.pieces pretty)) := by
  rw [text_pieces]
  apply Json.derives_object _ _ _ (r.spells_fields pretty)
  all_goals cases pretty <;> decide

end JsonRecord

end BrLogger
