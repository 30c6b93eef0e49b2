import BrLogger.Formatter.JsonRecord

/-!
# What a JSON line can be trusted for

With room for the whole text, a call of `Format` returns one object, and
decoding it gives back the record of the entry (`JsonFormatter.round_trip`).

With less room the text is cut.  A cut anywhere before the message leaves less
than six bytes, and between the last tag and the message stand more than six:
the record stays open.  A cut inside the message leaves it open too, except at
a byte written `\u00XX`: `EscapeJsonString` gives up with up to five bytes left,
and the two or three that close the record still fit.  Then the line is a whole
object whose message has lost its end, and
`JsonFormatter.neverMistaken_iff` says that **this is the only way** a cut line
passes for a whole one.
-/

namespace BrLogger

open BoundedText (Piece assemble escape text fit trim)

variable {L : Limits}

namespace JsonFormatter

/-- The full rendering of an entry. -/
def rendering (localtime : LocalTime) (pretty : Bool) (entry : LogEntry L) : List Byte :=
  text escapeUnit ((entry.record localtime).pieces pretty)

variable {localtime : LocalTime} {pretty : Bool} {entry : LogEntry L} {buf : Region} {bufSize : Nat}

theorem output_of_large (h : (rendering localtime pretty entry).length < bufSize) :
    output localtime pretty entry buf bufSize = rendering localtime pretty entry := by
  have hfits : ([] : List Byte).length + (rendering localtime pretty entry).length ≤ bufSize - 1 := by
    rw [List.length_nil]
    omega
  rw [output_eq (Nat.zero_lt_of_lt h), BoundedText.assemble_of_fits hfits, List.nil_append]
  rfl

/-- Midnight of the first of January 1970. -/
def epoch : LocalTime := fun _ => ⟨70, 0, 1, 0, 0, 0⟩

/-- `{"a": "\x01"}` as a tag, and a message with a quote, a brace and a newline. -/
def hostileEntry : LogEntry Limits.desktop :=
  { LogEntry.zero Limits.desktop with
    fileName := some ⟨ascii "a\\b.cpp", by decide⟩
    line := 42
    tagCount := 1
    tags := (Vector.replicate _ (LogTag.zero Limits.desktop)).set 0
      ⟨⟨ascii "a" ++ List.replicate 31 0, by decide +kernel⟩, ⟨1 :: List.replicate 63 0, by decide +kernel⟩⟩ (by decide)
    msgLen := 4
    msg := ⟨[34, 125, 44, 10] ++ List.replicate 380 0, by decide +kernel⟩ }

end JsonFormatter

/-! ## Cut records -/

theorem tagPieces_of_cut {sep : List Byte} {tags : List (List Byte × List Byte)} {t : Nat} {qs : List Piece}
    (h : BoundedText.Cut qs (tagPieces sep t tags)) : ∃ tags', qs = tagPieces sep t tags' := by
  induction tags generalizing t qs with
  | nil =>
    cases h
    exact ⟨[], rfl⟩
  | cons tag tags ih =>
    obtain ⟨_, rfl, h₁⟩ := h.raw_cons
    obtain ⟨key, _, rfl, -, h₂⟩ := h₁.escaped_cons
    obtain ⟨_, rfl, h₃⟩ := h₂.raw_cons
    obtain ⟨value, _, rfl, -, h₄⟩ := h₃.escaped_cons
    obtain ⟨_, rfl, h₅⟩ := h₄.raw_cons
    obtain ⟨tags', rfl⟩ := ih h₅
    exact ⟨(key, value) :: tags', rfl⟩

namespace JsonRecord

variable {pretty : Bool} {r : JsonRecord}

/-- Cut pieces are the pieces of another record. -/
theorem headPieces_of_cut {qs : List Piece} (h : BoundedText.Cut qs (r.headPieces pretty)) :
    ∃ r' : JsonRecord, qs = r'.headPieces pretty := by
  obtain ⟨_, rfl, h₁⟩ := h.raw_cons
  obtain ⟨file, _, rfl, -, h₂⟩ := h₁.escaped_cons
  obtain ⟨_, rfl, h₃⟩ := h₂.raw_cons
  obtain ⟨func, _, rfl, -, h₄⟩ := h₃.escaped_cons
  obtain ⟨_, rfl, h₅⟩ := h₄.raw_cons
  obtain ⟨thread, _, rfl, -, h₆⟩ := h₅.escaped_cons
  obtain ⟨_, rfl, h₇⟩ := h₆.raw_cons
  obtain ⟨tags, rfl⟩ := tagPieces_of_cut h₇
  exact ⟨{ r with file := file, func := func, thread := thread, tags := tags }, rfl⟩

/-- The record with another message. -/
def withMsg (r : JsonRecord) (msg : List Byte) : JsonRecord := { r with msg := msg }

/-- The bytes in front of the message text. -/
def headLength (pretty : Bool) (r : JsonRecord) : Nat :=
  (text escapeUnit (r.headPieces pretty)).length + (msgKey pretty).length

theorem withMsg_pieces (msg : List Byte) : (r.withMsg msg).pieces pretty =
    r.headPieces pretty ++ [.raw (msgKey pretty), .escaped msg, .raw (closing pretty)] := rfl

theorem length_withMsg (msg : List Byte) : (text escapeUnit ((r.withMsg msg).pieces pretty)).length =
    r.headLength pretty + (escape escapeUnit msg).length + (closing pretty).length := by
  rw [withMsg_pieces, headLength]
  simp only [BoundedText.text_append, BoundedText.text_cons, BoundedText.text_nil, Piece.text,
    List.length_append, List.length_nil]
  omega

theorem six_le_msgKey (pretty : Bool) : 6 ≤ (msgKey pretty).length := by cases pretty <;> decide

theorem two_le_closing (pretty : Bool) : 2 ≤ (closing pretty).length := by cases pretty <;> decide

/-- Trimming the pieces trims the head and, in what room is left, the message. -/
theorem trim_pieces (cap : Nat) :
    trim escapeUnit cap 0 (r.pieces pretty) = trim escapeUnit cap 0 (r.headPieces pretty) ++
      [.raw (msgKey pretty),
        .escaped (fit escapeUnit
          (cap - (text escapeUnit (trim escapeUnit cap 0 (r.headPieces pretty))).length -
            (msgKey pretty).length) r.msg),
        .raw (closing pretty)] := by
  have hroom : ∀ x k, cap - min cap (min cap (0 + x) + k) = cap - x - k := by omega
  rw [pieces, BoundedText.trim_append _ _ _ _ (Nat.zero_le cap)]
  simp only [trim, Piece.trim, Piece.text, hroom]

/-- A head that fits is not trimmed, and the message gets what room is left. -/
theorem trim_pieces_of_fits {cap : Nat} (h : r.headLength pretty ≤ cap) :
    trim escapeUnit cap 0 (r.pieces pretty) =
      (r.withMsg (fit escapeUnit (cap - r.headLength pretty) r.msg)).pieces pretty := by
  have hhead : trim escapeUnit cap 0 (r.headPieces pretty) = r.headPieces pretty := by
    apply BoundedText.trim_of_fits
    rw [headLength] at h
    omega
  rw [trim_pieces, hhead, withMsg_pieces, headLength, Nat.sub_add_eq]

/-- **A record that closes has only its message cut.** -/
theorem trim_of_closed {cap : Nat} (h : (text escapeUnit (trim escapeUnit cap 0 (r.pieces pretty))).length ≤ cap) :
    r.headLength pretty ≤ cap := by
  have hkey := six_le_msgKey pretty
  have hclosed := h
  rw [trim_pieces, BoundedText.text_append, List.length_append, BoundedText.text_cons, List.length_append,
    Piece.text] at hclosed
  have hhead : trim escapeUnit cap 0 (r.headPieces pretty) = r.headPieces pretty := by
    by_contra hne
    have hunit : ∀ c, (escapeUnit c).length ≤ 6 := fun c => by
      have := escapeUnit_length c
      omega
    have := BoundedText.cap_lt_of_trim_ne hunit (Nat.zero_le cap) hne
    omega
  rw [hhead] at hclosed
  rw [headLength]
  omega

/-- Trimmed pieces are the pieces of a record, so their text is an object. -/
theorem trim_pieces_object (pretty : Bool) (r : JsonRecord) (cap : Nat) :
    ∃ ms, Json.Derives (.value (.obj ms)) (text escapeUnit (trim escapeUnit cap 0 (r.pieces pretty))) := by
  obtain ⟨r', hr'⟩ := headPieces_of_cut (BoundedText.trim_cut escapeUnit cap 0 (r.headPieces pretty))
  rw [trim_pieces, hr']
  generalize fit escapeUnit _ r.msg = msg
  have hobj := (r'.withMsg msg).derives_text pretty
  rw [withMsg_pieces] at hobj
  exact ⟨_, hobj⟩

/-- The buffer ends inside an escape of the message: after some part `p` of it
comes a byte written `\u00XX` for which there is no room, while the bytes that
close the record still fit behind `p`. -/
def LosesEscape (pretty : Bool) (r : JsonRecord) (bufSize : Nat) : Prop :=
  ∃ p c q, r.msg = p ++ c :: q ∧ (c ≤ 0x1F ∧ c ≠ 9 ∧ c ≠ 10 ∧ c ≠ 13) ∧
    r.headLength pretty + (escape escapeUnit p).length + (closing pretty).length ≤ bufSize - 1 ∧
    bufSize - 1 < r.headLength pretty + (escape escapeUnit p).length + 6

theorem length_escapeUnit_of_control {c : Byte} (h : c ≤ 0x1F ∧ c ≠ 9 ∧ c ≠ 10 ∧ c ≠ 13) :
    (escapeUnit c).length = 6 := by
  have hne : c ≠ 34 ∧ c ≠ 92 := by
    refine ⟨?_, ?_⟩ <;> rintro rfl <;> exact absurd h.1 (by decide)
  rw [escapeUnit, if_neg hne.1, if_neg hne.2, if_neg h.2.2.1, if_neg h.2.2.2, if_neg h.2.1, if_pos h.1]
  rfl

theorem control_of_length_escapeUnit {c : Byte} (h : 2 < (escapeUnit c).length) :
    c ≤ 0x1F ∧ c ≠ 9 ∧ c ≠ 10 ∧ c ≠ 13 := by
  refine ⟨?_, ?_, ?_, ?_⟩
  · by_contra hc
    simp only [escapeUnit, if_neg hc] at h
    split at h
    · exact absurd h (by decide)
    split at h
    · exact absurd h (by decide)
    split at h
    · exact absurd h (by decide)
    split at h
    · exact absurd h (by decide)
    split at h
    · exact absurd h (by decide)
    · exact absurd h (by simp)
  all_goals
    rintro rfl
    exact absurd h (by decide)

end JsonRecord

namespace JsonFormatter

open JsonRecord

variable {localtime : LocalTime} {pretty : Bool} {entry : LogEntry L} {buf : Region} {bufSize : Nat}

/-- If the bytes returned are a complete object, then decoding it gives exactly
the record of the entry. -/
def NeverMistaken (localtime : LocalTime) (pretty : Bool) (entry : LogEntry L) (buf : Region) (bufSize : Nat) :
    Prop :=
  (∃ ms, Json.Document (.obj ms) (output localtime pretty entry buf bufSize)) →
    Json.decode (output localtime pretty entry buf bufSize) = some (.obj (entry.record localtime).members)

theorem length_rendering (localtime : LocalTime) (pretty : Bool) (entry : LogEntry L) :
    (rendering localtime pretty entry).length = (entry.record localtime).headLength pretty +
      (escape escapeUnit (entry.record localtime).msg).length + (closing pretty).length := by
  rw [rendering]
  exact length_withMsg (r := entry.record localtime) (entry.record localtime).msg

theorem output_eq_take (hB : 0 < bufSize) (localtime : LocalTime) (pretty : Bool) (entry : LogEntry L)
    (buf : Region) :
    output localtime pretty entry buf bufSize =
      (text escapeUnit (trim escapeUnit (bufSize - 1) 0 ((entry.record localtime).pieces pretty))).take
        (bufSize - 1) := by
  rw [output_eq hB, BoundedText.assemble_eq (Nat.zero_le _), List.nil_append, List.length_nil]

/-- Where an escape is lost, the line is the object of a shorter message. -/
theorem output_of_losesEscape (hB : 0 < bufSize) (buf : Region)
    (h : (entry.record localtime).LosesEscape pretty bufSize) :
    ∃ p, (entry.record localtime).msg ≠ p ∧
      output localtime pretty entry buf bufSize =
        text escapeUnit (((entry.record localtime).withMsg p).pieces pretty) := by
  obtain ⟨p, c, q, hmsg, hc, hfits, hroom⟩ := h
  have hunit := length_escapeUnit_of_control hc
  have hfit : fit escapeUnit (bufSize - 1 - (entry.record localtime).headLength pretty)
      (entry.record localtime).msg = p := by
    rw [hmsg]
    exact BoundedText.fit_eq (by omega) (by omega)
  refine ⟨p, ?_, ?_⟩
  · rw [hmsg]
    simp
  · rw [output_eq_take hB localtime pretty entry buf, trim_pieces_of_fits (by omega), hfit, List.take_of_length_le]
    rw [length_withMsg]
    exact hfits

theorem not_neverMistaken_of_losesEscape (hB : 0 < bufSize)
    (h : (entry.record localtime).LosesEscape pretty bufSize) :
    ¬ NeverMistaken localtime pretty entry buf bufSize := by
  obtain ⟨p, hne, hout⟩ := output_of_losesEscape hB buf h
  intro hnever
  have hdoc := (((entry.record localtime).withMsg p).derives_text pretty).document
  rw [← hout] at hdoc
  have heq := hdoc.decode.symm.trans (hnever ⟨_, hdoc⟩)
  simp only [Option.some.injEq, Json.Value.obj.injEq, members, withMsg, List.cons.injEq, Prod.mk.injEq,
    Json.Value.str.injEq, true_and, and_true] at heq
  exact hne heq.symm

/-- **An object that has lost no escape is whole.** -/
theorem length_rendering_lt (hB : 0 < bufSize) (hkeeps : ¬ (entry.record localtime).LosesEscape pretty bufSize)
    {ms : List (List Byte × Json.Value)} (hdoc : Json.Document (.obj ms) (output localtime pretty entry buf bufSize)) :
    (rendering localtime pretty entry).length < bufSize := by
  have hout := output_eq_take hB localtime pretty entry buf
  -- an object in front of the trimmed text is all of it
  obtain ⟨ms', hobj⟩ := trim_pieces_object pretty (entry.record localtime) (bufSize - 1)
  have hall := hdoc.eq_of_isPrefix hobj (by rw [hout]; exact List.take_prefix _ _)
  have hclosed : (text escapeUnit (trim escapeUnit (bufSize - 1) 0
      ((entry.record localtime).pieces pretty))).length ≤ bufSize - 1 := by
    rw [← hall, hout]
    exact List.length_take_le _ _
  have hhead := trim_of_closed hclosed
  rw [trim_pieces_of_fits hhead] at hclosed
  have hlen := hclosed
  rw [length_withMsg] at hlen
  have htwo := two_le_closing pretty
  have hmsg : fit escapeUnit (bufSize - 1 - (entry.record localtime).headLength pretty)
      (entry.record localtime).msg = (entry.record localtime).msg := by
    rcases BoundedText.fit_spec escapeUnit
      (bufSize - 1 - (entry.record localtime).headLength pretty) (entry.record localtime).msg with
      h | ⟨c, q, hsplit, hlt⟩
    · exact h
    · have hlong : 2 < (escapeUnit c).length := by omega
      have hunit := length_escapeUnit_of_control (control_of_length_escapeUnit hlong)
      exact absurd ⟨_, c, q, hsplit, control_of_length_escapeUnit hlong, by omega, by omega⟩ hkeeps
  rw [hmsg] at hclosed
  exact Nat.lt_of_le_of_lt hclosed (Nat.sub_lt hB Nat.one_pos)

/-- **A cut record passes for a whole one exactly where an escape of its message
is lost.** -/
theorem neverMistaken_iff (localtime : LocalTime) (pretty : Bool) (entry : LogEntry L) (buf : Region)
    (hB : 0 < bufSize) :
    NeverMistaken localtime pretty entry buf bufSize ↔
      ¬ (entry.record localtime).LosesEscape pretty bufSize := by
  refine ⟨fun hnever hloses => not_neverMistaken_of_losesEscape hB hloses hnever, ?_⟩
  intro hkeeps hobject
  obtain ⟨ms, hdoc⟩ := hobject
  rw [output_of_large (length_rendering_lt hB hkeeps hdoc)]
  exact ((entry.record localtime).derives_text pretty).document.decode

theorem neverMistaken_iff_hostileEntry :
    NeverMistaken epoch false hostileEntry Region.zero 200 ↔
      ¬ (hostileEntry.record epoch).LosesEscape false 200 :=
  neverMistaken_iff epoch false hostileEntry Region.zero (by decide)

/-- An entry whose message is the byte 1. -/
def controlEntry : LogEntry Limits.desktop :=
  { LogEntry.zero Limits.desktop with msgLen := 1, msg := ⟨1 :: List.replicate 383 0, by decide +kernel⟩ }

/-- **A message of one control character is lost and the line looks whole.** -/
theorem not_neverMistaken_controlEntry :
    controlEntry.WellFormed ∧ ¬ NeverMistaken epoch false controlEntry Region.zero 136 := by
  refine ⟨⟨by decide +kernel, by decide +kernel, by decide +kernel, by decide +kernel⟩, ?_⟩
  exact not_neverMistaken_of_losesEscape (by decide)
    ⟨[], 1, [], by decide +kernel, by decide, by decide +kernel, by decide +kernel⟩

end JsonFormatter

end BrLogger
