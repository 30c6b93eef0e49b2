import BrLogger.Formatter.PatternMeaning
import Mathlib.Data.List.Basic

/-!
# The placeholders of the README

The README gives a letter to each field (`readmeTable`).  The switch of
`CompilePattern` has the same letters for sixteen of them, and knows neither
`%r`, the thread name, nor `%s`, the sequence number: it prints them as they
stand, and has these fields under `%k` and `%q`.

A pattern made of texts and documented placeholders is printed as documented
exactly when it has no `%r` and no `%s` (`documented_iff`): the thread name may
be one byte long, and two are printed.
-/

namespace BrLogger

variable {L : Limits}

/-- The table of the README: the byte behind the `%` and the field it stands for. -/
def readmeTable : List (Byte × OpType) :=
  [(68, .date), (84, .time), (101, .microseconds), (76, .levelFull), (108, .levelShort), (102, .fileName),
    (70, .filePath), (110, .funcName), (78, .prettyFunc), (35, .line), (116, .threadId), (80, .processId),
    (114, .threadName), (115, .sequenceId), (103, .tags), (109, .message), (67, .colorStart), (82, .colorReset)]

/-- A text without `%`, or a row of the table. -/
inductive PatternPiece
  | text (t : List Byte) (h : 37 ∉ t)
  | placeholder (row : Byte × OpType) (h : row ∈ readmeTable)

namespace PatternPiece

/-- What the piece is in a pattern. -/
def source : PatternPiece → List Byte
  | text t _ => t
  | placeholder row _ => [37, row.1]

/-- What the README says is printed for it. -/
def documented (render : OpType → List Byte) : PatternPiece → List Byte
  | text t _ => t
  | placeholder row _ => render row.2

/-- `%r` or `%s`. -/
def Drifted : PatternPiece → Prop
  | text _ _ => False
  | placeholder row _ => row.1 = 114 ∨ row.1 = 115

end PatternPiece

/-- The pattern made of these pieces. -/
def patternOf (pieces : List PatternPiece) : List Byte := pieces.flatMap PatternPiece.source

def documentedText (render : OpType → List Byte) (pieces : List PatternPiece) : List Byte :=
  pieces.flatMap (PatternPiece.documented render)

/-! ### What is printed for a piece -/

section
variable {render : OpType → List Byte}

theorem meaning_text {t : List Byte} (h : 37 ∉ t) (rest : List Byte) :
    meaning render (t ++ rest) = t ++ meaning render rest := by
  induction t with
  | nil => rfl
  | cons ch t ih =>
    rw [List.mem_cons, not_or] at h
    rw [List.cons_append, meaning_cons (Ne.symm h.1), ih h.2, List.cons_append]

/-- What the formatter prints for the piece. -/
def PatternPiece.printed (render : OpType → List Byte) : PatternPiece → List Byte
  | text t _ => t
  | placeholder row _ => percentText render row.1

theorem meaning_patternOf (pieces : List PatternPiece) :
    meaning render (patternOf pieces) = pieces.flatMap (PatternPiece.printed render) := by
  induction pieces with
  | nil => rfl
  | cons piece pieces ih =>
    rw [patternOf, List.flatMap_cons, List.flatMap_cons, ← ih]
    cases piece with
    | text t h => exact meaning_text h _
    | placeholder row h => exact meaning_percent row.1 _

/-- **The switch agrees with the table on every row but two**, and has no case for those. -/
theorem ofByte_of_row : ∀ row ∈ readmeTable, row.1 ≠ 37 ∧
    OpType.ofByte row.1 = if row.1 = 114 ∨ row.1 = 115 then none else some row.2 := by
  decide

/-- The two fields the switch does not know by these letters. -/
theorem type_of_drifted : ∀ row ∈ readmeTable, row.1 = 114 ∨ row.1 = 115 →
    row.2 = .threadName ∨ row.2 = .sequenceId := by
  decide

theorem percentText_of_row {row : Byte × OpType} (hrow : row ∈ readmeTable) :
    percentText render row.1 = if row.1 = 114 ∨ row.1 = 115 then [37, row.1] else render row.2 := by
  obtain ⟨hpercent, htype⟩ := ofByte_of_row row hrow
  rw [percentText, htype]
  by_cases hdrifted : row.1 = 114 ∨ row.1 = 115
  · simp only [if_pos hdrifted, if_neg hpercent]
  · simp only [if_neg hdrifted]

theorem printed_eq_documented {piece : PatternPiece} (h : ¬ piece.Drifted) :
    piece.printed render = piece.documented render := by
  cases piece with
  | text t _ => rfl
  | placeholder row hrow => exact (percentText_of_row hrow).trans (if_neg h)

/-- Where the two fields are one byte long, one byte too many is printed for them. -/
theorem length_printed (hname : (render .threadName).length = 1) (hseq : (render .sequenceId).length = 1)
    (piece : PatternPiece) : (piece.documented render).length ≤ (piece.printed render).length ∧
      (piece.Drifted → (piece.documented render).length < (piece.printed render).length) := by
  by_cases h : piece.Drifted
  · cases piece with
    | text t _ => exact h.elim
    | placeholder row hrow =>
      have hprinted : (PatternPiece.printed render (.placeholder row hrow)).length = 2 :=
        congrArg List.length ((percentText_of_row hrow).trans (if_pos h))
      have hone : (PatternPiece.documented render (.placeholder row hrow)).length = 1 := by
        rcases type_of_drifted row hrow h with htype | htype <;> rw [PatternPiece.documented, htype] <;> assumption
      omega
  · rw [printed_eq_documented h]
    exact ⟨Nat.le_refl _, fun hdrifted => absurd hdrifted h⟩

theorem length_documentedText_lt (hname : (render .threadName).length = 1) (hseq : (render .sequenceId).length = 1)
    {pieces : List PatternPiece} (h : ∃ piece ∈ pieces, piece.Drifted) :
    (documentedText render pieces).length < (meaning render (patternOf pieces)).length := by
  have hle : ∀ pieces : List PatternPiece,
      (documentedText render pieces).length ≤ (pieces.flatMap (PatternPiece.printed render)).length := by
    intro pieces
    induction pieces with
    | nil => exact Nat.le_refl _
    | cons piece pieces ih =>
      have := (length_printed hname hseq piece).1
      rw [documentedText] at ih ⊢
      rw [List.flatMap_cons, List.flatMap_cons, List.length_append, List.length_append]
      omega
  obtain ⟨piece, hmem, hdrifted⟩ := h
  obtain ⟨before, after, rfl⟩ := List.append_of_mem hmem
  have hbefore := hle before
  have hafter := hle after
  have hpiece := (length_printed hname hseq piece).2 hdrifted
  rw [documentedText] at hbefore hafter
  rw [meaning_patternOf, documentedText, List.flatMap_append, List.flatMap_append, List.flatMap_cons,
    List.flatMap_cons, List.length_append, List.length_append, List.length_append, List.length_append]
  omega

end

/-! ### The documented language -/

/-- Every well-formed entry is printed as the README says, in every buffer with room for it. -/
def PrintedAsDocumented (L : Limits) (pieces : List PatternPiece) : Prop :=
  ∀ (localtime : LocalTime) (enableColor : Bool) (entry : LogEntry L), entry.WellFormed → ∀ (buf : Region) (bufSize : Nat),
    (documentedText (OpType.rendering localtime enableColor entry) pieces).length < bufSize →
      (PatternFormatter.format localtime ⟨patternOf pieces, enableColor⟩ entry buf bufSize).1.bytes
          (PatternFormatter.format localtime ⟨patternOf pieces, enableColor⟩ entry buf bufSize).2 =
        documentedText (OpType.rendering localtime enableColor entry) pieces

/-- An entry of the first record, logged by a thread named `t`. -/
def namedEntry (L : Limits) : LogEntry L :=
  { LogEntry.zero L with threadName := ⟨ascii "t" ++ List.replicate 31 0, by decide⟩ }

theorem namedEntry_wellFormed (L : Limits) : (namedEntry L).WellFormed := by
  refine ⟨L.maxMsgLen_pos, Nat.zero_le _, ?_, ?_⟩
  · show (⟨ascii "t" ++ List.replicate 31 0, _⟩ : CharArray 32).Terminated
    decide
  · intro tag htag
    rw [LogEntry.usedTags, show (namedEntry L).tagCount.toNat = 0 from rfl, List.take_zero] at htag
    cases htag

def namedRendering (L : Limits) : OpType → List Byte :=
  OpType.rendering (fun _ => ⟨70, 0, 1, 0, 0, 0⟩) false (namedEntry L)

/-- **A documented pattern is printed as documented exactly when it uses neither `%r`
nor `%s`.** -/
theorem documented_iff (L : Limits) (pieces : List PatternPiece) :
    PrintedAsDocumented L pieces ↔ ∀ piece ∈ pieces, ¬ piece.Drifted := by
  refine ⟨?_, ?_⟩
  · intro h piece hmem hdrifted
    have hlong : (documentedText (namedRendering L) pieces).length <
        (meaning (namedRendering L) (patternOf pieces)).length := length_documentedText_lt
      (by decide : (upToNul (ascii "t" ++ List.replicate 31 0)).length = 1) (by decide : (decimal 0).length = 1)
      ⟨piece, hmem, hdrifted⟩
    have hprinted := h (fun _ => ⟨70, 0, 1, 0, 0, 0⟩) false (namedEntry L) (namedEntry_wellFormed L) Region.zero
      ((documentedText (namedRendering L) pieces).length + 2) (Nat.lt_add_of_pos_right (by decide))
    rw [PatternFormatter.format_bytes (by omega)] at hprinted
    have hlen : ((meaning (namedRendering L) (patternOf pieces)).take _).length =
      (documentedText (namedRendering L) pieces).length := congrArg List.length hprinted
    rw [List.length_take] at hlen
    omega
  · intro h localtime enableColor entry _ buf bufSize hsize
    have hfull : PatternFormatter.full localtime ⟨patternOf pieces, enableColor⟩ entry =
        documentedText (OpType.rendering localtime enableColor entry) pieces := by
      rw [PatternFormatter.full, meaning_patternOf, documentedText]
      exact List.flatMap_congr fun piece hmem => printed_eq_documented (h piece hmem)
    rw [PatternFormatter.format_bytes (by omega), hfull, List.take_of_length_le (by omega)]

/-- **`%r` is printed as it stands**, not as the thread's name. -/
theorem not_documented_threadName :
    ¬ PrintedAsDocumented Limits.desktop [.placeholder (114, .threadName) (by decide)] := by
  intro h
  have hprinted := h (fun _ => ⟨70, 0, 1, 0, 0, 0⟩) false (namedEntry _) (namedEntry_wellFormed _) Region.zero 16 (by decide)
  rw [PatternFormatter.format_bytes (by decide)] at hprinted
  revert hprinted
  decide

end BrLogger
