import BrLogger.Formatter.PatternMeaning
import Mathlib.Data.List.Chain

/-!
# Compiling a printed pattern

An operation list can be written back as a pattern: `%` and its letter for a
field, and a literal with each `%` doubled.  Compiling that gives the list back
exactly when it is in normal form, with no empty literal and no two literals
side by side (`compilePattern_printOps_iff`); and everything `CompilePattern`
builds is.

Both halves follow the scanner with its pending literal.  Going forward, the
operations built so far never end in a literal, which is why flushing one keeps
the normal form.  Going back, a printed literal only grows the pending one, and
the field or the end behind it flushes it.
-/

namespace BrLogger

def FormatOp.isLiteral : FormatOp → Bool
  | literal _ => true
  | field _ => false

/-- No literal is empty, and no two are side by side. -/
structure NormalOps (ops : List FormatOp) : Prop where
  nonempty : FormatOp.literal [] ∉ ops
  apart : ops.IsChain fun op next => (op.isLiteral && next.isLiteral) = false

/-! ### Printing -/

/-- The byte the switch of `CompilePattern` knows the field by. -/
def OpType.toByte : OpType → Byte
  | date => 68
  | time => 84
  | microseconds => 101
  | levelFull => 76
  | levelShort => 108
  | fileName => 102
  | filePath => 70
  | funcName => 110
  | prettyFunc => 78
  | line => 35
  | threadId => 116
  | processId => 80
  | threadName => 107
  | sequenceId => 113
  | tags => 103
  | message => 109
  | colorStart => 67
  | colorReset => 82

@[simp] theorem OpType.ofByte_toByte (type : OpType) : OpType.ofByte type.toByte = some type := by
  cases type <;> rfl

/-- A text with each `%` doubled. -/
def doublePercent (text : List Byte) : List Byte := text.flatMap fun ch => if ch = 37 then [37, 37] else [ch]

def FormatOp.print : FormatOp → List Byte
  | literal text => doublePercent text
  | field type => [37, type.toByte]

/-- The pattern with these operations. -/
def printOps (ops : List FormatOp) : List Byte := ops.flatMap FormatOp.print

/-! ### What is compiled is in normal form -/

/-- The operations are in normal form and do not end in a literal. -/
structure Flushed (ops : List FormatOp) : Prop extends NormalOps ops where
  last : ∀ op ∈ ops.getLast?, op.isLiteral = false

theorem Flushed.nil : Flushed [] := ⟨⟨List.not_mem_nil, .nil⟩, by simp⟩

theorem NormalOps.append_field {ops : List FormatOp} (h : NormalOps ops) (type : OpType) :
    Flushed (ops ++ [.field type]) := by
  refine ⟨⟨?_, ?_⟩, ?_⟩
  · simpa using h.nonempty
  · apply h.apart.append (.singleton _)
    intro op _ next hnext
    obtain rfl : FormatOp.field type = next := by simpa using hnext
    exact Bool.and_false _
  · simp [FormatOp.isLiteral]

theorem Flushed.flushLiteral {ops : List FormatOp} (h : Flushed ops) (literal : List Byte) :
    NormalOps (flushLiteral literal ops) := by
  rw [BrLogger.flushLiteral]
  split
  · exact h.toNormalOps
  · rename_i hliteral
    refine ⟨?_, ?_⟩
    · simpa [Ne.symm hliteral] using h.nonempty
    · apply h.apart.append (.singleton _)
      intro op hop next _
      rw [h.last op hop, Bool.false_and]

/-- The operations so far are flushed, whatever literal is pending. -/
theorem normalOps_compileLoop (pattern literal : List Byte) (ops : List FormatOp) (h : Flushed ops) :
    NormalOps (compileLoop pattern literal ops) := by
  induction pattern, literal, ops using compileLoop.induct with
  | case1 literal ops =>
    rw [compileLoop]
    exact h.flushLiteral literal
  | case2 ch rest literal ops hch ih =>
    rw [compileLoop_cons hch]
    exact ih h
  | case3 ch literal ops hch ih =>
    obtain rfl : ch = 37 := not_not.mp hch
    rw [compileLoop_last]
    exact ih h
  | case4 ch literal ops hch next rest type htype ih =>
    obtain rfl : ch = 37 := not_not.mp hch
    rw [compileLoop_percent, htype]
    exact ih ((h.flushLiteral literal).append_field type)
  | case5 ch literal ops hch next rest hnone ih =>
    obtain rfl : ch = 37 := not_not.mp hch
    rw [compileLoop_percent, hnone]
    exact ih h

theorem normalOps_compilePattern (pattern : List Byte) : NormalOps (compilePattern pattern) :=
  normalOps_compileLoop pattern [] [] .nil

/-! ### Compiling what was printed -/

/-- A printed literal grows the pending one. -/
theorem compileLoop_doublePercent (text rest literal : List Byte) (ops : List FormatOp) :
    compileLoop (doublePercent text ++ rest) literal ops = compileLoop rest (literal ++ text) ops := by
  induction text generalizing literal with
  | nil => rw [doublePercent, List.flatMap_nil, List.nil_append, List.append_nil]
  | cons ch text ih =>
    have hgrown : literal ++ ch :: text = literal ++ [ch] ++ text := by simp
    rw [doublePercent, List.flatMap_cons, ← doublePercent, List.append_assoc, hgrown]
    by_cases hch : ch = 37
    · subst hch
      -- `%%` is no field, so the loop puts one `%` back
      have hnone : OpType.ofByte 37 = none := rfl
      rw [if_pos rfl, List.cons_append, List.singleton_append, compileLoop_percent, hnone]
      exact ih (literal ++ [37])
    · rw [if_neg hch, List.singleton_append, compileLoop_cons hch]
      exact ih (literal ++ [ch])

theorem compileLoop_field (type : OpType) (rest literal : List Byte) (ops : List FormatOp) :
    compileLoop (FormatOp.print (.field type) ++ rest) literal ops =
      compileLoop rest [] (flushLiteral literal ops ++ [.field type]) := by
  rw [FormatOp.print, List.cons_append, List.singleton_append, compileLoop_percent, OpType.ofByte_toByte]

/-- Behind a pending literal no literal may follow. -/
theorem compileLoop_printOps (rest : List FormatOp) (literal : List Byte) (ops : List FormatOp) (h : NormalOps rest)
    (hpending : literal ≠ [] → ∀ op ∈ rest.head?, op.isLiteral = false) :
    compileLoop (printOps rest) literal ops = flushLiteral literal ops ++ rest := by
  induction rest generalizing literal ops with
  | nil => rw [printOps, List.flatMap_nil, compileLoop, List.append_nil]
  | cons op rest ih =>
    have hrest : NormalOps rest := ⟨fun hmem => h.nonempty (List.mem_cons_of_mem _ hmem), h.apart.tail⟩
    have hnext := (List.isChain_cons.mp h.apart).1
    rw [printOps, List.flatMap_cons, ← printOps]
    cases op with
    | field type =>
      rw [compileLoop_field, ih [] _ hrest (fun hne => absurd rfl hne), BrLogger.flushLiteral, if_pos rfl,
        List.append_assoc, List.singleton_append]
    | literal text =>
      have hempty : literal = [] := by
        by_contra hne
        have := hpending hne (.literal text) (by simp)
        cases this
      have htext : text ≠ [] := by
        rintro rfl
        exact h.nonempty List.mem_cons_self
      have hfollow : text ≠ [] → ∀ op ∈ rest.head?, op.isLiteral = false :=
        fun _ op hop => by simpa [FormatOp.isLiteral] using hnext op hop
      rw [FormatOp.print, compileLoop_doublePercent, hempty, List.nil_append, ih text ops hrest hfollow,
        BrLogger.flushLiteral, if_neg htext, BrLogger.flushLiteral, if_pos rfl, List.append_assoc,
        List.singleton_append]

/-- **An operation list is the compilation of its printed form exactly when it is in
normal form.** -/
theorem compilePattern_printOps_iff (ops : List FormatOp) : compilePattern (printOps ops) = ops ↔ NormalOps ops := by
  refine ⟨?_, ?_⟩
  · intro h
    rw [← h]
    exact normalOps_compilePattern _
  · intro h
    exact compileLoop_printOps ops [] [] h (fun hne => absurd rfl hne)

/-- **What a pattern compiles to is in normal form and is compiled again from its printed
form**, and so is every list in normal form. -/
theorem compilePattern_roundTrip :
    (∀ pattern, NormalOps (compilePattern pattern) ∧
      compilePattern (printOps (compilePattern pattern)) = compilePattern pattern) ∧
    ∀ ops, compilePattern (printOps ops) = ops ↔ NormalOps ops := by
  refine ⟨?_, compilePattern_printOps_iff⟩
  intro pattern
  have hnormal := normalOps_compilePattern pattern
  exact ⟨hnormal, (compilePattern_printOps_iff _).mpr hnormal⟩

end BrLogger
