import BrLogger.Context.LogContext
import BrLogger.Lib.Memory

/-!
# `Logger::LogImpl`: the entry it builds

The message is rendered straight into `entry.msg`, on one of three paths: the
format string itself when there are no arguments, `snprintf` when there are,
and `fmt::format_to_n` in a build with fmtlib.  The first clamps its length to
the array.  The other two store the library's result, which is the length of
the whole text, cut to 16 bits; and the fmtlib path writes its NUL at that
length.  So they agree with the first only on texts that fit, or whose length
happens to be `BR_LOG_MAX_MSG_LEN - 1` modulo `2^16` (`messageOk_iff`).  The
result of `snprintf` is an `int`, and a text too long for it counts as empty.
-/

namespace BrLogger

/-- `BR_LOG_USE_FMTLIB`, defined or not. -/
inductive Build
  | fmtlib
  | printf
  deriving DecidableEq

/-- What `LogImpl` uses of the formatting libraries, for arguments of type `α`:
the text each renders, and `fmt::format_to_n`, which writes the first `n` bytes
of its text and returns the size of all of it. -/
structure Formatting (α : Type) where
  printf : CStr → α → List Byte
  fmt : CStr → Option α → List Byte
  formatToN : Region → Nat → CStr → Option α → Region × Nat
  formatToN_eq : ∀ r n format args,
    formatToN r n format args = (r.blit 0 ((fmt format args).take n), (fmt format args).length)

structure SourceLocation where
  filePath : Option CStr
  fileName : Option CStr
  functionName : Option CStr
  prettyFunction : Option CStr
  line : UInt32
  column : UInt32

/-- The arguments of one `LogImpl` call and the clocks it reads. -/
structure LogCall (α : Type) where
  level : LogLevel
  loc : SourceLocation
  fmt : CStr
  args : Option α
  monotonicNowNs : UInt64
  wallClockNowNs : UInt64

section
variable {α : Type} (L : Limits) (lib : Formatting α) (build : Build) (fmt : CStr) (args : Option α)

/-- The text a call renders, before any truncation. -/
def renderedText : List Byte :=
  match build, args with
  | .fmtlib, args => lib.fmt fmt args
  | .printf, none => fmt.bytes
  | .printf, some args => lib.printf fmt args

/-- `(written > 0) ? static_cast<uint16_t>(written) : 0`. -/
def narrow (written : Int) : UInt16 := if written > 0 then UInt16.ofNat written.toNat else 0

/-- "Format message": the memory at `entry.msg` and `entry.msg_len`. -/
def formatMessage : Region × UInt16 :=
  match build, args with
  | .fmtlib, args =>
    let (msg, size) := lib.formatToN .zero (L.maxMsgLen - 1) fmt args
    let msgLen := UInt16.ofNat size
    (msg.store msgLen.toNat 0, msgLen)
  | .printf, none =>
    let len := if fmt.bytes.length ≥ L.maxMsgLen then L.maxMsgLen - 1 else fmt.bytes.length
    ((Region.zero.blit 0 (fmt.bytes.take len)).store len 0, UInt16.ofNat len)
  | .printf, some args =>
    let (msg, written) := Region.zero.snprintf L.maxMsgLen (lib.printf fmt args)
    (msg, narrow written)

end

section
variable {α θ : Type} (L : Limits) (lib : Formatting α) (build : Build)

/-- The entry one `LogImpl` call enqueues. -/
def LogCall.entry (c : LogContext L θ) (os : Process θ) (thread : θ) (sequence : UInt64)
    (call : LogCall α) : LogEntry L :=
  let entry : LogEntry L :=
    { LogEntry.zero L with
      timestampNs := call.monotonicNowNs
      wallClockNs := call.wallClockNowNs
      level := call.level
      filePath := call.loc.filePath
      fileName := call.loc.fileName
      functionName := call.loc.functionName
      prettyFunction := call.loc.prettyFunction
      line := call.loc.line
      column := call.loc.column
      sequenceId := sequence }
  let entry := c.fillTags thread (c.fillThreadInfo os thread entry)
  let (msg, msgLen) := formatMessage L lib build call.fmt call.args
  { entry with msg := msg.toCharArray L.maxMsgLen, msgLen := msgLen }

theorem LogCall.entry_sequenceId (c : LogContext L θ) (os : Process θ) (thread : θ) (sequence : UInt64)
    (call : LogCall α) : (call.entry L lib build c os thread sequence).sequenceId = sequence :=
  c.fillTags_sequenceId thread _

/-- The stores the call makes at `entry.msg`. -/
def LogCall.msgExtent (call : LogCall α) : Nat := (formatMessage L lib build call.fmt call.args).1.extent

end

/-- What the formatters expect of an entry whose message is `text`: the longest
prefix that leaves room for the NUL, the NUL after it, and nothing beyond. -/
structure MessageOk {L : Limits} (entry : LogEntry L) (extent : Nat) (text : List Byte) : Prop where
  msgLen : entry.msgLen.toNat = min text.length (L.maxMsgLen - 1)
  message : entry.message = text.take (min text.length (L.maxMsgLen - 1))
  nul : entry.msg.bytes[entry.msgLen.toNat]? = some 0
  extent : extent ≤ L.maxMsgLen

/-- The formatters read `msg_len` bytes inside the array. -/
theorem MessageOk.msgLen_lt {L : Limits} {entry : LogEntry L} {extent : Nat} {text : List Byte}
    (h : MessageOk entry extent text) : entry.msgLen.toNat < L.maxMsgLen := by
  have := L.maxMsgLen_pos
  rw [h.msgLen]
  omega

/-! ### The three paths -/

section
variable {α : Type} {L : Limits} {lib : Formatting α} {build : Build} {fmt : CStr} {args : Option α}

/-- What a path leaves at `entry.msg` for a text that is to be stored `n` bytes long. -/
structure Stored (L : Limits) (msg : Region) (text : List Byte) (n : Nat) : Prop where
  bytes : msg.bytes n = text.take n
  nul : msg.byte n = 0
  extent : msg.extent ≤ L.maxMsgLen

theorem stored_of_blit (text : List Byte) {n : Nat} (hn : n < L.maxMsgLen) (hlen : n ≤ text.length) :
    Stored L ((Region.zero.blit 0 (text.take n)).store n 0) text n := by
  have hlen : (text.take n).length = n := by rw [List.length_take]; omega
  refine ⟨?_, Region.store_byte_self 0, ?_⟩
  · rw [Region.store, Region.bytes_blit_of_le (Nat.le_refl n)]
    have h := Region.zero.bytes_blit 0 (text.take n)
    rw [hlen, Nat.zero_add] at h
    exact h
  · apply Region.extent_store_le (Region.extent_blit_le (Nat.zero_le _) (by omega)) hn

theorem stored_of_snprintf (text : List Byte) :
    Stored L (Region.zero.snprintf L.maxMsgLen text).1 text (min text.length (L.maxMsgLen - 1)) := by
  have hpos := L.maxMsgLen_pos
  have hlen : (text.take (L.maxMsgLen - 1)).length = min text.length (L.maxMsgLen - 1) := by
    rw [List.length_take, Nat.min_comm]
  have hmsg : (Region.zero.snprintf L.maxMsgLen text).1 =
      Region.zero.blit 0 (text.take (L.maxMsgLen - 1) ++ [0]) := if_neg (by omega)
  rw [hmsg]
  refine ⟨?_, ?_, ?_⟩
  · have h := Region.zero.bytes_blit 0 (text.take (L.maxMsgLen - 1) ++ [0])
    rw [Nat.zero_add] at h
    have htake := congrArg (List.take (min text.length (L.maxMsgLen - 1))) h
    rw [Region.bytes_take (by rw [List.length_append, hlen]; omega)] at htake
    rw [htake, show Region.zero.bytes 0 = [] from rfl, List.nil_append, List.take_append_of_le_length
      (by omega), List.take_take]
    congr 1
    omega
  · have h := Region.zero.blit_byte_inside 0
      (List.getElem?_concat_length (l := text.take (L.maxMsgLen - 1)) (a := (0 : Byte)))
    rw [Nat.zero_add, hlen] at h
    exact h
  · apply Region.extent_blit_le (Nat.zero_le _)
    rw [List.length_append, hlen, List.length_singleton]
    omega

theorem narrow_natCast (n : Nat) : (narrow n).toNat = n % 2 ^ 16 := by
  rw [narrow]
  split
  · exact UInt16.toNat_ofNat'
  · rw [show n = 0 by omega]
    rfl

/-- The path that copies the format string. -/
def Copies (build : Build) (args : Option α) : Prop := build = .printf ∧ args = none

instance : Decidable (Copies build args) :=
  match build, args with
  | .fmtlib, _ => isFalse (fun h => nomatch h.1)
  | .printf, none => isTrue ⟨rfl, rfl⟩
  | .printf, some _ => isFalse (fun h => nomatch h.2)

/-- The length of the text is no `int`, which `snprintf` returns. -/
def OverflowsInt (build : Build) (args : Option α) (text : List Byte) : Prop :=
  build = .printf ∧ args.isSome = true ∧ 2 ^ 31 ≤ text.length

instance (text : List Byte) : Decidable (OverflowsInt build args text) := by
  unfold OverflowsInt
  infer_instance

/-- `msg_len` is the clamped length on the copying path and the whole length on the
others, cut to 16 bits; when `snprintf` fails it is zero. -/
theorem formatMessage_msgLen :
    (formatMessage L lib build fmt args).2.toNat =
      (if Copies build args then min (renderedText lib build fmt args).length (L.maxMsgLen - 1)
        else if OverflowsInt build args (renderedText lib build fmt args) then 0
        else (renderedText lib build fmt args).length) % 2 ^ 16 := by
  cases build with
  | fmtlib =>
    rw [if_neg (fun h => nomatch h.1), if_neg (fun h => nomatch h.1)]
    simp only [formatMessage, lib.formatToN_eq]
    exact UInt16.toNat_ofNat'
  | printf =>
    cases args with
    | none =>
      have hpos := L.maxMsgLen_pos
      have hclamp : (if fmt.bytes.length ≥ L.maxMsgLen then L.maxMsgLen - 1 else fmt.bytes.length) =
          min fmt.bytes.length (L.maxMsgLen - 1) := by
        split <;> omega
      rw [if_pos ⟨rfl, rfl⟩]
      simp only [formatMessage, hclamp]
      exact UInt16.toNat_ofNat'
    | some args =>
      rw [if_neg (fun h => nomatch h.2)]
      by_cases hint : (lib.printf fmt args).length < 2 ^ 31
      · rw [if_neg (fun h => Nat.not_le.mpr hint h.2.2)]
        simp only [formatMessage, Region.snprintf_result _ _ hint]
        exact narrow_natCast _
      · have hfails : (Region.zero.snprintf L.maxMsgLen (lib.printf fmt args)).2 = -1 := if_neg hint
        rw [if_pos ⟨rfl, rfl, Nat.le_of_not_lt hint⟩]
        simp only [formatMessage, hfails]
        rfl

/-- A path that stores the right length stores the right bytes. -/
theorem formatMessage_stored
    (h : (formatMessage L lib build fmt args).2.toNat =
      min (renderedText lib build fmt args).length (L.maxMsgLen - 1)) :
    Stored L (formatMessage L lib build fmt args).1 (renderedText lib build fmt args)
      (min (renderedText lib build fmt args).length (L.maxMsgLen - 1)) := by
  have hpos := L.maxMsgLen_pos
  cases build with
  | fmtlib =>
    have htake : (lib.fmt fmt args).take (L.maxMsgLen - 1) =
        (lib.fmt fmt args).take (min (lib.fmt fmt args).length (L.maxMsgLen - 1)) := by
      rw [List.take_eq_take_iff]
      omega
    have hstored := stored_of_blit (L := L) (lib.fmt fmt args)
      (n := min (lib.fmt fmt args).length (L.maxMsgLen - 1)) (by omega) (by omega)
    simp only [formatMessage, renderedText, lib.formatToN_eq] at h ⊢
    rw [h, htake]
    exact hstored
  | printf =>
    cases args with
    | none =>
      have hclamp : (if fmt.bytes.length ≥ L.maxMsgLen then L.maxMsgLen - 1 else fmt.bytes.length) =
          min fmt.bytes.length (L.maxMsgLen - 1) := by
        split <;> omega
      simp only [formatMessage, renderedText, hclamp]
      exact stored_of_blit _ (by omega) (by omega)
    | some args => exact stored_of_snprintf _

/-- The kinds of text whose length a path keeps.  Where `snprintf` fails the length of an
array that only has room for its NUL is kept. -/
def KeepsLength (L : Limits) (build : Build) (args : Option α) (text : List Byte) : Prop :=
  min text.length (L.maxMsgLen - 1) < 2 ^ 16 ∧
    (Copies build args ∨
      if OverflowsInt build args text then L.maxMsgLen = 1
      else text.length < L.maxMsgLen ∨ text.length % 2 ^ 16 = L.maxMsgLen - 1)

instance (text : List Byte) : Decidable (KeepsLength L build args text) := by
  unfold KeepsLength
  infer_instance

theorem msgLen_iff_keepsLength :
    (formatMessage L lib build fmt args).2.toNat =
        min (renderedText lib build fmt args).length (L.maxMsgLen - 1) ↔
      KeepsLength L build args (renderedText lib build fmt args) := by
  have hpos := L.maxMsgLen_pos
  rw [formatMessage_msgLen, KeepsLength]
  by_cases hcopy : Copies build args
  · simp only [hcopy, if_true, true_or, and_true]
    omega
  · simp only [hcopy, if_false, false_or]
    by_cases hover : OverflowsInt build args (renderedText lib build fmt args)
    · have := hover.2.2
      rw [if_pos hover, if_pos hover]
      omega
    · rw [if_neg hover, if_neg hover]
      omega

end

/-- **`LogImpl` enqueues a well-formed message exactly when its path keeps the length
of the text**: on the copying path always, on the others when the text fits
or its length is `BR_LOG_MAX_MSG_LEN - 1` modulo `2^16`, as long as `snprintf` can return it. -/
theorem messageOk_iff {α θ : Type} {L : Limits} (lib : Formatting α) (build : Build)
    (c : LogContext L θ) (os : Process θ) (thread : θ) (sequence : UInt64) (call : LogCall α) :
    MessageOk (call.entry L lib build c os thread sequence) (call.msgExtent L lib build)
        (renderedText lib build call.fmt call.args) ↔
      KeepsLength L build call.args (renderedText lib build call.fmt call.args) := by
  rw [← msgLen_iff_keepsLength]
  constructor
  · exact fun h => h.msgLen
  · intro h
    have hpos := L.maxMsgLen_pos
    have hstored := formatMessage_stored h
    refine ⟨h, ?_, ?_, hstored.extent⟩
    · show ((formatMessage L lib build call.fmt call.args).1.bytes L.maxMsgLen).take
        (formatMessage L lib build call.fmt call.args).2.toNat = _
      rw [h, Region.bytes_take (by omega)]
      exact hstored.bytes
    · show ((formatMessage L lib build call.fmt call.args).1.bytes L.maxMsgLen)[
        (formatMessage L lib build call.fmt call.args).2.toNat]? = _
      rw [h, Region.getElem?_bytes (by omega), hstored.nul]

/-! ### A text of 384 bytes -/

/-- Libraries under which `%s` is the only format and its argument the whole text. -/
def percentS : Formatting (List Byte) where
  printf _ text := text
  fmt _ text := text.getD []
  formatToN r n _ text := (r.blit 0 ((text.getD []).take n), (text.getD []).length)
  formatToN_eq _ _ _ _ := rfl

def longCall : LogCall (List Byte) where
  level := .info
  loc := ⟨none, none, none, none, 0, 0⟩
  fmt := ⟨ascii "%s", by decide⟩
  args := some (List.replicate 384 120)
  monotonicNowNs := 0
  wallClockNowNs := 0

/-- On the `snprintf` path a desktop build stores a length of 384 for a text of 384
bytes, of which the array holds 383. -/
theorem not_messageOk_longCall :
    ¬ MessageOk (longCall.entry Limits.desktop percentS .printf (.create _ Unit) ⟨0, fun _ => 0⟩ () 0)
        (longCall.msgExtent Limits.desktop percentS .printf)
        (renderedText percentS .printf longCall.fmt longCall.args) := by
  intro h
  have htext : (renderedText percentS .printf longCall.fmt longCall.args).length = 384 :=
    List.length_replicate
  have hlen := h.msgLen
  rw [htext] at hlen
  have hstored : (formatMessage Limits.desktop percentS .printf longCall.fmt longCall.args).2.toNat = _ :=
    formatMessage_msgLen
  rw [if_neg (by decide), if_neg (fun hover => absurd hover.2.2 (by rw [htext]; decide)), htext] at hstored
  exact absurd (hstored.symm.trans hlen) (by decide)

end BrLogger
