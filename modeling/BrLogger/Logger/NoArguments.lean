import BrLogger.Logger.LogImpl

/-!
# A message without arguments

Without fmtlib a format string with no argument behind it is copied, and one
with arguments goes through `snprintf`, which prints `%` for `%%`.  On the
formats that take no argument the two store the same exactly when there is no
`%` to interpret (`pathsAgree_iff`): otherwise the copy is longer.  A format so long
that `snprintf` cannot return its length is the exception: what is stored is then zero.
-/

namespace BrLogger

/-- What `printf` prints for a format that takes no argument, and nothing for any
other: a `%` has to be followed by another one. -/
def printfText : List Byte → Option (List Byte)
  | [] => some []
  | [ch] => if ch = 37 then none else some [ch]
  | ch :: next :: rest =>
    if ch = 37 then if next = 37 then (printfText rest).map (37 :: ·) else none
    else (printfText (next :: rest)).map (ch :: ·)

/-- `snprintf` follows the C standard on these formats; arguments that no conversion
takes are ignored. -/
def FollowsPrintf {α : Type} (lib : Formatting α) : Prop :=
  ∀ (fmt : CStr) (args : α) (text : List Byte), printfText fmt.bytes = some text → lib.printf fmt args = text

/-- The branch without arguments leaves the array and the length that the branch with
arguments does. -/
def PathsAgree {α : Type} (L : Limits) (lib : Formatting α) (fmt : CStr) (args : α) : Prop :=
  (formatMessage L lib .printf fmt none).1.bytes L.maxMsgLen =
      (formatMessage L lib .printf fmt (some args)).1.bytes L.maxMsgLen ∧
    (formatMessage L lib .printf fmt none).2 = (formatMessage L lib .printf fmt (some args)).2

/-! ### What is printed -/

theorem printfText_of_not_mem {fmt : List Byte} (h : 37 ∉ fmt) : printfText fmt = some fmt := by
  induction fmt using printfText.induct with
  | case1 => rfl
  | case2 => simp at h
  | case3 ch hch => rw [printfText, if_neg hch]
  | case4 => simp at h
  | case5 => simp at h
  | case6 ch next rest hch ih =>
    rw [List.mem_cons, not_or] at h
    rw [printfText, if_neg hch, ih h.2, Option.map_some]

/-- The text has no byte the format has not, and is shorter when the format has a `%`. -/
theorem printfText_spec {fmt text : List Byte} (h : printfText fmt = some text) :
    text ⊆ fmt ∧ text.length ≤ fmt.length ∧ (37 ∈ fmt → text.length < fmt.length) := by
  induction fmt using printfText.induct generalizing text with
  | case1 =>
    obtain rfl : [] = text := by simpa [printfText] using h
    simp
  | case2 => simp [printfText] at h
  | case3 ch hch =>
    obtain rfl : [ch] = text := by simpa [printfText, hch] using h
    simp [Ne.symm hch]
  | case4 rest ih =>
    rw [printfText, if_pos rfl, if_pos rfl, Option.map_eq_some_iff] at h
    obtain ⟨text, htext, rfl⟩ := h
    obtain ⟨hsub, hlen, -⟩ := ih htext
    refine ⟨?_, ?_, fun _ => ?_⟩
    · exact List.cons_subset_cons _ (List.subset_cons_of_subset _ hsub)
    all_goals
      simp only [List.length_cons]
      omega
  | case5 next rest hnext => simp [printfText, hnext] at h
  | case6 ch next rest hch ih =>
    rw [printfText, if_neg hch, Option.map_eq_some_iff] at h
    obtain ⟨text, htext, rfl⟩ := h
    obtain ⟨hsub, hlen, hlt⟩ := ih htext
    refine ⟨List.cons_subset_cons _ hsub, Nat.succ_le_succ hlen, ?_⟩
    intro hmem
    exact Nat.succ_lt_succ (hlt ((List.mem_cons.mp hmem).resolve_left (Ne.symm hch)))

/-! ### What is stored -/

section
variable {α : Type} {L : Limits} {lib : Formatting α} {fmt : CStr}

theorem formatMessage_none (h : fmt.bytes.length < L.maxMsgLen) :
    formatMessage L lib .printf fmt none =
      (Region.zero.blit 0 (fmt.bytes ++ [0]), UInt16.ofNat fmt.bytes.length) := by
  have happend := Region.zero.blit_blit 0 fmt.bytes [0]
  rw [Nat.zero_add] at happend
  rw [formatMessage]
  simp only [if_neg (Nat.not_le.mpr h), List.take_length, Region.store, happend]

theorem formatMessage_some {args : α} {text : List Byte} (hprint : lib.printf fmt args = text)
    (h : text.length < L.maxMsgLen) :
    formatMessage L lib .printf fmt (some args) =
      (Region.zero.blit 0 (text ++ [0]), if text.length < 2 ^ 31 then UInt16.ofNat text.length else 0) := by
  have htake : text.take (L.maxMsgLen - 1) = text := List.take_of_length_le (by omega)
  have hlen : narrow text.length = UInt16.ofNat text.length := by
    rw [← UInt16.toNat_inj, narrow_natCast]
    exact UInt16.toNat_ofNat'.symm
  have hstored : narrow (if text.length < 2 ^ 31 then (text.length : Int) else -1) =
      if text.length < 2 ^ 31 then UInt16.ofNat text.length else 0 := by
    split
    · exact hlen
    · rfl
  rw [formatMessage, hprint]
  simp only [Region.snprintf, if_neg (Nat.ne_of_gt L.maxMsgLen_pos), htake, hstored]

/-- The length of these bytes survives the way through the `int` that `snprintf` returns. -/
def LengthReturned (bytes : List Byte) : Prop := bytes.length < 2 ^ 31 ∨ bytes.length % 2 ^ 16 = 0

theorem lengthReturned_iff {bytes : List Byte} : LengthReturned bytes ↔
    UInt16.ofNat bytes.length = if bytes.length < 2 ^ 31 then UInt16.ofNat bytes.length else 0 := by
  rw [LengthReturned]
  by_cases hint : bytes.length < 2 ^ 31
  · rw [if_pos hint]
    exact iff_of_true (Or.inl hint) rfl
  · rw [if_neg hint, ← UInt16.toNat_inj, UInt16.toNat_ofNat']
    exact ⟨fun h => h.resolve_left hint, Or.inr⟩

/-- The string in the array is the text stored there. -/
theorem upToNul_bytes_blit {text : List Byte} {n : Nat} (hnul : 0 ∉ text) (h : text.length < n) :
    upToNul ((Region.zero.blit 0 (text ++ [0])).bytes n) = text := by
  have hlen : (text ++ [0]).length = text.length + 1 := List.length_append
  have hfront : ((Region.zero.blit 0 (text ++ [0])).bytes n).take (text.length + 1) = text ++ [0] := by
    have hblit := Region.zero.bytes_blit 0 (text ++ [0])
    rw [Nat.zero_add, hlen] at hblit
    rw [Region.bytes_take h, hblit]
    rfl
  rw [← List.take_append_drop (text.length + 1) ((Region.zero.blit 0 (text ++ [0])).bytes n), hfront,
    List.append_assoc]
  exact upToNul_append_zero hnul

/-- **The two paths agree on a format that takes no argument exactly when it has no
`%`** and `snprintf` can return its length. -/
theorem pathsAgree_iff (hlib : FollowsPrintf lib) {text : List Byte} (hfmt : printfText fmt.bytes = some text)
    (hlen : fmt.bytes.length < L.maxMsgLen) (args : α) :
    PathsAgree L lib fmt args ↔ 37 ∉ fmt.bytes ∧ LengthReturned fmt.bytes := by
  obtain ⟨hsub, hle, hlt⟩ := printfText_spec hfmt
  rw [PathsAgree, formatMessage_none hlen, formatMessage_some (hlib fmt args text hfmt) (by omega)]
  refine ⟨?_, ?_⟩
  · rintro ⟨harray, hstored⟩
    have hplain : 37 ∉ fmt.bytes := by
      intro hpercent
      have hstring := congrArg upToNul harray
      simp only [upToNul_bytes_blit fmt.noNul hlen,
        upToNul_bytes_blit (fun hmem => fmt.noNul (hsub hmem)) (Nat.lt_of_le_of_lt hle hlen)] at hstring
      exact absurd (congrArg List.length hstring) (Nat.ne_of_gt (hlt hpercent))
    obtain rfl : fmt.bytes = text := Option.some.inj ((printfText_of_not_mem hplain).symm.trans hfmt)
    exact ⟨hplain, lengthReturned_iff.mpr hstored⟩
  · rintro ⟨hplain, hreturned⟩
    obtain rfl : fmt.bytes = text := Option.some.inj ((printfText_of_not_mem hplain).symm.trans hfmt)
    exact ⟨rfl, lengthReturned_iff.mp hreturned⟩

end

/-- Libraries that print what these formats say, and nothing else. -/
def plainPrintf : Formatting Unit where
  printf fmt _ := (printfText fmt.bytes).getD []
  fmt fmt _ := fmt.bytes
  formatToN r n fmt _ := (r.blit 0 (fmt.bytes.take n), fmt.bytes.length)
  formatToN_eq _ _ _ _ := rfl

theorem followsPrintf_plainPrintf : FollowsPrintf plainPrintf := by
  intro fmt args text h
  rw [show plainPrintf.printf fmt args = (printfText fmt.bytes).getD [] from rfl, h, Option.getD_some]

theorem pathsAgree_iff_plain :
    PathsAgree Limits.desktop plainPrintf ⟨ascii "done", by decide⟩ () ↔
      37 ∉ ascii "done" ∧ LengthReturned (ascii "done") :=
  pathsAgree_iff followsPrintf_plainPrintf (show printfText (ascii "done") = some (ascii "done") by decide) (by decide) ()

/-- **`100%%` is stored as it stands where `snprintf` stores `100%`.** -/
theorem not_pathsAgree_percent : FollowsPrintf plainPrintf ∧
    printfText (ascii "100%%") = some (ascii "100%") ∧
    ¬ PathsAgree Limits.desktop plainPrintf ⟨ascii "100%%", by decide⟩ () := by
  refine ⟨followsPrintf_plainPrintf, by decide, ?_⟩
  intro h
  have hlen : (formatMessage Limits.desktop plainPrintf .printf ⟨ascii "100%%", by decide⟩ none).2 =
    (formatMessage Limits.desktop plainPrintf .printf ⟨ascii "100%%", by decide⟩ (some ())).2 := h.2
  revert hlen
  decide +kernel

end BrLogger
