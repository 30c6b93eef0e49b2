import BrLogger.Formatter.JsonRecord

/-!
# `EscapeJsonString`

The loop stops in front of the first byte whose escape does not fit, so what it
leaves is the escape of a prefix of its source, and of the longest one there is
room for (`LongestFit`).  An escape says where it ends: it is a string of the
JSON grammar, and a reader of that grammar gives the source back, which no two
sources can share.
-/

namespace BrLogger

open BoundedText (escape fit)

/-- `p` is the longest prefix of `src` whose escape fits into `room` bytes. -/
structure LongestFit (room : Nat) (src p : List Byte) : Prop where
  isPrefix : p <+: src
  fits : (escape escapeUnit p).length ≤ room
  longest : ∀ q, q <+: src → (escape escapeUnit q).length ≤ room → q <+: p

theorem longestFit_fit (room : Nat) (src : List Byte) : LongestFit room src (fit escapeUnit room src) where
  isPrefix := BoundedText.prefix_fit room src
  fits := BoundedText.length_fit_le escapeUnit room src
  longest _ hq hroom := BoundedText.prefix_fit_of_fits hq hroom

theorem decodeChars_escape (src : List Byte) : Json.decodeChars (escape escapeUnit src) = some src :=
  (chars_escape src).decode

theorem escape_injective : Function.Injective (escape escapeUnit) := by
  intro src src' h
  have hdecode := decodeChars_escape src
  rw [h, decodeChars_escape src'] at hdecode
  exact (Option.some.inj hdecode).symm

/-- **`EscapeJsonString` writes the escape of the longest prefix that fits**, and
nothing else: no byte in front of its destination, and none behind the length it
returns.  What an escape spells can be read back. -/
theorem escapeJsonString_longest :
    (∀ (src : List Byte) (buf : Region) (base dstSize : Nat), ∃ p, LongestFit dstSize src p ∧
      (escapeJsonString src buf base dstSize).2 = (escape escapeUnit p).length ∧
      (escapeJsonString src buf base dstSize).1.bytes (base + (escapeJsonString src buf base dstSize).2) =
        buf.bytes base ++ escape escapeUnit p ∧
      (∀ j, base + (escapeJsonString src buf base dstSize).2 ≤ j →
        (escapeJsonString src buf base dstSize).1.byte j = buf.byte j) ∧
      (escapeJsonString src buf base dstSize).1.extent ≤ max buf.extent (base + dstSize)) ∧
    (∀ src, Json.decodeChars (escape escapeUnit src) = some src) ∧ Function.Injective (escape escapeUnit) := by
  refine ⟨?_, decodeChars_escape, escape_injective⟩
  intro src buf base dstSize
  have hfit := longestFit_fit dstSize src
  refine ⟨fit escapeUnit dstSize src, hfit, ?_, ?_, ?_, ?_⟩
  all_goals rw [escapeJsonString_eq]
  · exact buf.bytes_blit base _
  · intro j hj
    exact Region.blit_byte_of_ge hj
  · exact Region.extent_blit_le (Nat.le_max_left _ _)
      (Nat.le_trans (Nat.add_le_add_left hfit.fits base) (Nat.le_max_right _ _))

end BrLogger
