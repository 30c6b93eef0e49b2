import BrLogger.Lib.Memory
import BrLogger.LogEntry

/-!
# Formatters

`formatter_interface.hpp`, and the buffer with a position that both formatters
append to.  A sink writes as many bytes of its buffer as a formatter returns,
so a formatter is one that returns at most the size it is given.
-/

namespace BrLogger

variable {L : Limits}

/-- An `IFormatter`: `Format(entry, buf, buf_size)` leaves a buffer and returns a length. -/
structure IFormatter (L : Limits) where
  format : LogEntry L → Region → Nat → Region × Nat
  length_le : ∀ entry buf bufSize, 0 < bufSize → (format entry buf bufSize).2 ≤ bufSize

/-- The formatter makes this text of an entry in a buffer of this size, whatever the
buffer held, and stores nothing behind the buffer. -/
structure IFormatter.Renders (formatter : IFormatter L) (text : LogEntry L → Nat → List Byte) : Prop where
  bytes : ∀ entry buf bufSize, 0 < bufSize →
    (formatter.format entry buf bufSize).1.bytes (formatter.format entry buf bufSize).2 = text entry bufSize
  extent : ∀ entry buf bufSize, 0 < bufSize → (formatter.format entry buf bufSize).1.extent ≤ max buf.extent bufSize

/-- A difference of two `size_t`. -/
def sizeSub (a b : Nat) : Nat := if b ≤ a then a - b else 2 ^ 64 + a - b

theorem sizeSub_of_le {a b : Nat} (h : b ≤ a) : sizeSub a b = a - b := if_pos h

theorem sizeSub_one {a : Nat} (h : 0 < a) : sizeSub a 1 = a - 1 := if_pos h

/-- The buffer and the position behind what has been written. -/
structure Cursor where
  buf : Region
  pos : Nat

/-- Bytes stored at the position, which moves behind them. -/
def Cursor.write (c : Cursor) (s : List Byte) : Cursor := ⟨c.buf.blit c.pos s, c.pos + s.length⟩

theorem Cursor.write_nil (c : Cursor) : c.write [] = c := by simp [Cursor.write]

theorem Cursor.write_write (c : Cursor) (s t : List Byte) : (c.write s).write t = c.write (s ++ t) := by
  simp only [Cursor.write, Region.blit_blit, List.length_append, Nat.add_assoc]

end BrLogger
