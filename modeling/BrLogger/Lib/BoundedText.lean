import Mathlib.Data.List.Forall2
import BrLogger.Lib.CString

/-!
# Text assembled in a bounded space

A text is put together from pieces in a space of `cap` bytes.  A raw piece is
cut where the space ends; of an escaped piece, every byte of which is written
as a unit, the longest part goes in whose units all fit whole.

* `assemble_eq`: the result is the first `cap` bytes of the text whose escaped
  pieces have been trimmed (`trim`), and `assemble_of_fits`: the whole text
  when there is room for it.
* `cap_lt_of_trim_ne`: once a piece has been trimmed there is less space left
  than the longest unit takes.
-/

namespace BoundedText

inductive Piece
  | raw (b : List Byte)
  | escaped (s : List Byte)

variable (unit : Byte → List Byte)

/-- The units of a string. -/
def escape (s : List Byte) : List Byte := s.flatMap unit

/-- The longest prefix of `s` whose units fit into `room` bytes. -/
def fit : Nat → List Byte → List Byte
  | _, [] => []
  | room, c :: s =>
    if (unit c).length ≤ room then c :: fit (room - (unit c).length) s else []

def Piece.text : Piece → List Byte
  | .raw b => b
  | .escaped s => escape unit s

/-- The whole text. -/
def text (ps : List Piece) : List Byte := ps.flatMap (Piece.text unit)

/-- One piece behind `out`. -/
def put (cap : Nat) (out : List Byte) : Piece → List Byte
  | .raw b => out ++ b.take (cap - out.length)
  | .escaped s => out ++ escape unit (fit unit (cap - out.length) s)

def assemble (cap : Nat) (out : List Byte) (ps : List Piece) : List Byte := ps.foldl (put unit cap) out

def Piece.trim (room : Nat) : Piece → Piece
  | .raw b => .raw b
  | .escaped s => .escaped (fit unit room s)

/-- The pieces as they go in behind `pos` bytes, raw ones left whole. -/
def trim (cap : Nat) : Nat → List Piece → List Piece
  | _, [] => []
  | pos, p :: ps =>
    p.trim unit (cap - pos) :: trim cap (min cap (pos + ((p.trim unit (cap - pos)).text unit).length)) ps

variable {unit}

@[simp] theorem escape_nil : escape unit [] = [] := rfl

@[simp] theorem escape_cons (c : Byte) (s : List Byte) :
    escape unit (c :: s) = unit c ++ escape unit s := List.flatMap_cons

@[simp] theorem text_nil : text unit [] = [] := rfl

@[simp] theorem text_cons (p : Piece) (ps : List Piece) :
    text unit (p :: ps) = p.text unit ++ text unit ps := List.flatMap_cons

@[simp] theorem text_append (ps qs : List Piece) :
    text unit (ps ++ qs) = text unit ps ++ text unit qs := List.flatMap_append

theorem assemble_append (cap : Nat) (out : List Byte) (ps qs : List Piece) :
    assemble unit cap out (ps ++ qs) = assemble unit cap (assemble unit cap out ps) qs := List.foldl_append

/-- Raw pieces one behind the other are one piece. -/
theorem put_raw_raw (cap : Nat) (out a b : List Byte) :
    put unit cap (put unit cap out (.raw a)) (.raw b) = put unit cap out (.raw (a ++ b)) := by
  simp only [put, List.take_append, List.length_append, List.length_take, List.append_assoc]
  congr 3
  omega

/-! ### Strings that fit -/

variable (unit) in
theorem length_fit_le (room : Nat) (s : List Byte) : (escape unit (fit unit room s)).length ≤ room := by
  induction s generalizing room with
  | nil => exact Nat.zero_le room
  | cons c s ih =>
    rw [fit]
    split
    · rename_i hc
      have := ih (room - (unit c).length)
      rw [escape_cons, List.length_append]
      omega
    · exact Nat.zero_le room

theorem fit_of_fits {room : Nat} {s : List Byte} (h : (escape unit s).length ≤ room) :
    fit unit room s = s := by
  induction s generalizing room with
  | nil => rfl
  | cons c s ih =>
    rw [escape_cons, List.length_append] at h
    rw [fit, if_pos (by omega), ih (by omega)]

variable (unit) in
/-- Either everything fits or the unit of the first byte left out does not. -/
theorem fit_spec (room : Nat) (s : List Byte) :
    fit unit room s = s ∨
      ∃ c t, s = fit unit room s ++ c :: t ∧
        room < (escape unit (fit unit room s)).length + (unit c).length := by
  induction s generalizing room with
  | nil => exact Or.inl rfl
  | cons c s ih =>
    by_cases hc : (unit c).length ≤ room
    · rw [fit, if_pos hc]
      rcases ih (room - (unit c).length) with h | ⟨d, t, h, hlt⟩
      · exact Or.inl (congrArg (c :: ·) h)
      · refine Or.inr ⟨d, t, congrArg (c :: ·) h, ?_⟩
        rw [escape_cons, List.length_append]
        omega
    · rw [fit, if_neg hc]
      refine Or.inr ⟨c, s, rfl, ?_⟩
      rw [escape_nil, List.length_nil]
      omega

theorem prefix_fit (room : Nat) (s : List Byte) : fit unit room s <+: s := by
  rcases fit_spec unit room s with h | ⟨c, t, h, -⟩
  · exact h.symm ▸ List.prefix_rfl
  · exact ⟨c :: t, h.symm⟩

/-- No longer prefix fits. -/
theorem prefix_fit_of_fits {room : Nat} {q s : List Byte} (hq : q <+: s) (h : (escape unit q).length ≤ room) :
    q <+: fit unit room s := by
  induction q generalizing room s with
  | nil => exact List.nil_prefix
  | cons c q ih =>
    obtain ⟨t, rfl⟩ := hq
    rw [escape_cons, List.length_append] at h
    rw [List.cons_append, fit, if_pos (by omega)]
    exact List.cons_prefix_cons.mpr ⟨rfl, ih (List.prefix_append q t) (by omega)⟩

/-- A prefix that fits, followed by a byte whose unit does not, is what goes in. -/
theorem fit_eq {room : Nat} {p t : List Byte} {c : Byte} (hp : (escape unit p).length ≤ room)
    (hc : room < (escape unit p).length + (unit c).length) : fit unit room (p ++ c :: t) = p := by
  induction p generalizing room with
  | nil =>
    rw [escape_nil, List.length_nil, Nat.zero_add] at hc
    rw [List.nil_append, fit, if_neg (by omega)]
  | cons d p ih =>
    rw [escape_cons, List.length_append] at hp hc
    rw [List.cons_append, fit, if_pos (by omega), ih (by omega) (by omega)]

/-! ### The result -/

variable (unit) in
theorem length_put_le {cap : Nat} {out : List Byte} (h : out.length ≤ cap) (p : Piece) :
    (put unit cap out p).length ≤ cap := by
  cases p with
  | raw b =>
    rw [put, List.length_append, List.length_take]
    omega
  | escaped s =>
    have := length_fit_le unit (cap - out.length) s
    rw [put, List.length_append]
    omega

theorem put_eq {cap : Nat} {out : List Byte} (h : out.length ≤ cap) (p : Piece) :
    put unit cap out p = (out ++ (p.trim unit (cap - out.length)).text unit).take cap := by
  cases p with
  | raw b =>
    rw [put, Piece.trim, Piece.text, List.take_append, List.take_of_length_le h]
  | escaped s =>
    have := length_fit_le unit (cap - out.length) s
    rw [put, Piece.trim, Piece.text, List.take_of_length_le]
    rw [List.length_append]
    omega

theorem length_put {cap : Nat} {out : List Byte} (h : out.length ≤ cap) (p : Piece) :
    (put unit cap out p).length =
      min cap (out.length + ((p.trim unit (cap - out.length)).text unit).length) := by
  rw [put_eq h, List.length_take, List.length_append]

/-- **The result is the first `cap` bytes of the trimmed text.** -/
theorem assemble_eq {cap : Nat} {out : List Byte} (h : out.length ≤ cap) (ps : List Piece) :
    assemble unit cap out ps = (out ++ text unit (trim unit cap out.length ps)).take cap := by
  induction ps generalizing out with
  | nil =>
    rw [trim, text_nil, List.append_nil, List.take_of_length_le h]
    rfl
  | cons p ps ih =>
    have hput := ih (length_put_le unit h p)
    rw [length_put h] at hput
    rw [show assemble unit cap out (p :: ps) = assemble unit cap (put unit cap out p) ps from rfl, hput,
      put_eq h, trim, text_cons, ← List.append_assoc]
    generalize out ++ (p.trim unit (cap - out.length)).text unit = u
    generalize text unit (trim unit cap _ ps) = z
    -- what the first cut took away lies behind `cap` bytes
    rw [List.take_append, List.take_append, List.length_take, List.take_take, Nat.min_self]
    rcases Nat.le_total cap u.length with hu | hu
    · rw [Nat.min_eq_left hu, Nat.sub_self, Nat.sub_eq_zero_of_le hu]
    · rw [Nat.min_eq_right hu]

/-! ### What trimming leaves -/

/-- `q` is `p`, up to bytes an escaped piece has lost at its end. -/
inductive Piece.Cut : Piece → Piece → Prop
  | raw (b : List Byte) : Cut (.raw b) (.raw b)
  | escaped {p s : List Byte} : p <+: s → Cut (.escaped p) (.escaped s)

/-- Piece by piece. -/
def Cut (qs ps : List Piece) : Prop := List.Forall₂ Piece.Cut qs ps

variable (unit) in
theorem trim_cut (cap pos : Nat) (ps : List Piece) : Cut (trim unit cap pos ps) ps := by
  induction ps generalizing pos with
  | nil => exact List.Forall₂.nil
  | cons p ps ih =>
    apply List.Forall₂.cons _ (ih _)
    cases p with
    | raw b => exact Piece.Cut.raw b
    | escaped s => exact Piece.Cut.escaped (prefix_fit _ s)

theorem trim_append (cap pos : Nat) (ps qs : List Piece) (hpos : pos ≤ cap) :
    trim unit cap pos (ps ++ qs) =
      trim unit cap pos ps ++ trim unit cap (min cap (pos + (text unit (trim unit cap pos ps)).length)) qs := by
  induction ps generalizing pos with
  | nil => simp [trim, Nat.min_eq_right hpos]
  | cons p ps ih =>
    rw [List.cons_append, trim, ih _ (Nat.min_le_left _ _), trim, List.cons_append, text_cons,
      List.length_append]
    congr 3
    omega

/-- Where everything fits, nothing is trimmed. -/
theorem trim_of_fits {cap pos : Nat} {ps : List Piece} (h : pos + (text unit ps).length ≤ cap) :
    trim unit cap pos ps = ps := by
  induction ps generalizing pos with
  | nil => rfl
  | cons p ps ih =>
    rw [text_cons, List.length_append] at h
    have hp : p.trim unit (cap - pos) = p := by
      cases p with
      | raw b => rfl
      | escaped s =>
        rw [Piece.text] at h
        rw [Piece.trim, fit_of_fits (by omega)]
    rw [trim, hp, Nat.min_eq_right (by omega), ih (by omega)]

/-- **A text that fits goes in whole.** -/
theorem assemble_of_fits {cap : Nat} {out : List Byte} {ps : List Piece}
    (h : out.length + (text unit ps).length ≤ cap) : assemble unit cap out ps = out ++ text unit ps := by
  rw [assemble_eq (by omega), trim_of_fits h, List.take_of_length_le (by rw [List.length_append]; exact h)]

/-- **Trimming leaves less space than the longest unit takes.** -/
theorem cap_lt_of_trim_ne {cap pos w : Nat} {ps : List Piece} (hw : ∀ c, (unit c).length ≤ w)
    (hpos : pos ≤ cap) (h : trim unit cap pos ps ≠ ps) :
    cap < pos + (text unit (trim unit cap pos ps)).length + w := by
  induction ps generalizing pos with
  | nil => exact absurd rfl h
  | cons p ps ih =>
    rw [trim] at h ⊢
    rw [text_cons, List.length_append]
    by_cases hp : p.trim unit (cap - pos) = p
    · rw [hp] at h ⊢
      have hrest := ih (Nat.min_le_left cap _) fun heq => h (congrArg (p :: ·) heq)
      omega
    · cases p with
      | raw b => exact absurd rfl hp
      | escaped s =>
        rcases fit_spec unit (cap - pos) s with heq | ⟨c, t, -, hlt⟩
        · exact absurd (congrArg Piece.escaped heq) hp
        · have := hw c
          rw [Piece.trim, Piece.text]
          omega

theorem Cut.raw_cons {qs ps : List Piece} {b : List Byte} (h : Cut qs (.raw b :: ps)) :
    ∃ qs', qs = .raw b :: qs' ∧ Cut qs' ps := by
  obtain ⟨q, qs', hq, hqs, rfl⟩ := List.forall₂_cons_right_iff.mp h
  cases hq
  exact ⟨qs', rfl, hqs⟩

theorem Cut.escaped_cons {qs ps : List Piece} {s : List Byte} (h : Cut qs (.escaped s :: ps)) :
    ∃ p qs', qs = .escaped p :: qs' ∧ p <+: s ∧ Cut qs' ps := by
  obtain ⟨q, qs', hq, hqs, rfl⟩ := List.forall₂_cons_right_iff.mp h
  cases hq with
  | escaped hp => exact ⟨_, qs', rfl, hp, hqs⟩

end BoundedText
