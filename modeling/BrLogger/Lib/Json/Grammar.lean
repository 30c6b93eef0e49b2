import Mathlib.Data.Rat.Defs
import Mathlib.Algebra.Field.Rat
import BrLogger.Lib.Decimal

/-!
# The JSON grammar over bytes

RFC 8259 with the text taken as bytes: a byte from `0x80` on is a string
character like any other and stands for itself, so that the grammar does not
depend on an encoding.  `Derives item t` says that the bytes `t` are spelled by
the grammar and what they mean; `Document v t` allows whitespace around the one
value of a text.

* `Chars s t`: between the quotes `t` spells the bytes `s`.
* `derives_members`: **members written one after another derive**, whatever
  whitespace the layout puts between them.
-/

namespace Json

abbrev quote : Byte := 34
abbrev backslash : Byte := 92
abbrev comma : Byte := 44
abbrev colon : Byte := 58
abbrev lbracket : Byte := 91
abbrev rbracket : Byte := 93
abbrev lbrace : Byte := 123
abbrev rbrace : Byte := 125

/-- A JSON value.  The members of an object keep their order and may repeat a name. -/
inductive Value
  | null
  | bool (b : Bool)
  | num (q : ℚ)
  | str (s : List Byte)
  | arr (vs : List Value)
  | obj (ms : List (List Byte × Value))

/-! ## Whitespace -/

def isWs (b : Byte) : Bool := b == 32 || b == 9 || b == 10 || b == 13

def IsWs (w : List Byte) : Prop := ∀ b ∈ w, isWs b = true

instance (w : List Byte) : Decidable (IsWs w) := decidable_of_iff (w.all isWs = true) List.all_eq_true

theorem isWs_nil : IsWs [] := by decide

theorem IsWs.append {w w' : List Byte} (h : IsWs w) (h' : IsWs w') : IsWs (w ++ w') := by
  intro b hb
  rcases List.mem_append.mp hb with hb | hb
  · exact h b hb
  · exact h' b hb

/-! ## Numbers -/

/-- The bytes a number is made of. -/
def isNumberByte (b : Byte) : Bool :=
  isDigit b || b == 43 || b == 45 || b == 46 || b == 69 || b == 101

/-- `[ minus ]`: the sign and what follows it. -/
def splitSign : List Byte → ℚ × List Byte
  | b :: t => if b = 45 then (-1, t) else (1, b :: t)
  | [] => (1, [])

/-- `[ frac ]`: a point and at least one digit. -/
def splitFrac : List Byte → Option (ℚ × List Byte)
  | b :: t =>
    if b = 46 then
      let digits := t.takeWhile isDigit
      if digits = [] then none
      else some (digitsValue digits / 10 ^ digits.length, t.dropWhile isDigit)
    else some (0, b :: t)
  | [] => some (0, [])

/-- `[ exp ]` up to the end: `e` or `E`, a sign or none, and at least one digit. -/
def expValue : List Byte → Option ℤ
  | [] => some 0
  | b :: t =>
    if b = 101 ∨ b = 69 then
      let sign : ℤ := if t.head? = some 45 then -1 else 1
      let digits := if t.head? = some 45 ∨ t.head? = some 43 then t.tail else t
      if digits = [] ∨ digits.all isDigit = false then none
      else some (sign * digitsValue digits)
    else none

/-- `number = [ minus ] int [ frac ] [ exp ]`, where only zero itself begins with a zero. -/
def numberValue (t : List Byte) : Option ℚ :=
  if t.all isNumberByte then
    let (sign, t) := splitSign t
    let int := t.takeWhile isDigit
    if int = [] ∨ int.head? = some 48 ∧ int ≠ [48] then none
    else do
      let (frac, t) ← splitFrac (t.dropWhile isDigit)
      let e ← expValue t
      some (sign * (digitsValue int + frac) * 10 ^ e)
  else none

theorem isNumberByte_of_numberValue {t : List Byte} {q : ℚ} (h : numberValue t = some q) :
    ∀ b ∈ t, isNumberByte b = true := by
  rw [numberValue] at h
  split at h
  · rename_i hall
    exact List.all_eq_true.mp hall
  · cases h

theorem ne_nil_of_numberValue {t : List Byte} {q : ℚ} (h : numberValue t = some q) : t ≠ [] := by
  rintro rfl
  simp [numberValue, splitSign] at h

/-- **A printed number is a number.** -/
theorem numberValue_decimal (n : Nat) : numberValue (decimal n) = some (n : ℚ) := by
  have hdigit : ∀ b ∈ decimal n, isDigit b = true := fun b => isDigit_of_mem_decimal
  have hall : (decimal n).all isNumberByte = true := by
    rw [List.all_eq_true]
    intro b hb
    rw [isNumberByte, hdigit b hb]
    rfl
  have hsign : splitSign (decimal n) = (1, decimal n) := by
    cases hd : decimal n with
    | nil => exact absurd hd (decimal_ne_nil n)
    | cons b t =>
      have hne : b ≠ 45 := by
        rintro rfl
        exact absurd (hdigit 45 (hd ▸ List.mem_cons_self)) (by decide)
      rw [splitSign, if_neg hne]
  have htake : (decimal n).takeWhile isDigit = decimal n := List.takeWhile_eq_self_iff.mpr hdigit
  have hdrop : (decimal n).dropWhile isDigit = [] := List.dropWhile_eq_nil_iff.mpr hdigit
  have hzero : ¬ (decimal n = [] ∨ (decimal n).head? = some 48 ∧ decimal n ≠ [48]) := by
    rintro (h | ⟨h, hne⟩)
    · exact decimal_ne_nil n h
    · exact hne (decimal_eq_zero_of_head h)
  rw [numberValue, if_pos hall, hsign]
  simp only [htake, hdrop]
  rw [if_neg hzero]
  simp [splitFrac, expValue]

/-! ## Strings -/

/-- The bytes that stand for themselves between the quotes. -/
def isPlain (b : Byte) : Bool := 32 ≤ b && b != quote && b != backslash

/-- What a backslash and `e` stand for. -/
def shortEscape (e : Byte) : Option Byte :=
  if e = quote ∨ e = backslash ∨ e = 47 then some e
  else if e = 98 then some 8
  else if e = 102 then some 12
  else if e = 110 then some 10
  else if e = 114 then some 13
  else if e = 116 then some 9
  else none

def hexValue (b : Byte) : Option Nat :=
  if 48 ≤ b ∧ b ≤ 57 then some (b.toNat - 48)
  else if 65 ≤ b ∧ b ≤ 70 then some (b.toNat - 55)
  else if 97 ≤ b ∧ b ≤ 102 then some (b.toNat - 87)
  else none

/-- The number four hexadecimal digits spell. -/
def codeUnit (a b c d : Byte) : Option Nat := do
  let a ← hexValue a
  let b ← hexValue b
  let c ← hexValue c
  let d ← hexValue d
  some (((a * 16 + b) * 16 + c) * 16 + d)

/-- The bytes of a 16-bit code unit; a surrogate is written by itself. -/
def utf8 (code : Nat) : List Byte :=
  if code < 0x80 then [UInt8.ofNat code]
  else if code < 0x800 then [UInt8.ofNat (0xC0 + code / 64), UInt8.ofNat (0x80 + code % 64)]
  else [UInt8.ofNat (0xE0 + code / 4096), UInt8.ofNat (0x80 + code / 64 % 64),
    UInt8.ofNat (0x80 + code % 64)]

/-- The text `t` between two quotes spells the bytes `s`. -/
inductive Chars : List Byte → List Byte → Prop
  | nil : Chars [] []
  | plain {b : Byte} {s t : List Byte} : isPlain b = true → Chars s t → Chars (b :: s) (b :: t)
  | short {e b : Byte} {s t : List Byte} : shortEscape e = some b → Chars s t →
      Chars (b :: s) (backslash :: e :: t)
  | unicode {a b c d : Byte} {code : Nat} {s t : List Byte} : codeUnit a b c d = some code →
      Chars s t → Chars (utf8 code ++ s) (backslash :: 117 :: a :: b :: c :: d :: t)

/-- Bytes that stand for themselves spell themselves. -/
theorem Chars.of_plain {s : List Byte} (h : ∀ b ∈ s, isPlain b = true) : Chars s s := by
  induction s with
  | nil => exact Chars.nil
  | cons b s ih =>
    exact Chars.plain (h b List.mem_cons_self) (ih fun c hc => h c (List.mem_cons_of_mem b hc))

/-! ## Values -/

/-- What a stretch of text may be. -/
inductive Item
  | value (v : Value)
  | element (v : Value)
  | elements (vs : List Value)
  | member (m : List Byte × Value)
  | members (ms : List (List Byte × Value))

inductive Derives : Item → List Byte → Prop
  | null : Derives (.value .null) (ascii "null")
  | boolTrue : Derives (.value (.bool true)) (ascii "true")
  | boolFalse : Derives (.value (.bool false)) (ascii "false")
  | num {q : ℚ} {t : List Byte} : numberValue t = some q → Derives (.value (.num q)) t
  | str {s t : List Byte} : Chars s t → Derives (.value (.str s)) (quote :: (t ++ [quote]))
  | emptyArr {w : List Byte} : IsWs w → Derives (.value (.arr [])) (lbracket :: (w ++ [rbracket]))
  | arr {vs : List Value} {t : List Byte} : Derives (.elements vs) t →
      Derives (.value (.arr vs)) (lbracket :: (t ++ [rbracket]))
  | emptyObj {w : List Byte} : IsWs w → Derives (.value (.obj [])) (lbrace :: (w ++ [rbrace]))
  | obj {ms : List (List Byte × Value)} {t : List Byte} : Derives (.members ms) t →
      Derives (.value (.obj ms)) (lbrace :: (t ++ [rbrace]))
  | element {v : Value} {w t w' : List Byte} : IsWs w → Derives (.value v) t → IsWs w' →
      Derives (.element v) (w ++ t ++ w')
  | lastElement {v : Value} {t : List Byte} : Derives (.element v) t → Derives (.elements [v]) t
  | elements {v : Value} {vs : List Value} {t t' : List Byte} : Derives (.element v) t →
      Derives (.elements vs) t' → Derives (.elements (v :: vs)) (t ++ comma :: t')
  | member {k : List Byte} {v : Value} {w kt w₁ w₂ t w' : List Byte} : IsWs w → Chars k kt →
      IsWs w₁ → IsWs w₂ → Derives (.value v) t → IsWs w' →
      Derives (.member (k, v)) (w ++ quote :: (kt ++ quote :: (w₁ ++ colon :: (w₂ ++ t ++ w'))))
  | lastMember {m : List Byte × Value} {t : List Byte} : Derives (.member m) t →
      Derives (.members [m]) t
  | members {m : List Byte × Value} {ms : List (List Byte × Value)} {t t' : List Byte} :
      Derives (.member m) t → Derives (.members ms) t' →
      Derives (.members (m :: ms)) (t ++ comma :: t')

/-- A text: one value with whitespace around it. -/
def Document (v : Value) (t : List Byte) : Prop :=
  ∃ w u w', IsWs w ∧ Derives (.value v) u ∧ IsWs w' ∧ t = w ++ u ++ w'

theorem Derives.document {v : Value} {t : List Byte} (h : Derives (.value v) t) : Document v t :=
  ⟨[], t, [], isWs_nil, h, isWs_nil, by simp⟩

/-! ## Writing an object -/

/-- One member: indentation, the name in quotes, a colon and the value. -/
def memberText (ind sp key value : List Byte) : List Byte :=
  ind ++ quote :: (key ++ quote :: colon :: (sp ++ value))

/-- Members, each behind `nl` and the last one before it, with commas between them. -/
def membersText (nl ind sp : List Byte) : List (List Byte × List Byte) → List Byte
  | [] => []
  | [f] => nl ++ memberText ind sp f.1 f.2 ++ nl
  | f :: g :: l => nl ++ memberText ind sp f.1 f.2 ++ comma :: membersText nl ind sp (g :: l)

/-- An object of these members. -/
def objectText (nl ind sp : List Byte) (l : List (List Byte × List Byte)) : List Byte :=
  lbrace :: (membersText nl ind sp l ++ [rbrace])

/-- The texts of a name and a value. -/
def Spells (m : List Byte × Value) (f : List Byte × List Byte) : Prop :=
  Chars m.1 f.1 ∧ Derives (.value m.2) f.2

variable {nl ind sp : List Byte}

theorem derives_member (hnl : IsWs nl) (hind : IsWs ind) (hsp : IsWs sp) {w' : List Byte}
    (hw' : IsWs w') {m : List Byte × Value} {f : List Byte × List Byte} (h : Spells m f) :
    Derives (.member m) (nl ++ memberText ind sp f.1 f.2 ++ w') := by
  have := Derives.member (hnl.append hind) h.1 isWs_nil hsp h.2 hw'
  simpa [memberText] using this

/-- **Members written one after another derive.** -/
theorem derives_members (hnl : IsWs nl) (hind : IsWs ind) (hsp : IsWs sp)
    {ms : List (List Byte × Value)} {l : List (List Byte × List Byte)}
    (h : List.Forall₂ Spells ms l) (hne : ms ≠ []) :
    Derives (.members ms) (membersText nl ind sp l) := by
  induction h with
  | nil => exact absurd rfl hne
  | cons hm hrest ih =>
    cases hrest with
    | nil => exact Derives.lastMember (derives_member hnl hind hsp hnl hm)
    | cons hm' hrest' =>
      have hfirst := derives_member hnl hind hsp isWs_nil hm
      rw [List.append_nil] at hfirst
      exact Derives.members hfirst (ih (by simp))

theorem derives_object (hnl : IsWs nl) (hind : IsWs ind) (hsp : IsWs sp)
    {ms : List (List Byte × Value)} {l : List (List Byte × List Byte)}
    (h : List.Forall₂ Spells ms l) : Derives (.value (.obj ms)) (objectText nl ind sp l) := by
  cases ms with
  | nil =>
    cases h
    exact Derives.emptyObj isWs_nil
  | cons m ms => exact Derives.obj (derives_members hnl hind hsp h (by simp))

end Json
