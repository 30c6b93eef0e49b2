import BrLogger.Lib.Json.Grammar

/-!
# Decoding JSON

A recursive-descent decoder (`decode`) and its completeness: what the grammar
derives, the decoder reads, whatever follows (`parseValue_complete`).  Two
facts about the grammar itself come from it.

* `Document.unique`: a text means one value.
* `Document.eq_of_isPrefix`: **no object text has a shorter one in front**, so a
  record that was cut anywhere inside is no object any more.

The induction is on the derivation; the fuel is the nesting depth, which the
length of the text bounds.
-/

namespace Json

/-- Reads from the front of a text and returns what is left. -/
abbrev Parser (α : Type) := List Byte → Option (α × List Byte)

def skipWs (t : List Byte) : List Byte := t.dropWhile isWs

def expect (c : Byte) : List Byte → Option (List Byte)
  | [] => none
  | b :: t => if b = c then some t else none

/-- The rest of a string, behind its opening quote. -/
def parseChars : Parser (List Byte)
  | [] => none
  | b :: t =>
    if b = quote then some ([], t)
    else if b = backslash then
      match t with
      | [] => none
      | e :: t =>
        if e = 117 then
          match t with
          | a :: b :: c :: d :: t => do
            let code ← codeUnit a b c d
            let (s, r) ← parseChars t
            some (utf8 code ++ s, r)
          | _ => none
        else do
          let c ← shortEscape e
          let (s, r) ← parseChars t
          some (c :: s, r)
    else if isPlain b then do
      let (s, r) ← parseChars t
      some (b :: s, r)
    else none

def parseNumber : Parser Value := fun t => do
  let q ← numberValue (t.takeWhile isNumberByte)
  some (.num q, t.dropWhile isNumberByte)

def parseElement (value : Parser Value) : Parser Value := fun t => do
  let (v, t) ← value (skipWs t)
  some (v, skipWs t)

def parseMember (value : Parser Value) : Parser (List Byte × Value) := fun t => do
  let t ← expect quote (skipWs t)
  let (k, t) ← parseChars t
  let t ← expect colon (skipWs t)
  let (v, t) ← value (skipWs t)
  some ((k, v), skipWs t)

/-- At least one item, commas between them, and the closing bracket. -/
def parseMany {α : Type} (item : Parser α) (close : Byte) : Nat → Parser (List α)
  | 0, _ => none
  | n + 1, t => do
    let (a, t) ← item t
    match t with
    | [] => none
    | b :: t =>
      if b = close then some ([a], t)
      else if b = comma then do
        let (l, t) ← parseMany item close n t
        some (a :: l, t)
      else none

/-- What follows an opening bracket. -/
def parseSeq {α : Type} (item : Parser α) (close : Byte) : Parser (List α) := fun t =>
  match expect close (skipWs t) with
  | some t => some ([], t)
  | none => parseMany item close t.length t

/-- One of the three literal names, behind its first letter. -/
def parseWord (w : List Byte) (v : Value) : Parser Value := fun t =>
  if w <+: t then some (v, t.drop w.length) else none

def parseValue : Nat → Parser Value
  | 0, _ => none
  | _ + 1, [] => none
  | n + 1, b :: t =>
    if b = quote then (parseChars t).map fun p => (.str p.1, p.2)
    else if b = lbracket then
      (parseSeq (parseElement (parseValue n)) rbracket t).map fun p => (.arr p.1, p.2)
    else if b = lbrace then
      (parseSeq (parseMember (parseValue n)) rbrace t).map fun p => (.obj p.1, p.2)
    else if b = 110 then parseWord (ascii "ull") .null t
    else if b = 116 then parseWord (ascii "rue") (.bool true) t
    else if b = 102 then parseWord (ascii "alse") (.bool false) t
    else parseNumber (b :: t)

/-- The value of a text. -/
def decode (t : List Byte) : Option Value := do
  let (v, r) ← parseValue t.length (skipWs t)
  if skipWs r = [] then some v else none

/-! ## Whitespace and single bytes -/

theorem skipWs_append {w : List Byte} (hw : IsWs w) (t : List Byte) : skipWs (w ++ t) = skipWs t := by
  induction w with
  | nil => rfl
  | cons b w ih =>
    have hb := hw b List.mem_cons_self
    have hrest := ih fun c hc => hw c (List.mem_cons_of_mem b hc)
    rw [List.cons_append, skipWs, List.dropWhile_cons_of_pos hb]
    exact hrest

theorem skipWs_cons {b : Byte} (hb : isWs b = false) (t : List Byte) : skipWs (b :: t) = b :: t := by
  rw [skipWs, List.dropWhile_cons_of_neg (by simp [hb])]

theorem skipWs_ws {w : List Byte} (hw : IsWs w) : skipWs w = [] := by
  have := skipWs_append hw []
  rwa [List.append_nil] at this

/-- Whitespace in front of a byte that is none. -/
theorem skipWs_append_cons {w : List Byte} (hw : IsWs w) {b : Byte} (hb : isWs b = false)
    (t : List Byte) : skipWs (w ++ b :: t) = b :: t := by
  rw [skipWs_append hw, skipWs_cons hb]

@[simp] theorem expect_self (c : Byte) (t : List Byte) : expect c (c :: t) = some t := if_pos rfl

/-- The first bytes of values; no bracket that closes and no whitespace is among them. -/
def isStart (b : Byte) : Bool := !isWs b && b != rbracket && b != rbrace

theorem isWs_of_isStart {b : Byte} (h : isStart b = true) : isWs b = false := by
  rw [isStart, Bool.and_eq_true, Bool.and_eq_true, Bool.not_eq_true'] at h
  exact h.1.1

theorem isStart_of_isNumberByte {b : Byte} (h : isNumberByte b = true) : isStart b = true := by
  by_contra hs
  have hcases : b = 32 ∨ b = 9 ∨ b = 10 ∨ b = 13 ∨ b = rbracket ∨ b = rbrace := by
    simp only [isStart, isWs, Bool.and_eq_true, Bool.not_eq_true', Bool.or_eq_false_iff, beq_eq_false_iff_ne,
      bne_iff_ne, ne_eq] at hs
    by_contra hc
    simp only [not_or] at hc
    exact hs ⟨⟨⟨⟨⟨hc.1, hc.2.1⟩, hc.2.2.1⟩, hc.2.2.2.1⟩, hc.2.2.2.2.1⟩, hc.2.2.2.2.2⟩
  rcases hcases with rfl | rfl | rfl | rfl | rfl | rfl <;> exact absurd h (by decide)

theorem Derives.value_head {v : Value} {t : List Byte} (h : Derives (.value v) t) :
    ∃ b r, t = b :: r ∧ isStart b = true := by
  cases h with
  | num hq =>
    obtain ⟨b, r, rfl⟩ := List.exists_cons_of_ne_nil (ne_nil_of_numberValue hq)
    exact ⟨b, r, rfl, isStart_of_isNumberByte (isNumberByte_of_numberValue hq b List.mem_cons_self)⟩
  | _ => exact ⟨_, _, rfl, by decide⟩

/-- The text begins, behind whitespace, with a byte that closes nothing. -/
def Headed (t : List Byte) : Prop := ∃ w b r, IsWs w ∧ t = w ++ b :: r ∧ isStart b = true

theorem Headed.append {t : List Byte} (h : Headed t) (u : List Byte) : Headed (t ++ u) := by
  obtain ⟨w, b, r, hw, rfl, hb⟩ := h
  exact ⟨w, b, r ++ u, hw, by simp, hb⟩

theorem Headed.length_pos {t : List Byte} (h : Headed t) : 0 < t.length := by
  obtain ⟨w, b, r, -, rfl, -⟩ := h
  rw [List.length_append, List.length_cons]
  omega

theorem Derives.head {i : Item} {t : List Byte} (h : Derives i t) : Headed t := by
  have hvalue : ∀ {v : Value} {t : List Byte}, Derives (.value v) t → Headed t := by
    intro v t h
    obtain ⟨b, r, rfl, hb⟩ := h.value_head
    exact ⟨[], b, r, isWs_nil, rfl, hb⟩
  induction h with
  | @element v w t w' hw ht hw' ih =>
    obtain ⟨b, r, rfl, hb⟩ := ht.value_head
    exact ⟨w, b, r ++ w', hw, by simp, hb⟩
  | lastElement _ ih => exact ih
  | elements _ _ ih _ => exact ih.append _
  | member hw _ _ _ _ _ _ => exact ⟨_, quote, _, hw, rfl, by decide⟩
  | lastMember _ ih => exact ih
  | members _ _ ih _ => exact ih.append _
  | null => exact hvalue Derives.null
  | boolTrue => exact hvalue Derives.boolTrue
  | boolFalse => exact hvalue Derives.boolFalse
  | num hq => exact hvalue (Derives.num hq)
  | str hs => exact hvalue (Derives.str hs)
  | emptyArr hw => exact hvalue (Derives.emptyArr hw)
  | arr ht _ => exact hvalue (Derives.arr ht)
  | emptyObj hw => exact hvalue (Derives.emptyObj hw)
  | obj ht _ => exact hvalue (Derives.obj ht)

/-! ## Strings and numbers -/

theorem parseChars_complete {s t : List Byte} (h : Chars s t) (rest : List Byte) :
    parseChars (t ++ quote :: rest) = some (s, rest) := by
  induction h with
  | nil =>
    rw [List.nil_append, parseChars.eq_def]
    rfl
  | @plain b s t hb _ ih =>
    have hne : b ≠ quote ∧ b ≠ backslash := by
      simp only [isPlain, Bool.and_eq_true, bne_iff_ne] at hb
      exact ⟨hb.1.2, hb.2⟩
    rw [List.cons_append, parseChars.eq_def]
    simp only [if_neg hne.1, if_neg hne.2, if_pos hb, ih]
    rfl
  | @short e b s t he _ ih =>
    have hne : e ≠ 117 := by
      rintro rfl
      rw [show shortEscape 117 = none by decide] at he
      cases he
    rw [List.cons_append, List.cons_append, parseChars.eq_def]
    simp only [if_neg (show backslash ≠ quote by decide), if_neg hne, he, ih]
    rfl
  | @unicode a b c d code s t hcode _ ih =>
    simp only [List.cons_append]
    rw [parseChars.eq_def]
    simp only [if_neg (show backslash ≠ quote by decide), hcode, ih]
    rfl

/-- What the text between two quotes spells. -/
def decodeChars (t : List Byte) : Option (List Byte) := do
  let (s, rest) ← parseChars (t ++ [quote])
  if rest = [] then some s else none

theorem Chars.decode {s t : List Byte} (h : Chars s t) : decodeChars t = some s := by
  rw [decodeChars, parseChars_complete h []]
  rfl

theorem parseNumber_complete {q : ℚ} {t rest : List Byte} (h : numberValue t = some q)
    (hrest : ∀ b ∈ rest.head?, isNumberByte b = false) : parseNumber (t ++ rest) = some (.num q, rest) := by
  have hall := isNumberByte_of_numberValue h
  have hnone : rest.takeWhile isNumberByte = [] ∧ rest.dropWhile isNumberByte = rest := by
    cases rest with
    | nil => exact ⟨rfl, rfl⟩
    | cons b r =>
      have hb := hrest b rfl
      exact ⟨List.takeWhile_cons_of_neg (by simp [hb]), List.dropWhile_cons_of_neg (by simp [hb])⟩
  rw [parseNumber, List.takeWhile_append_of_pos hall, List.dropWhile_append_of_pos hall, hnone.1, hnone.2,
    List.append_nil, h]
  rfl

/-! ## Completeness -/

/-- What may follow a value: behind a number, nothing that would continue it. -/
def Follows (v : Value) (rest : List Byte) : Prop :=
  ∀ q, v = .num q → ∀ b ∈ rest.head?, isNumberByte b = false

theorem follows_cons {v : Value} {b : Byte} (hb : isNumberByte b = false) (rest : List Byte) :
    Follows v (b :: rest) := by
  rintro q - c hc
  cases hc
  exact hb

theorem follows_ws {v : Value} {w : List Byte} (hw : IsWs w) {b : Byte} (hb : isNumberByte b = false)
    (rest : List Byte) : Follows v (w ++ b :: rest) := by
  cases w with
  | nil => exact follows_cons hb rest
  | cons c w =>
    apply follows_cons
    have hc := hw c List.mem_cons_self
    cases hn : isNumberByte c with
    | false => rfl
    | true => rw [isWs_of_isStart (isStart_of_isNumberByte hn)] at hc; cases hc

/-- What the decoder does on the text of an item, with fuel `n`. -/
def Reads (n : Nat) (i : Item) (t : List Byte) : Prop :=
  match i with
  | .value v => ∀ rest, Follows v rest → parseValue n (t ++ rest) = some (v, rest)
  | .element v => ∀ c rest, isWs c = false → isNumberByte c = false →
      parseElement (parseValue n) (t ++ c :: rest) = some (v, c :: rest)
  | .elements vs => ∀ k rest, t.length ≤ k →
      parseMany (parseElement (parseValue n)) rbracket k (t ++ rbracket :: rest) = some (vs, rest)
  | .member m => ∀ c rest, isWs c = false → isNumberByte c = false →
      parseMember (parseValue n) (t ++ c :: rest) = some (m, c :: rest)
  | .members ms => ∀ k rest, t.length ≤ k →
      parseMany (parseMember (parseValue n)) rbrace k (t ++ rbrace :: rest) = some (ms, rest)

section
variable {α : Type} {item : Parser α} {close : Byte} {a : α} {l : List α}
  {t t' rest : List Byte} {k : Nat}

theorem parseMany_last (hk : 0 < k) (h : item (t ++ close :: rest) = some (a, close :: rest)) :
    parseMany item close k (t ++ close :: rest) = some ([a], rest) := by
  obtain ⟨k, rfl⟩ := Nat.exists_eq_succ_of_ne_zero (Nat.pos_iff_ne_zero.mp hk)
  rw [parseMany]
  simp [h]

theorem parseMany_cons (hclose : comma ≠ close) (hk : 0 < k)
    (h : item (t ++ comma :: (t' ++ close :: rest)) = some (a, comma :: (t' ++ close :: rest)))
    (ih : parseMany item close (k - 1) (t' ++ close :: rest) = some (l, rest)) :
    parseMany item close k (t ++ comma :: t' ++ close :: rest) = some (a :: l, rest) := by
  obtain ⟨k, rfl⟩ := Nat.exists_eq_succ_of_ne_zero (Nat.pos_iff_ne_zero.mp hk)
  rw [Nat.succ_sub_one] at ih
  rw [List.append_assoc, List.cons_append, parseMany]
  simp [h, hclose, ih]

/-- Items behind an opening bracket. -/
theorem parseSeq_of_many (ht : Headed t) (hclose : isStart close = false)
    (h : parseMany item close (t ++ close :: rest).length (t ++ close :: rest) = some (l, rest)) :
    parseSeq item close (t ++ close :: rest) = some (l, rest) := by
  have hnone : expect close (skipWs (t ++ close :: rest)) = none := by
    obtain ⟨w, b, r, hw, rfl, hb⟩ := ht
    have hne : b ≠ close := by
      rintro rfl
      rw [hb] at hclose
      cases hclose
    rw [List.append_assoc, List.cons_append, skipWs_append_cons hw (isWs_of_isStart hb), expect, if_neg hne]
  rw [parseSeq, hnone]
  exact h

theorem parseSeq_empty {w : List Byte} (hw : IsWs w) (hclose : isWs close = false) :
    parseSeq item close (w ++ close :: rest) = some ([], rest) := by
  rw [parseSeq, skipWs_append_cons hw hclose, expect_self]

end

theorem parseWord_complete (w rest : List Byte) (v : Value) :
    parseWord w v (w ++ rest) = some (v, rest) := by
  rw [parseWord, if_pos (List.prefix_append w rest), List.drop_left]

theorem parseValue_number {q : ℚ} {t rest : List Byte} (n : Nat) (h : numberValue t = some q)
    (hrest : ∀ b ∈ rest.head?, isNumberByte b = false) :
    parseValue (n + 1) (t ++ rest) = some (.num q, rest) := by
  obtain ⟨b, r, rfl⟩ := List.exists_cons_of_ne_nil (ne_nil_of_numberValue h)
  have hb := isNumberByte_of_numberValue h b List.mem_cons_self
  have hne : ∀ c, isNumberByte c = false → b ≠ c := by
    rintro c hc rfl
    rw [hb] at hc
    cases hc
  rw [List.cons_append, parseValue, if_neg (hne quote (by decide)), if_neg (hne lbracket (by decide)),
    if_neg (hne lbrace (by decide)), if_neg (hne 110 (by decide)), if_neg (hne 116 (by decide)),
    if_neg (hne 102 (by decide))]
  exact parseNumber_complete h hrest

theorem parseValue_quote (n : Nat) (t : List Byte) :
    parseValue (n + 1) (quote :: t) = (parseChars t).map fun p => (.str p.1, p.2) := by
  rw [parseValue, if_pos rfl]

theorem parseValue_lbracket (n : Nat) (t : List Byte) :
    parseValue (n + 1) (lbracket :: t) =
      (parseSeq (parseElement (parseValue n)) rbracket t).map fun p => (.arr p.1, p.2) := by
  rw [parseValue, if_neg (by decide), if_pos rfl]

theorem parseValue_lbrace (n : Nat) (t : List Byte) :
    parseValue (n + 1) (lbrace :: t) =
      (parseSeq (parseMember (parseValue n)) rbrace t).map fun p => (.obj p.1, p.2) := by
  rw [parseValue, if_neg (by decide), if_neg (by decide), if_pos rfl]

/-- **What the grammar derives, the decoder reads.** -/
theorem Derives.reads {i : Item} {t : List Byte} (h : Derives i t) : ∀ n, t.length ≤ n → Reads n i t := by
  induction h with
  | null =>
    intro n hn rest _
    obtain ⟨n, rfl⟩ := Nat.exists_eq_add_of_le' (show 1 ≤ n from Nat.le_trans (by decide) hn)
    exact parseWord_complete (ascii "ull") rest .null
  | boolTrue =>
    intro n hn rest _
    obtain ⟨n, rfl⟩ := Nat.exists_eq_add_of_le' (show 1 ≤ n from Nat.le_trans (by decide) hn)
    exact parseWord_complete (ascii "rue") rest (.bool true)
  | boolFalse =>
    intro n hn rest _
    obtain ⟨n, rfl⟩ := Nat.exists_eq_add_of_le' (show 1 ≤ n from Nat.le_trans (by decide) hn)
    exact parseWord_complete (ascii "alse") rest (.bool false)
  | @num q t hq =>
    intro n hn rest hrest
    have hpos := List.length_pos_iff.mpr (ne_nil_of_numberValue hq)
    obtain ⟨n, rfl⟩ := Nat.exists_eq_add_of_le' (show 1 ≤ n by omega)
    exact parseValue_number n hq (hrest q rfl)
  | @str s t hs =>
    intro n hn rest _
    simp only [List.length_cons] at hn
    obtain ⟨n, rfl⟩ := Nat.exists_eq_add_of_le' (show 1 ≤ n by omega)
    rw [List.cons_append, List.append_assoc, parseValue_quote, List.singleton_append, parseChars_complete hs]
    rfl
  | @emptyArr w hw =>
    intro n hn rest _
    simp only [List.length_cons] at hn
    obtain ⟨n, rfl⟩ := Nat.exists_eq_add_of_le' (show 1 ≤ n by omega)
    rw [List.cons_append, List.append_assoc, parseValue_lbracket, List.singleton_append,
      parseSeq_empty hw (by decide)]
    rfl
  | @arr vs t ht ih =>
    intro n hn rest _
    simp only [List.length_cons, List.length_append, List.length_nil] at hn
    obtain ⟨n, rfl⟩ := Nat.exists_eq_add_of_le' (show 1 ≤ n by omega)
    have hmany := ih n (by omega) (t ++ rbracket :: rest).length rest (by simp)
    rw [List.cons_append, List.append_assoc, parseValue_lbracket, List.singleton_append,
      parseSeq_of_many ht.head (by decide) hmany]
    rfl
  | @emptyObj w hw =>
    intro n hn rest _
    simp only [List.length_cons] at hn
    obtain ⟨n, rfl⟩ := Nat.exists_eq_add_of_le' (show 1 ≤ n by omega)
    rw [List.cons_append, List.append_assoc, parseValue_lbrace, List.singleton_append,
      parseSeq_empty hw (by decide)]
    rfl
  | @obj ms t ht ih =>
    intro n hn rest _
    simp only [List.length_cons, List.length_append, List.length_nil] at hn
    obtain ⟨n, rfl⟩ := Nat.exists_eq_add_of_le' (show 1 ≤ n by omega)
    have hmany := ih n (by omega) (t ++ rbrace :: rest).length rest (by simp)
    rw [List.cons_append, List.append_assoc, parseValue_lbrace, List.singleton_append,
      parseSeq_of_many ht.head (by decide) hmany]
    rfl
  | @element v w t w' hw ht hw' ih =>
    intro n hn c rest hc hcn
    simp only [List.length_append] at hn
    obtain ⟨b, r, hsplit, hb⟩ := ht.value_head
    have hskip : skipWs (w ++ t ++ w' ++ c :: rest) = t ++ (w' ++ c :: rest) := by
      rw [List.append_assoc, List.append_assoc, skipWs_append hw, hsplit, List.cons_append,
        skipWs_cons (isWs_of_isStart hb)]
    have hread := ih n (by omega) (w' ++ c :: rest) (follows_ws hw' hcn rest)
    rw [parseElement, hskip, hread]
    simp [skipWs_append_cons hw' hc]
  | @lastElement v t ht ih =>
    intro n hn k rest hk
    exact parseMany_last (Nat.lt_of_lt_of_le ht.head.length_pos hk) (ih n hn rbracket rest (by decide) (by decide))
  | @elements v vs t t' _ _ ih ih' =>
    intro n hn k rest hk
    simp only [List.length_append, List.length_cons] at hn hk
    exact parseMany_cons (by decide) (by omega) (ih n (by omega) comma _ (by decide) (by decide))
      (ih' n (by omega) (k - 1) rest (by omega))
  | @member key v w kt w₁ w₂ t w' hw hk hw₁ hw₂ ht hw' ih =>
    intro n hn c rest hc hcn
    simp only [List.length_append, List.length_cons] at hn
    obtain ⟨b, r, hsplit, hb⟩ := ht.value_head
    have hskip : skipWs (w₂ ++ (t ++ (w' ++ c :: rest))) = t ++ (w' ++ c :: rest) := by
      rw [skipWs_append hw₂, hsplit, List.cons_append, skipWs_cons (isWs_of_isStart hb)]
    have hread := ih n (by omega) (w' ++ c :: rest) (follows_ws hw' hcn rest)
    rw [parseMember]
    simp only [List.append_assoc, List.cons_append, skipWs_append_cons hw (show isWs quote = false by decide),
      expect_self, parseChars_complete hk, skipWs_append_cons hw₁ (show isWs colon = false by decide),
      hskip, hread, skipWs_append_cons hw' hc, Option.bind_eq_bind, Option.bind_some]
  | @lastMember m t ht ih =>
    intro n hn k rest hk
    exact parseMany_last (Nat.lt_of_lt_of_le ht.head.length_pos hk) (ih n hn rbrace rest (by decide) (by decide))
  | @members m ms t t' _ _ ih ih' =>
    intro n hn k rest hk
    simp only [List.length_append, List.length_cons] at hn hk
    exact parseMany_cons (by decide) (by omega) (ih n (by omega) comma _ (by decide) (by decide))
      (ih' n (by omega) (k - 1) rest (by omega))

theorem parseValue_complete {v : Value} {t rest : List Byte} (h : Derives (.value v) t)
    (hrest : Follows v rest) {n : Nat} (hn : t.length ≤ n) :
    parseValue n (t ++ rest) = some (v, rest) := h.reads n hn rest hrest

/-- **The decoder gives the meaning of every text.** -/
theorem Document.decode {v : Value} {t : List Byte} (h : Document v t) : decode t = some v := by
  obtain ⟨w, u, w', hw, hu, hw', rfl⟩ := h
  obtain ⟨b, r, hsplit, hb⟩ := hu.value_head
  have hskip : skipWs (w ++ u ++ w') = u ++ w' := by
    rw [List.append_assoc, skipWs_append hw, hsplit, List.cons_append, skipWs_cons (isWs_of_isStart hb)]
  have hfollows : Follows v w' := by
    rintro q - c hc
    cases hn : isNumberByte c with
    | false => rfl
    | true =>
      have hws := hw' c (List.mem_of_mem_head? hc)
      rw [isWs_of_isStart (isStart_of_isNumberByte hn)] at hws
      cases hws
  have hread := parseValue_complete hu hfollows (n := (w ++ u ++ w').length) (by simp; omega)
  rw [Json.decode, hskip, hread]
  simp [skipWs_ws hw']

theorem Document.unique {v v' : Value} {t : List Byte} (h : Document v t) (h' : Document v' t) : v = v' := by
  have heq := h.decode.symm.trans h'.decode
  exact Option.some.inj heq

/-- **An object text has no object text as a proper prefix.** -/
theorem Document.eq_of_isPrefix {ms ms' : List (List Byte × Value)} {t t' : List Byte}
    (h : Document (.obj ms) t) (h' : Derives (.value (.obj ms')) t') (hp : t <+: t') : t = t' := by
  obtain ⟨w, u, w', hw, hu, -, rfl⟩ := h
  obtain ⟨z, rfl⟩ := hp
  obtain ⟨b, r, hsplit, hb⟩ := hu.value_head
  obtain ⟨b', r', hsplit', hb'⟩ := h'.value_head
  have hskip : skipWs (w ++ u ++ w' ++ z) = u ++ (w' ++ z) := by
    rw [List.append_assoc, List.append_assoc, skipWs_append hw, hsplit, List.cons_append,
      skipWs_cons (isWs_of_isStart hb)]
  have hself : skipWs (w ++ u ++ w' ++ z) = w ++ u ++ w' ++ z := by
    rw [hsplit', skipWs_cons (isWs_of_isStart hb')]
  have hobj : ∀ ms rest, Follows (.obj ms) rest := by
    intro ms rest q hq
    cases hq
  have hread := parseValue_complete hu (hobj ms (w' ++ z)) (n := (u ++ (w' ++ z)).length) (by simp)
  have hread' := parseValue_complete h' (hobj ms' []) (Nat.le_refl _)
  rw [List.append_nil, ← hself, hskip, hread] at hread'
  have hnil := (Prod.mk.inj (Option.some.inj hread')).2
  rw [(List.append_eq_nil_iff.mp hnil).2, List.append_nil]

/-! ### Looking a member up -/

/-- What a decoder that keeps one member of a name has under it: the last one. -/
def Value.get (name : List Byte) : Value → Option Value
  | .obj ms => ms.reverse.lookup name
  | _ => none

/-- **Members of different names are all found.** -/
theorem get_of_mem {ms : List (List Byte × Value)} (hnodup : (ms.map Prod.fst).Nodup) {name : List Byte} {v : Value}
    (h : (name, v) ∈ ms) : (Value.obj ms).get name = some v := by
  obtain ⟨before, after, rfl⟩ := List.append_of_mem h
  rw [Value.get, List.lookup_eq_some_iff]
  refine ⟨after.reverse, before.reverse, by simp, ?_⟩
  intro m hm
  rw [List.map_append, List.map_cons, List.nodup_append, List.nodup_cons] at hnodup
  have hne : m.1 ≠ name := by
    rintro rfl
    exact hnodup.2.1.1 (List.mem_map.mpr ⟨m, List.mem_reverse.mp hm, rfl⟩)
  simpa using Ne.symm hne

end Json
