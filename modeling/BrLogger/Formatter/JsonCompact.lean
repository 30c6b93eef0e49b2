import BrLogger.Formatter.JsonOutput

/-!
# Compact records are single lines

In the compact mode `Format` writes no byte below `0x20`: the texts between the
fields have none, and every one in a field is escaped (`rendering_printable`).
So whatever a message contains, its record has no newline in it.
-/

namespace BrLogger

/-- No control characters. -/
def Printable (t : List Byte) : Prop := ∀ b ∈ t, (32 : Byte) ≤ b

theorem printable_append {s t : List Byte} (hs : Printable s) (ht : Printable t) : Printable (s ++ t) :=
  fun b hb => (List.mem_append.mp hb).elim (hs b) (ht b)

theorem printable_cons {c : Byte} {t : List Byte} (hc : (32 : Byte) ≤ c) (ht : Printable t) : Printable (c :: t) := by
  intro b hb
  rcases List.mem_cons.mp hb with rfl | hb
  · exact hc
  · exact ht b hb

theorem printable_nil : Printable [] := nofun

theorem Printable.newline {t : List Byte} (h : Printable t) : 10 ∉ t := fun hmem => absurd (h 10 hmem) (by decide)

theorem printable_of_plain {t : List Byte} (h : ∀ b ∈ t, Json.isPlain b = true) : Printable t := by
  intro b hb
  have hplain := h b hb
  simp only [Json.isPlain, Bool.and_eq_true, decide_eq_true_eq] at hplain
  exact hplain.1.1

theorem printable_decimal (n : Nat) : Printable (decimal n) := by
  intro b hb
  have hdigit := isDigit_of_mem_decimal hb
  rw [isDigit, Bool.and_eq_true, decide_eq_true_eq] at hdigit
  exact UInt8.le_trans (by decide) hdigit.1

theorem printable_escapeUnit (c : Byte) : Printable (escapeUnit c) := by
  have hall : ∀ n < 256, ((escapeUnit (UInt8.ofNat n)).all fun b => (32 : Byte) ≤ b) = true := by decide +kernel
  have hunit := hall c.toNat c.toNat_lt
  rw [UInt8.ofNat_toNat] at hunit
  intro b hb
  exact of_decide_eq_true (List.all_eq_true.mp hunit b hb)

theorem printable_escape (s : List Byte) : Printable (BoundedText.escape escapeUnit s) := by
  intro b hb
  obtain ⟨c, _, hc⟩ := List.mem_flatMap.mp hb
  exact printable_escapeUnit c b hc

theorem printable_quoted {t : List Byte} (h : Printable t) : Printable (quoted t) :=
  printable_cons (by decide) (printable_append h (printable_cons (by decide) printable_nil))

/-! ### Objects -/

/-- The texts of a name and its value. -/
def PrintableField (f : List Byte × List Byte) : Prop := Printable f.1 ∧ Printable f.2

theorem printable_memberText {f : List Byte × List Byte} (h : PrintableField f) :
    Printable (Json.memberText [] [] f.1 f.2) :=
  printable_cons (by decide) (printable_append h.1 (printable_cons (by decide) (printable_cons (by decide) h.2)))

theorem printable_membersText {l : List (List Byte × List Byte)} (h : ∀ f ∈ l, PrintableField f) :
    Printable (Json.membersText [] [] [] l) := by
  induction l with
  | nil => exact printable_nil
  | cons f l ih =>
    have hf := printable_memberText (h f List.mem_cons_self)
    have hl := ih fun g hg => h g (List.mem_cons_of_mem f hg)
    cases l with
    | nil => exact printable_append hf printable_nil
    | cons g l => exact printable_append hf (printable_cons (by decide) hl)

theorem printable_objectText {l : List (List Byte × List Byte)} (h : ∀ f ∈ l, PrintableField f) :
    Printable (Json.objectText [] [] [] l) :=
  printable_cons (by decide) (printable_append (printable_membersText h) (printable_cons (by decide) printable_nil))

theorem JsonRecord.printable_fields (r : JsonRecord) : ∀ f ∈ r.fields false, PrintableField f := by
  have hfield : ∀ k v, k.all Json.isPlain = true → Printable v → PrintableField (k, v) :=
    fun k v hk hv => ⟨printable_of_plain (List.all_eq_true.mp hk), hv⟩
  have htags : ∀ f ∈ r.tags.map tagField, PrintableField f := by
    intro f hf
    obtain ⟨tag, _, rfl⟩ := List.mem_map.mp hf
    exact ⟨printable_escape tag.1, printable_quoted (printable_escape tag.2)⟩
  rw [fields]
  refine List.forall_mem_cons.mpr ⟨hfield (ascii "ts") _ (by decide) (printable_quoted (printable_of_plain r.ts_plain)), ?_⟩
  refine List.forall_mem_cons.mpr ⟨hfield (ascii "level") _ (by decide) (printable_quoted (printable_of_plain r.level_plain)), ?_⟩
  refine List.forall_mem_cons.mpr ⟨hfield (ascii "file") _ (by decide) (printable_quoted (printable_escape r.file)), ?_⟩
  refine List.forall_mem_cons.mpr ⟨hfield (ascii "line") _ (by decide) (printable_decimal r.line), ?_⟩
  refine List.forall_mem_cons.mpr ⟨hfield (ascii "func") _ (by decide) (printable_quoted (printable_escape r.func)), ?_⟩
  refine List.forall_mem_cons.mpr ⟨hfield (ascii "tid") _ (by decide) (printable_decimal r.tid), ?_⟩
  refine List.forall_mem_cons.mpr ⟨hfield (ascii "pid") _ (by decide) (printable_decimal r.pid), ?_⟩
  refine List.forall_mem_cons.mpr ⟨hfield (ascii "thread") _ (by decide) (printable_quoted (printable_escape r.thread)), ?_⟩
  refine List.forall_mem_cons.mpr ⟨hfield (ascii "seq") _ (by decide) (printable_decimal r.seq), ?_⟩
  refine List.forall_mem_cons.mpr ⟨hfield (ascii "tags") _ (by decide) (printable_objectText htags), ?_⟩
  exact List.forall_mem_singleton.mpr
    (hfield (ascii "msg") _ (by decide) (printable_quoted (printable_escape r.msg)))

variable {L : Limits}

namespace JsonFormatter

/-- **A compact record has no control character**, whatever the entry contains. -/
theorem rendering_printable (localtime : LocalTime) (entry : LogEntry L) : Printable (rendering localtime false entry) := by
  rw [rendering, JsonRecord.text_pieces]
  exact printable_objectText (entry.record localtime).printable_fields

/-- Read back, it is the record of the entry. -/
theorem decode_rendering (localtime : LocalTime) (pretty : Bool) (entry : LogEntry L) :
    Json.decode (rendering localtime pretty entry) = some (.obj (entry.record localtime).members) :=
  ((entry.record localtime).derives_text pretty).document.decode

theorem rendering_ne_nil (localtime : LocalTime) (pretty : Bool) (entry : LogEntry L) :
    rendering localtime pretty entry ≠ [] := by
  rw [rendering, JsonRecord.text_pieces]
  exact List.cons_ne_nil _ _

end JsonFormatter

end BrLogger
