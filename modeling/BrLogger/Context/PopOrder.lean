import BrLogger.Context.LogContext
import Mathlib.Data.List.Induction

/-!
# The order of a thread's tags

`PopScopedTag` looks for its key from the end, as befits a list kept in the
order of the pushes, and then moves the last tag into the place of the one it
removes.  The reference (`TagCall.reference`) takes the match out and leaves
the others where they are.

The two agree on a list whose match has nothing behind it, as in well-nested
scopes, or copies of one tag, which is another order of the same list
(`apply_pop_iff`).  From the first pop that has two different tags behind its
match, the store is no longer in push order (`keepsOrder_iff`), and a later pop
may take an older tag than it should.
-/

namespace BrLogger

variable {L : Limits}

/-! ### The last match of a list -/

section
variable {T : Type} {p : T → Bool} {l₁ l₂ : List T} {x : T}

/-- `l` without its last element that satisfies `p`. -/
def eraseLast (p : T → Bool) (l : List T) : List T := (l.reverse.eraseP p).reverse

theorem eraseLast_split (hx : p x = true) (hnone : ∀ y ∈ l₂, p y = false) :
    eraseLast p (l₁ ++ x :: l₂) = l₁ ++ l₂ := by
  have hbehind : ∀ y ∈ l₂.reverse, ¬ p y = true := by
    intro y hy
    rw [hnone y (List.mem_reverse.mp hy)]
    exact Bool.false_ne_true
  rw [eraseLast, List.reverse_append, List.reverse_cons, List.append_assoc, List.singleton_append,
    List.eraseP_append_right _ hbehind, List.eraseP_cons_of_pos hx, List.reverse_append, List.reverse_reverse,
    List.reverse_reverse]

theorem eraseLast_of_none {l : List T} (hnone : ∀ y ∈ l, p y = false) : eraseLast p l = l := by
  have hother : ∀ y ∈ l.reverse, ¬ p y = true := by
    intro y hy
    rw [hnone y (List.mem_reverse.mp hy)]
    exact Bool.false_ne_true
  rw [eraseLast, List.eraseP_of_forall_not hother, List.reverse_reverse]

theorem exists_last_split (p : T → Bool) (l : List T) :
    (∀ y ∈ l, p y = false) ∨ ∃ l₁ x l₂, l = l₁ ++ x :: l₂ ∧ p x = true ∧ ∀ y ∈ l₂, p y = false := by
  induction l using List.reverseRecOn with
  | nil => exact Or.inl nofun
  | append_singleton l y ih =>
    by_cases hy : p y = true
    · exact Or.inr ⟨l, y, [], rfl, hy, nofun⟩
    · have hy : p y = false := by simpa using hy
      rcases ih with hnone | ⟨l₁, x, l₂, rfl, hx, hnone⟩
      · exact Or.inl fun z hz => (List.mem_append.mp hz).elim (hnone z) fun h => List.mem_singleton.mp h ▸ hy
      · refine Or.inr ⟨l₁, x, l₂ ++ [y], by rw [List.append_assoc, List.cons_append], hx, ?_⟩
        exact fun z hz => (List.mem_append.mp hz).elim (hnone z) fun h => List.mem_singleton.mp h ▸ hy

/-- Bringing the last element to the front changes a list unless all its elements are equal. -/
theorem cons_eq_concat_iff (y : T) (l : List T) : y :: l = l ++ [y] ↔ ∀ z ∈ l, z = y := by
  induction l with
  | nil => simp
  | cons z l ih =>
    rw [List.cons_append, List.cons.injEq, List.forall_mem_cons]
    refine ⟨?_, ?_⟩
    · rintro ⟨rfl, h⟩
      exact ⟨rfl, ih.mp h⟩
    · rintro ⟨rfl, h⟩
      exact ⟨rfl, ih.mpr h⟩

end

/-! ### Calls of one thread -/

inductive TagCall
  | push (key value : CStr)
  | pop (key : CStr)

namespace TagCall

def key : TagCall → CStr
  | push key _ => key
  | pop key => key

def Fits (L : Limits) (a : TagCall) : Prop := a.key.bytes.length < L.maxTagKeyLen

instance (L : Limits) (a : TagCall) : Decidable (a.Fits L) := by unfold Fits; infer_instance

/-- What a call does to the thread's tags. -/
def apply (tags : ScopedTags L) : TagCall → ScopedTags L
  | push key value => pushScopedTag tags (some key) (some value)
  | pop key => popScopedTag tags (some key)

/-- What it does to the list of live tags, as they were passed. -/
def reference (live : List (CStr × CStr)) : TagCall → List (CStr × CStr)
  | push key value => live ++ [(key, value)]
  | pop key => eraseLast (fun pushed => decide (pushed.1 = key)) live

end TagCall

/-- The tag a push stores. -/
def storedTag (L : Limits) (pushed : CStr × CStr) : LogTag L := .make L pushed.1 pushed.2

/-- The live tags pushed after the last one with this key. -/
def behind (key : CStr) (live : List (CStr × CStr)) : List (CStr × CStr) :=
  live.reverse.takeWhile fun pushed => decide (pushed.1 ≠ key)

/-- The live tags behind the last one with this key, if there is one, are stored alike. -/
def BehindAlike (L : Limits) (key : CStr) (live : List (CStr × CStr)) : Prop :=
  (∃ pushed ∈ live, pushed.1 = key) →
    ∀ y ∈ behind key live, ∀ z ∈ behind key live, storedTag L y = storedTag L z

theorem behind_split {key : CStr} {l₁ l₂ : List (CStr × CStr)} {x : CStr × CStr} (hx : x.1 = key)
    (hnone : ∀ y ∈ l₂, y.1 ≠ key) : behind key (l₁ ++ x :: l₂) = l₂.reverse := by
  have hall : ∀ y ∈ l₂.reverse, decide (y.1 ≠ key) = true :=
    fun y hy => decide_eq_true (hnone y (List.mem_reverse.mp hy))
  rw [behind, List.reverse_append, List.reverse_cons, List.append_assoc, List.singleton_append,
    List.takeWhile_append_of_pos hall, List.takeWhile_cons_of_neg (by simpa using hx), List.append_nil]

theorem hasKey_storedTag {key : CStr} (hkey : key.bytes.length < L.maxTagKeyLen) {pushed : CStr × CStr}
    (hpushed : pushed.1.bytes.length < L.maxTagKeyLen) :
    (storedTag L pushed).hasKey key = decide (pushed.1 = key) := by
  rw [Bool.eq_iff_iff, LogTag.hasKey_short hkey, storedTag, LogTag.make_key, LogTag.storedKey_short hkey,
    LogTag.storedKey_short hpushed, decide_eq_true_iff]
  exact ⟨CStr.ext, congrArg CStr.bytes⟩

section
variable {tags : ScopedTags L} {live : List (CStr × CStr)}

theorem apply_push (h : tags.toList = live.map (storedTag L)) (hroom : live.length < L.maxTags) (key value : CStr) :
    (TagCall.apply tags (.push key value)).toList = (TagCall.reference live (.push key value)).map (storedTag L) := by
  have hlt : tags.size < L.maxTags := by
    rw [FixedVector.size, h, List.length_map]
    exact hroom
  rw [TagCall.reference, List.map_append, ← h]
  exact FixedVector.pushBack_of_lt hlt _

/-- **A pop keeps the order exactly when the tags behind its match are alike.** -/
theorem apply_pop_iff (h : tags.toList = live.map (storedTag L)) {key : CStr} (hkey : key.bytes.length < L.maxTagKeyLen)
    (hlive : ∀ pushed ∈ live, pushed.1.bytes.length < L.maxTagKeyLen) :
    (TagCall.apply tags (.pop key)).toList = (TagCall.reference live (.pop key)).map (storedTag L) ↔
      BehindAlike L key live := by
  have hsame : ∀ pushed ∈ live, (storedTag L pushed).hasKey key = decide (pushed.1 = key) :=
    fun pushed hmem => hasKey_storedTag hkey (hlive pushed hmem)
  rcases exists_last_split (fun pushed : CStr × CStr => decide (pushed.1 = key)) live with
    hnone | ⟨l₁, x, l₂, hsplit, hx, hnone⟩
  · have habsent : ∀ tag ∈ tags.toList, tag.hasKey key = false := by
      intro tag htag
      rw [h] at htag
      obtain ⟨pushed, hmem, rfl⟩ := List.mem_map.mp htag
      rw [hsame pushed hmem, hnone pushed hmem]
    have hpop : TagCall.apply tags (.pop key) = tags := by
      simp only [TagCall.apply, popScopedTag, FixedVector.size, lastIndex_eq_none_iff.mpr habsent]
    rw [hpop, TagCall.reference, eraseLast_of_none hnone, h]
    refine iff_of_true rfl ?_
    rintro ⟨pushed, hmem, hkey⟩
    exact absurd hkey (of_decide_eq_false (hnone pushed hmem))
  · have hstored : tags.toList = l₁.map (storedTag L) ++ storedTag L x :: l₂.map (storedTag L) := by
      rw [h, hsplit, List.map_append, List.map_cons]
    have hfound : lastIndex (LogTag.hasKey key) tags.toList tags.size = some (l₁.map (storedTag L)).length := by
      rw [FixedVector.size, hstored]
      apply lastIndex_split
      · rw [hsame x (hsplit ▸ List.mem_append_right _ (List.mem_cons_self ..)), hx]
      · intro tag htag
        obtain ⟨pushed, hmem, rfl⟩ := List.mem_map.mp htag
        rw [hsame pushed (hsplit ▸ List.mem_append_right _ (List.mem_cons_of_mem _ hmem)), hnone pushed hmem]
    have hpop : TagCall.apply tags (.pop key) = tags.swapRemove (l₁.map (storedTag L)).length := by
      simp only [TagCall.apply, popScopedTag, hfound]
    have hx := of_decide_eq_true hx
    have hne : ∀ y ∈ l₂, y.1 ≠ key := fun y hy => of_decide_eq_false (hnone y hy)
    have halike : BehindAlike L key live ↔ ∀ y ∈ l₂, ∀ z ∈ l₂, storedTag L y = storedTag L z := by
      have hpresent : ∃ pushed ∈ live, pushed.1 = key :=
        ⟨x, hsplit ▸ List.mem_append_right _ (List.mem_cons_self ..), hx⟩
      have hbehind : behind key live = l₂.reverse := hsplit ▸ behind_split hx hne
      simp only [BehindAlike, hbehind, List.mem_reverse]
      exact ⟨fun h => h hpresent, fun h _ => h⟩
    rw [hpop, halike, TagCall.reference, hsplit,
      eraseLast_split (p := fun pushed : CStr × CStr => decide (pushed.1 = key)) (decide_eq_true hx) hnone, List.map_append]
    rcases List.eq_nil_or_concat' l₂ with rfl | ⟨l₂, y, rfl⟩
    · rw [FixedVector.swapRemove_last hstored]
      simp
    · rw [List.map_append, List.map_singleton] at hstored
      rw [FixedVector.swapRemove_concat hstored, List.map_append, List.map_singleton, List.append_right_inj,
        cons_eq_concat_iff]
      refine ⟨?_, ?_⟩
      · intro h
        have hlast : ∀ z ∈ l₂ ++ [y], storedTag L z = storedTag L y := fun z hz =>
          (List.mem_append.mp hz).elim (fun hz => h _ (List.mem_map_of_mem hz)) fun hz => by rw [List.mem_singleton.mp hz]
        exact fun z hz w hw => (hlast z hz).trans (hlast w hw).symm
      · intro h tag htag
        obtain ⟨z, hz, rfl⟩ := List.mem_map.mp htag
        exact h z (List.mem_append_left _ hz) y (List.mem_append_right _ (List.mem_singleton_self y))

end

/-! ### Runs of calls -/

namespace TagCall

/-- The thread's tags after the calls. -/
def run (L : Limits) (calls : List TagCall) : ScopedTags L := calls.foldl apply .nil

/-- The live tags after the calls, in the order they were pushed. -/
def live (calls : List TagCall) : List (CStr × CStr) := calls.foldl reference []

/-- The keys fit and there are never more live tags than the store holds. -/
def WithinLimits (L : Limits) (calls : List TagCall) : Prop :=
  ∀ done a, done ++ [a] <+: calls → a.Fits L ∧ (live (done ++ [a])).length ≤ L.maxTags

/-- After every call the thread's tags are the live ones in the order of their pushes. -/
def KeepsOrder (L : Limits) (calls : List TagCall) : Prop :=
  ∀ done, done <+: calls → (run L done).toList = (live done).map (storedTag L)

/-- No pop has two different tags behind its match. -/
def PopsNearEnd (L : Limits) (calls : List TagCall) : Prop :=
  ∀ done key, done ++ [.pop key] <+: calls → BehindAlike L key (live done)

theorem run_concat (calls : List TagCall) (a : TagCall) : run L (calls ++ [a]) = apply (run L calls) a :=
  List.foldl_concat ..

theorem live_concat (calls : List TagCall) (a : TagCall) : live (calls ++ [a]) = reference (live calls) a :=
  List.foldl_concat ..

theorem WithinLimits.init {calls : List TagCall} {a : TagCall} (h : WithinLimits L (calls ++ [a])) :
    WithinLimits L calls := fun done b hdone => h done b (hdone.trans (List.prefix_append ..))

theorem key_of_mem_live {calls : List TagCall} (h : WithinLimits L calls) :
    ∀ pushed ∈ live calls, pushed.1.bytes.length < L.maxTagKeyLen := by
  induction calls using List.reverseRecOn with
  | nil => exact nofun
  | append_singleton calls a ih =>
    intro pushed hmem
    rw [live_concat] at hmem
    cases a with
    | push key value =>
      rcases List.mem_append.mp hmem with hmem | hmem
      · exact ih h.init pushed hmem
      · rw [List.mem_singleton.mp hmem]
        exact (h calls _ (List.prefix_refl _)).1
    | pop key =>
      have hsub := List.mem_reverse.mp (List.eraseP_subset (List.mem_reverse.mp hmem))
      exact ih h.init pushed hsub

theorem keepsOrder_concat_iff {calls : List TagCall} {a : TagCall} :
    KeepsOrder L (calls ++ [a]) ↔
      KeepsOrder L calls ∧ (apply (run L calls) a).toList = (reference (live calls) a).map (storedTag L) := by
  rw [← run_concat, ← live_concat]
  refine ⟨?_, ?_⟩
  · exact fun h => ⟨fun done hdone => h done (hdone.trans (List.prefix_append ..)), h _ (List.prefix_refl _)⟩
  · rintro ⟨hinit, hlast⟩ done hdone
    rcases List.prefix_concat_iff.mp hdone with rfl | hdone
    · exact hlast
    · exact hinit done hdone

theorem popsNearEnd_concat_iff {calls : List TagCall} {a : TagCall} :
    PopsNearEnd L (calls ++ [a]) ↔
      PopsNearEnd L calls ∧ ∀ key, a = .pop key → BehindAlike L key (live calls) := by
  refine ⟨?_, ?_⟩
  · intro h
    refine ⟨fun done key hdone => h done key (hdone.trans (List.prefix_append ..)), ?_⟩
    rintro key rfl
    exact h calls key (List.prefix_refl _)
  · rintro ⟨hinit, hlast⟩ done key hdone
    rcases List.prefix_concat_iff.mp hdone with heq | hdone
    · obtain ⟨rfl, hpop⟩ := List.append_inj' heq rfl
      exact hlast key (List.singleton_inj.mp hpop).symm
    · exact hinit done key hdone

/-- **The calls keep the push order exactly when no pop has two different tags behind
its match.** -/
theorem keepsOrder_iff (calls : List TagCall) (h : WithinLimits L calls) :
    KeepsOrder L calls ↔ PopsNearEnd L calls := by
  induction calls using List.reverseRecOn with
  | nil =>
    refine iff_of_true ?_ ?_
    · intro done hdone
      rw [List.prefix_nil.mp hdone]
      rfl
    · intro done key hdone
      cases (List.append_eq_nil_iff.mp (List.prefix_nil.mp hdone)).2
  | append_singleton calls a ih =>
    obtain ⟨hfits, hroom⟩ := h calls a (List.prefix_refl _)
    rw [keepsOrder_concat_iff, popsNearEnd_concat_iff, ih h.init]
    refine and_congr_right fun hnear => ?_
    have hsame := (ih h.init).mpr hnear calls (List.prefix_refl _)
    cases a with
    | push key value =>
      refine iff_of_true (apply_push hsame ?_ key value) nofun
      rw [live_concat, reference, List.length_append, List.length_singleton] at hroom
      omega
    | pop key =>
      have hkey : key.bytes.length < L.maxTagKeyLen := hfits
      rw [apply_pop_iff hsame hkey (key_of_mem_live h.init)]
      exact ⟨fun halike k hk => TagCall.pop.inj hk ▸ halike, fun halike => halike key rfl⟩

/-! ### An older tag is popped -/

theorem length_live_le (calls : List TagCall) : (live calls).length ≤ calls.length := by
  induction calls using List.reverseRecOn with
  | nil => exact Nat.le_refl _
  | append_singleton calls a ih =>
    rw [live_concat, List.length_append, List.length_singleton]
    cases a with
    | push key value =>
      rw [reference, List.length_append, List.length_singleton]
      omega
    | pop key =>
      have hle := List.length_eraseP_le (p := fun pushed : CStr × CStr => decide (pushed.1 = key))
        (l := (live calls).reverse)
      rw [List.length_reverse] at hle
      rw [reference, eraseLast, List.length_reverse]
      omega

theorem withinLimits_of_length {calls : List TagCall} (hlen : calls.length ≤ L.maxTags)
    (hfits : ∀ a ∈ calls, a.Fits L) : WithinLimits L calls := by
  intro done a hdone
  have hle := hdone.length_le
  have := length_live_le (done ++ [a])
  exact ⟨hfits a (hdone.subset (List.mem_append_right _ (List.mem_singleton_self a))), by omega⟩

def keyNode : CStr := ⟨ascii "node", by decide⟩

def keyTopic : CStr := ⟨ascii "topic", by decide⟩

def keyPhase : CStr := ⟨ascii "phase", by decide⟩

/-- Two `topic` tags with another between them; the tag in front of them goes first. -/
def crossing : List TagCall :=
  [.push keyNode keyNode, .push keyTopic keyNode, .push keyPhase keyPhase, .push keyTopic keyTopic,
    .pop keyNode, .pop keyTopic]

theorem crossing_within : WithinLimits Limits.desktop crossing := by
  apply withinLimits_of_length (by decide)
  decide

theorem keepsOrder_iff_crossing :
    KeepsOrder Limits.desktop crossing ↔ PopsNearEnd Limits.desktop crossing :=
  keepsOrder_iff crossing crossing_within

/-- **The last pop takes the older `topic` tag** and leaves the one pushed last. -/
theorem not_keepsOrder_crossing : WithinLimits Limits.desktop crossing ∧
    live crossing = [(keyTopic, keyNode), (keyPhase, keyPhase)] ∧
    (run Limits.desktop crossing).toList =
      [storedTag Limits.desktop (keyTopic, keyTopic), storedTag Limits.desktop (keyPhase, keyPhase)] ∧
    ¬ KeepsOrder Limits.desktop crossing := by
  refine ⟨crossing_within, by decide, by decide +kernel, ?_⟩
  intro h
  have hlast := h crossing (List.prefix_refl _)
  revert hlast
  decide +kernel

end TagCall

end BrLogger
