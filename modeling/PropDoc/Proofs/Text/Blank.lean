import Mathlib.Data.List.DropRight
import PropDoc.Proofs.List
import PropDoc.Text.Basic

/-!
# Laws of trimming
-/

namespace PropDoc.Text

/-- Dropping at the end is what the library calls dropping from the right. -/
theorem dropEndWhile_eq_rdropWhile (p : Char → Bool) (cs : List Char) :
    dropEndWhile p cs = cs.rdropWhile p := rfl

/-- Nothing is left by trimming exactly if all is blank. -/
theorem trim_eq_nil_iff (cs : List Char) : trim cs = [] ↔ ∀ c ∈ cs, isBlank c = true := by
  rw [trim, trimEnd, dropEndWhile_eq_rdropWhile, List.rdropWhile_eq_nil_iff, trimStart]
  constructor
  · intro h c hc
    rw [← List.takeWhile_append_dropWhile (p := isBlank) (l := cs), List.mem_append] at hc
    rcases hc with hstart | hrest
    · exact List.mem_takeWhile_imp hstart
    · exact h c hrest
  · intro h c hc
    exact h c ((List.dropWhile_sublist isBlank).mem hc)

/-- Something is left of a text exactly if some character of it is not blank. -/
theorem trim_ne_nil_iff (cs : List Char) : trim cs ≠ [] ↔ ∃ c ∈ cs, isBlank c = false := by
  rw [ne_eq, trim_eq_nil_iff]
  simp

/-- Dropping at the end reaches the first of two texts only if nothing is left of the second. -/
theorem dropEndWhile_append (p : Char → Bool) (first second : List Char) :
    dropEndWhile p (first ++ second) =
      if dropEndWhile p second = [] then dropEndWhile p first
      else first ++ dropEndWhile p second := by
  simp only [dropEndWhile, List.reverse_append, List.dropWhile_append, List.isEmpty_iff,
    List.reverse_eq_nil_iff]
  split <;> simp

/-- A character that is not dropped keeps all that stands before it. -/
theorem dropEndWhile_append_cons {p : Char → Bool} {c : Char} (h : p c = false)
    (before after : List Char) :
    dropEndWhile p (before ++ c :: after) = before ++ c :: dropEndWhile p after := by
  have hkept : dropEndWhile p (c :: after) = c :: dropEndWhile p after := by
    rw [← List.singleton_append, dropEndWhile_append]
    split
    · next hnil =>
      rw [hnil]
      simp [dropEndWhile, h]
    · rfl
  rw [dropEndWhile_append, hkept, if_neg (List.cons_ne_nil c _)]

/-- Nothing is dropped before a character that is not blank. -/
theorem trimStart_cons_of_not_blank {c : Char} (h : isBlank c = false) (cs : List Char) :
    trimStart (c :: cs) = c :: cs := by
  simp [trimStart, h]

/-- Blanks at the start are dropped. -/
theorem trimStart_append_of_blank {blanks : List Char} (h : ∀ c ∈ blanks, isBlank c = true)
    (cs : List Char) : trimStart (blanks ++ cs) = trimStart cs :=
  List.dropWhile_append_of_pos h

/-- What passes at the end is dropped. -/
theorem dropEndWhile_append_of_forall {p : Char → Bool} {dropped : List Char}
    (h : ∀ c ∈ dropped, p c = true) (cs : List Char) :
    dropEndWhile p (cs ++ dropped) = dropEndWhile p cs := by
  have hnil : dropEndWhile p dropped = [] := List.rdropWhile_eq_nil_iff.mpr h
  rw [dropEndWhile_append, if_pos hnil]

/-- Blanks at the end are dropped. -/
theorem trim_append_of_blank {blanks : List Char} (h : ∀ c ∈ blanks, isBlank c = true)
    (cs : List Char) : trim (cs ++ blanks) = trim cs := by
  have hnil : blanks.dropWhile isBlank = [] := List.dropWhile_eq_nil_iff.mpr h
  rw [trim, trimStart, List.dropWhile_append, trim, trimStart]
  split
  · next hempty => rw [hnil, List.isEmpty_iff.mp hempty]
  · exact dropEndWhile_append_of_forall h _

/-- Trimming also drops what a narrower rule drops at the end. -/
theorem trim_dropEndWhile {p : Char → Bool} (hp : ∀ c, p c = true → isBlank c = true)
    (cs : List Char) : trim (dropEndWhile p cs) = trim cs := by
  have hblank : ∀ c ∈ cs.rtakeWhile p, isBlank c = true :=
    fun c hc ↦ hp c (List.mem_rtakeWhile_imp hc)
  rw [← trim_append_of_blank hblank (dropEndWhile p cs), dropEndWhile_eq_rdropWhile,
    List.rdropWhile_append_rtakeWhile]

/-- A text that trimming keeps has no blank at its start. -/
theorem trimStart_eq_self_of_trim_eq_self {cs : List Char} (h : trim cs = cs) :
    trimStart cs = cs := by
  apply (List.dropWhile_sublist isBlank).eq_of_length_le
  calc cs.length = (trim cs).length := by rw [h]
    _ ≤ (trimStart cs).length := (List.rdropWhile_prefix isBlank _).length_le

/-- A text that trimming keeps has no blank at its end. -/
theorem trimEnd_eq_self_of_trim_eq_self {cs : List Char} (h : trim cs = cs) :
    trimEnd cs = cs := by
  rwa [trim, trimStart_eq_self_of_trim_eq_self h] at h

/-- Dropping at the end keeps a text exactly if its last character is not dropped. -/
theorem dropEndWhile_eq_self_iff (p : Char → Bool) (cs : List Char) :
    dropEndWhile p cs = cs ↔ ∀ c ∈ cs.getLast?, p c = false := by
  rw [dropEndWhile_eq_rdropWhile, List.rdropWhile_eq_self_iff]
  constructor
  · intro h c hc
    obtain ⟨hne, rfl⟩ := List.mem_getLast?_eq_getLast hc
    simpa using h hne
  · intro h hne
    simp [h _ (List.getLast?_eq_some_getLast hne)]

/-- Trimming keeps a text exactly if neither its first nor its last character is blank. -/
theorem trim_eq_self_iff (cs : List Char) :
    trim cs = cs ↔ (∀ c ∈ cs.head?, isBlank c = false) ∧ ∀ c ∈ cs.getLast?, isBlank c = false := by
  constructor
  · intro h
    have hstart : cs.dropWhile isBlank = cs := trimStart_eq_self_of_trim_eq_self h
    refine ⟨?_, (dropEndWhile_eq_self_iff _ _).mp (trimEnd_eq_self_of_trim_eq_self h)⟩
    intro c hc
    have hhead := List.head?_dropWhile_not isBlank cs
    rw [hstart, hc] at hhead
    simpa using hhead
  · rintro ⟨hfirst, hlast⟩
    have hstart : trimStart cs = cs := by
      cases cs with
      | nil => rfl
      | cons c cs => exact trimStart_cons_of_not_blank (hfirst c rfl) cs
    rw [trim, hstart]
    exact (dropEndWhile_eq_self_iff _ _).mpr hlast

/-- A text that starts and ends with trimmed ones is trimmed. -/
theorem trim_append_append {first second : List Char} (hfirst : trim first = first)
    (hsecond : trim second = second) (hne : first ≠ []) (hne' : second ≠ [])
    (between : List Char) : trim (first ++ between ++ second) = first ++ between ++ second := by
  rw [trim_eq_self_iff] at hfirst hsecond ⊢
  constructor
  · rw [List.append_assoc, List.head?_append_of_ne_nil _ hne]
    exact hfirst.1
  · rw [List.getLast?_append_of_ne_nil _ hne']
    exact hsecond.2

/-- Texts that are trimmed and not empty make such a text when they are joined. -/
theorem trim_intercalate (separator : List Char) {items : List (List Char)} (hne : items ≠ [])
    (h : ∀ item ∈ items, item ≠ [] ∧ trim item = item) :
    separator.intercalate items ≠ [] ∧
      trim (separator.intercalate items) = separator.intercalate items := by
  induction items with
  | nil => exact absurd rfl hne
  | cons first items ih =>
    obtain ⟨⟨hfirst, htrim⟩, hitems⟩ := List.forall_mem_cons.mp h
    cases items with
    | nil =>
      rw [List.intercalate_singleton]
      exact ⟨hfirst, htrim⟩
    | cons second items =>
      obtain ⟨hrest, htrim'⟩ := ih (List.cons_ne_nil _ _) hitems
      rw [List.intercalate_cons_cons]
      exact ⟨by simp [hfirst], trim_append_append htrim htrim' hfirst hrest separator⟩

/-- Trimming only takes characters away. -/
theorem trim_sublist (cs : List Char) : (trim cs).Sublist cs :=
  (List.rdropWhile_prefix isBlank _).sublist.trans (List.dropWhile_sublist isBlank)

/-- A trimmed text has no blanks to trim. -/
theorem trim_trim (cs : List Char) : trim (trim cs) = trim cs := by
  have hstart : trimStart (trim cs) = trim cs := by
    obtain ⟨dropped, hdropped⟩ : trim cs <+: trimStart cs := List.rdropWhile_prefix isBlank _
    cases htrim : trim cs with
    | nil => rfl
    | cons c rest =>
      have hhead : (trimStart cs).head? = some c := by rw [← hdropped, htrim]; rfl
      have hblank := List.head?_dropWhile_not isBlank cs
      rw [show cs.dropWhile isBlank = trimStart cs from rfl, hhead] at hblank
      exact trimStart_cons_of_not_blank (by simpa using hblank) rest
  rw [trim, hstart]
  exact List.rdropWhile_idempotent isBlank (trimStart cs)

/-- Trimming keeps a text without blanks. -/
theorem trim_eq_self_of_not_blank {cs : List Char} (h : ∀ c ∈ cs, isBlank c = false) :
    trim cs = cs := by
  rw [trim_eq_self_iff]
  exact ⟨fun c hc ↦ h c (List.mem_of_mem_head? hc), fun c hc ↦ h c (List.mem_of_getLast? hc)⟩

/-- A rule that drops blanks only keeps a text without a blank at its end. -/
theorem dropEndWhile_eq_self_of_trimEnd {p : Char → Bool}
    (hp : ∀ c, p c = true → isBlank c = true) {cs : List Char} (h : trimEnd cs = cs) :
    dropEndWhile p cs = cs := by
  rw [trimEnd, dropEndWhile_eq_rdropWhile, List.rdropWhile_eq_self_iff] at h
  rw [dropEndWhile_eq_rdropWhile, List.rdropWhile_eq_self_iff]
  exact fun hne hlast ↦ h hne (hp _ hlast)

end PropDoc.Text
