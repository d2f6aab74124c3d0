import PropDoc.Proofs.List
import PropDoc.Text.Basic

/-!
# Laws of cutting

Cutting finds the first occurrence of a separator, and fails only where there is none.
-/

namespace PropDoc.Text

/-- A text is cut in two by the first occurrence of a separator. -/
def CutsFirst (separator text before after : List Char) : Prop :=
  text = before ++ separator ++ after ∧
    ∀ before' after', text = before' ++ separator ++ after' → before.length ≤ before'.length

/-- Cutting at a character gives what stands before and after its first occurrence. -/
theorem cutAt?_eq_some_iff (separator : Char) (cs before after : List Char) :
    cutAt? separator cs = some (before, after) ↔
      cs = before ++ separator :: after ∧ separator ∉ before := by
  induction cs generalizing before with
  | nil => simp [cutAt?]
  | cons c cs ih =>
    by_cases hc : c = separator
    · subst hc
      simp only [cutAt?, if_true, Option.some.injEq, Prod.mk.injEq]
      constructor
      · rintro ⟨rfl, rfl⟩
        simp
      · rintro ⟨hsplit, hbefore⟩
        cases before with
        | nil => simpa using hsplit
        | cons first before =>
          obtain ⟨rfl, -⟩ := List.cons.inj hsplit
          simp at hbefore
    · simp only [cutAt?, hc, if_false, Option.map_eq_some_iff, Prod.mk.injEq]
      constructor
      · rintro ⟨⟨before', after'⟩, hcut, rfl, rfl⟩
        obtain ⟨rfl, hbefore⟩ := (ih before').mp hcut
        exact ⟨rfl, by simp [Ne.symm hc, hbefore]⟩
      · rintro ⟨hsplit, hbefore⟩
        cases before with
        | nil => exact absurd (List.cons.inj hsplit).1 hc
        | cons first before =>
          obtain ⟨rfl, hrest⟩ := List.cons.inj hsplit
          refine ⟨(before, after), (ih before).mpr ⟨hrest, ?_⟩, rfl, rfl⟩
          exact fun hmem ↦ hbefore (List.mem_cons_of_mem c hmem)

/-- Cutting at a character fails only where it does not occur. -/
theorem cutAt?_eq_none_iff (separator : Char) (cs : List Char) :
    cutAt? separator cs = none ↔ separator ∉ cs := by
  induction cs with
  | nil => simp [cutAt?]
  | cons c cs ih =>
    by_cases hc : c = separator
    · simp [cutAt?, hc]
    · simp [cutAt?, hc, ih, Ne.symm hc]

/-- Cutting fails only where the separator does not occur. -/
theorem cut?_eq_none_iff (separator cs : List Char) :
    cut? separator cs = none ↔ ¬ separator <:+: cs := by
  induction cs with
  | nil => cases separator <;> simp [cut?]
  | cons c cs ih =>
    rw [cut?, List.infix_cons_iff, ← List.isPrefixOf_iff_prefix]
    by_cases hstart : separator.isPrefixOf (c :: cs) = true
    · simp [hstart]
    · simp [hstart, ih]

/-- Cutting gives what stands before and after the first occurrence of the separator. -/
theorem cut?_eq_some_iff (separator cs before after : List Char) :
    cut? separator cs = some (before, after) ↔ CutsFirst separator cs before after := by
  induction cs generalizing before with
  | nil =>
    cases separator with
    | nil =>
      simp only [cut?, List.isEmpty_nil, if_true, Option.some.injEq, Prod.mk.injEq, CutsFirst]
      constructor
      · rintro ⟨rfl, rfl⟩
        exact ⟨rfl, by simp⟩
      · rintro ⟨hsplit, -⟩
        simpa [eq_comm] using hsplit
    | cons c separator => simp [cut?, CutsFirst]
  | cons c cs ih =>
    by_cases hstart : separator.isPrefixOf (c :: cs) = true
    · obtain ⟨rest, hrest⟩ := List.isPrefixOf_iff_prefix.mp hstart
      rw [cut?, if_pos hstart, ← hrest, List.drop_left]
      simp only [Option.some.injEq, Prod.mk.injEq, CutsFirst]
      constructor
      · rintro ⟨rfl, rfl⟩
        exact ⟨by simp, fun _ _ _ ↦ Nat.zero_le _⟩
      · rintro ⟨hsplit, hleast⟩
        have hzero := hleast [] rest (by simp)
        obtain rfl := List.eq_nil_of_length_eq_zero (Nat.le_zero.mp hzero)
        exact ⟨rfl, by simpa using hsplit⟩
    · rw [cut?, if_neg hstart]
      simp only [Option.map_eq_some_iff, Prod.mk.injEq]
      constructor
      · rintro ⟨⟨before', after'⟩, hcut, rfl, rfl⟩
        obtain ⟨hsplit, hleast⟩ := (ih before').mp hcut
        refine ⟨by rw [hsplit]; rfl, ?_⟩
        intro other rest hother
        cases other with
        | nil =>
          exact absurd (List.isPrefixOf_iff_prefix.mpr ⟨rest, by simpa using hother.symm⟩) hstart
        | cons first other =>
          have hle := hleast other rest (List.cons.inj hother).2
          simpa using hle
      · rintro ⟨hsplit, hleast⟩
        cases before with
        | nil =>
          exact absurd (List.isPrefixOf_iff_prefix.mpr ⟨after, by simpa using hsplit.symm⟩) hstart
        | cons first before =>
          obtain ⟨rfl, htail⟩ := List.cons.inj hsplit
          refine ⟨(before, after), (ih before).mpr ⟨htail, ?_⟩, rfl, rfl⟩
          intro other rest hother
          have hle := hleast (c :: other) rest (by rw [hother]; rfl)
          simpa using hle

/-- Cutting skips a text that does not hold the first character of the separator. -/
theorem cut?_append_of_not_mem {c : Char} {skipped : List Char} (h : c ∉ skipped)
    (separator cs : List Char) :
    cut? (c :: separator) (skipped ++ cs) =
      (cut? (c :: separator) cs).map fun halves ↦ (skipped ++ halves.1, halves.2) := by
  induction skipped with
  | nil => simp
  | cons first skipped ih =>
    rw [List.mem_cons, not_or] at h
    have hstart : (c :: separator).isPrefixOf (first :: (skipped ++ cs)) = false := by
      simp [List.isPrefixOf, h.1]
    rw [List.cons_append, cut?, hstart, if_neg Bool.false_ne_true, ih h.2, Option.map_map]
    rfl

/-- Dropping an ending undoes appending it. -/
theorem dropEnding?_eq_some_iff (ending cs rest : List Char) :
    dropEnding? ending cs = some rest ↔ cs = rest ++ ending := by
  unfold dropEnding?
  by_cases hending : ending.isSuffixOf cs = true
  · obtain ⟨start, rfl⟩ := List.isSuffixOf_iff_suffix.mp hending
    simp [hending]
  · rw [if_neg hending]
    simp only [reduceCtorEq, false_iff]
    rintro rfl
    exact hending (List.isSuffixOf_iff_suffix.mpr (List.suffix_append rest ending))

end PropDoc.Text
