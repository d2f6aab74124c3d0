import PropDoc.Comment.Doc
import PropDoc.Proofs.Text.Blank

/-!
# Margins

A line is a margin, the text that is read, and carriage returns. What the margin is depends on the
text after it in no more than its first character, and what the carriage returns are in no more than
its last.
-/

namespace PropDoc.Comment

/-- What is read of a line: all but its margin and the carriage returns at its end. -/
def shown (line : List Char) : List Char := dropMargin (Text.dropEndWhile (· == '\r') line)

/-- The lines of a body are its rows, each as it is shown. -/
theorem bodyLines_eq_map_shown (body : List Char) :
    bodyLines body = (body.splitOn '\n').map shown := rfl

private theorem dropMargin_cons_of_blank {c : Char} (h : Text.isBlank c = true) (cs : List Char) :
    dropMargin (c :: cs) = dropMargin cs := by
  rw [dropMargin, Text.trimStart, List.dropWhile_cons_of_pos h]
  rfl

private theorem dropMargin_cons_star (cs : List Char) :
    dropMargin ('*' :: cs) = if cs.head? = some ' ' then cs.tail else cs := by
  rw [dropMargin, Text.trimStart_cons_of_not_blank (by decide)]
  cases cs with
  | nil => rfl
  | cons c cs =>
    by_cases hspace : c = ' '
    · subst hspace
      rfl
    · simp [hspace]

private theorem dropMargin_cons_of_ne_star {c : Char} (h : Text.isBlank c = false) (hstar : c ≠ '*')
    (cs : List Char) : dropMargin (c :: cs) = c :: cs := by
  rw [dropMargin, Text.trimStart_cons_of_not_blank h]
  split
  · next heq =>
    cases heq
    exact absurd rfl hstar
  · next heq =>
    cases heq
    exact absurd rfl hstar
  · rfl

/-- A margin is dropped at the start only. -/
theorem dropMargin_suffix (cs : List Char) : dropMargin cs <:+ cs := by
  induction cs with
  | nil => exact List.suffix_rfl
  | cons c cs ih =>
    cases hblank : Text.isBlank c with
    | true =>
      rw [dropMargin_cons_of_blank hblank]
      exact ih.trans (List.suffix_cons c cs)
    | false =>
      by_cases hstar : c = '*'
      · subst hstar
        rw [dropMargin_cons_star]
        refine List.IsSuffix.trans ?_ (List.suffix_cons '*' cs)
        split
        · exact List.tail_suffix cs
        · exact List.suffix_rfl
      · exact ⟨[], by rw [List.nil_append, dropMargin_cons_of_ne_star hblank hstar]⟩

private theorem dropMargin_append_cons {margin : List Char} {c : Char} {rest : List Char}
    (h : dropMargin (margin ++ c :: rest) = c :: rest) (rest' : List Char) :
    dropMargin (margin ++ c :: rest') = c :: rest' := by
  induction margin with
  | nil =>
    rw [List.nil_append] at h ⊢
    cases hblank : Text.isBlank c with
    | true =>
      rw [dropMargin_cons_of_blank hblank] at h
      have hle := (dropMargin_suffix rest).length_le
      rw [h, List.length_cons] at hle
      omega
    | false =>
      by_cases hstar : c = '*'
      · rw [hstar, dropMargin_cons_star] at h
        have hlength := congrArg List.length h
        split at hlength <;> simp at hlength
      · exact dropMargin_cons_of_ne_star hblank hstar rest'
  | cons d margin ih =>
    rw [List.cons_append] at h ⊢
    cases hblank : Text.isBlank d with
    | true =>
      rw [dropMargin_cons_of_blank hblank] at h ⊢
      exact ih h
    | false =>
      by_cases hstar : d = '*'
      · rw [hstar, dropMargin_cons_star] at h ⊢
        cases margin with
        | nil =>
          have hspace : c ≠ ' ' := by
            rintro rfl
            simp at h
          simp [hspace]
        | cons e margin =>
          simp only [List.cons_append, List.head?_cons, Option.some.injEq, List.tail_cons] at h ⊢
          by_cases hspace : e = ' '
          · rw [if_pos hspace, List.append_left_eq_self] at h
            rw [if_pos hspace, h, List.nil_append]
          · rw [if_neg hspace] at h
            have hlength := congrArg List.length h
            simp only [List.length_cons, List.length_append] at hlength
            omega
      · rw [dropMargin_cons_of_ne_star hblank hstar] at h
        have hlength := congrArg List.length h
        simp only [List.length_cons, List.length_append] at hlength
        omega

private theorem getLast?_shown (line : List Char) :
    ∀ c ∈ (shown line).getLast?, (c == '\r') = false := by
  have hdropped := (Text.dropEndWhile_eq_self_iff (· == '\r') _).mp
    (List.rdropWhile_idempotent (· == '\r') line)
  obtain ⟨margin, hmargin⟩ := dropMargin_suffix (Text.dropEndWhile (· == '\r') line)
  intro c hc
  apply hdropped
  rw [← Text.dropEndWhile_eq_rdropWhile, ← hmargin, Option.mem_def, List.getLast?_append]
  exact Option.or_eq_some_iff.mpr (.inl hc)

/-- What is read of a line is any text between the same margin and carriage returns that starts and
ends with the same characters. -/
theorem shown_of_ends {margin line line' returns : List Char}
    (h : shown (margin ++ line ++ returns) = line) (hreturns : ∀ c ∈ returns, c = '\r')
    (hfirst : line'.head? = line.head?) (hlast : line'.getLast? = line.getLast?) :
    shown (margin ++ line' ++ returns) = line' := by
  cases line with
  | nil =>
    rw [List.head?_nil, List.head?_eq_none_iff] at hfirst
    rwa [hfirst]
  | cons c rest =>
    obtain ⟨rest', rfl⟩ := List.head?_eq_some_iff.mp hfirst
    have hends := getLast?_shown (margin ++ c :: rest ++ returns)
    rw [h] at hends
    have hkept : ∀ cs, (c :: cs).getLast? = (c :: rest).getLast? →
        Text.dropEndWhile (· == '\r') (margin ++ c :: cs ++ returns) = margin ++ c :: cs := by
      intro cs hcs
      rw [Text.dropEndWhile_append_of_forall fun c hc ↦ beq_iff_eq.mpr (hreturns c hc),
        Text.dropEndWhile_eq_self_iff, List.getLast?_append_of_ne_nil _ (List.cons_ne_nil c cs),
        hcs]
      exact hends
    rw [shown, hkept rest rfl] at h
    rw [shown, hkept rest' hlast]
    exact dropMargin_append_cons h rest'

/-- A line is a margin, what is read of it, and carriage returns. -/
theorem exists_margin (line : List Char) :
    ∃ margin returns, line = margin ++ shown line ++ returns ∧ ∀ c ∈ returns, c = '\r' := by
  obtain ⟨margin, hmargin⟩ := dropMargin_suffix (Text.dropEndWhile (· == '\r') line)
  refine ⟨margin, line.rtakeWhile (· == '\r'), ?_, ?_⟩
  · rw [shown, hmargin, Text.dropEndWhile_eq_rdropWhile, List.rdropWhile_append_rtakeWhile]
  · intro c hc
    simpa using List.mem_rtakeWhile_imp hc

end PropDoc.Comment
