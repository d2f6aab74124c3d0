import PropDoc.Proofs.Comment.Grammar
import PropDoc.Proofs.Comment.Margin

/-!
# Line ends of comments

A comment reads the same whether its lines end in a newline or in a carriage return and a newline.
Both characters are blank, so that the delimiters are found in the same places, and of each line the
carriage returns at the end are not read, however many there are.
-/

namespace PropDoc.Comment

/-- A text with a carriage return put before every newline. -/
def withReturns (cs : List Char) : List Char :=
  cs.flatMap fun c ↦ if c = '\n' then ['\r', '\n'] else [c]

@[simp] theorem withReturns_nil : withReturns [] = [] := rfl

@[simp] theorem withReturns_newline (cs : List Char) :
    withReturns ('\n' :: cs) = '\r' :: '\n' :: withReturns cs := rfl

private theorem withReturns_cons_of_ne {c : Char} (h : c ≠ '\n') (cs : List Char) :
    withReturns (c :: cs) = c :: withReturns cs := by
  rw [withReturns, List.flatMap_cons, if_neg h]
  rfl

private theorem withReturns_append (first second : List Char) :
    withReturns (first ++ second) = withReturns first ++ withReturns second :=
  List.flatMap_append

private theorem withReturns_of_not_mem {cs : List Char} (h : '\n' ∉ cs) : withReturns cs = cs := by
  induction cs with
  | nil => rfl
  | cons c cs ih =>
    rw [List.mem_cons, not_or] at h
    rw [withReturns_cons_of_ne (Ne.symm h.1), ih h.2]

/-! ### Trimming -/

private theorem trimStart_withReturns (cs : List Char) :
    Text.trimStart (withReturns cs) = withReturns (Text.trimStart cs) := by
  induction cs with
  | nil => rfl
  | cons c cs ih =>
    by_cases hline : c = '\n'
    · subst hline
      exact ih
    · rw [withReturns_cons_of_ne hline]
      cases hblank : Text.isBlank c with
      | true => simpa [Text.trimStart, hblank] using ih
      | false =>
        rw [Text.trimStart_cons_of_not_blank hblank, Text.trimStart_cons_of_not_blank hblank,
          withReturns_cons_of_ne hline]

private theorem trimEnd_withReturns (cs : List Char) :
    Text.trimEnd (withReturns cs) = withReturns (Text.trimEnd cs) := by
  induction cs using List.reverseRecOn with
  | nil => rfl
  | append_singleton cs c ih =>
    rw [withReturns_append]
    cases hblank : Text.isBlank c with
    | true =>
      have hadded : ∀ d ∈ withReturns [c], Text.isBlank d = true := by
        by_cases hline : c = '\n'
        · subst hline
          exact List.all_eq_true.mp (by decide)
        · simp [withReturns_cons_of_ne hline, hblank]
      have hlast : ∀ d ∈ [c], Text.isBlank d = true := by simp [hblank]
      rw [Text.trimEnd, Text.dropEndWhile_append_of_forall hadded, Text.trimEnd,
        Text.dropEndWhile_append_of_forall hlast]
      exact ih
    | false =>
      have hline : '\n' ∉ [c] := by
        rw [List.mem_singleton]
        rintro rfl
        exact absurd hblank (by decide)
      have hkept : ∀ start, Text.trimEnd (start ++ [c]) = start ++ [c] :=
        fun start ↦ Text.dropEndWhile_append_cons hblank start []
      rw [withReturns_of_not_mem hline, hkept, hkept, withReturns_append,
        withReturns_of_not_mem hline]

private theorem trim_withReturns (cs : List Char) :
    Text.trim (withReturns cs) = withReturns (Text.trim cs) := by
  rw [Text.trim, trimStart_withReturns, trimEnd_withReturns, Text.trim]

/-! ### Delimiters -/

private theorem exists_of_withReturns_eq_append {first : List Char} (hreturn : '\r' ∉ first)
    {cs rest : List Char} (h : withReturns cs = first ++ rest) :
    ∃ cs', cs = first ++ cs' ∧ withReturns cs' = rest := by
  induction first generalizing cs with
  | nil => exact ⟨cs, rfl, h⟩
  | cons c first ih =>
    rw [List.mem_cons, not_or] at hreturn
    cases cs with
    | nil => cases h
    | cons d cs =>
      by_cases hline : d = '\n'
      · subst hline
        exact absurd (List.head_eq_of_cons_eq h) hreturn.1
      · rw [withReturns_cons_of_ne hline] at h
        obtain ⟨rfl, hfirst⟩ := List.cons.inj h
        obtain ⟨cs', rfl, hrest⟩ := ih hreturn.2 hfirst
        exact ⟨cs', rfl, hrest⟩

private theorem exists_of_withReturns_eq_append' {last : List Char} (hline : '\n' ∉ last)
    {cs rest : List Char} (h : withReturns cs = rest ++ last) :
    ∃ cs', cs = cs' ++ last ∧ withReturns cs' = rest := by
  induction last using List.reverseRecOn generalizing cs with
  | nil => exact ⟨cs, by simp, by simpa using h⟩
  | append_singleton last c ih =>
    rw [List.mem_append, not_or, List.mem_singleton] at hline
    rw [← List.append_assoc] at h
    cases cs using List.reverseRecOn with
    | nil => simp at h
    | append_singleton cs d =>
      rw [withReturns_append] at h
      by_cases hd : d = '\n'
      · subst hd
        have hlast := congrArg List.getLast? h
        rw [List.getLast?_concat, withReturns_newline] at hlast
        simp at hlast
        exact absurd hlast hline.2
      · have hsingle : withReturns [d] = [d] := withReturns_of_not_mem (by simpa using Ne.symm hd)
        rw [hsingle] at h
        obtain ⟨hrest, hlast⟩ := List.append_inj' h rfl
        obtain ⟨cs', rfl, hcs'⟩ := ih hline.1 hrest
        exact ⟨cs', by rw [List.head_eq_of_cons_eq hlast, List.append_assoc], hcs'⟩

private theorem body?_withReturns (cs : List Char) :
    body? (withReturns cs) = (body? cs).map withReturns := by
  cases hbody : body? cs with
  | some body =>
    rw [body?_eq_some_iff] at hbody
    rw [Option.map_some, body?_eq_some_iff, trim_withReturns, hbody, withReturns_append,
      withReturns_append]
    rfl
  | none =>
    rw [Option.map_none, Option.eq_none_iff_forall_ne_some]
    intro body' hbody'
    rw [body?_eq_some_iff, trim_withReturns, List.append_assoc] at hbody'
    obtain ⟨rest, htrim, hrest⟩ := exists_of_withReturns_eq_append (by decide) hbody'
    obtain ⟨body, rfl, -⟩ := exists_of_withReturns_eq_append' (by decide) hrest
    rw [← List.append_assoc] at htrim
    rw [(body?_eq_some_iff cs body).mpr htrim] at hbody
    cases hbody

/-! ### Lines -/

private theorem shown_append_return (line : List Char) : shown (line ++ ['\r']) = shown line := by
  rw [shown, Text.dropEndWhile_append_of_forall (by simp), shown]

-- The lines of a text read the same with carriage returns before its newlines. The start of the
-- first line may have been passed already.
private theorem map_shown_splitOn_withReturns {start : List Char} (hstart : '\n' ∉ start)
    (cs : List Char) :
    ((start ++ withReturns cs).splitOn '\n').map shown =
      ((start ++ cs).splitOn '\n').map shown := by
  induction cs generalizing start with
  | nil => rfl
  | cons c cs ih =>
    by_cases hline : c = '\n'
    · subst hline
      have hreturn : '\n' ∉ start ++ ['\r'] := by simp [hstart]
      have hsplit : start ++ '\r' :: '\n' :: withReturns cs =
          (start ++ ['\r']) ++ '\n' :: withReturns cs := by simp
      rw [withReturns_newline, hsplit, List.splitOn_append_cons_self_of_not_mem hreturn,
        List.splitOn_append_cons_self_of_not_mem hstart, List.map_cons, List.map_cons,
        shown_append_return]
      exact congrArg (shown start :: ·) (ih List.not_mem_nil)
    · have hmore : '\n' ∉ start ++ [c] := by simp [hstart, Ne.symm hline]
      rw [withReturns_cons_of_ne hline, List.append_cons, List.append_cons start c cs]
      exact ih hmore

private theorem bodyLines_withReturns (body : List Char) :
    bodyLines (withReturns body) = bodyLines body := by
  rw [bodyLines_eq_map_shown, bodyLines_eq_map_shown]
  exact map_shown_splitOn_withReturns List.not_mem_nil body

/-! ### Comments -/

/-- A comment reads the same with a carriage return before every newline, whatever it holds and
whatever is wrong with it. -/
theorem read_withReturns (tags : TagSet) (text : String) (firstLine : Nat) :
    read tags (String.ofList (withReturns text.toList)) firstLine = read tags text firstLine := by
  unfold read
  rw [String.toList_ofList, body?_withReturns]
  cases body? text.toList with
  | none => rfl
  | some body =>
    rw [Option.map_some]
    dsimp only
    rw [bodyLines_withReturns]

end PropDoc.Comment
