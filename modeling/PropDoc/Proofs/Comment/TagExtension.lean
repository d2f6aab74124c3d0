import PropDoc.Proofs.Comment.Grammar

/-!
# Comments under more tags

A comment with nothing wrong under a tag set reads the same under every larger one. A token that is
not wrong names only tags that the smaller set defines, so that both sets give it one meaning; with
the meanings agree the events of every line, and with these the whole reading.
-/

namespace PropDoc.Comment

/-! ### Larger tag sets -/

namespace TagSet

/-- A tag set defines all that another defines, and in the same way. -/
def Extends (more tags : TagSet) : Prop :=
  ∀ name tag, tags.get? name = some tag → more.get? name = some tag

private theorem Extends.insert {more tags : TagSet} (h : more.Extends tags) {tag : Tag}
    (hnew : tags.get? tag.name = none) : (more.insert tag).Extends tags := by
  intro name known hknown
  rw [get?_insert]
  by_cases hname : name = tag.name
  · subst hname
    simp [hnew] at hknown
  · simpa [hname] using h name known hknown

private theorem Extends.insertAll {more tags : TagSet} (h : more.Extends tags) {extra : List Tag}
    (hnew : ∀ tag ∈ extra, tags.get? tag.name = none) : (more.insertAll extra).Extends tags := by
  induction extra generalizing more with
  | nil => exact h
  | cons tag extra ih =>
    apply ih (h.insert (hnew tag List.mem_cons_self))
    intro other hother
    exact hnew other (List.mem_cons_of_mem tag hother)

/-- Tags with new names make a set larger, even where they replace one another. -/
theorem extends_insertAll {tags : TagSet} {extra : List Tag}
    (hnew : ∀ tag ∈ extra, tags.get? tag.name = none) : (tags.insertAll extra).Extends tags := by
  have hself : tags.Extends tags := fun name tag hknown ↦ hknown
  exact hself.insertAll hnew

end TagSet

/-! ### Lines -/

variable {more tags : TagSet}

private theorem meaning_of_extends (h : more.Extends tags) {token : Token}
    (hclean : token.IsClean tags) : token.meaning more = token.meaning tags := by
  -- Only tags are looked up, and one that is not found is wrong.
  have hlookup (name : String) (hknown : tags.get? name ≠ none) :
      more.get? name = tags.get? name := by
    cases hfound : tags.get? name with
    | none => exact absurd hfound hknown
    | some tag => exact h name tag hfound
  cases token with
  | inline name content =>
    have hknown : tags.get? (String.ofList name) ≠ none := by
      intro hnone
      apply hclean (.undefinedTag (String.ofList name)) []
      simp [Token.meaning, hnone]
    simp only [Token.meaning, hlookup _ hknown]
  | tag name =>
    have hknown : tags.get? (String.ofList name) ≠ none := by
      intro hnone
      apply hclean (.undefinedTag (String.ofList name)) name
      simp [Token.meaning, hnone]
    simp only [Token.meaning, hlookup _ hknown]
  | _ => rfl

private theorem ofLine_of_extends (h : more.Extends tags) {number : Nat} {line : List Char}
    (hclean : NoProblem (Event.ofLine tags number line)) :
    Event.ofLine more number line = Event.ofLine tags number line := by
  rw [Event.ofLine, noProblem_ofMeanings_iff, List.forall_mem_map] at hclean
  have hmeanings : (Token.ofLine line).map (Token.meaning more) =
      (Token.ofLine line).map (Token.meaning tags) := by
    apply List.map_congr_left
    intro token htoken
    exact meaning_of_extends h (hclean token htoken)
  rw [Event.ofLine, Event.ofLine, hmeanings]

private theorem ofLines_of_extends (h : more.Extends tags) {inFence : Bool} {number : Nat}
    {lines : List (List Char)} (hclean : NoProblem (Event.ofLines tags inFence number lines)) :
    Event.ofLines more inFence number lines = Event.ofLines tags inFence number lines := by
  induction lines generalizing inFence number with
  | nil => rfl
  | cons line lines ih =>
    rw [Event.ofLines] at hclean ⊢
    rw [Event.ofLines]
    by_cases hfence : Event.isFence line
    · rw [if_pos hfence, noProblem_cons_iff] at hclean
      rw [if_pos hfence, if_pos hfence, ih hclean.2]
    · rw [if_neg hfence] at hclean
      rw [if_neg hfence, if_neg hfence]
      cases inFence with
      | true =>
        rw [if_pos rfl, noProblem_cons_iff] at hclean
        rw [if_pos rfl, if_pos rfl, ih hclean.2]
      | false =>
        rw [if_neg Bool.false_ne_true, noProblem_append_iff] at hclean
        rw [if_neg Bool.false_ne_true, if_neg Bool.false_ne_true, ofLine_of_extends h hclean.1,
          ih hclean.2]

/-! ### Comments -/

private theorem noProblem_of_diagnostics {events : List Event}
    (h : (Reading.ofEvents events).diagnostics = []) : NoProblem events := by
  have hlines : events.filterMap Event.diagnostic? = [] := (List.append_eq_nil_iff.mp h).1
  exact List.filterMap_eq_nil_iff.mp hlines

/-- A comment with nothing wrong reads the same when more tags are known. -/
theorem read_of_extends (h : more.Extends tags) {text : String} {firstLine : Nat}
    (hclean : (read tags text firstLine).diagnostics = []) :
    read more text firstLine = read tags text firstLine := by
  unfold read at hclean ⊢
  cases hbody : body? text.toList with
  | none => rfl
  | some body =>
    rw [hbody] at hclean
    dsimp only at hclean ⊢
    rw [ofLines_of_extends h (noProblem_of_diagnostics hclean)]

end PropDoc.Comment
