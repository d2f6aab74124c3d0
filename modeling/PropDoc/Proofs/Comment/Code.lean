import PropDoc.Proofs.Comment.Grammar
import PropDoc.Proofs.Comment.Margin
import PropDoc.Proofs.Comment.Mark
import PropDoc.Proofs.Comment.Rescan

/-!
# Code in comments

Code is not interpreted. Two comments that differ only in the lines inside their fences and in the
text of their code spans have the same marks: the reader goes through both in step, since no line
becomes a fence or stops being one, and the tokens outside fences are the same but for code. So the
two have the same modifiers and the same blocks apart from their text, and the same is wrong with
them, but for the names of blocks.
-/

namespace PropDoc.Comment

/-- A line is another one with other text in its code spans. The margin and the carriage returns at
the end stay. -/
def RecodedLine (line line' : List Char) : Prop :=
  ∃ margin returns tokens, line = margin ++ shown line ++ returns ∧ (∀ c ∈ returns, c = '\r') ∧
    List.Forall₂ Token.Recoded (Token.ofLine (shown line)) tokens ∧
    line' = margin ++ Token.sources tokens ++ returns

/-- Consecutive lines, the first of which is inside or outside of a fence, are others with other
code: the fences are the same, any lines stand inside of them, and the lines outside have other text
in their code spans. -/
inductive RecodedLines : Bool → List (List Char) → List (List Char) → Prop where
  | done (inFence : Bool) : RecodedLines inFence [] []
  | fence {inFence : Bool} {line : List Char} {lines lines' : List (List Char)} :
      Event.isFence (shown line) = true → RecodedLines (!inFence) lines lines' →
      RecodedLines inFence (line :: lines) (line :: lines')
  | inside {line line' : List Char} {lines lines' : List (List Char)} :
      Event.isFence (shown line) = false → Event.isFence (shown line') = false →
      RecodedLines true lines lines' → RecodedLines true (line :: lines) (line' :: lines')
  | outside {line line' : List Char} {lines lines' : List (List Char)} :
      Event.isFence (shown line) = false → Event.isFence (shown line') = false →
      RecodedLine line line' → RecodedLines false lines lines' →
      RecodedLines false (line :: lines) (line' :: lines')

/-- A comment is another one with other code. Nothing is read of a comment without its frame. -/
inductive Recoded : List Char → List Char → Prop where
  | unframed {text text' : List Char} :
      body? text = none → body? text' = none → Recoded text text'
  | framed {before body body' after : List Char} :
      (∀ c ∈ before, Text.isBlank c = true) → (∀ c ∈ after, Text.isBlank c = true) →
      RecodedLines false (body.splitOn '\n') (body'.splitOn '\n') →
      Recoded (before ++ (['/', '*', '*'] ++ body ++ ['*', '/']) ++ after)
        (before ++ (['/', '*', '*'] ++ body' ++ ['*', '/']) ++ after)

/-! ### Lines -/

/-- A line is itself with the same text in its code spans. -/
theorem RecodedLine.refl (line : List Char) : RecodedLine line line := by
  obtain ⟨margin, returns, hline, hreturns⟩ := exists_margin line
  refine ⟨margin, returns, Token.ofLine (shown line), hline, hreturns, ?_, ?_⟩
  · exact List.forall₂_same.mpr fun token _ ↦ .same token
  · rwa [Token.ofLine, Token.sources_scan]

private theorem ofLine_of_recoded {line line' : List Char} (h : RecodedLine line line') :
    List.Forall₂ Token.Recoded (Token.ofLine (shown line)) (Token.ofLine (shown line')) := by
  obtain ⟨margin, returns, tokens, hline, hreturns, htokens, rfl⟩ := h
  have hsame := Token.sameBeforeCode_sources htokens
  have hlast := Token.getLast?_sources htokens
  rw [Token.ofLine, Token.sources_scan] at hsame hlast
  have hshown : shown (margin ++ Token.sources tokens ++ returns) = Token.sources tokens :=
    shown_of_ends (hline ▸ rfl) hreturns hsame.head?_eq hlast
  have hscan : Token.ofLine (Token.sources tokens) = tokens := Token.scan_sources htokens
  rwa [hshown, hscan]

variable {tags : TagSet}

private theorem filterMap_mark?_of_recoded {tokens tokens' : List Token}
    (h : List.Forall₂ Token.Recoded tokens tokens') (number : Nat) :
    tokens'.filterMap (Token.mark? tags number) = tokens.filterMap (Token.mark? tags number) := by
  induction h with
  | nil => rfl
  | @cons token token' _ _ htoken _ ih =>
    have hmark : token'.mark? tags number = token.mark? tags number := by
      cases htoken <;> rfl
    rw [List.filterMap_cons, List.filterMap_cons, hmark, ih]

-- Going through two comments in step, with a fence open in both or in neither, the reader finds
-- the same marks.
private theorem marks_ofLines_of_recoded {inFence : Bool} {lines lines' : List (List Char)}
    (h : RecodedLines inFence lines lines') (number : Nat) :
    Event.marks (Event.ofLines tags inFence number (lines'.map shown)) =
      Event.marks (Event.ofLines tags inFence number (lines.map shown)) := by
  induction h generalizing number with
  | done => rfl
  | fence hfence _ ih =>
    simp only [List.map_cons, Event.ofLines, hfence, if_true, Event.marks_text]
    exact ih (number + 1)
  | inside hline hline' _ ih =>
    simp only [List.map_cons, Event.ofLines, hline, hline', Bool.false_eq_true, if_false, if_true,
      Event.marks_text]
    exact ih (number + 1)
  | outside hline hline' hrecoded _ ih =>
    simp only [List.map_cons, Event.ofLines, hline, hline', Bool.false_eq_true, if_false,
      Event.marks_append]
    rw [Event.marks_ofLine, Event.marks_ofLine,
      filterMap_mark?_of_recoded (ofLine_of_recoded hrecoded), ih (number + 1)]

/-! ### Comments -/

private theorem body?_framed {before body after : List Char}
    (hbefore : ∀ c ∈ before, Text.isBlank c = true) (hafter : ∀ c ∈ after, Text.isBlank c = true) :
    body? (before ++ (['/', '*', '*'] ++ body ++ ['*', '/']) ++ after) = some body := by
  rw [body?_eq_some_iff, Text.trim_append_of_blank hafter, Text.trim,
    Text.trimStart_append_of_blank hbefore]
  exact Text.trim_append_append (by decide) (by decide) (by simp) (by simp) body

private theorem exists_events_of_recoded {text text' : String}
    (h : Recoded text.toList text'.toList) (tags : TagSet) (firstLine : Nat) :
    ∃ events events', read tags text firstLine = Reading.ofEvents events ∧
      read tags text' firstLine = Reading.ofEvents events' ∧
      Event.marks events' = Event.marks events := by
  unfold read
  generalize text.toList = cs at h
  generalize text'.toList = cs' at h
  cases h with
  | unframed hbody hbody' =>
    rw [hbody, hbody']
    exact ⟨_, _, rfl, rfl, rfl⟩
  | framed hbefore hafter hlines =>
    rw [body?_framed hbefore hafter, body?_framed hbefore hafter]
    refine ⟨_, _, rfl, rfl, ?_⟩
    rw [bodyLines_eq_map_shown, bodyLines_eq_map_shown]
    exact marks_ofLines_of_recoded hlines firstLine

/-- Code is not interpreted: a comment with other code has the same modifiers, the same blocks apart
from their text, and the same problems but for those of names. -/
theorem read_of_recoded {text text' : String} (h : Recoded text.toList text'.toList)
    (tags : TagSet) (firstLine : Nat) :
    (read tags text' firstLine).doc.modifiers = (read tags text firstLine).doc.modifiers ∧
    (read tags text' firstLine).doc.blocks.map Block.head =
      (read tags text firstLine).doc.blocks.map Block.head ∧
    (read tags text' firstLine).diagnostics.filter (fun diagnostic ↦
        !diagnostic.problem.concernsName) =
      (read tags text firstLine).diagnostics.filter fun diagnostic ↦
        !diagnostic.problem.concernsName := by
  obtain ⟨events, events', hread, hread', hmarks⟩ := exists_events_of_recoded h tags firstLine
  rw [hread, hread']
  simp only [Reading.modifiers_ofEvents, Reading.map_head_blocks_ofEvents,
    Reading.filter_diagnostics_ofEvents, hmarks, and_self]

private def plainLines : List String := ["", " * `a`", " * ```", " * b", " * ```", " * `c` @prop "]

private def markupLines : List String :=
  ["", " * `@beta \x7b`", " * ```", "@internal */ \\", " * ```", " * `\\` @prop "]

-- The text of a comment with some lines.
private def framed (lines : List String) : String := "/**" ++ "\n".intercalate lines ++ "*/"

private theorem recodedLines_markup :
    RecodedLines false (plainLines.map String.toList) (markupLines.map String.toList) := by
  have hspan : Token.ofLine (shown " * `a`".toList) = [.code ['a']] := by decide +kernel
  have htag : Token.ofLine (shown " * `c` @prop ".toList) =
      [.code ['c'], .char ' ', .tag "@prop".toList, .char ' '] := by decide +kernel
  refine .outside (by decide) (by decide) (.refl _) (.outside (by decide) (by decide) ?_
    (.fence (by decide) (.inside (by decide) (by decide) (.fence (by decide)
      (.outside (by decide) (by decide) ?_ (.done false))))))
  · refine ⟨" * ".toList, [], [.code "@beta \x7b".toList], by decide, by simp, ?_, by decide⟩
    rw [hspan]
    exact .cons (.code _ (by decide)) .nil
  · refine ⟨" * ".toList, [], [.code ['\\'], .char ' ', .tag "@prop".toList, .char ' '],
      by decide, by simp, ?_, by decide⟩
    rw [htag]
    exact .cons (.code _ (by decide)) (.cons (.same _) (.cons (.same _) (.cons (.same _) .nil)))

/-- A comment with plain code and one with markup there. -/
theorem read_of_recoded_markup :
    let plain := read TagSet.standard (framed plainLines) 1
    let markup := read TagSet.standard (framed markupLines) 1
    Recoded (framed plainLines).toList (framed markupLines).toList ∧
    markup.doc.modifiers = plain.doc.modifiers ∧
    markup.doc.blocks.map Block.head = plain.doc.blocks.map Block.head ∧
    markup.diagnostics.filter (fun diagnostic ↦ !diagnostic.problem.concernsName) =
      plain.diagnostics.filter fun diagnostic ↦ !diagnostic.problem.concernsName := by
  have hplain : (framed plainLines).toList = [] ++ (['/', '*', '*'] ++
      ("\n".intercalate plainLines).toList ++ ['*', '/']) ++ [] := by decide +kernel
  have hmarkup : (framed markupLines).toList = [] ++ (['/', '*', '*'] ++
      ("\n".intercalate markupLines).toList ++ ['*', '/']) ++ [] := by decide +kernel
  have hlines : ("\n".intercalate plainLines).toList.splitOn '\n' =
      plainLines.map String.toList := by decide +kernel
  have hlines' : ("\n".intercalate markupLines).toList.splitOn '\n' =
      markupLines.map String.toList := by decide +kernel
  have hrecoded : Recoded (framed plainLines).toList (framed markupLines).toList := by
    rw [hplain, hmarkup]
    refine .framed (by simp) (by simp) ?_
    rw [hlines, hlines']
    exact recodedLines_markup
  exact ⟨hrecoded, read_of_recoded hrecoded TagSet.standard 1⟩

end PropDoc.Comment
