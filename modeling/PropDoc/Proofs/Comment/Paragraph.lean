import PropDoc.Comment.Doc
import PropDoc.Proofs.List
import PropDoc.Proofs.Text.Blank

/-!
# Laws of paragraphs

The paragraphs of some lines are the maximal runs of lines that are not blank, one for one and in
order, and each line of a run stands in its paragraph trimmed. So the first paragraph is the first
of these runs, lines that trim to the same text have the same paragraphs, and the text that
paragraphs make up has the same paragraphs again.
-/

namespace PropDoc.Comment

/-- The first maximal run of lines that are not blank, each line trimmed, joined by one space. -/
def firstParagraph (lines : List (List Char)) : List Char :=
  [' '].intercalate
    (((lines.dropWhile Text.allBlank).takeWhile fun line ↦ !Text.allBlank line).map Text.trim)

private theorem isEmpty_trim (line : List Char) :
    (Text.trim line).isEmpty = Text.allBlank line := by
  rw [Bool.eq_iff_iff, List.isEmpty_iff, Text.trim_eq_nil_iff, Text.allBlank, List.all_eq_true]

-- The runs of some lines, the first of them closed.
private def closedRuns (lines : List (List Char)) : List (List (List Char)) :=
  if (runs lines).1.isEmpty then (runs lines).2 else (runs lines).1 :: (runs lines).2

private theorem paragraphs_eq_map_closedRuns (lines : List (List Char)) :
    paragraphs lines = (closedRuns lines).map fun run ↦ [' '].intercalate run := rfl

private theorem runs_cons_of_blank {line : List Char} (h : Text.allBlank line = true)
    (lines : List (List Char)) : runs (line :: lines) = ([], closedRuns lines) := by
  simp only [runs, isEmpty_trim, h]
  rfl

private theorem runs_cons_of_not_blank {line : List Char} (h : Text.allBlank line = false)
    (lines : List (List Char)) :
    runs (line :: lines) = (Text.trim line :: (runs lines).1, (runs lines).2) := by
  simp only [runs, isEmpty_trim, h]
  rfl

private theorem runs_fst (lines : List (List Char)) :
    (runs lines).1 = (lines.takeWhile fun line ↦ !Text.allBlank line).map Text.trim := by
  induction lines with
  | nil => rfl
  | cons line lines ih =>
    cases hblank : Text.allBlank line with
    | true => simp [runs_cons_of_blank hblank, hblank]
    | false => simp [runs_cons_of_not_blank hblank, hblank, ih]

private theorem head?_closedRuns (lines : List (List Char)) :
    (closedRuns lines).head?.getD [] =
      ((lines.dropWhile Text.allBlank).takeWhile fun line ↦ !Text.allBlank line).map
        Text.trim := by
  induction lines with
  | nil => rfl
  | cons line lines ih =>
    cases hblank : Text.allBlank line with
    | true => simpa [closedRuns, runs_cons_of_blank hblank, hblank] using ih
    | false => simp [closedRuns, runs_cons_of_not_blank hblank, hblank, runs_fst]

/-- The first of the paragraphs, or nothing, is the first paragraph. -/
theorem head?_paragraphs (lines : List (List Char)) :
    (paragraphs lines).head?.getD [] = firstParagraph lines := by
  rw [paragraphs_eq_map_closedRuns, firstParagraph, ← head?_closedRuns, List.head?_map]
  cases (closedRuns lines).head? <;> rfl

/-- A blank line before the first paragraph makes no difference. -/
theorem firstParagraph_cons_of_blank {line : List Char} (h : Text.allBlank line = true)
    (lines : List (List Char)) : firstParagraph (line :: lines) = firstParagraph lines := by
  simp [firstParagraph, h]

/-- Blank lines at the end do not change the first paragraph. -/
theorem firstParagraph_append_of_blank {blanks : List (List Char)}
    (h : ∀ line ∈ blanks, Text.allBlank line = true) (lines : List (List Char)) :
    firstParagraph (lines ++ blanks) = firstParagraph lines := by
  have hdrop : blanks.dropWhile Text.allBlank = [] := List.dropWhile_eq_nil_iff.mpr h
  have htake : blanks.takeWhile (fun line ↦ !Text.allBlank line) = [] := by
    cases blanks with
    | nil => rfl
    | cons line blanks => simp [h line]
  rw [firstParagraph, List.dropWhile_append, firstParagraph]
  split
  · next hempty => rw [hdrop, List.isEmpty_iff.mp hempty]
  · rw [List.takeWhile_append, htake, List.append_nil]
    split
    · next hall => rw [(List.takeWhile_sublist _).eq_of_length hall]
    · rfl

private theorem runs_of_blank {lines : List (List Char)}
    (h : ∀ line ∈ lines, Text.allBlank line = true) : runs lines = ([], []) := by
  induction lines with
  | nil => rfl
  | cons line lines ih =>
    rw [List.forall_mem_cons] at h
    rw [runs_cons_of_blank h.1, closedRuns, ih h.2]
    rfl

/-- A line that is not blank, with blank lines after it, is the only paragraph. -/
theorem paragraphs_cons_of_blank {line : List Char} {lines : List (List Char)}
    (hline : Text.allBlank line = false) (h : ∀ line ∈ lines, Text.allBlank line = true) :
    paragraphs (line :: lines) = [Text.trim line] := by
  rw [paragraphs_eq_map_closedRuns, closedRuns, runs_cons_of_not_blank hline, runs_of_blank h]
  simp

/-- The paragraphs depend on the trimmed lines alone. -/
theorem paragraphs_map_of_trim {f : List Char → List Char}
    (h : ∀ line, Text.trim (f line) = Text.trim line) (lines : List (List Char)) :
    paragraphs (lines.map f) = paragraphs lines := by
  have hruns : runs (lines.map f) = runs lines := by
    induction lines with
    | nil => rfl
    | cons line lines ih => simp only [List.map_cons, runs, h, ih]
  rw [paragraphs, hruns, paragraphs]

/-! ### Maximal runs -/

/-- Consecutive lines, with the lines before them and after them. -/
structure Stretch where
  before : List (List Char)
  lines : List (List Char)
  after : List (List Char)
  deriving DecidableEq

namespace Stretch

/-- The stretch is a maximal run of lines that are not blank: none of its lines is, and on both
sides a blank line follows or nothing. -/
structure IsRun (stretch : Stretch) (lines : List (List Char)) : Prop where
  whole : stretch.before ++ stretch.lines ++ stretch.after = lines
  lines_ne_nil : stretch.lines ≠ []
  not_blank : ∀ line ∈ stretch.lines, Text.allBlank line = false
  blank_before : ∀ line ∈ stretch.before.getLast?, Text.allBlank line = true
  blank_after : ∀ line ∈ stretch.after.head?, Text.allBlank line = true

/-- The lines, each trimmed, joined by one space. -/
def text (stretch : Stretch) : List Char := [' '].intercalate (stretch.lines.map Text.trim)

/-- The stretch with one more line before it. -/
def push (line : List Char) (stretch : Stretch) : Stretch :=
  { stretch with before := line :: stretch.before }

/-- The lines up to the first blank one. -/
def front (lines : List (List Char)) : Stretch where
  before := []
  lines := lines.takeWhile fun line ↦ !Text.allBlank line
  after := lines.dropWhile fun line ↦ !Text.allBlank line

/-- A run after one more line is a run, unless the line belongs to it. -/
theorem isRun_push_iff (stretch : Stretch) (line : List Char) (lines : List (List Char)) :
    (push line stretch).IsRun (line :: lines) ↔
      stretch.IsRun lines ∧ (stretch.before = [] → Text.allBlank line = true) := by
  have hlast : (push line stretch).before.getLast? = some (stretch.before.getLast?.getD line) :=
    List.getLast?_cons
  constructor
  · intro h
    have hblank : Text.allBlank (stretch.before.getLast?.getD line) = true :=
      h.blank_before _ hlast
    refine ⟨⟨(List.cons.inj h.whole).2, h.lines_ne_nil, h.not_blank, ?_, h.blank_after⟩, ?_⟩
    · intro last hmem
      rwa [hmem] at hblank
    · intro hnil
      rwa [hnil] at hblank
  · rintro ⟨h, hfirst⟩
    refine ⟨congrArg (line :: ·) h.whole, h.lines_ne_nil, h.not_blank, ?_, h.blank_after⟩
    rw [hlast]
    rintro _ ⟨⟩
    cases hbefore : stretch.before.getLast? with
    | none => exact hfirst (List.getLast?_eq_none_iff.mp hbefore)
    | some last => exact h.blank_before last hbefore

/-- A run with nothing before it is all that stands before the first blank line. -/
theorem IsRun.eq_front {stretch : Stretch} {lines : List (List Char)} (h : stretch.IsRun lines)
    (hbefore : stretch.before = []) : stretch = front lines := by
  have hlines : ∀ line ∈ stretch.lines, (!Text.allBlank line) = true :=
    fun line hline ↦ by rw [h.not_blank line hline]; rfl
  have hafter : stretch.after.takeWhile (fun line ↦ !Text.allBlank line) = [] ∧
      stretch.after.dropWhile (fun line ↦ !Text.allBlank line) = stretch.after := by
    cases hcases : stretch.after with
    | nil => exact ⟨rfl, rfl⟩
    | cons line after => simp [h.blank_after line (by rw [hcases]; rfl)]
  rw [front, ← h.whole, hbefore, List.nil_append, List.takeWhile_append_of_pos hlines,
    List.dropWhile_append_of_pos hlines, hafter.1, hafter.2, List.append_nil, ← hbefore]

private theorem isRun_front {lines : List (List Char)} (h : (front lines).lines ≠ []) :
    (front lines).IsRun lines where
  whole := List.takeWhile_append_dropWhile
  lines_ne_nil := h
  not_blank line hline := by simpa using List.mem_takeWhile_imp hline
  blank_before := nofun
  blank_after line hline := by
    have hhead := List.head?_dropWhile_not (fun line ↦ !Text.allBlank line) lines
    rw [show lines.dropWhile _ = (front lines).after from rfl, hline] at hhead
    simpa using hhead

/-- The first stretch starts before the second. -/
def StartsBefore (first second : Stretch) : Prop := first.before.length < second.before.length

end Stretch

/-- The maximal runs that start in some lines, in order. The lines are fresh if no line that is not
blank stands right before them; otherwise a run at their front goes on from there, and is left
out. -/
def runsFrom (fresh : Bool) : List (List Char) → List Stretch
  | [] => []
  | line :: lines =>
    let later := (runsFrom (Text.allBlank line) lines).map (Stretch.push line)
    if fresh && !Text.allBlank line then Stretch.front (line :: lines) :: later else later

/-- The maximal runs of lines that are not blank, in order. -/
def maximalRuns (lines : List (List Char)) : List Stretch := runsFrom true lines

private theorem runsFrom_cons_of_front {line : List Char} (h : Text.allBlank line = false)
    (lines : List (List Char)) :
    runsFrom true (line :: lines) =
      Stretch.front (line :: lines) :: (runsFrom false lines).map (Stretch.push line) := by
  rw [runsFrom, h]
  rfl

private theorem runsFrom_cons_of_later {fresh : Bool} {line : List Char}
    (h : fresh = false ∨ Text.allBlank line = true) (lines : List (List Char)) :
    runsFrom fresh (line :: lines) =
      (runsFrom (Text.allBlank line) lines).map (Stretch.push line) := by
  rw [runsFrom]
  rcases h with rfl | hblank
  · rfl
  · rw [hblank, Bool.not_true, Bool.and_false]
    rfl

private theorem mem_map_push_iff {line : List Char} {lines : List (List Char)}
    {runs : List Stretch}
    (h : ∀ stretch, stretch ∈ runs ↔
      stretch.IsRun lines ∧ (stretch.before = [] → Text.allBlank line = true))
    (stretch : Stretch) :
    stretch ∈ runs.map (Stretch.push line) ↔
      stretch.IsRun (line :: lines) ∧ stretch.before ≠ [] := by
  rw [List.mem_map]
  constructor
  · rintro ⟨inner, hinner, rfl⟩
    exact ⟨(Stretch.isRun_push_iff ..).mpr ((h inner).mp hinner), List.cons_ne_nil _ _⟩
  · rintro ⟨hrun, hbefore⟩
    obtain ⟨before, text, after⟩ := stretch
    obtain ⟨first, rest, rfl⟩ := List.exists_cons_of_ne_nil hbefore
    obtain rfl : first = line := (List.cons.inj hrun.whole).1
    exact ⟨⟨rest, text, after⟩, (h _).mpr ((Stretch.isRun_push_iff ..).mp hrun), rfl⟩

private theorem mem_runsFrom_iff (fresh : Bool) (lines : List (List Char)) (stretch : Stretch) :
    stretch ∈ runsFrom fresh lines ↔
      stretch.IsRun lines ∧ (stretch.before = [] → fresh = true) := by
  -- Whether the other lines are fresh depends on the first one, so both cases go through together.
  induction lines generalizing fresh stretch with
  | nil =>
    refine iff_of_false List.not_mem_nil ?_
    rintro ⟨h, -⟩
    have hwhole := h.whole
    simp [h.lines_ne_nil] at hwhole
  | cons line lines ih =>
    have hlater := mem_map_push_iff (ih (Text.allBlank line)) stretch
    cases hblank : Text.allBlank line with
    | true =>
      have hbefore (h : stretch.IsRun (line :: lines)) : stretch.before ≠ [] := by
        intro hnil
        apply h.lines_ne_nil
        rw [h.eq_front hnil, Stretch.front, List.takeWhile_cons_of_neg (by simp [hblank])]
      rw [runsFrom_cons_of_later (.inr hblank), hlater]
      exact ⟨fun h ↦ ⟨h.1, fun hnil ↦ absurd hnil h.2⟩, fun h ↦ ⟨h.1, hbefore h.1⟩⟩
    | false =>
      cases fresh with
      | false =>
        rw [runsFrom_cons_of_later (.inl rfl), hlater]
        simp
      | true =>
        have hfront : (Stretch.front (line :: lines)).IsRun (line :: lines) :=
          Stretch.isRun_front (by simp [Stretch.front, hblank])
        rw [runsFrom_cons_of_front hblank, List.mem_cons, ← hblank, hlater]
        constructor
        · rintro (rfl | h)
          · exact ⟨hfront, fun _ ↦ rfl⟩
          · exact ⟨h.1, fun _ ↦ rfl⟩
        · rintro ⟨h, -⟩
          exact (em (stretch.before = [])).imp h.eq_front fun hne ↦ ⟨h, hne⟩

/-- The maximal runs are all there. -/
theorem mem_maximalRuns_iff (lines : List (List Char)) (stretch : Stretch) :
    stretch ∈ maximalRuns lines ↔ stretch.IsRun lines := by
  rw [maximalRuns, mem_runsFrom_iff, and_iff_left fun _ ↦ rfl]

private theorem pairwise_runsFrom (fresh : Bool) (lines : List (List Char)) :
    (runsFrom fresh lines).Pairwise Stretch.StartsBefore := by
  induction lines generalizing fresh with
  | nil => exact .nil
  | cons line lines ih =>
    have hlater : ((runsFrom (Text.allBlank line) lines).map (Stretch.push line)).Pairwise
        Stretch.StartsBefore := (ih _).map _ fun _ _ ↦ Nat.succ_lt_succ
    rw [runsFrom]
    split
    · refine .cons ?_ hlater
      intro stretch hstretch
      obtain ⟨inner, -, rfl⟩ := List.mem_map.mp hstretch
      exact Nat.succ_pos _
    · exact hlater

private theorem closedRuns_cons_of_blank {line : List Char} (h : Text.allBlank line = true)
    (lines : List (List Char)) : closedRuns (line :: lines) = closedRuns lines := by
  rw [closedRuns, runs_cons_of_blank h]
  rfl

private theorem closedRuns_cons_of_not_blank {line : List Char} (h : Text.allBlank line = false)
    (lines : List (List Char)) :
    closedRuns (line :: lines) = (runs (line :: lines)).1 :: (runs lines).2 := by
  rw [closedRuns, runs_cons_of_not_blank h]
  rfl

private theorem map_trim_runsFrom (fresh : Bool) (lines : List (List Char)) :
    (runsFrom fresh lines).map (fun stretch ↦ stretch.lines.map Text.trim) =
      if fresh then closedRuns lines else (runs lines).2 := by
  -- Lines that are not fresh go on with the run that is open, which is the first component.
  have hpush (runs : List Stretch) (line : List Char) :
      (runs.map (Stretch.push line)).map (fun stretch ↦ stretch.lines.map Text.trim) =
        runs.map fun stretch ↦ stretch.lines.map Text.trim := List.map_map
  induction lines generalizing fresh with
  | nil => cases fresh <;> rfl
  | cons line lines ih =>
    cases hblank : Text.allBlank line with
    | true =>
      rw [runsFrom_cons_of_later (.inr hblank), hpush, ih, hblank, closedRuns_cons_of_blank hblank,
        runs_cons_of_blank hblank, ite_self]
      rfl
    | false =>
      cases fresh with
      | false =>
        rw [runsFrom_cons_of_later (.inl rfl), hpush, ih, hblank, runs_cons_of_not_blank hblank]
        rfl
      | true =>
        rw [runsFrom_cons_of_front hblank, List.map_cons, hpush, ih,
          closedRuns_cons_of_not_blank hblank, runs_fst]
        rfl

/-- Each paragraph is the text of a maximal run. -/
theorem paragraphs_eq_map_text (lines : List (List Char)) :
    paragraphs lines = (maximalRuns lines).map Stretch.text := by
  have hruns : (maximalRuns lines).map (fun stretch ↦ stretch.lines.map Text.trim) =
      closedRuns lines := map_trim_runsFrom true lines
  rw [paragraphs_eq_map_closedRuns, ← hruns, List.map_map]
  rfl

private theorem flatMap_runsFrom (fresh : Bool) (lines : List (List Char)) :
    (runsFrom fresh lines).flatMap Stretch.lines =
      (if fresh then lines else lines.dropWhile fun line ↦ !Text.allBlank line).filter
        fun line ↦ !Text.allBlank line := by
  have hpush (runs : List Stretch) (line : List Char) :
      (runs.map (Stretch.push line)).flatMap Stretch.lines = runs.flatMap Stretch.lines :=
    List.flatMap_map ..
  induction lines generalizing fresh with
  | nil => cases fresh <;> rfl
  | cons line lines ih =>
    cases hblank : Text.allBlank line with
    | true =>
      rw [runsFrom_cons_of_later (.inr hblank), hpush, ih, hblank]
      cases fresh <;> simp [hblank]
    | false =>
      have hdrop : (line :: lines).dropWhile (fun line ↦ !Text.allBlank line) =
          lines.dropWhile fun line ↦ !Text.allBlank line :=
        List.dropWhile_cons_of_pos (by rw [hblank]; rfl)
      cases fresh with
      | false =>
        rw [runsFrom_cons_of_later (.inl rfl), hpush, ih, hblank]
        simp [hblank]
      | true =>
        rw [runsFrom_cons_of_front hblank, List.flatMap_cons, hpush, ih, Stretch.front,
          if_neg Bool.false_ne_true, ← hdrop]
        exact takeWhile_append_filter_dropWhile _ _

/-- The lines of the maximal runs are the lines that are not blank. -/
theorem flatMap_maximalRuns (lines : List (List Char)) :
    (maximalRuns lines).flatMap Stretch.lines = lines.filter fun line ↦ !Text.allBlank line :=
  flatMap_runsFrom true lines

private theorem solid_trim {line : List Char} (h : Text.allBlank line = false) :
    Text.trim line ≠ [] ∧ Text.trim (Text.trim line) = Text.trim line := by
  rw [← isEmpty_trim, List.isEmpty_eq_false_iff] at h
  exact ⟨h, Text.trim_trim line⟩

/-- A paragraph is trimmed and not empty. -/
theorem trim_of_mem_paragraphs {lines : List (List Char)} {paragraph : List Char}
    (h : paragraph ∈ paragraphs lines) : paragraph ≠ [] ∧ Text.trim paragraph = paragraph := by
  rw [paragraphs_eq_map_text, List.mem_map] at h
  obtain ⟨stretch, hstretch, rfl⟩ := h
  have hrun := (mem_maximalRuns_iff ..).mp hstretch
  refine Text.trim_intercalate _ (List.map_eq_nil_iff.not.mpr hrun.lines_ne_nil) ?_
  intro text htext
  obtain ⟨line, hline, rfl⟩ := List.mem_map.mp htext
  exact solid_trim (hrun.not_blank line hline)

/-- A character of a paragraph is a space or stands in one of the lines. -/
theorem eq_or_mem_of_mem_paragraphs {lines : List (List Char)} {paragraph : List Char}
    (h : paragraph ∈ paragraphs lines) {c : Char} (hc : c ∈ paragraph) :
    c = ' ' ∨ ∃ line ∈ lines, c ∈ line := by
  rw [paragraphs_eq_map_text, List.mem_map] at h
  obtain ⟨stretch, hstretch, rfl⟩ := h
  rcases mem_of_mem_intercalate hc with hspace | ⟨text, htext, hc⟩
  · exact .inl (List.mem_singleton.mp hspace)
  · obtain ⟨line, hline, rfl⟩ := List.mem_map.mp htext
    refine .inr ⟨line, ?_, (Text.trim_sublist line).mem hc⟩
    rw [← ((mem_maximalRuns_iff ..).mp hstretch).whole]
    simp [hline]

/-! ### Paragraphs of a text -/

/-- A line that is not blank with a blank one after it is a paragraph. -/
theorem paragraphs_cons_cons_of_blank {line blank : List Char}
    (hline : Text.allBlank line = false) (hblank : Text.allBlank blank = true)
    (lines : List (List Char)) :
    paragraphs (line :: blank :: lines) = Text.trim line :: paragraphs lines := by
  rw [paragraphs_eq_map_closedRuns, closedRuns, runs_cons_of_not_blank hline,
    runs_cons_of_blank hblank, paragraphs_eq_map_closedRuns]
  simp

/-- Trimmed texts of one line with blank lines between them are paragraphs again. -/
theorem paragraphs_splitOn_intercalate {texts : List (List Char)}
    (hline : ∀ text ∈ texts, '\n' ∉ text)
    (htrim : ∀ text ∈ texts, text ≠ [] ∧ Text.trim text = text) :
    paragraphs ((['\n', '\n'].intercalate texts).splitOn '\n') = texts := by
  induction texts with
  | nil => decide
  | cons first texts ih =>
    obtain ⟨hfirst, hlines⟩ := List.forall_mem_cons.mp hline
    obtain ⟨⟨hne, hself⟩, htexts⟩ := List.forall_mem_cons.mp htrim
    have hblank : Text.allBlank first = false := by
      rw [← isEmpty_trim, hself]
      exact List.isEmpty_eq_false_iff.mpr hne
    cases texts with
    | nil =>
      rw [List.intercalate_singleton, List.splitOn_eq_singleton hfirst,
        paragraphs_cons_of_blank hblank (by simp), hself]
    | cons second texts =>
      have hsplit : (['\n', '\n'].intercalate (first :: second :: texts)).splitOn '\n' =
          first :: [] :: (['\n', '\n'].intercalate (second :: texts)).splitOn '\n' := by
        rw [List.intercalate_cons_cons, List.append_assoc, List.cons_append, List.cons_append,
          List.nil_append, List.splitOn_append_cons_self_of_not_mem hfirst]
        exact congrArg (first :: ·)
          (List.splitOn_append_cons_self_of_not_mem List.not_mem_nil _)
      rw [hsplit, paragraphs_cons_cons_of_blank hblank rfl, ih hlines htexts, hself]

/-- The text that the paragraphs make up in a block has the same paragraphs when it is split into
lines again. -/
theorem paragraphs_splitOn_text {block : Block} (h : ∀ line ∈ block.lines, '\n' ∉ line) :
    paragraphs (block.text.toList.splitOn '\n') = paragraphs block.lines := by
  rw [Block.text, String.toList_ofList, Block.content]
  refine paragraphs_splitOn_intercalate ?_ fun _ ↦ trim_of_mem_paragraphs
  intro paragraph hparagraph hnewline
  rcases eq_or_mem_of_mem_paragraphs hparagraph hnewline with hspace | ⟨line, hline, hmem⟩
  · exact absurd hspace (by decide)
  · exact h line hline hmem

/-- The paragraphs of some lines are the texts of their maximal runs of lines that are not blank,
each once and in order, and the lines of the runs together are the lines that are not blank. A
paragraph is trimmed and not empty. The text of a block has the same paragraphs as its lines. -/
theorem paragraphs_of_newlineFree {lines : List (List Char)} (h : ∀ line ∈ lines, '\n' ∉ line) :
    paragraphs lines = (maximalRuns lines).map Stretch.text ∧
    (∀ stretch, stretch ∈ maximalRuns lines ↔ stretch.IsRun lines) ∧
    (maximalRuns lines).Pairwise Stretch.StartsBefore ∧
    (maximalRuns lines).flatMap Stretch.lines = lines.filter (fun line ↦ !Text.allBlank line) ∧
    (∀ paragraph ∈ paragraphs lines, paragraph ≠ [] ∧ Text.trim paragraph = paragraph) ∧
    ∀ block : Block, block.lines = lines →
      paragraphs (block.text.toList.splitOn '\n') = paragraphs lines := by
  refine ⟨paragraphs_eq_map_text lines, mem_maximalRuns_iff lines, pairwise_runsFrom true lines,
    flatMap_maximalRuns lines, fun _ ↦ trim_of_mem_paragraphs, ?_⟩
  rintro block rfl
  exact paragraphs_splitOn_text h

-- Two runs of lines, with blanks around them and in them.
private def scattered : List (List Char) :=
  ["", " a\r", "\tb", "\x0c", "", "c\x0b - d "].map String.toList

/-- Two runs of lines give two paragraphs, and so does the text of a block that has these lines. -/
theorem paragraphs_of_newlineFree_scattered :
    let block : Block := { tag := "@prop", binding := .prop, line := 1, lines := scattered }
    (∀ line ∈ scattered, '\n' ∉ line) ∧
    paragraphs scattered = ["a b".toList, "c\x0b - d".toList] ∧
    Stretch.IsRun ⟨[[]], [" a\r".toList, "\tb".toList], scattered.drop 3⟩ scattered ∧
    Stretch.IsRun ⟨scattered.take 5, ["c\x0b - d ".toList], []⟩ scattered ∧
    block.text = "a b\n\nc\x0b - d" ∧
    paragraphs (block.text.toList.splitOn '\n') = paragraphs scattered := by
  have hlines : ∀ line ∈ scattered, '\n' ∉ line := by decide
  obtain ⟨htexts, hruns, -, -, -, hblock⟩ := paragraphs_of_newlineFree hlines
  refine ⟨hlines, ?_, (hruns _).mp (by decide), (hruns _).mp (by decide), by decide, hblock _ rfl⟩
  rw [htexts]
  decide

end PropDoc.Comment
