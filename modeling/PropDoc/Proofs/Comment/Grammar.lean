import Mathlib.Algebra.Group.Nat.Even
import PropDoc.Comment.Doc
import PropDoc.Proofs.Comment.LineGrammar
import PropDoc.Proofs.Text.Blank

/-!
# The grammar of comments

Which comments are read without a problem: they are framed, their fences are closed, every line
outside fences is well formed, and every block that asks for a name has one. Main statement: the
reader accepts exactly these.
-/

namespace PropDoc.Comment

/-- A comment is framed: trimmed, it has at least five bytes, and starts and ends as a comment. -/
def Framed (text : List Char) : Prop :=
  5 ≤ (String.ofList (Text.trim text)).utf8ByteSize ∧ ['/', '*', '*'] <+: Text.trim text ∧
    ['*', '/'] <:+ Text.trim text

instance (text : List Char) : Decidable (Framed text) :=
  inferInstanceAs (Decidable (5 ≤ (String.ofList (Text.trim text)).utf8ByteSize ∧
    ['/', '*', '*'] <+: Text.trim text ∧ ['*', '/'] <:+ Text.trim text))

/-- The lines between the delimiters of a framed comment, without their margins. -/
def innerLines (text : List Char) : List (List Char) :=
  bodyLines (((Text.trim text).drop 3).take ((Text.trim text).length - 5))

/-- A line stands outside the fences of some lines: it is no fence itself, and those before it are
closed. -/
def OutsideFences (lines : List (List Char)) (line : List Char) : Prop :=
  ∃ before after, lines = before ++ line :: after ∧ Event.isFence line = false ∧
    Even (before.countP Event.isFence)

/-- The text of a block gives a name: what stands before its first hyphen between spaces, or
without one before a hyphen at its end, is not blank. -/
def GivesName (text : List Char) : Prop :=
  (∃ name description, Text.CutsFirst [' ', '-', ' '] text name description ∧
    ∃ c ∈ name, Text.isBlank c = false) ∨
  (¬ [' ', '-', ' '] <:+: text ∧ ∃ name, Text.trimEnd text = name ++ [' ', '-'] ∧
    ∃ c ∈ name, Text.isBlank c = false)

/-- A comment is well formed. -/
structure WellFormed (tags : TagSet) (text : String) (firstLine : Nat) : Prop where
  framed : Framed text.toList
  fences : Even ((innerLines text.toList).countP Event.isFence)
  lines : ∀ line, OutsideFences (innerLines text.toList) line → WellFormedLine tags [] line
  blocks : ∀ block ∈ (read tags text firstLine).doc.blocks, block.binding.isNamed = true →
    GivesName block.content

/-! ### Problems of lines -/

/-- None of some events reports a problem. -/
def NoProblem (events : List Event) : Prop :=
  ∀ event ∈ events, event.diagnostic? = none

/-- Events are free of problems exactly if both parts are. -/
theorem noProblem_append_iff (first second : List Event) :
    NoProblem (first ++ second) ↔ NoProblem first ∧ NoProblem second :=
  List.forall_mem_append

/-- Events are free of problems exactly if the first is and the others are. -/
theorem noProblem_cons_iff (event : Event) (events : List Event) :
    NoProblem (event :: events) ↔ event.diagnostic? = none ∧ NoProblem events :=
  List.forall_mem_cons

/-- A line is free of problems exactly if none of its tokens is flawed. -/
theorem noProblem_ofMeanings_iff (number : Nat) (text : List Char)
    (meanings : List Meaning) :
    NoProblem (Event.ofMeanings number text meanings) ↔
      ∀ meaning ∈ meanings, ∀ problem content, meaning ≠ .flawed problem content := by
  fun_induction Event.ofMeanings number text meanings with
  | case1 text => simp [NoProblem]
  | case2 text content rest ih => simp [ih]
  | case3 text flaw content rest ih => simp [noProblem_cons_iff]
  | case4 text name rest ih => simp [noProblem_cons_iff, ih]
  | case5 text tag binding rest ih =>
    have hbefore : NoProblem (if Text.allBlank text then [] else [.text text]) := by
      split <;> simp [NoProblem]
    simp [noProblem_append_iff, noProblem_cons_iff, hbefore, ih]

private theorem noProblem_ofLine_iff (tags : TagSet) (number : Nat) (line : List Char) :
    NoProblem (Event.ofLine tags number line) ↔ WellFormedLine tags [] line := by
  rw [Event.ofLine, noProblem_ofMeanings_iff, List.forall_mem_map]
  exact isClean_ofLine_iff tags line

/-! ### Fences -/

-- A line stands outside the fences of some lines that start inside or outside of one.
private def OutsideFrom (inFence : Bool) (lines : List (List Char)) (line : List Char) : Prop :=
  ∃ before after, lines = before ++ line :: after ∧ Event.isFence line = false ∧
    (Even (before.countP Event.isFence) ↔ inFence = false)

private theorem even_succ_iff (count : Nat) (inFence : Bool) :
    (Even (count + 1) ↔ inFence = false) ↔ (Even count ↔ (!inFence) = false) := by
  cases inFence <;> simp [Nat.even_add_one]

private theorem outsideFrom_cons_of_fence {first : List Char}
    (hfence : Event.isFence first = true) (inFence : Bool) (lines : List (List Char))
    (line : List Char) :
    OutsideFrom inFence (first :: lines) line ↔ OutsideFrom (!inFence) lines line := by
  constructor
  · rintro ⟨before, after, hsplit, hline, heven⟩
    cases before with
    | nil =>
      rw [List.head_eq_of_cons_eq hsplit, hline] at hfence
      cases hfence
    | cons other before =>
      injection hsplit with hfirst hrest
      rw [← hfirst, List.countP_cons_of_pos hfence, even_succ_iff] at heven
      exact ⟨before, after, hrest, hline, heven⟩
  · rintro ⟨before, after, hrest, hline, heven⟩
    refine ⟨first :: before, after, by rw [hrest, List.cons_append], hline, ?_⟩
    rw [List.countP_cons_of_pos hfence, even_succ_iff]
    exact heven

private theorem outsideFrom_cons_of_not_fence {first : List Char}
    (hfence : Event.isFence first = false) (inFence : Bool) (lines : List (List Char))
    (line : List Char) :
    OutsideFrom inFence (first :: lines) line ↔
      line = first ∧ inFence = false ∨ OutsideFrom inFence lines line := by
  have hcount : ∀ before, (first :: before).countP Event.isFence =
      before.countP Event.isFence := by
    intro before
    rw [List.countP_cons_of_neg]
    simp [hfence]
  constructor
  · rintro ⟨before, after, hsplit, hline, heven⟩
    cases before with
    | nil =>
      refine .inl ⟨(List.head_eq_of_cons_eq hsplit).symm, ?_⟩
      simpa using heven
    | cons other before =>
      injection hsplit with hfirst hrest
      rw [← hfirst, hcount] at heven
      exact .inr ⟨before, after, hrest, hline, heven⟩
  · rintro (⟨hline, hout⟩ | ⟨before, after, hrest, hline, heven⟩)
    · rw [hline, hout]
      exact ⟨[], lines, rfl, hfence, by simp⟩
    · exact ⟨first :: before, after, by rw [hrest, List.cons_append], hline, by rwa [hcount]⟩

private theorem noProblem_ofLines_iff (tags : TagSet) (inFence : Bool) (number : Nat)
    (lines : List (List Char)) :
    NoProblem (Event.ofLines tags inFence number lines) ↔
      (Even (lines.countP Event.isFence) ↔ inFence = false) ∧
      ∀ line, OutsideFrom inFence lines line → WellFormedLine tags [] line := by
  induction lines generalizing inFence number with
  | nil => cases inFence <;> simp [Event.ofLines, NoProblem, OutsideFrom]
  | cons first lines ih =>
    rw [Event.ofLines]
    cases hfence : Event.isFence first with
    | true =>
      rw [if_pos rfl, noProblem_cons_iff, ih, List.countP_cons_of_pos hfence, even_succ_iff]
      simp [outsideFrom_cons_of_fence hfence]
    | false =>
      have hcount : (first :: lines).countP Event.isFence = lines.countP Event.isFence := by
        rw [List.countP_cons_of_neg]
        simp [hfence]
      rw [hcount]
      cases inFence with
      | true => simp [noProblem_cons_iff, ih, outsideFrom_cons_of_not_fence hfence]
      | false =>
        simp only [Bool.false_eq_true, if_false, noProblem_append_iff, noProblem_ofLine_iff, ih,
          outsideFrom_cons_of_not_fence hfence, and_true, forall_eq_or_imp]
        exact and_left_comm

private theorem outsideFences_iff (lines : List (List Char)) (line : List Char) :
    OutsideFences lines line ↔ OutsideFrom false lines line := by
  simp [OutsideFences, OutsideFrom]

/-! ### Delimiters -/

/-- A comment is framed exactly if it is a text between the delimiters. -/
theorem framed_iff (text : List Char) :
    Framed text ↔ ∃ body, Text.trim text = ['/', '*', '*'] ++ body ++ ['*', '/'] := by
  rw [Framed]
  constructor
  · rintro ⟨hsize, ⟨rest, hrest⟩, hend⟩
    rw [← hrest] at hsize hend ⊢
    simp only [List.cons_append, List.nil_append, List.suffix_cons_iff] at hsize hend
    rcases hend with hall | hall | hshared | ⟨body, hbody⟩
    · simp at hall
    · simp at hall
    -- The delimiters share their star.
    · have hslash : rest = ['/'] := by simpa using hshared.symm
      rw [hslash] at hsize
      exact absurd hsize (by decide)
    · exact ⟨body, by rw [← hbody, List.append_assoc]⟩
  · rintro ⟨body, hbody⟩
    rw [hbody]
    refine ⟨?_, ⟨body ++ ['*', '/'], by simp⟩, List.suffix_append _ _⟩
    rw [String.ofList_append, String.ofList_append, String.utf8ByteSize_append,
      String.utf8ByteSize_append, show (String.ofList ['/', '*', '*']).utf8ByteSize = 3 by decide,
      show (String.ofList ['*', '/']).utf8ByteSize = 2 by decide]
    omega

/-- The body of a comment is what stands between its delimiters. -/
theorem body?_eq_some_iff (text body : List Char) :
    body? text = some body ↔ Text.trim text = ['/', '*', '*'] ++ body ++ ['*', '/'] := by
  unfold body?
  split
  · next rest htrim =>
    rw [htrim, Text.dropEnding?_eq_some_iff]
    simp
  · next hother =>
    simp only [reduceCtorEq, false_iff]
    intro htrim
    exact hother (body ++ ['*', '/']) (by rw [htrim]; simp)

/-- The lines between the delimiters are those of the body. -/
theorem innerLines_of_body?_eq_some {text body : List Char} (h : body? text = some body) :
    innerLines text = bodyLines body := by
  rw [innerLines, (body?_eq_some_iff text body).mp h]
  simp

/-! ### Names of blocks -/

namespace Block

/-- Settling keeps the binding of a block. -/
theorem settle_binding (block : Block) : block.settle.binding = block.binding := by
  rw [settle_eq]

/-- Settling keeps the text of a block. -/
theorem settle_content (block : Block) : block.settle.content = block.content := by
  rw [settle_eq]
  rfl

private theorem splitNamed?_iff_givesName (text : List Char) :
    (∃ name description, splitNamed? text = some (name, description) ∧ name ≠ []) ↔
      GivesName text := by
  simp only [splitNamed?, GivesName, ← Text.cut?_eq_some_iff, ← Text.cut?_eq_none_iff,
    ← Text.dropEnding?_eq_some_iff, ← Text.trim_ne_nil_iff]
  cases hcut : Text.cut? [' ', '-', ' '] text with
  | some halves =>
    obtain ⟨name, description⟩ := halves
    simp
  | none =>
    cases hend : Text.dropEnding? [' ', '-'] (Text.trimEnd text) <;> simp

private theorem diagnostic?_eq_none_iff (block : Block) :
    block.diagnostic? = none ↔ (block.binding.isNamed = true → GivesName block.content) := by
  rw [← splitNamed?_iff_givesName, diagnostic?]
  cases block.binding.isNamed with
  | false => simp
  | true =>
    rw [readNamed]
    cases hsplit : splitNamed? block.content with
    | none =>
      cases Text.allBlank block.content <;> simp
    | some halves =>
      obtain ⟨name, description⟩ := halves
      cases name <;> simp

end Block

/-! ### Comments -/

private theorem diagnostics_ofEvents_eq_nil_iff (events : List Event) :
    (Reading.ofEvents events).diagnostics = [] ↔ NoProblem events ∧
      ∀ block ∈ (Reading.ofEvents events).doc.blocks, block.binding.isNamed = true →
        GivesName block.content := by
  simp only [Reading.ofEvents, List.append_eq_nil_iff, List.filterMap_eq_nil_iff,
    List.forall_mem_map, Block.settle_binding, Block.settle_content,
    Block.diagnostic?_eq_none_iff, NoProblem]

/-- Nothing is reported about a comment exactly if it is well formed. -/
theorem diagnostics_read_eq_nil_iff (tags : TagSet) (text : String) (firstLine : Nat) :
    (read tags text firstLine).diagnostics = [] ↔ WellFormed tags text firstLine := by
  cases hbody : body? text.toList with
  | none =>
    have hframe : ¬ Framed text.toList := by
      rw [framed_iff]
      rintro ⟨body, htrim⟩
      rw [(body?_eq_some_iff _ body).mpr htrim] at hbody
      cases hbody
    constructor
    · intro h
      simp [read, hbody, Reading.ofEvents] at h
    · exact fun h ↦ absurd h.framed hframe
  | some body =>
    have hread : read tags text firstLine =
        Reading.ofEvents (Event.ofLines tags false firstLine (bodyLines body)) := by
      rw [read, hbody]
    have hframe : Framed text.toList :=
      (framed_iff _).mpr ⟨body, (body?_eq_some_iff _ body).mp hbody⟩
    have hlines := innerLines_of_body?_eq_some hbody
    rw [hread, diagnostics_ofEvents_eq_nil_iff, noProblem_ofLines_iff, ← hread, ← hlines]
    simp only [← outsideFences_iff, iff_true]
    constructor
    · rintro ⟨⟨hfences, hwell⟩, hnames⟩
      exact ⟨hframe, hfences, hwell, hnames⟩
    · rintro ⟨-, hfences, hwell, hnames⟩
      exact ⟨⟨hfences, hwell⟩, hnames⟩

end PropDoc.Comment
