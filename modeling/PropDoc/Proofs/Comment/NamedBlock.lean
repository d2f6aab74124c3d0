import PropDoc.Proofs.Comment.Grammar
import PropDoc.Proofs.Comment.Mark
import PropDoc.Proofs.Comment.Paragraph
import PropDoc.Proofs.List

/-!
# What is reported about the names of blocks

A block whose binding asks for a name and a description gets them exactly if its text has a hyphen
between spaces or after one at its end. About every other such block one thing is reported: that
the name is missing if the text is empty, and else that the hyphen is. A text that starts with the
hyphen has no name either, but its blank before the hyphen went with the trimming, so that it is
told to lack a hyphen.
-/

namespace PropDoc.Comment

namespace Block

/-- A text has a hyphen between spaces, or after a space at its end. -/
def Hyphenated (text : List Char) : Prop :=
  [' ', '-', ' '] <:+: text ∨ [' ', '-'] <:+ text

instance (text : List Char) : Decidable (Hyphenated text) :=
  inferInstanceAs (Decidable (_ ∨ _))

/-- A trimmed text has no name: it is empty, or the hyphen comes first. -/
def Nameless (text : List Char) : Prop :=
  text = [] ∨ text = ['-'] ∨ ['-', ' '] <+: text

instance : DecidablePred Nameless :=
  fun text ↦ inferInstanceAs (Decidable (text = [] ∨ text = ['-'] ∨ ['-', ' '] <+: text))

/-- What there is to report about the name of a block if the texts without one are those with the
given property. -/
def nameReport? (nameless : List Char → Prop) [DecidablePred nameless] (block : Block) :
    Option Diagnostic :=
  if block.binding.isNamed = true ∧ ¬ Hyphenated (Text.trim block.content) then
    some ⟨if nameless (Text.trim block.content) then .missingName block.tag
      else .missingHyphen block.tag, block.line⟩
  else none

/-! ### Splitting a text at its hyphen -/

/-- The text of a block is trimmed. -/
theorem trim_content (block : Block) : Text.trim block.content = block.content := by
  unfold content
  cases hparagraphs : paragraphs block.lines with
  | nil => rfl
  | cons first others =>
    refine (Text.trim_intercalate _ (List.cons_ne_nil first others) ?_).2
    rw [← hparagraphs]
    exact fun _ ↦ trim_of_mem_paragraphs

private theorem trim_ne_nil_of_space {text name rest : List Char} (htrim : Text.trim text = text)
    (hsplit : text = name ++ ' ' :: rest) : Text.trim name ≠ [] := by
  rw [Text.trim_ne_nil_iff]
  have hfirst := ((Text.trim_eq_self_iff text).mp htrim).1
  rw [hsplit] at hfirst
  cases name with
  | nil => exact absurd (hfirst ' ' rfl) (by decide)
  | cons c name => exact ⟨c, List.mem_cons_self, hfirst c rfl⟩

private theorem splitNamed?_of_trim {text : List Char} (htrim : Text.trim text = text) :
    (Hyphenated text ∧
      ∃ name description, splitNamed? text = some (name, description) ∧ name ≠ []) ∨
    (¬ Hyphenated text ∧ splitNamed? text = none) := by
  unfold splitNamed? Hyphenated
  rw [Text.trimEnd_eq_self_of_trim_eq_self htrim]
  cases hcut : Text.cut? [' ', '-', ' '] text with
  | some halves =>
    obtain ⟨name, description⟩ := halves
    have hsplit := ((Text.cut?_eq_some_iff ..).mp hcut).1
    refine .inl ⟨.inl ⟨name, description, hsplit.symm⟩, _, _, rfl, ?_⟩
    rw [List.append_assoc] at hsplit
    exact trim_ne_nil_of_space htrim hsplit
  | none =>
    have hinner := (Text.cut?_eq_none_iff ..).mp hcut
    cases hend : Text.dropEnding? [' ', '-'] text with
    | some name =>
      have hsplit := (Text.dropEnding?_eq_some_iff ..).mp hend
      exact .inl ⟨.inr ⟨name, hsplit.symm⟩, _, _, rfl, trim_ne_nil_of_space htrim hsplit⟩
    | none =>
      refine .inr ⟨?_, rfl⟩
      rintro (hhyphen | ⟨name, hsplit⟩)
      · exact hinner hhyphen
      · rw [(Text.dropEnding?_eq_some_iff ..).mpr hsplit.symm] at hend
        cases hend

private theorem readNamed_cases (block : Block) :
    (Hyphenated (Text.trim block.content) ∧ ∃ named, block.readNamed = .ok named) ∨
    (¬ Hyphenated (Text.trim block.content) ∧
      block.readNamed = .error (if Text.trim block.content = [] then .missingName block.tag
        else .missingHyphen block.tag)) := by
  have hsplit := splitNamed?_of_trim block.trim_content
  rw [trim_content]
  unfold readNamed
  rcases hsplit with ⟨hhyphen, name, description, hsome, hne⟩ | ⟨hhyphen, hnone⟩
  · rw [hsome]
    exact .inl ⟨hhyphen, _, if_neg (by simpa using hne)⟩
  · have hblank : Text.allBlank block.content = true ↔ block.content = [] := by
      rw [Text.allBlank, List.all_eq_true, ← Text.trim_eq_nil_iff, trim_content]
    rw [hnone]
    refine .inr ⟨hhyphen, ?_⟩
    simp only [hblank]
    split <;> rfl

/-! ### Blocks of a comment -/

private theorem named_of_mem_ofEvents {events : List Event} {block : Block}
    (h : block ∈ ofEvents events) : block.named = none := by
  induction events with
  | nil => cases h
  | cons event events ih =>
    cases event with
    | opens tag binding line =>
      rcases List.mem_cons.mp h with rfl | hrest
      · rfl
      · exact ih hrest
    | _ => exact ih h

private theorem isSome_named_settle {block : Block} (h : block.named = none) :
    block.settle.named.isSome = true ↔
      block.binding.isNamed = true ∧ Hyphenated (Text.trim block.content) := by
  unfold settle
  cases block.binding.isNamed with
  | false => simp [h]
  | true => rcases readNamed_cases block with ⟨hhyphen, named, hok⟩ | ⟨hhyphen, herror⟩ <;> simp [*]

/-- The reader takes no texts but the empty ones for texts without a name. -/
theorem diagnostic?_eq (block : Block) :
    block.diagnostic? = block.settle.nameReport? (· = []) := by
  have htag : block.settle.tag = block.tag := congrArg Prod.fst (settle_head block)
  have hline : block.settle.line = block.line := congrArg (·.2.2) (settle_head block)
  rw [nameReport?, settle_binding, settle_content, htag, hline, diagnostic?]
  cases block.binding.isNamed with
  | false => simp
  | true => rcases readNamed_cases block with ⟨hhyphen, named, hok⟩ | ⟨hhyphen, herror⟩ <;> simp [*]

private theorem isSome_nameReport? (block : Block) :
    (block.nameReport? (· = [])).isSome = (block.nameReport? Nameless).isSome := by
  unfold nameReport?
  split <;> rfl

-- Counting the texts that start with the hyphen as without a name makes no difference to a block
-- exactly if it has no such text to report.
private theorem nameReport?_eq_iff (block : Block) :
    block.nameReport? (· = []) = block.nameReport? Nameless ↔
      (block.binding.isNamed = true → ¬ Hyphenated (Text.trim block.content) →
        Nameless (Text.trim block.content) → Text.trim block.content = []) := by
  unfold nameReport?
  by_cases hreport : block.binding.isNamed = true ∧ ¬ Hyphenated (Text.trim block.content)
  · have hempty : Text.trim block.content = [] → Nameless (Text.trim block.content) := .inl
    rw [if_pos hreport, if_pos hreport, ← and_imp, imp_iff_right hreport]
    by_cases hnil : Text.trim block.content = [] <;>
      by_cases hnameless : Nameless (Text.trim block.content) <;> simp_all
  · rw [if_neg hreport, if_neg hreport, ← and_imp]
    simp [hreport]

end Block

/-! ### Comments -/

private theorem filter_diagnostics_of_events {events : List Event}
    (h : ∀ diagnostic, .problem diagnostic ∈ events → diagnostic.problem.concernsName = false) :
    (Reading.ofEvents events).diagnostics.filter (·.problem.concernsName) =
      (Reading.ofEvents events).doc.blocks.filterMap (Block.nameReport? (· = [])) := by
  have hlines : (events.filterMap Event.diagnostic?).filter (·.problem.concernsName) = [] := by
    rw [List.filter_eq_nil_iff]
    intro diagnostic hmem
    obtain ⟨event, hevent, hdiagnostic⟩ := List.mem_filterMap.mp hmem
    cases event with
    | problem other =>
      cases hdiagnostic
      simp [h diagnostic hevent]
    | _ => cases hdiagnostic
  have hblocks : ∀ diagnostic ∈ (Block.ofEvents events).filterMap Block.diagnostic?,
      diagnostic.problem.concernsName = true := by
    intro diagnostic hmem
    obtain ⟨block, -, hblock⟩ := List.mem_filterMap.mp hmem
    exact Block.concernsName_of_diagnostic? hblock
  rw [Reading.ofEvents]
  dsimp only
  rw [List.filter_append, hlines, List.nil_append, List.filter_eq_self.mpr hblocks,
    List.filterMap_map]
  exact congrArg (List.filterMap · _) (funext Block.diagnostic?_eq)

private theorem exists_read_eq_ofEvents (tags : TagSet) (text : String) (firstLine : Nat) :
    ∃ events, read tags text firstLine = Reading.ofEvents events ∧
      ∀ diagnostic, .problem diagnostic ∈ events → diagnostic.problem.concernsName = false := by
  unfold read
  split
  · refine ⟨_, rfl, ?_⟩
    intro diagnostic hmem
    cases List.mem_singleton.mp hmem
    rfl
  · exact ⟨_, rfl, fun _ ↦ Event.concernsName_of_mem_ofLines⟩

/-- In every comment the blocks with a name are those whose binding asks for one and whose text has
a hyphen. About each of the others that should have one, a single thing is reported: that the name
is missing if the text is empty, and else that the hyphen is. To report the texts that start with
the hyphen as without a name would say the same exactly of the comments without such texts. -/
theorem read_reports_names (tags : TagSet) (text : String) (firstLine : Nat) :
    (∀ block ∈ (read tags text firstLine).doc.blocks,
      block.named.isSome = true ↔
        block.binding.isNamed = true ∧ Block.Hyphenated (Text.trim block.content)) ∧
    (read tags text firstLine).diagnostics.filter (·.problem.concernsName) =
      (read tags text firstLine).doc.blocks.filterMap (Block.nameReport? (· = [])) ∧
    ((read tags text firstLine).diagnostics.filter (·.problem.concernsName) =
        (read tags text firstLine).doc.blocks.filterMap (Block.nameReport? Block.Nameless) ↔
      ∀ block ∈ (read tags text firstLine).doc.blocks,
        block.binding.isNamed = true → ¬ Block.Hyphenated (Text.trim block.content) →
          Block.Nameless (Text.trim block.content) → Text.trim block.content = []) := by
  obtain ⟨events, hread, hlines⟩ := exists_read_eq_ofEvents tags text firstLine
  have hreports := filter_diagnostics_of_events hlines
  rw [hread]
  refine ⟨?_, hreports, ?_⟩
  · intro block hblock
    obtain ⟨opened, hopened, rfl⟩ := List.mem_map.mp hblock
    rw [Block.settle_binding, Block.settle_content]
    exact Block.isSome_named_settle (Block.named_of_mem_ofEvents hopened)
  · rw [hreports, filterMap_eq_filterMap_iff fun block _ ↦ Block.isSome_nameReport? block]
    exact forall₂_congr fun block _ ↦ Block.nameReport?_eq_iff block

/-- A hyphen without a name in front of it is reported as a missing hyphen. -/
theorem read_hyphen_first :
    (read TagSet.standard "/**\n * @prop - b\n */" 1).doc.blocks.map
        (fun block ↦ (block.binding, Text.trim block.content)) = [(.prop, ['-', ' ', 'b'])] ∧
    (read TagSet.standard "/**\n * @prop - b\n */" 1).doc.blocks.filterMap
        (Block.nameReport? Block.Nameless) = [⟨.missingName "@prop", 2⟩] ∧
    (read TagSet.standard "/**\n * @prop - b\n */" 1).diagnostics.filter
        (·.problem.concernsName) = [⟨.missingHyphen "@prop", 2⟩] := by
  decide +kernel

end PropDoc.Comment
