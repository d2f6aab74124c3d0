import PropDoc.Proofs.Comment.Grammar
import PropDoc.Props

/-!
# What a leading comment does to a prop table

A comment without a problem gives each prop the description of the last block that names it and
leaves all else in the table as it is. In such a comment every block that has to have a name has
one. A comment with a problem gives no table but its first problem.
-/

namespace PropDoc

open PropDoc.Syntax

namespace Comment

/-- A name that is not empty and neither starts nor ends with a blank. -/
def Named.Proper (named : Named) : Prop :=
  named.name ≠ "" ∧ Text.trim named.name.toList = named.name.toList

/-- The last prop block of a comment with a name gives that name a description. -/
def Doc.DescribesLast (doc : Doc) (name description : String) : Prop :=
  ∃ before block after, doc.blocks = before ++ block :: after ∧ block.binding = .prop ∧
    block.named = some ⟨name, description⟩ ∧
    ∀ later ∈ after, later.binding = .prop → ∀ named, later.named = some named → named.name ≠ name

/-! ### Names of blocks -/

namespace Block

private theorem exists_trim_of_splitNamed? {text name description : List Char}
    (h : splitNamed? text = some (name, description)) : ∃ part, name = Text.trim part := by
  unfold splitNamed? at h
  split at h
  · next part _ _ =>
    obtain ⟨rfl, -⟩ := Prod.mk.inj (Option.some.inj h)
    exact ⟨part, rfl⟩
  · obtain ⟨part, -, hpart⟩ := Option.map_eq_some_iff.mp h
    obtain ⟨rfl, -⟩ := Prod.mk.inj hpart
    exact ⟨part, rfl⟩

private theorem proper_of_readNamed {block : Block} {named : Named}
    (h : block.readNamed = .ok named) : named.Proper := by
  unfold readNamed at h
  split at h
  · next name description hsplit =>
    obtain ⟨part, rfl⟩ := exists_trim_of_splitNamed? hsplit
    split at h
    · cases h
    · next hname =>
      obtain rfl := Except.ok.inj h
      refine ⟨?_, by simp [Text.trim_trim]⟩
      intro hempty
      have hnil : (Text.trim part) = [] := by simpa using congrArg String.toList hempty
      simp [hnil] at hname
  · split at h <;> cases h

/-- A block that lacks nothing is filled in with a proper name, if it has to have one. -/
theorem exists_named_settle {block : Block} (hbinding : block.binding.isNamed = true)
    (h : block.diagnostic? = none) : ∃ named, block.settle.named = some named ∧ named.Proper := by
  rw [diagnostic?, if_pos hbinding] at h
  rw [settle, if_pos hbinding]
  cases hread : block.readNamed with
  | error problem =>
    rw [hread] at h
    cases h
  | ok named => exact ⟨named, rfl, proper_of_readNamed hread⟩

end Block

private theorem exists_named_of_mem_ofEvents {events : List Event}
    (h : (Reading.ofEvents events).diagnostics = []) :
    ∀ block ∈ (Reading.ofEvents events).doc.blocks, block.binding.isNamed = true →
      ∃ named, block.named = some named ∧ named.Proper := by
  have hblocks := List.filterMap_eq_nil_iff.mp (List.append_eq_nil_iff.mp h).2
  intro settled hsettled hbinding
  obtain ⟨block, hblock, rfl⟩ := List.mem_map.mp hsettled
  rw [Block.settle_binding] at hbinding
  exact Block.exists_named_settle hbinding (hblocks block hblock)

private theorem exists_named_of_mem_read {tags : TagSet} {text : String} {firstLine : Nat}
    (h : (read tags text firstLine).diagnostics = []) :
    ∀ block ∈ (read tags text firstLine).doc.blocks, block.binding.isNamed = true →
      ∃ named, block.named = some named ∧ named.Proper := by
  unfold read at h ⊢
  split at h
  · exact exists_named_of_mem_ofEvents h
  · exact exists_named_of_mem_ofEvents h

end Comment

open PropDoc.Comment

/-- The reading of a comment of a file. -/
def SourceFile.readComment (file : SourceFile) (tags : TagSet) (comment : Focus) : Reading :=
  read tags (file.text comment.node) (comment.node.startRow file.source + 1)

/-- A comment starts on the row where the nearest of some nodes before it ends. -/
def trails (source : Source) (beyond : List Focus) (comment : Focus) : Bool :=
  beyond.head?.any fun stop ↦ comment.node.startRow source == stop.node.stopRow source

/-- A comment is the earliest of those that lead a statement: only comments stand between it and the
statement, and between it and the nearest other node before it, if there is one, only comments that
trail that node, which it does not do itself. -/
def LedBy (source : Source) (anchor comment : Focus) : Prop :=
  ∃ later trailing beyond, anchor.earlierSiblings = (later ++ comment :: trailing) ++ beyond ∧
    (∀ sibling ∈ later ++ comment :: trailing, sibling.node.isComment = true) ∧
    (∀ sibling ∈ beyond.head?, sibling.node.isComment = false) ∧
    trails source beyond comment = false ∧ ∀ sibling ∈ trailing, trails source beyond sibling = true

/-- In a comment without a problem, every block that has to have a name has a proper one. -/
theorem exists_named_of_mem_readComment {file : SourceFile} {tags : TagSet} {comment : Focus}
    (h : (file.readComment tags comment).diagnostics = []) :
    ∀ block ∈ (file.readComment tags comment).doc.blocks, block.binding.isNamed = true →
      ∃ named, block.named = some named ∧ named.Proper := by
  unfold SourceFile.readComment at h ⊢
  exact exists_named_of_mem_read h

/-! ### Descriptions one after the other -/

/-- The last description under a name. -/
def lastDescription? (names : List Named) (key : String) : Option String :=
  (names.reverse.find? fun named ↦ named.name == key).map Named.description

private theorem lastDescription?_cons (named : Named) (names : List Named) (key : String) :
    lastDescription? (named :: names) key =
      (lastDescription? names key).or
        (if named.name = key then some named.description else none) := by
  rw [lastDescription?, List.reverse_cons, List.find?_append, Option.map_or, ← lastDescription?]
  by_cases hkey : named.name = key <;> simp [hkey]

-- What a prop block names and describes.
private def propNamed? (block : Block) : Option Named :=
  if block.binding = .prop then block.named else none

private theorem propNamed?_eq_some_iff (block : Block) (named : Named) :
    propNamed? block = some named ↔ block.binding = .prop ∧ block.named = some named := by
  by_cases hprop : block.binding = .prop <;> simp [propNamed?, hprop]

private theorem descriptionsIn_eq (doc : Doc) :
    descriptionsIn doc = doc.blocks.filterMap propNamed? := by
  rw [descriptionsIn, Doc.blocksWith, List.filterMap_filter]
  simp only [decide_eq_true_eq]
  rfl

private theorem any_propNamed?_eq_false_iff (block : Block) (key : String) :
    (propNamed? block).any (fun named ↦ named.name == key) = false ↔
      (block.binding = .prop → ∀ named, block.named = some named → named.name ≠ key) := by
  cases hnamed : block.named with
  | none => simp [propNamed?, hnamed]
  | some named => by_cases hprop : block.binding = .prop <;> simp [propNamed?, hnamed, hprop]

/-- The last description under a name is that of the last prop block with the name. -/
theorem lastDescription?_eq_some_iff (doc : Doc) (key text : String) :
    lastDescription? (descriptionsIn doc) key = some text ↔ doc.DescribesLast key text := by
  rw [lastDescription?, descriptionsIn_eq, ← List.filterMap_reverse, List.find?_filterMap,
    Option.map_eq_some_iff]
  simp only [Option.bind_eq_some_iff, List.find?_eq_some_iff_append, propNamed?_eq_some_iff,
    Bool.not_eq_eq_eq_not, Bool.not_true, any_propNamed?_eq_false_iff]
  constructor
  · rintro ⟨named, ⟨block, ⟨hkey, after, before, hsplit, hafter⟩, hprop, hnamed⟩, rfl⟩
    have hname : named.name = key := by
      simpa [propNamed?, hprop, hnamed] using hkey
    refine ⟨before.reverse, block, after.reverse, ?_, hprop, by rw [hnamed, ← hname], ?_⟩
    · rw [← List.reverse_inj, hsplit]
      simp
    · intro later hlater
      exact hafter later (List.mem_reverse.mp hlater)
  · rintro ⟨before, block, after, hsplit, hprop, hnamed, hafter⟩
    refine ⟨⟨key, text⟩, ⟨block, ⟨?_, after.reverse, before.reverse, ?_, ?_⟩, hprop, hnamed⟩, rfl⟩
    · simp [propNamed?, hprop, hnamed]
    · simp [hsplit]
    · intro later hlater
      exact hafter later (List.mem_reverse.mp hlater)

namespace PropTable

/-- Descriptions one after the other keep the names and their order. -/
theorem keys_foldl_describe (names : List Named) (table : PropTable) :
    (names.foldl describe table).keys = table.keys := by
  induction names generalizing table with
  | nil => rfl
  | cons named names ih => rw [List.foldl_cons, ih, describe, Table.keys_modify]

/-- Descriptions one after the other leave the last one under a name, and nothing else changes. -/
theorem get?_foldl_describe (names : List Named) (table : PropTable) (key : String) :
    (names.foldl describe table).get? key = (table.get? key).map fun record ↦
      { record with description? := (lastDescription? names key).or record.description? } := by
  induction names generalizing table with
  | nil => simp [lastDescription?]
  | cons named names ih =>
    rw [List.foldl_cons, ih, describe, Table.get?_modify, lastDescription?_cons]
    cases table.get? key with
    | none => simp
    | some record =>
      by_cases hkey : key = named.name
      · simp [hkey]
      · simp [hkey, Ne.symm hkey]

/-- A name that is no prop has no effect. -/
theorem describe_of_not_mem {table : PropTable} {named : Named} (h : named.name ∉ table.keys) :
    table.describe named = table :=
  Table.modify_of_not_mem h _

/-- A table with the descriptions of a comment: the names and all else of the records are as before,
each prop has the last description that the comment has for it, and a block that names no prop might
as well be missing. -/
structure DescribedBy (table : PropTable) (doc : Doc) (described : PropTable) : Prop where
  keys : described.keys = table.keys
  records : ∀ key old, table.get? key = some old → ∃ new, described.get? key = some new ∧
    new.required = old.required ∧ new.default? = old.default? ∧ new.type = old.type ∧
    (∀ text, doc.DescribesLast key text → new.description? = some text) ∧
    ((∀ text, ¬ doc.DescribesLast key text) → new.description? = old.description?)
  undeclared : ∀ before block after, doc.blocks = before ++ block :: after →
    (∀ named, block.named = some named → named.name ∉ table.keys) →
    described = (descriptionsIn { doc with blocks := before ++ after }).foldl describe table

private theorem foldl_describe_of_undeclared (table : PropTable) (doc : Doc)
    {before after : List Block} {block : Block} (hsplit : doc.blocks = before ++ block :: after)
    (h : ∀ named, block.named = some named → named.name ∉ table.keys) :
    (descriptionsIn doc).foldl describe table =
      (descriptionsIn { doc with blocks := before ++ after }).foldl describe table := by
  rw [descriptionsIn_eq, descriptionsIn_eq, hsplit, List.filterMap_append, List.filterMap_append,
    List.filterMap_cons, List.foldl_append, List.foldl_append]
  cases hblock : propNamed? block with
  | none => rfl
  | some named =>
    have hnamed := ((propNamed?_eq_some_iff block named).mp hblock).2
    rw [List.foldl_cons, describe_of_not_mem]
    rw [keys_foldl_describe]
    exact h named hnamed

private theorem describedBy_foldl (table : PropTable) (doc : Doc) :
    table.DescribedBy doc ((descriptionsIn doc).foldl describe table) where
  keys := keys_foldl_describe _ table
  records := by
    intro key old hold
    have hnew := get?_foldl_describe (descriptionsIn doc) table key
    rw [hold, Option.map_some] at hnew
    refine ⟨_, hnew, rfl, rfl, rfl, ?_, ?_⟩
    · intro text htext
      simp [(lastDescription?_eq_some_iff doc key text).mpr htext]
    · intro hnone
      have hlast : lastDescription? (descriptionsIn doc) key = none :=
        Option.eq_none_iff_forall_ne_some.mpr fun text htext ↦
          hnone text ((lastDescription?_eq_some_iff doc key text).mp htext)
      simp [hlast]
  undeclared _ _ _ hsplit h := foldl_describe_of_undeclared table doc hsplit h

/-! ### The leading comment -/

section

variable {source : Source} {anchor comment : Focus}

/-- Siblings start with a run of comments, which may be empty. -/
theorem exists_comments_append (siblings : List Focus) :
    ∃ comments beyond, siblings = comments ++ beyond ∧
      (∀ sibling ∈ comments, sibling.node.isComment = true) ∧
      ∀ sibling ∈ beyond.head?, sibling.node.isComment = false := by
  induction siblings with
  | nil => exact ⟨[], [], rfl, by simp, by simp⟩
  | cons sibling siblings ih =>
    by_cases hcomment : sibling.node.isComment = true
    · obtain ⟨comments, beyond, rfl, hcomments, hbeyond⟩ := ih
      exact ⟨sibling :: comments, beyond, rfl, by simpa [hcomment] using hcomments, hbeyond⟩
    · exact ⟨[], sibling :: siblings, rfl, by simp, by simpa using hcomment⟩

/-- The leading comments are those of the run right before a statement that do not trail what is
beyond the run. -/
theorem leadingComments_of_append {comments beyond : List Focus}
    (h : anchor.earlierSiblings = comments ++ beyond)
    (hcomments : ∀ sibling ∈ comments, sibling.node.isComment = true)
    (hbeyond : ∀ sibling ∈ beyond.head?, sibling.node.isComment = false) :
    leadingComments source anchor =
      comments.reverse.filter fun comment ↦ !trails source beyond comment := by
  have htake : anchor.earlierSiblings.takeWhile (fun sibling ↦ sibling.node.isComment) =
      comments := by
    rw [h, List.takeWhile_append_of_pos hcomments]
    cases beyond with
    | nil => simp
    | cons stop _ => simp [hbeyond stop rfl]
  have hdrop : anchor.earlierSiblings.dropWhile (fun sibling ↦ sibling.node.isComment) =
      beyond := by
    rw [h, List.dropWhile_append_of_pos hcomments]
    cases beyond with
    | nil => rfl
    | cons stop _ => simp [hbeyond stop rfl]
  simp only [leadingComments, htake, hdrop]
  cases beyond with
  | nil => simp [trails]
  | cons stop rest => simp [trails, bne]

/-- The first of the leading comments is the one that leads a statement from farthest away. -/
theorem head?_leadingComments_eq_some_iff :
    (leadingComments source anchor).head? = some comment ↔ LedBy source anchor comment := by
  constructor
  · intro h
    obtain ⟨comments, beyond, hsplit, hcomments, hbeyond⟩ :=
      exists_comments_append anchor.earlierSiblings
    rw [leadingComments_of_append hsplit hcomments hbeyond, List.head?_filter] at h
    obtain ⟨hlead, trailing, later, hreverse, htrailing⟩ := List.find?_eq_some_iff_append.mp h
    have htaken : comments = later.reverse ++ comment :: trailing.reverse := by
      simpa using congrArg List.reverse hreverse
    subst htaken
    exact ⟨later.reverse, trailing.reverse, beyond, hsplit, hcomments, hbeyond,
      by simpa using hlead, by simpa using htrailing⟩
  · rintro ⟨later, trailing, beyond, hsplit, hcomments, hbeyond, hlead, htrailing⟩
    rw [leadingComments_of_append hsplit hcomments hbeyond, List.head?_filter,
      List.find?_eq_some_iff_append]
    exact ⟨by simp [hlead], trailing.reverse, later.reverse, by simp, by simpa using htrailing⟩

end

section

variable {table : PropTable} {tags : TagSet} {file : SourceFile} {anchor comment : Focus}

private theorem bind_of_not_ledBy (h : ∀ comment, ¬ LedBy file.source anchor comment) :
    table.bind tags file anchor = .ok ⟨"", table⟩ := by
  have hnone : (leadingComments file.source anchor).head? = none :=
    Option.eq_none_iff_forall_ne_some.mpr fun comment hcomment ↦
      h comment (head?_leadingComments_eq_some_iff.mp hcomment)
  rw [bind, hnone]

private theorem bind_of_problem {diagnostic : Diagnostic} {later : List Diagnostic}
    (hcomment : LedBy file.source anchor comment)
    (h : (file.readComment tags comment).diagnostics = diagnostic :: later) :
    table.bind tags file anchor = .error (.faultyComment file.path diagnostic) := by
  rw [SourceFile.readComment] at h
  rw [bind, head?_leadingComments_eq_some_iff.mpr hcomment]
  dsimp only
  rw [h, List.head?_cons]

private theorem bind_of_no_problem (hcomment : LedBy file.source anchor comment)
    (h : (file.readComment tags comment).diagnostics = []) :
    table.bind tags file anchor = .ok ⟨(file.readComment tags comment).doc.summary,
      (descriptionsIn (file.readComment tags comment).doc).foldl describe table⟩ := by
  rw [SourceFile.readComment] at h ⊢
  rw [bind, head?_leadingComments_eq_some_iff.mpr hcomment]
  dsimp only
  rw [h, List.head?_nil]

end

/-- What comes of filling in descriptions. Without a leading comment nothing is filled in. The first
problem of the earliest leading comment is the error, and there is no other. Without a problem the
table is described by that comment, in which every block that has to have a name has a proper one.
-/
theorem bind_outcome (table : PropTable) (tags : TagSet) (file : SourceFile) (anchor : Focus) :
    ((∀ comment, ¬ LedBy file.source anchor comment) →
      table.bind tags file anchor = .ok ⟨"", table⟩) ∧
    ∀ comment, LedBy file.source anchor comment →
      (∀ error, table.bind tags file anchor = .error error ↔
        ∃ diagnostic later, (file.readComment tags comment).diagnostics = diagnostic :: later ∧
          error = .faultyComment file.path diagnostic) ∧
      ∀ described, table.bind tags file anchor = .ok described →
        described.summary = (file.readComment tags comment).doc.summary ∧
          table.DescribedBy (file.readComment tags comment).doc described.table ∧
          ∀ block ∈ (file.readComment tags comment).doc.blocks, block.binding.isNamed = true →
            ∃ named, block.named = some named ∧ named.Proper := by
  refine ⟨bind_of_not_ledBy, ?_⟩
  intro comment hcomment
  cases hdiagnostics : (file.readComment tags comment).diagnostics with
  | cons diagnostic later =>
    rw [bind_of_problem hcomment hdiagnostics]
    refine ⟨fun error ↦ ?_, fun described hdescribed ↦ by cases hdescribed⟩
    simp [eq_comm]
  | nil =>
    have hnames := exists_named_of_mem_readComment hdiagnostics
    rw [bind_of_no_problem hcomment hdiagnostics]
    generalize file.readComment tags comment = reading at hnames ⊢
    refine ⟨fun error ↦ by simp, ?_⟩
    intro described hdescribed
    obtain rfl := Except.ok.inj hdescribed
    exact ⟨rfl, describedBy_foldl table reading.doc, hnames⟩

/-- A file with a statement and a comment on its line, then two comments and a component. -/
def fieldFile : SourceFile :=
  let comment := "/** Field.\n * @prop label - First\n * @prop ghost - None\n" ++
    " * @prop label - Last\n */"
  let n := 24 + comment.length
  { path := ⟨"Field.tsx"⟩
    source := .ofString
      ("const gap = 8; /* px */\n" ++ comment ++ "\n/** Second */\nexport function A() \x7b\x7d\n")
    root := .mk { kind := "program", stop := n + 38 } [
      .mk { kind := "lexical_declaration", stop := 14 } [],
      .mk { kind := "comment", start := 15, stop := 23 } [],
      .mk { kind := "comment", start := 24, stop := n } [],
      .mk { kind := "comment", start := n + 1, stop := n + 14 } [],
      .mk { kind := "export_statement", start := n + 15, stop := n + 37 } []] }

/-- A statement of the file in its place. -/
def fieldStatement (position : Nat) : Focus :=
  (fieldFile.statements[position]?).getD fieldFile.rootFocus

/-- Two props, one of them with a description. -/
def fieldTable : PropTable :=
  (Table.empty.insert "label" { required := true, type := .unknown }).insert "size"
    { required := false, type := .unknown, description? := some "Kept" }

/-- A statement without comments leaves the table as it is. One with two takes the descriptions of
the earlier, of which the last for a prop counts, and a prop without one keeps what it had. -/
theorem bind_outcome_field :
    fieldTable.bind .standard fieldFile (fieldStatement 0) = .ok ⟨"", fieldTable⟩ ∧
    ∃ comment described, LedBy fieldFile.source (fieldStatement 4) comment ∧
      comment.node.start = 24 ∧
      fieldTable.bind .standard fieldFile (fieldStatement 4) = .ok described ∧
      fieldTable.DescribedBy (fieldFile.readComment .standard comment).doc described.table ∧
      described.table.entries.map (fun entry ↦ (entry.1, entry.2.description?)) =
        [("label", some "Last"), ("size", some "Kept")] := by
  have hseen : (fieldTable.bind .standard fieldFile (fieldStatement 4)).toOption.map
      (fun described ↦ described.table.entries.map fun entry ↦ (entry.1, entry.2.description?)) =
        some [("label", some "Last"), ("size", some "Kept")] := by
    decide +kernel
  have hfirst : ((leadingComments fieldFile.source (fieldStatement 4)).head?.map
      fun comment ↦ comment.node.start) = some 24 := by
    decide +kernel
  have hnone : (leadingComments fieldFile.source (fieldStatement 0)).length = 0 := by
    decide +kernel
  have hunled : ∀ comment, ¬ LedBy fieldFile.source (fieldStatement 0) comment := by
    intro comment hcomment
    have hhead := head?_leadingComments_eq_some_iff.mpr hcomment
    rw [List.eq_nil_of_length_eq_zero hnone] at hhead
    cases hhead
  refine ⟨(bind_outcome _ _ _ _).1 hunled, ?_⟩
  obtain ⟨comment, hcomment, hstart⟩ := Option.map_eq_some_iff.mp hfirst
  have hled : LedBy fieldFile.source (fieldStatement 4) comment :=
    head?_leadingComments_eq_some_iff.mp hcomment
  cases hbind : fieldTable.bind .standard fieldFile (fieldStatement 4) with
  | error error =>
    rw [hbind] at hseen
    cases hseen
  | ok described =>
    rw [hbind] at hseen
    have houtcome := (bind_outcome fieldTable .standard fieldFile (fieldStatement 4)).2 comment hled
    exact ⟨comment, described, hled, hstart, rfl, (houtcome.2 described hbind).2.1,
      Option.some.inj hseen⟩

end PropTable

end PropDoc
