import PropDoc.Proofs.Comment.Line
import PropDoc.Proofs.Comment.Rescan

/-!
# Tokens by their place

A place of a line either lies inside a token or is where one starts. What is scanned from there on
depends on the text before it in no more than whether a word can start. So a tag that is written
where no code span and no inline tag reaches is read as that tag, and the reading of the comment is
what comes of the text before it, of the tag, and of the text after it.
-/

namespace PropDoc.Comment

namespace Token

/-- Whether a token encloses text that is not read on its own: a code span or an inline tag, closed
or not. -/
def isSpan : Token → Bool
  | code _ | openCode _ | inline _ _ | openInline _ => true
  | _ => false

/-- The token that reaches over a place, which is given by the number of characters before it: the
token starts before the place and ends after it. -/
def over? : List Token → Nat → Option Token
  | [], _ => none
  | token :: tokens, place =>
    if place = 0 then none
    else if place < token.source.length then some token
    else over? tokens (place - token.source.length)

/-- Whether a word can start after some text, given whether one can before it. -/
def wordStartAfter (wordStart : Bool) (before : List Char) : Bool :=
  (before.getLast?.map Text.isBlank).getD wordStart

/-- Whether a word can start after two texts is decided by one after the other. -/
theorem wordStartAfter_append (wordStart : Bool) (first second : List Char) :
    wordStartAfter wordStart (first ++ second) =
      wordStartAfter (wordStartAfter wordStart first) second := by
  unfold wordStartAfter
  rw [List.getLast?_append]
  cases second.getLast? <;> rfl

/-- A word can start after a blank and after no other character. -/
theorem wordStartAfter_concat (wordStart : Bool) (before : List Char) (c : Char) :
    wordStartAfter wordStart (before ++ [c]) = Text.isBlank c := by
  rw [wordStartAfter, List.getLast?_concat]
  rfl

private theorem wordStartAfter_of_wordStart {before : List Char} (h : WordStart before) :
    wordStartAfter true before = true := by
  rcases h with rfl | ⟨init, last, rfl, hblank⟩
  · rfl
  · rwa [wordStartAfter_concat]

/-! ### Where a token starts -/

/-- If no token reaches over a place, then the tokens before it and the tokens after it are what is
written there. -/
theorem exists_of_over?_eq_none {tokens : List Token} {before rest : List Char}
    (h : sources tokens = before ++ rest) (hover : over? tokens before.length = none) :
    ∃ first last, tokens = first ++ last ∧ sources first = before ∧ sources last = rest := by
  induction tokens generalizing before with
  | nil =>
    obtain ⟨rfl, rfl⟩ := List.append_eq_nil_iff.mp h.symm
    exact ⟨[], [], rfl, rfl, rfl⟩
  | cons token tokens ih =>
    by_cases hnil : before = []
    · subst hnil
      exact ⟨[], token :: tokens, rfl, rfl, h⟩
    · rw [over?, if_neg (by simpa using hnil)] at hover
      split at hover
      · cases hover
      · next hlength =>
        rw [sources_cons] at h
        obtain ⟨before', rfl⟩ : token.source <+: before :=
          List.prefix_of_prefix_length_le ⟨sources tokens, h⟩ (List.prefix_append before rest)
            (Nat.le_of_not_lt hlength)
        rw [List.append_assoc, List.append_cancel_left_eq] at h
        rw [List.length_append, Nat.add_sub_cancel_left] at hover
        obtain ⟨first, last, rfl, rfl, hlast⟩ := ih h hover
        exact ⟨token :: first, last, rfl, sources_cons token first, hlast⟩

/-- A token that reaches over a place is written partly before it and partly after it. -/
theorem exists_of_over?_eq_some {tokens : List Token} {token : Token} {before rest : List Char}
    (h : sources tokens = before ++ rest) (hover : over? tokens before.length = some token) :
    token ∈ tokens ∧ ∃ part part', token.source = part ++ part' ∧ part ≠ [] ∧ part' ≠ [] ∧
      part <:+ before ∧ part' <+: rest := by
  induction tokens generalizing before with
  | nil => cases hover
  | cons head tokens ih =>
    rw [sources_cons] at h
    by_cases hnil : before = []
    · subst hnil
      cases hover
    · rw [over?, if_neg (by simpa using hnil)] at hover
      split at hover
      · next hlength =>
        cases hover
        obtain ⟨part', hpart'⟩ : before <+: token.source :=
          List.prefix_of_prefix_length_le (List.prefix_append before rest) ⟨sources tokens, h⟩
            (Nat.le_of_lt hlength)
        refine ⟨List.mem_cons_self, before, part', hpart'.symm, hnil, ?_, List.suffix_rfl, ?_⟩
        · rintro rfl
          rw [← hpart', List.append_nil] at hlength
          exact Nat.lt_irrefl _ hlength
        · rw [← hpart', List.append_assoc, List.append_cancel_left_eq] at h
          exact ⟨sources tokens, h⟩
      · next hlength =>
        obtain ⟨before', rfl⟩ : head.source <+: before :=
          List.prefix_of_prefix_length_le ⟨sources tokens, h⟩ (List.prefix_append before rest)
            (Nat.le_of_not_lt hlength)
        rw [List.append_assoc, List.append_cancel_left_eq] at h
        rw [List.length_append, Nat.add_sub_cancel_left] at hover
        obtain ⟨hmem, part, part', hsource, hpart, hpart', hbefore, hrest⟩ := ih h hover
        exact ⟨List.mem_cons_of_mem head hmem, part, part', hsource, hpart, hpart',
          hbefore.trans (List.suffix_append head.source before'), hrest⟩

/-! ### What is scanned after a token -/

/-- A tag name is made of letters and digits. -/
theorem isAlphanum_of_mem_tagName {text : List Char} {c : Char} (h : c ∈ tagName text) :
    c.isAlphanum = true := by
  cases text with
  | nil => cases h
  | cons first rest =>
    rw [tagName] at h
    split at h
    · next hfirst =>
      rcases List.mem_cons.mp h with rfl | hrest
      · rw [Char.isAlphanum, hfirst, Bool.true_or]
      · exact List.mem_takeWhile_imp hrest
    · cases h

private theorem wordStartAfter_tag (wordStart : Bool) (rest : List Char) :
    wordStartAfter wordStart ('@' :: tagName rest) = false := by
  have hsolid : ∀ c ∈ tagName rest, Text.isBlank c = false :=
    fun c hc ↦ isBlank_of_isAlphanum (isAlphanum_of_mem_tagName hc)
  generalize tagName rest = name at hsolid
  cases name using List.reverseRecOn with
  | nil => rfl
  | append_singleton name c =>
    rw [← List.cons_append, wordStartAfter_concat]
    exact hsolid c (by simp)

/-- What is scanned after a token depends on what is before in no more than whether a word can start
there. -/
theorem eq_scan_of_scan_eq_cons {wordStart : Bool} {cs : List Char} {token : Token}
    {tokens : List Token} (h : scan wordStart cs = token :: tokens) :
    tokens = scan (wordStartAfter wordStart token.source) (sources tokens) := by
  fun_induction scan wordStart cs with
  | case1 => cases h
  | case2 wordStart c rest =>
    cases h
    rw [sources_scan]
    exact congrArg (scan · rest) (wordStartAfter_concat wordStart ['\\'] c).symm
  | case3 wordStart rest content after =>
    cases h
    rw [sources_scan]
    exact congrArg (scan · after) (wordStartAfter_concat wordStart ('\x60' :: content) '\x60').symm
  | case4 =>
    cases h
    rw [sources_nil, scan]
  | case5 wordStart rest inside after =>
    cases h
    rw [sources_scan]
    exact congrArg (scan · after) (wordStartAfter_concat wordStart ('\x7b' :: _) '\x7d').symm
  | case6 =>
    cases h
    rw [sources_nil, scan]
  | case7 wordStart rest | case8 wordStart rest | case9 rest | case11 wordStart rest =>
    cases h
    rw [sources_scan]
    rfl
  | case10 rest =>
    cases h
    rw [sources_scan, source, wordStartAfter_tag]
  | case12 wordStart c rest =>
    cases h
    rw [sources_scan]
    rfl

/-- What is scanned after some tokens depends on what is before in no more than whether a word can
start there. -/
theorem eq_scan_of_scan_eq_append {wordStart : Bool} {cs : List Char} {first last : List Token}
    (h : scan wordStart cs = first ++ last) :
    last = scan (wordStartAfter wordStart (sources first)) (sources last) := by
  induction first generalizing wordStart cs with
  | nil =>
    rw [List.nil_append] at h
    rw [← h, sources_scan, sources_nil]
    rfl
  | cons token first ih =>
    have hrest := eq_scan_of_scan_eq_cons h
    rw [sources_cons, wordStartAfter_append]
    exact ih hrest.symm

/-! ### Tokens that reach over a place -/

/-- A tag that is scanned is an at sign and the longest tag name after it. -/
theorem exists_of_tag_mem_scan {wordStart : Bool} {cs name : List Char}
    (h : tag name ∈ scan wordStart cs) : ∃ rest, name = '@' :: tagName rest := by
  obtain ⟨first, last, hsplit⟩ := List.append_of_mem h
  have hscan := eq_scan_of_scan_eq_append hsplit
  generalize wordStartAfter wordStart (sources first) = start at hscan
  generalize sources (tag name :: last) = cs at hscan
  fun_induction scan start cs with
  | case10 rest =>
    cases hscan
    exact ⟨rest, rfl⟩
  | _ => cases hscan

/-- What reaches over a place before a character that is no letter and no digit is a code span, an
inline tag or the escape of that character. -/
theorem isSpan_or_escaped_of_over? {before rest : List Char} {c : Char} {token : Token}
    (hc : c.isAlphanum = false)
    (h : over? (ofLine (before ++ c :: rest)) before.length = some token) :
    token.isSpan = true ∨ token = escaped c ∧ ['\\'] <:+ before := by
  have hsources : sources (ofLine (before ++ c :: rest)) = before ++ c :: rest :=
    sources_scan true _
  obtain ⟨hmem, part, part', hsource, hpart, hpart', hbefore, hrest⟩ :=
    exists_of_over?_eq_some hsources h
  obtain ⟨first, part, rfl⟩ := List.exists_cons_of_ne_nil hpart
  obtain ⟨d, part', rfl⟩ := List.exists_cons_of_ne_nil hpart'
  obtain rfl := (List.cons_prefix_cons.mp hrest).1
  cases token with
  | code | openCode | inline | openInline => exact .inl rfl
  | escaped e =>
    obtain ⟨rfl, hlast⟩ := List.cons.inj hsource
    obtain ⟨rfl, hd⟩ := List.append_eq_singleton_iff.mp hlast.symm |>.resolve_right (by simp)
    obtain ⟨rfl, -⟩ := List.cons.inj hd
    exact .inr ⟨rfl, hbefore⟩
  | tag name =>
    obtain ⟨text, rfl⟩ := exists_of_tag_mem_scan hmem
    have hd : d ∈ tagName text := by
      rw [(List.cons.inj hsource).2]
      simp
    rw [isAlphanum_of_mem_tagName hd] at hc
    cases hc
  | char | openBrace | closeBrace | bareAtSign =>
    have hlength := congrArg List.length hsource
    simp [source] at hlength

private theorem exists_split_of_over? {before rest : List Char}
    (h : over? (ofLine (before ++ rest)) before.length = none) :
    ∃ tokens, ofLine (before ++ rest) = tokens ++ scan (wordStartAfter true before) rest ∧
      sources tokens = before := by
  obtain ⟨tokens, last, hsplit, hbefore, hrest⟩ :=
    exists_of_over?_eq_none (sources_scan true (before ++ rest)) h
  have hlast := eq_scan_of_scan_eq_append hsplit
  rw [hbefore, hrest] at hlast
  exact ⟨tokens, by rw [ofLine, hsplit, ← hlast], hbefore⟩

/-- A tag name that no letter or digit follows is read as a tag where a word starts, unless a code
span or an inline tag reaches over the place. -/
theorem exists_tokens_of_tag {before name rest : List Char} (hne : name ≠ [])
    (hname : LongestTagName (name ++ rest) name) (hstart : WordStart before)
    (hplace : ∀ token ∈ over? (ofLine (before ++ '@' :: (name ++ rest))) before.length,
      token.isSpan = false) :
    ∃ tokens tokens', ofLine (before ++ '@' :: (name ++ rest)) =
      tokens ++ tag ('@' :: name) :: tokens' ∧ sources tokens = before := by
  have hover : over? (ofLine (before ++ '@' :: (name ++ rest))) before.length = none := by
    cases hsome : over? (ofLine (before ++ '@' :: (name ++ rest))) before.length with
    | none => rfl
    | some token =>
      rcases isSpan_or_escaped_of_over? (by decide) hsome with hspan | ⟨-, init, rfl⟩
      · rw [hplace token hsome] at hspan
        cases hspan
      · have hblank := wordStartAfter_of_wordStart hstart
        rw [wordStartAfter_concat] at hblank
        exact absurd hblank (by decide)
  obtain ⟨tokens, hsplit, hbefore⟩ := exists_split_of_over? hover
  rw [wordStartAfter_of_wordStart hstart, scan_tag hne hname] at hsplit
  exact ⟨tokens, _, hsplit, hbefore⟩

/-- A tag name in braces is read as an inline tag, unless a code span, another inline tag or an
escape reaches over the place. -/
theorem exists_tokens_of_inline {before name content rest : List Char}
    (hname : LongestTagName (name ++ content) name) (hclose : '\x7d' ∉ name ++ content)
    (hplace : ∀ token ∈
      over? (ofLine (before ++ '\x7b' :: '@' :: (name ++ content ++ '\x7d' :: rest))) before.length,
      token.isSpan = false ∧ token ≠ escaped '\x7b') :
    ∃ tokens tokens', ofLine (before ++ '\x7b' :: '@' :: (name ++ content ++ '\x7d' :: rest)) =
      tokens ++ inline ('@' :: name) content :: tokens' ∧ sources tokens = before := by
  have hover : over? (ofLine (before ++ '\x7b' :: '@' :: (name ++ content ++ '\x7d' :: rest)))
      before.length = none := by
    refine Option.eq_none_iff_forall_ne_some.mpr fun token hsome ↦ ?_
    obtain ⟨hspan, hescaped⟩ := hplace token hsome
    rcases isSpan_or_escaped_of_over? (by decide) hsome with hspan' | ⟨heq, -⟩
    · rw [hspan] at hspan'
      cases hspan'
    · exact hescaped heq
  obtain ⟨tokens, hsplit, hbefore⟩ := exists_split_of_over? hover
  have htext : tagName (name ++ content) = name := ((longestTagName_iff ..).mp hname).symm
  rw [scan_inline _ hclose, htext, List.drop_left] at hsplit
  exact ⟨tokens, _, hsplit, hbefore⟩

end Token

/-! ### Places of a comment -/

/-- A place on a line of a comment outside its fences: the lines before, the text of the line before
the place and after it, and the lines after. -/
structure Place (text : List Char) where
  linesBefore : List (List Char)
  before : List Char
  after : List Char
  linesAfter : List (List Char)
  lines : innerLines text = linesBefore ++ (before ++ after) :: linesAfter
  noFence : Event.isFence (before ++ after) = false
  outsideFences : Even (linesBefore.countP Event.isFence)

/-- A reading amounts to some marks: they give its modifiers, its blocks apart from their text, and
what is wrong with it apart from the names of blocks. -/
structure Reading.AmountsTo (reading : Reading) (marks : List Event) : Prop where
  modifiers : reading.doc.modifiers = marks.filterMap Event.modifier?
  blocks : reading.doc.blocks.map Block.head = marks.filterMap Event.opening?
  problems : reading.diagnostics.filter (fun diagnostic ↦ !diagnostic.problem.concernsName) =
    marks.filterMap Event.diagnostic?

namespace Place

variable {text : List Char}

/-- The line of a place in a comment that starts on a given one. -/
def number (place : Place text) (firstLine : Nat) : Nat := firstLine + place.linesBefore.length

/-- No code span and no inline tag reaches over a place. -/
def InText (place : Place text) : Prop :=
  ∀ token ∈ Token.over? (Token.ofLine (place.before ++ place.after)) place.before.length,
    token.isSpan = false

instance (place : Place text) : Decidable place.InText :=
  inferInstanceAs (Decidable (∀ token ∈
    Token.over? (Token.ofLine (place.before ++ place.after)) place.before.length,
      token.isSpan = false))

/-- No backslash escapes the character at a place. -/
def Unescaped (place : Place text) : Prop :=
  ∀ token ∈ Token.over? (Token.ofLine (place.before ++ place.after)) place.before.length,
    ∀ c, token ≠ .escaped c

/-- The text at a place is read as one token with a meaning: the reading amounts to what comes of
the lines and tokens before it, of that meaning, and of the tokens and lines after it. -/
def ReadAs (place : Place text) (tags : TagSet) (firstLine : Nat) (reading : Reading)
    (written : List Char) (meaning : Meaning) : Prop :=
  ∃ tokens token tokens', Token.ofLine (place.before ++ place.after) =
      tokens ++ token :: tokens' ∧
    Token.sources tokens = place.before ∧ token.source = written ∧ token.meaning tags = meaning ∧
    reading.AmountsTo
      (Event.marks (Event.ofInner tags false firstLine place.linesBefore) ++
        tokens.filterMap (Token.mark? tags (place.number firstLine)) ++
        (meaning.mark? (place.number firstLine)).toList ++
        tokens'.filterMap (Token.mark? tags (place.number firstLine)) ++
        Event.marks (Event.ofLines tags false (place.number firstLine + 1) place.linesAfter))

end Place

private theorem concernsName_of_mem_ofComment {tags : TagSet} {text : List Char} {firstLine : Nat}
    {diagnostic : Diagnostic} (h : .problem diagnostic ∈ Event.ofComment tags text firstLine) :
    diagnostic.problem.concernsName = false := by
  unfold Event.ofComment at h
  split at h
  · cases List.mem_singleton.mp h
    rfl
  · exact Event.concernsName_of_mem_ofLines h

/-- The events of a framed comment are those of the lines between its delimiters. -/
theorem ofComment_of_framed {text : List Char} (hframed : Framed text) (tags : TagSet)
    (firstLine : Nat) :
    Event.ofComment tags text firstLine =
      Event.ofLines tags false firstLine (innerLines text) := by
  obtain ⟨body, htrim⟩ := (framed_iff text).mp hframed
  have hbody := (body?_eq_some_iff text body).mpr htrim
  rw [Event.ofComment, hbody, innerLines_of_body?_eq_some hbody]

/-- A comment amounts to the marks of its events. -/
theorem amountsTo_read (tags : TagSet) (text : String) (firstLine : Nat) :
    (read tags text firstLine).AmountsTo
      (Event.marks (Event.ofComment tags text.toList firstLine)) where
  modifiers := by rw [read_eq_ofEvents, Reading.modifiers_ofEvents]
  blocks := by rw [read_eq_ofEvents, Reading.map_head_blocks_ofEvents]
  problems := by
    rw [read_eq_ofEvents, Reading.filter_diagnostics_ofEvents, List.filter_eq_self]
    intro diagnostic hdiagnostic
    obtain ⟨event, hevent, hfound⟩ := List.mem_filterMap.mp hdiagnostic
    cases event <;> cases hfound
    rw [concernsName_of_mem_ofComment ((Event.mem_marks_iff ..).mp hevent).1, Bool.not_false]

namespace Reading.AmountsTo

variable {reading : Reading} {marks : List Event}

/-- A mark that opens a block has its block in the reading. -/
theorem exists_block (h : reading.AmountsTo marks) {tag : String} {binding : Binding} {line : Nat}
    (hmark : .opens tag binding line ∈ marks) :
    ∃ block ∈ reading.doc.blocks,
      block.tag = tag ∧ block.binding = binding ∧ block.line = line := by
  have hhead : (tag, binding, line) ∈ reading.doc.blocks.map Block.head := by
    rw [h.blocks]
    exact List.mem_filterMap.mpr ⟨_, hmark, rfl⟩
  obtain ⟨block, hblock, heq⟩ := List.mem_map.mp hhead
  cases heq
  exact ⟨block, hblock, rfl, rfl, rfl⟩

/-- A mark of a modifier has its modifier in the reading. -/
theorem hasModifier (h : reading.AmountsTo marks) {name : String}
    (hmark : .modifier name ∈ marks) : reading.doc.hasModifier name = true := by
  rw [Doc.hasModifier, List.contains_iff_mem, h.modifiers]
  exact List.mem_filterMap.mpr ⟨_, hmark, rfl⟩

end Reading.AmountsTo

namespace Place

/-- The events of a framed comment are those of the lines before a place, of its line, and of the
lines after it. -/
theorem ofComment_eq {text : List Char} (hframed : Framed text) (place : Place text) (tags : TagSet)
    (firstLine : Nat) :
    Event.ofComment tags text firstLine =
      Event.ofInner tags false firstLine place.linesBefore ++
        (Event.ofLine tags (place.number firstLine) (place.before ++ place.after) ++
          Event.ofLines tags false (place.number firstLine + 1) place.linesAfter) := by
  have hfence : Event.fenceAfter false place.linesBefore = false :=
    (Event.fenceAfter_eq_false_iff ..).mpr (by simpa using place.outsideFences)
  rw [ofComment_of_framed hframed, place.lines, Event.ofLines_append, hfence, Event.ofLines,
    if_neg (by simp [place.noFence]), if_neg Bool.false_ne_true, number]

/-- What is read as a token at a place of a framed comment has the meaning of that token. -/
theorem readAs_of_ofLine {text : String} (hframed : Framed text.toList) (place : Place text.toList)
    (tags : TagSet) (firstLine : Nat) {tokens tokens' : List Token} {token : Token}
    (hline : Token.ofLine (place.before ++ place.after) = tokens ++ token :: tokens')
    (hbefore : Token.sources tokens = place.before) :
    place.ReadAs tags firstLine (read tags text firstLine) token.source (token.meaning tags) := by
  have hread := amountsTo_read tags text firstLine
  rw [place.ofComment_eq hframed, Event.marks_append, Event.marks_append, Event.marks_ofLine,
    hline, List.filterMap_append] at hread
  have htoken : (token :: tokens').filterMap (Token.mark? tags (place.number firstLine)) =
      ((token.meaning tags).mark? (place.number firstLine)).toList ++
        tokens'.filterMap (Token.mark? tags (place.number firstLine)) := by
    rw [List.filterMap_cons, Token.mark?]
    cases (token.meaning tags).mark? (place.number firstLine) <;> rfl
  refine ⟨tokens, token, tokens', hline, hbefore, rfl, rfl, ?_⟩
  simpa only [htoken, List.append_assoc] using hread

section

variable {text : List Char} {place : Place text} {tags : TagSet} {firstLine : Nat}
  {reading : Reading} {written : List Char}

/-- A block is opened where its tag is read. -/
theorem ReadAs.exists_block {tag : String} {binding : Binding}
    (h : place.ReadAs tags firstLine reading written (.opens tag binding)) :
    ∃ block ∈ reading.doc.blocks, block.tag = tag ∧ block.binding = binding ∧
      block.line = place.number firstLine := by
  obtain ⟨_, _, _, -, -, -, -, hread⟩ := h
  exact hread.exists_block (by simp [Meaning.mark?])

/-- A modifier is recorded where its tag is read. -/
theorem ReadAs.hasModifier {name : String}
    (h : place.ReadAs tags firstLine reading written (.modifier name)) :
    reading.doc.hasModifier name = true := by
  obtain ⟨_, _, _, -, -, -, -, hread⟩ := h
  exact hread.hasModifier (by simp [Meaning.mark?])

end

end Place

end PropDoc.Comment
