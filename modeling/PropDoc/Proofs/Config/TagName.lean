import PropDoc.Config.Reader
import PropDoc.Proofs.Comment.Section

/-!
# Names of configured tags

A configuration may name its tags by just those texts that are read as one tag when they stand
alone. So whatever tags a valid configuration has are found in comments: written in running text,
each is read as the tag that the configuration says it is.
-/

namespace PropDoc

open PropDoc.Comment

/-- The last definition of a tag counts. -/
theorem Comment.TagSet.get?_insertAll_of_last (tags : TagSet) (earlier : List Tag) {tag : Tag}
    {later : List Tag} (h : ∀ other ∈ later, other.name ≠ tag.name) :
    (tags.insertAll (earlier ++ tag :: later)).get? tag.name = some tag := by
  have hlater (more : TagSet) : (more.insertAll later).get? tag.name = more.get? tag.name := by
    induction later generalizing more with
    | nil => rfl
    | cons other later ih =>
      obtain ⟨hother, hlater⟩ := List.forall_mem_cons.mp h
      rw [insertAll, List.foldl_cons]
      exact (ih hlater _).trans (by rw [get?_insert, if_neg (Ne.symm hother)])
  rw [insertAll, List.foldl_append, List.foldl_cons]
  exact (hlater _).trans (by rw [get?_insert, if_pos rfl])

namespace Config

/-! ### Names -/

private theorem exists_of_isTagName {name : String} (h : isTagName name = true) :
    ∃ chars, name.toList = '@' :: chars ∧ chars ≠ [] ∧
      ∀ rest : List Char, (∀ c ∈ rest.head?, c.isAlphanum = false) →
        LongestTagName (chars ++ rest) chars := by
  unfold isTagName at h
  split at h
  · next first others hname =>
    obtain ⟨hfirst, hothers⟩ := Bool.and_eq_true_iff.mp h
    refine ⟨first :: others, hname, List.cons_ne_nil first others, ?_⟩
    intro rest hrest
    have hstop : rest.takeWhile Char.isAlphanum = [] := by
      cases rest with
      | nil => rfl
      | cons c rest => simp [hrest c rfl]
    rw [longestTagName_iff, List.cons_append, Token.tagName, if_pos hfirst,
      List.takeWhile_append_of_pos (List.all_eq_true.mp hothers), hstop, List.append_nil]
  · cases h

private theorem isTagName_iff (name : String) :
    isTagName name = true ↔ Token.ofLine name.toList = [.tag name.toList] := by
  constructor
  · intro h
    obtain ⟨chars, hname, hne, hlongest⟩ := exists_of_isTagName h
    have hscan := scan_tag hne (hlongest [] (by simp))
    rw [List.append_nil, Token.scan] at hscan
    rw [hname]
    exact hscan
  · intro h
    obtain ⟨rest, hname⟩ := Token.exists_of_tag_mem_scan (h ▸ List.mem_singleton_self _)
    have hlongest : LongestTagName rest (Token.tagName rest) := (longestTagName_iff ..).mpr rfl
    rw [isTagName, hname]
    rcases hlongest.1 with hnil | ⟨first, others, hcons, hfirst, hothers⟩
    · rw [hname, hnil] at h
      exact absurd h (by decide +kernel)
    · rw [hcons]
      simpa [hfirst] using hothers

private theorem isTagName_of_validate {config : Config} (h : config.validate = .ok ()) {tag : Tag}
    (htag : tag ∈ config.tags) : isTagName tag.name = true := by
  unfold validate at h
  split at h
  · cases h
  · next hproblem =>
    unfold problem? at hproblem
    split at hproblem
    · cases hproblem
    · simp only [Option.or_eq_none_iff, Option.map_eq_none_iff, List.find?_eq_none] at hproblem
      simpa using hproblem.2.1 tag htag

/-! ### Tags where they are written -/

section

variable (tags : TagSet) {tag : Tag} {text : String} {place : Place text.toList}

private theorem readAs_of_tag (hvalid : isTagName tag.name = true)
    (hframed : Framed text.toList) (firstLine : Nat) (hplace : place.InText) {rest : List Char}
    (hafter : place.after = tag.name.toList ++ rest)
    (hstart : WordStart place.before) (hrest : ∀ c ∈ rest.head?, c.isAlphanum = false) :
    place.ReadAs tags firstLine (read tags text firstLine) tag.name.toList
      (Token.meaning tags (.tag tag.name.toList)) := by
  obtain ⟨chars, hname, hne, hlongest⟩ := exists_of_isTagName hvalid
  rw [hname, List.cons_append] at hafter
  have hspans := hplace
  rw [Place.InText, hafter] at hspans
  obtain ⟨tokens, tokens', hline, hbefore⟩ :=
    Token.exists_tokens_of_tag hne (hlongest rest hrest) hstart hspans
  rw [← hafter] at hline
  rw [hname]
  exact place.readAs_of_ofLine hframed tags firstLine hline hbefore

private theorem readAs_of_inline (hvalid : isTagName tag.name = true)
    (hframed : Framed text.toList) (firstLine : Nat) (hplace : place.InText)
    (hunescaped : place.Unescaped) {content rest : List Char}
    (hafter : place.after = '\x7b' :: (tag.name.toList ++ content ++ '\x7d' :: rest))
    (hclose : '\x7d' ∉ content) (hcontent : ∀ c ∈ content.head?, c.isAlphanum = false) :
    place.ReadAs tags firstLine (read tags text firstLine)
      ('\x7b' :: (tag.name.toList ++ content ++ ['\x7d']))
      (Token.meaning tags (.inline tag.name.toList content)) := by
  obtain ⟨chars, hname, hne, hlongest⟩ := exists_of_isTagName hvalid
  have hlong := hlongest content hcontent
  have hsolid : '\x7d' ∉ chars := by
    intro hmem
    rw [(longestTagName_iff ..).mp hlong] at hmem
    exact absurd (Token.isAlphanum_of_mem_tagName hmem) (by decide)
  rw [hname, List.cons_append, List.cons_append] at hafter
  have hspans : ∀ token ∈ Token.over? (Token.ofLine (place.before ++ place.after))
      place.before.length, token.isSpan = false ∧ token ≠ .escaped '\x7b' :=
    fun token htoken ↦ ⟨hplace token htoken, hunescaped token htoken _⟩
  rw [hafter] at hspans
  obtain ⟨tokens, tokens', hline, hbefore⟩ :=
    Token.exists_tokens_of_inline hlong (by simp [hsolid, hclose]) hspans
  rw [← hafter] at hline
  rw [hname]
  exact place.readAs_of_ofLine hframed tags firstLine hline hbefore

end

section

variable {tags : TagSet} {tag : Tag} (h : tags.get? tag.name = some tag)

include h

private theorem meaning_of_block (hform : tag.form = .block) :
    Token.meaning tags (.tag tag.name.toList) = .opens tag.name tag.binding := by
  simp [Token.meaning, h, hform]

private theorem meaning_of_modifier (hform : tag.form = .modifier) :
    Token.meaning tags (.tag tag.name.toList) = .modifier tag.name := by
  simp [Token.meaning, h, hform]

private theorem meaning_of_inline (hform : tag.form = .inline) (content : List Char) :
    Token.meaning tags (.inline tag.name.toList content) = .text (inlineText content) := by
  simp [Token.meaning, h, hform]

end

/-- A name is valid exactly if it is read as one tag when it stands alone. The tags of a valid
configuration, the last of each name, are read where they are written outside fences, code spans and
inline tags. At the start of a word, with no letter or digit after it, a tag of a block opens a
block with its binding and a modifier is recorded. In braces, of which the first is not escaped, an
inline tag is shown, by its label if a bar sets one off and by its content if not: the summary or
the block that is open there has its text between the texts of the tokens around it. Nothing is
reported about that token. -/
theorem tags_read_as_configured :
    (∀ name, isTagName name = true ↔ Token.ofLine name.toList = [.tag name.toList]) ∧
    (∀ target label, '|' ∉ target → inlineText target = Text.trim target ∧
      inlineText (target ++ '|' :: label) = Text.trim label) ∧
    ∀ config : Config, config.validate = .ok () →
      ∀ earlier tag later, config.tags = earlier ++ tag :: later →
        (∀ other ∈ later, other.name ≠ tag.name) →
      ∀ (text : String) (firstLine : Nat) (place : Place text.toList), Framed text.toList →
        place.InText →
        let reading := read config.tagSet text firstLine
        (∀ rest, place.after = tag.name.toList ++ rest → WordStart place.before →
          (∀ c ∈ rest.head?, c.isAlphanum = false) →
          (tag.form = .block →
            place.ReadAs config.tagSet firstLine reading tag.name.toList
              (.opens tag.name tag.binding) ∧
            ∃ block ∈ reading.doc.blocks, block.tag = tag.name ∧ block.binding = tag.binding ∧
              block.line = place.number firstLine) ∧
          (tag.form = .modifier →
            place.ReadAs config.tagSet firstLine reading tag.name.toList (.modifier tag.name) ∧
            reading.doc.hasModifier tag.name = true)) ∧
        ∀ content rest,
          place.after = '\x7b' :: (tag.name.toList ++ content ++ '\x7d' :: rest) →
          '\x7d' ∉ content → (∀ c ∈ content.head?, c.isAlphanum = false) → place.Unescaped →
          tag.form = .inline →
            place.ReadAs config.tagSet firstLine reading
              ('\x7b' :: (tag.name.toList ++ content ++ ['\x7d']))
              (.text (inlineText content)) ∧
            place.Shows config.tagSet reading
              ('\x7b' :: (tag.name.toList ++ content ++ ['\x7d'])) (inlineText content) := by
  refine ⟨isTagName_iff, fun target label htarget ↦ inlineText_eq_trim htarget label, ?_⟩
  intro config hconfig earlier tag later htags hlast text firstLine place hframed hplace reading
  have hvalid : isTagName tag.name = true := isTagName_of_validate hconfig (by simp [htags])
  have hget : config.tagSet.get? tag.name = some tag := by
    rw [tagSet, TagSet.withCustom, htags]
    exact TagSet.standard.get?_insertAll_of_last earlier hlast
  constructor
  · intro rest hafter hstart hrest
    have hread := readAs_of_tag config.tagSet hvalid hframed firstLine hplace hafter hstart hrest
    constructor
    · intro hform
      rw [meaning_of_block hget hform] at hread
      exact ⟨hread, hread.exists_block⟩
    · intro hform
      rw [meaning_of_modifier hget hform] at hread
      exact ⟨hread, hread.hasModifier⟩
  · intro content rest hafter hclose hcontent hunescaped hform
    have hread := readAs_of_inline config.tagSet hvalid hframed firstLine hplace
      hunescaped hafter hclose hcontent
    rw [meaning_of_inline hget hform] at hread
    exact ⟨hread, hread.shows hframed⟩

-- A modifier, an inline tag and a tag of a block that is defined twice.
private def customConfig : Config :=
  { tags := [⟨"@slot", .block, .text⟩, ⟨"@mine", .modifier, .text⟩, ⟨"@ref", .inline, .text⟩,
      ⟨"@slot", .block, .prop⟩] }

private def customText : String := "/** @mine \x7b@ref x\x7d @slot a */"

private def customPlace (before after : String)
    (h : before ++ after = "@mine \x7b@ref x\x7d @slot a ") : Place customText.toList where
  linesBefore := []
  before := before.toList
  after := after.toList
  linesAfter := []
  lines := by
    rw [← String.toList_append, h]
    decide +kernel
  noFence := by
    rw [← String.toList_append, h]
    decide +kernel
  outsideFences := by decide

private def modifierPlace : Place customText.toList :=
  customPlace "" "@mine \x7b@ref x\x7d @slot a " rfl

private def inlinePlace : Place customText.toList :=
  customPlace "@mine " "\x7b@ref x\x7d @slot a " rfl

private def blockPlace : Place customText.toList :=
  customPlace "@mine \x7b@ref x\x7d " "@slot a " rfl

/-- A comment with a configured modifier, an inline tag and a block tag that was defined twice: each
is read as it was last defined, and the inline tag is shown in the summary. -/
theorem tags_read_as_configured_custom :
    customConfig.validate = .ok () ∧ Framed customText.toList ∧
    modifierPlace.InText ∧ inlinePlace.InText ∧ inlinePlace.Unescaped ∧ blockPlace.InText ∧
    (read customConfig.tagSet customText 1).doc.hasModifier "@mine" = true ∧
    inlinePlace.ReadAs customConfig.tagSet 1 (read customConfig.tagSet customText 1)
      "\x7b@ref x\x7d".toList (.text ['x']) ∧
    inlinePlace.Shows customConfig.tagSet (read customConfig.tagSet customText 1)
      "\x7b@ref x\x7d".toList ['x'] ∧
    (read customConfig.tagSet customText 1).doc.summaryLines = [" x ".toList] ∧
    ∃ block ∈ (read customConfig.tagSet customText 1).doc.blocks,
      block.tag = "@slot" ∧ block.binding = .prop ∧ block.line = 1 := by
  have hconfig : customConfig.validate = .ok () := by decide +kernel
  have hframed : Framed customText.toList := by decide +kernel
  have hmodifier : modifierPlace.InText := by decide +kernel
  have hinline : inlinePlace.InText := by decide +kernel
  have hescape : inlinePlace.Unescaped := by
    have hover : Token.over? (Token.ofLine (inlinePlace.before ++ inlinePlace.after))
        inlinePlace.before.length = none := by
      decide +kernel
    rw [Place.Unescaped, hover]
    nofun
  have hblock : blockPlace.InText := by decide +kernel
  have hread := tags_read_as_configured.2.2 customConfig hconfig
  have hsummary : (read customConfig.tagSet customText 1).doc.summaryLines = [" x ".toList] := by
    decide +kernel
  obtain ⟨-, hmine⟩ := (hread [⟨"@slot", .block, .text⟩] ⟨"@mine", .modifier, .text⟩
    [⟨"@ref", .inline, .text⟩, ⟨"@slot", .block, .prop⟩] rfl (by decide) customText 1
    modifierPlace hframed hmodifier).1 " \x7b@ref x\x7d @slot a ".toList (by decide) (.inl rfl)
    (by rintro _ ⟨⟩; rfl)
  obtain ⟨href, hshows⟩ := (hread [⟨"@slot", .block, .text⟩, ⟨"@mine", .modifier, .text⟩]
    ⟨"@ref", .inline, .text⟩ [⟨"@slot", .block, .prop⟩] rfl (by decide) customText 1
    inlinePlace hframed hinline).2 " x".toList " @slot a ".toList (by decide) (by decide)
    (by rintro _ ⟨⟩; rfl) hescape rfl
  obtain ⟨hslot, -⟩ := (hread [⟨"@slot", .block, .text⟩, ⟨"@mine", .modifier, .text⟩,
    ⟨"@ref", .inline, .text⟩] ⟨"@slot", .block, .prop⟩ [] rfl (by decide) customText 1
    blockPlace hframed hblock).1 " a ".toList (by decide)
    (.inr ⟨"@mine \x7b@ref x\x7d".toList, ' ', by decide, by decide⟩)
    (by rintro _ ⟨⟩; rfl)
  exact ⟨hconfig, hframed, hmodifier, hinline, hescape, hblock, (hmine rfl).2, href, hshows,
    hsummary, (hslot rfl).2⟩

/-- The text in the braces of an inline tag is not read for tags. -/
theorem tag_in_braces_unread :
    customConfig.validate = .ok () ∧
    (⟨"@mine", .modifier, .text⟩ : Tag) ∈ customConfig.tags ∧
    (∀ tag ∈ customConfig.tags, tag.name = "@mine" → tag = ⟨"@mine", .modifier, .text⟩) ∧
    innerLines "/** \x7b@link @mine\x7d */".toList = ["\x7b@link @mine\x7d ".toList] ∧
    "\x7b@link @mine\x7d ".toList =
      "\x7b@link ".toList ++ ("@mine".toList ++ "\x7d ".toList) ∧
    '\x60' ∉ "/** \x7b@link @mine\x7d */".toList ∧
    WordStart "\x7b@link ".toList ∧ Char.isAlphanum '\x7d' = false ∧
    (read customConfig.tagSet "/** \x7b@link @mine\x7d */" 1).doc.modifiers = [] :=
  ⟨by decide +kernel, by decide, by decide, by decide +kernel, by decide, by decide,
    .inr ⟨"\x7b@link".toList, ' ', by decide, by decide⟩, by decide,
    by decide +kernel⟩

end Config

end PropDoc
