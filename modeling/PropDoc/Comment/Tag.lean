import PropDoc.Table

/-!
# Comment tags

A tag starts with an at sign and has a form, which says where it may stand, and a binding, which
says how the content of a block tag is read. Tags are configuration: the reader of comments knows
no tag but those of the tag set it is given.
-/

namespace PropDoc.Comment

/-- Where a tag may stand. -/
inductive TagForm where
  /-- It opens a block that runs up to the next one. -/
  | block
  /-- It stands alone and has no content. -/
  | modifier
  /-- It stands in braces inside a text. -/
  | inline
  deriving DecidableEq

/-- How the content of a block is read. -/
inductive Binding where
  /-- As free text. -/
  | text
  /-- As a name, a hyphen and a description, bound to nothing. -/
  | named
  /-- As a name, a hyphen and a description of the prop with that name. -/
  | prop
  deriving DecidableEq

namespace TagForm

/-- The word for a form in configuration files. -/
def word : TagForm → String
  | block => "block"
  | modifier => "modifier"
  | inline => "inline"

/-- The form that a word of a configuration file means. -/
def ofWord? (word : String) : Option TagForm :=
  [block, modifier, inline].find? fun form ↦ form.word == word

end TagForm

namespace Binding

/-- The word for a binding in configuration files. -/
def word : Binding → String
  | text => "text"
  | named => "named"
  | prop => "prop"

/-- The binding that a word of a configuration file means. -/
def ofWord? (word : String) : Option Binding :=
  [text, named, prop].find? fun binding ↦ binding.word == word

/-- Whether the content has to be a name, a hyphen and a description. -/
def isNamed : Binding → Bool
  | text => false
  | named | prop => true

end Binding

/-- A known tag. The name includes the at sign. -/
structure Tag where
  name : String
  form : TagForm
  binding : Binding := .text
  deriving DecidableEq

/-- The tags that a comment may use, by name. -/
structure TagSet where
  table : Table Tag

namespace TagSet

/-- The set without tags. -/
def empty : TagSet := ⟨Table.empty⟩

/-- Add a tag, or replace the one with its name. -/
def insert (tags : TagSet) (tag : Tag) : TagSet := ⟨tags.table.insert tag.name tag⟩

/-- Add tags in order, later ones replacing earlier ones. -/
def insertAll (tags : TagSet) (extra : List Tag) : TagSet := extra.foldl insert tags

/-- The tag with a name. -/
def get? (tags : TagSet) (name : String) : Option Tag := tags.table.get? name

/-- A tag that is defined replaces the one of its name and no other. -/
theorem get?_insert (tags : TagSet) (tag : Tag) (name : String) :
    (tags.insert tag).get? name = if name = tag.name then some tag else tags.get? name := by
  rw [get?, insert, Table.get?_insert, get?]

/-- The number of tags. -/
def size (tags : TagSet) : Nat := tags.table.size

/-- Whether there is no tag. -/
def isEmpty (tags : TagSet) : Bool := tags.table.isEmpty

/-- Whether two sets hold the same tags, in whatever order. -/
def sameTags (s t : TagSet) : Bool :=
  s.size == t.size && s.table.entries.all fun entry ↦ decide (t.get? entry.1 = some entry.2)

private def standardBlocks : List String :=
  ["@returns", "@remarks", "@example", "@deprecated", "@see", "@throws", "@defaultValue",
   "@privateRemarks", "@decorator"]

private def standardModifiers : List String :=
  ["@alpha", "@beta", "@eventProperty", "@experimental", "@internal", "@override",
   "@packageDocumentation", "@public", "@readonly", "@sealed", "@virtual"]

private def standardInlines : List String := ["@link", "@inheritDoc", "@label"]

/-- The standard tags of documentation comments. -/
def standardTags : List Tag :=
  [⟨"@param", .block, .named⟩, ⟨"@typeParam", .block, .named⟩] ++
    standardBlocks.map (⟨·, .block, .text⟩) ++
    standardModifiers.map (⟨·, .modifier, .text⟩) ++
    standardInlines.map (⟨·, .inline, .text⟩)

/-- The tag whose blocks describe props. -/
def propTag : Tag := ⟨"@prop", .block, .prop⟩

/-- The standard tags and the prop tag. -/
def standard : TagSet := empty.insertAll (standardTags ++ [propTag])

/-- The standard set with further tags, which may replace standard ones. -/
def withCustom (extra : List Tag) : TagSet := standard.insertAll extra

end TagSet

end PropDoc.Comment
