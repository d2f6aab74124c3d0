import PropDoc.Comment.Tag
import PropDoc.Text.Basic

/-!
# Lines of a comment

A line outside code fences is a sequence of tokens. The tag set gives each token a meaning. Reading
the lines in order then gives a list of events, among them everything that is wrong with the
comment.
-/

namespace PropDoc.Comment

/-! ### Problems in comments

Every way in which a comment can be wrong is a constructor. The wording and the stable identifier
of each are given once, here.
-/

/-- What is wrong at a place of a comment. -/
inductive Problem where
  | missingOpening
  | openFence
  | openBrace
  | closeBrace
  | bareAtSign
  | undefinedTag (name : String)
  | inlineWithoutBraces (name : String)
  | openCodeSpan
  | openInlineTag
  | notInline (name : String)
  | missingName (tag : String)
  | missingHyphen (tag : String)
  deriving DecidableEq

namespace Problem

/-- A stable identifier for the kind of problem. -/
def id : Problem → String
  | missingOpening => "comment-missing-opening-delimiter"
  | openFence => "code-fence-missing-delimiter"
  | openBrace | closeBrace => "unescaped-brace"
  | bareAtSign => "at-sign-without-tag-name"
  | undefinedTag _ => "undefined-tag"
  | inlineWithoutBraces _ => "inline-tag-without-braces"
  | openCodeSpan => "code-span-missing-delimiter"
  | openInlineTag => "inline-tag-missing-right-brace"
  | notInline _ => "tag-not-inline"
  | missingName _ => "missing-name"
  | missingHyphen _ => "missing-hyphen"

/-- The problem in words. -/
def message : Problem → String
  | missingOpening => "Expecting a leading \"/**\""
  | openFence => "Missing closing delimiter for code fence"
  | openBrace =>
    "The \"\x7b\" character must be escaped with a backslash when not used as part of an " ++
      "inline tag"
  | closeBrace =>
    "The \"\x7d\" character should be escaped using a backslash to avoid confusion with a " ++
      "TSDoc inline tag"
  | bareAtSign =>
    "Expecting a TSDoc tag name after \"@\"; if it is not a tag, use a backslash to escape " ++
      "this character"
  | undefinedTag name =>
    "The TSDoc tag \"" ++ name ++ "\" is not defined in this configuration"
  | inlineWithoutBraces name =>
    "The TSDoc tag \"" ++ name ++ "\" is an inline tag; it must be enclosed in \"\x7b \x7d\" " ++
      "braces"
  | openCodeSpan => "The code span is missing its closing backtick"
  | openInlineTag => "The TSDoc inline tag name is missing its closing \"\x7d\""
  | notInline name => "The TSDoc tag \"" ++ name ++ "\" is not an inline tag"
  | missingName tag => "The " ++ tag ++ " block should be followed by a name"
  | missingHyphen tag => "The " ++ tag ++ " block should be followed by a name and then a hyphen"

end Problem

/-- A problem and the line of the file it is on. -/
structure Diagnostic where
  problem : Problem
  line : Nat
  deriving DecidableEq

/-- The problem in words, followed by its identifier. -/
def Diagnostic.text (d : Diagnostic) : String :=
  d.problem.message ++ " (" ++ d.problem.id ++ ")"

/-! ### Tokens of a comment line

A line outside code fences is a sequence of tokens. Which tokens they are depends on the
characters alone, not on the tags that happen to be defined: what a tag means is decided later.
-/

/-- A piece of a comment line. -/
inductive Token where
  /-- A character that stands for itself. -/
  | char (c : Char)
  /-- A backslash and the character it protects. -/
  | escaped (c : Char)
  /-- Text between two backticks. -/
  | code (content : List Char)
  /-- A backtick that no other follows, and the rest of the line. -/
  | openCode (rest : List Char)
  /-- A tag in braces. The name includes the at sign and may have nothing after it. -/
  | inline (name content : List Char)
  /-- A tag in braces without the closing one, and the rest of the line. -/
  | openInline (rest : List Char)
  /-- An opening brace that no at sign follows. -/
  | openBrace
  /-- A closing brace that closes nothing. -/
  | closeBrace
  /-- A tag at the start of a word. The name includes the at sign. -/
  | tag (name : List Char)
  /-- An at sign at the start of a word that no tag name follows. -/
  | bareAtSign
  deriving DecidableEq

namespace Token

/-- The characters at the start that can follow the at sign of a tag: a letter, then letters and
digits, all of them ASCII. -/
def tagName : List Char → List Char
  | [] => []
  | c :: cs => if c.isAlpha then c :: cs.takeWhile Char.isAlphanum else []

/-- The tokens of a text. `wordStart` says whether it begins a word: it starts the line, or the
character right before it is blank. -/
def scan (wordStart : Bool) (cs : List Char) : List Token :=
  match cs with
  | [] => []
  | '\\' :: c :: rest => escaped c :: scan (Text.isBlank c) rest
  | '\x60' :: rest =>
    match h : Text.cutAt? '\x60' rest with
    | some (content, after) =>
      have := Text.length_lt_of_cutAt? h
      code content :: scan false after
    | none => [openCode rest]
  | '\x7b' :: '@' :: rest =>
    match h : Text.cutAt? '\x7d' rest with
    | some (inside, after) =>
      have := Text.length_lt_of_cutAt? h
      inline ('@' :: tagName inside) (inside.drop (tagName inside).length) :: scan false after
    | none => [openInline rest]
  | '\x7b' :: rest => openBrace :: scan false rest
  | '\x7d' :: rest => closeBrace :: scan false rest
  | '@' :: rest =>
    if wordStart then
      if (tagName rest).isEmpty then bareAtSign :: scan false rest
      else tag ('@' :: tagName rest) :: scan false (rest.drop (tagName rest).length)
    else char '@' :: scan false rest
  | c :: rest => char c :: scan (Text.isBlank c) rest
termination_by cs.length
decreasing_by
  all_goals simp only [List.length_cons, List.length_drop]
  all_goals omega

/-- The tokens of a whole line. -/
def ofLine (line : List Char) : List Token := scan true line

end Token

/-! ### What the lines of a comment amount to

The tag set gives each token a meaning. Reading the lines in order then gives a list of events:
lines of text, openings of blocks, modifiers and problems. Inside a code fence a line is text
whatever it holds.
-/

/-- What a token means under a tag set. -/
inductive Meaning where
  /-- It adds to the text of its line. -/
  | text (content : List Char)
  /-- It is wrong, and still adds to the text. -/
  | flawed (problem : Problem) (content : List Char)
  | modifier (name : String)
  | opens (name : String) (binding : Binding)

/-- The text of an inline tag: what stands after the first bar, or all of it without one. -/
def inlineText (content : List Char) : List Char :=
  match Text.cutAt? '|' content with
  | some (_, label) => Text.trim label
  | none => Text.trim content

/-- The meaning of a token under a tag set. -/
def Token.meaning (tags : TagSet) : Token → Meaning
  | .char c => .text [c]
  | .escaped c => .text [c]
  | .code content => .text ('\x60' :: content ++ ['\x60'])
  | .openCode rest => .flawed .openCodeSpan ('\x60' :: rest)
  | .inline name content =>
    match tags.get? (String.ofList name) with
    | none => .flawed (.undefinedTag (String.ofList name)) []
    | some known =>
      match known.form with
      | .inline => .text (inlineText content)
      | .block | .modifier => .flawed (.notInline (String.ofList name)) []
  | .openInline rest => .flawed .openInlineTag ('\x7b' :: '@' :: rest)
  | .openBrace => .flawed .openBrace ['\x7b']
  | .closeBrace => .flawed .closeBrace ['\x7d']
  | .tag name =>
    match tags.get? (String.ofList name) with
    | none => .flawed (.undefinedTag (String.ofList name)) name
    | some known =>
      match known.form with
      | .inline => .flawed (.inlineWithoutBraces (String.ofList name)) name
      | .modifier => .modifier (String.ofList name)
      | .block => .opens (String.ofList name) known.binding
  | .bareAtSign => .flawed .bareAtSign ['@']

/-- A step in reading a comment. -/
inductive Event where
  | text (line : List Char)
  | opens (tag : String) (binding : Binding) (line : Nat)
  | modifier (name : String)
  | problem (diagnostic : Diagnostic)

namespace Event

/-- The events of one line, given its text so far. Text before a block tag counts as a line of
its own unless it is blank; what is left at the end always does. -/
def ofMeanings (number : Nat) (text : List Char) : List Meaning → List Event
  | [] => [.text text]
  | .text content :: rest => ofMeanings number (text ++ content) rest
  | .flawed flaw content :: rest =>
    .problem ⟨flaw, number⟩ :: ofMeanings number (text ++ content) rest
  | .modifier name :: rest => .modifier name :: ofMeanings number text rest
  | .opens tag binding :: rest =>
    (if Text.allBlank text then [] else [.text text]) ++
      .opens tag binding number :: ofMeanings number [] rest

/-- The events of a line outside code fences. -/
def ofLine (tags : TagSet) (number : Nat) (line : List Char) : List Event :=
  ofMeanings number [] ((Token.ofLine line).map (Token.meaning tags))

/-- Whether a line opens or closes a code fence: three backticks come first. -/
def isFence (line : List Char) : Bool :=
  ['\x60', '\x60', '\x60'].isPrefixOf (Text.trimStart line)

/-- The events of consecutive lines, the first of which has the given number. A fence that stays
open is reported on the last line. -/
def ofLines (tags : TagSet) (inFence : Bool) (number : Nat) : List (List Char) → List Event
  | [] => if inFence then [.problem ⟨.openFence, number - 1⟩] else []
  | line :: lines =>
    if isFence line then .text line :: ofLines tags (!inFence) (number + 1) lines
    else if inFence then .text line :: ofLines tags inFence (number + 1) lines
    else ofLine tags number line ++ ofLines tags inFence (number + 1) lines

/-- The problem that an event reports. -/
def diagnostic? : Event → Option Diagnostic
  | problem diagnostic => some diagnostic
  | _ => none

/-- The modifier that an event records. -/
def modifier? : Event → Option String
  | modifier name => some name
  | _ => none

@[simp] theorem diagnostic?_text (line : List Char) : (text line).diagnostic? = none := rfl

@[simp] theorem diagnostic?_opens (tag : String) (binding : Binding) (line : Nat) :
    (opens tag binding line).diagnostic? = none := rfl

@[simp] theorem diagnostic?_modifier (name : String) : (modifier name).diagnostic? = none := rfl

@[simp] theorem diagnostic?_problem (diagnostic : Diagnostic) :
    (problem diagnostic).diagnostic? = some diagnostic := rfl

/-- The lines of text before the next block opens. -/
def leadingText : List Event → List (List Char)
  | [] => []
  | .opens .. :: _ => []
  | .text line :: rest => line :: leadingText rest
  | .modifier _ :: rest => leadingText rest
  | .problem _ :: rest => leadingText rest

end Event

end PropDoc.Comment
