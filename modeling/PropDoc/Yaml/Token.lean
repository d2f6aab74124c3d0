import PropDoc.Yaml.Scalar

/-!
# Tokens

Scanning turns a text into tokens. Outside of brackets the indentation opens and closes block
collections, and a scalar turns out to be a key only when the colon after it is met: its place
among the tokens is remembered until then.
-/

namespace PropDoc.Yaml

/-- A token of a YAML text. -/
inductive Token where
  | documentStart
  | documentEnd
  | blockSequenceStart
  | blockMappingStart
  | blockEnd
  | flowSequenceStart
  | flowSequenceEnd
  | flowMappingStart
  | flowMappingEnd
  | blockEntry
  | flowEntry
  | key
  | value
  | anchor (name : String)
  | reference (name : String)
  | scalar (text : String) (plain : Bool)
  deriving DecidableEq

/-- Something that may turn out to be a key. -/
structure PossibleKey where
  /-- How many tokens come before it. -/
  position : Nat
  place : Place
  /-- Whether it has to be a key. -/
  required : Bool

/-- The state of scanning. -/
structure Scan where
  tokens : List Token := []
  /-- What may turn out to be a key at this level. -/
  pending : Option PossibleKey := none
  /-- The same for the levels around, one for each open bracket. -/
  outer : List (Option PossibleKey) := []
  /-- The columns of the open block collections, innermost first. -/
  indents : List Nat := []
  /-- Whether a key may start here. -/
  keyAllowed : Bool := true

namespace Scan

/-- Whether a bracket is open. -/
def inFlow (scan : Scan) : Bool := !scan.outer.isEmpty

/-- Add a token. -/
def push (scan : Scan) (token : Token) : Scan := { scan with tokens := scan.tokens ++ [token] }

/-- Say whether a key may start after this. -/
def allowKey (scan : Scan) (allowed : Bool) : Scan := { scan with keyAllowed := allowed }

/-- Give up what might have been a key. One that has to be a key is an error. -/
def dropKey (scan : Scan) : Option Scan :=
  match scan.pending with
  | some key => if key.required then none else some { scan with pending := none }
  | none => some scan

/-- Remember that a key may start here. -/
def saveKey (scan : Scan) (place : Place) : Option Scan :=
  if scan.keyAllowed then do
    let required := !scan.inFlow && scan.indents.head? == some place.column
    let scan ← scan.dropKey
    return { scan with pending := some ⟨scan.tokens.length, place, required⟩ }
  else some scan

/-- The longest text that a key may have. -/
def maxKeyLength : Nat := 1024

/-- Whether what might have been a key is too far back: on an earlier line, or too long. -/
def isStale (place : Place) (key : PossibleKey) : Bool :=
  decide (key.place.line < place.line) || decide (key.place.index + maxKeyLength < place.index)

/-- A possible key, given up if it is too far back. -/
def refresh (place : Place) : Option PossibleKey → Option (Option PossibleKey)
  | some key =>
    if isStale place key then (if key.required then none else some none) else some (some key)
  | none => some none

/-- Give up every possible key that is too far back. -/
def refreshKeys (scan : Scan) (place : Place) : Option Scan := do
  let pending ← refresh place scan.pending
  let outer ← scan.outer.mapM (refresh place)
  return { scan with pending, outer }

/-- Open a block collection at a column, unless one is open there. Its token goes to the given
position. -/
def indent (scan : Scan) (column position : Nat) (token : Token) : Scan :=
  if scan.inFlow || (scan.indents.head?.any fun open_ ↦ decide (column ≤ open_)) then scan
  else
    { scan with
      indents := column :: scan.indents, tokens := scan.tokens.insertIdx position token }

/-- Close the block collections that the condition on their column picks. -/
def dedent (scan : Scan) (closes : Nat → Bool) : Scan :=
  if scan.inFlow then scan
  else
    { scan with
      indents := scan.indents.dropWhile closes
      tokens := scan.tokens ++
        List.replicate (scan.indents.takeWhile closes).length .blockEnd }

/-- Open a bracket. -/
def openFlow (scan : Scan) (place : Place) (token : Token) : Option Scan := do
  let scan ← scan.saveKey place
  return { scan with
    outer := scan.pending :: scan.outer, pending := none, keyAllowed := true }.push token

/-- Close a bracket. -/
def closeFlow (scan : Scan) (token : Token) : Option Scan := do
  let scan ← scan.dropKey
  match scan.outer with
  | pending :: outer => return { scan with pending, outer, keyAllowed := false }.push token
  | [] => return (scan.allowKey false).push token

/-- A comma. -/
def flowEntry (scan : Scan) : Option Scan := do
  return ((← scan.dropKey).allowKey true).push .flowEntry

/-- A hyphen that starts an entry. -/
def blockEntry (scan : Scan) (place : Place) : Option Scan := do
  if !scan.inFlow && !scan.keyAllowed then none
  else
    let scan := scan.indent place.column scan.tokens.length .blockSequenceStart
    return ((← scan.dropKey).allowKey true).push .blockEntry

/-- A question mark that starts a key. -/
def explicitKey (scan : Scan) (place : Place) : Option Scan := do
  if !scan.inFlow && !scan.keyAllowed then none
  else
    let scan := scan.indent place.column scan.tokens.length .blockMappingStart
    let scan ← scan.dropKey
    return (scan.allowKey !scan.inFlow).push .key

/-- A colon that starts a value. What may be a key now is one. -/
def value (scan : Scan) (place : Place) : Option Scan :=
  match scan.pending with
  | some key =>
    let scan := { scan with tokens := scan.tokens.insertIdx key.position .key, pending := none }
    let scan := scan.indent key.place.column key.position .blockMappingStart
    some ((scan.allowKey false).push .value)
  | none =>
    if !scan.inFlow && !scan.keyAllowed then none
    else
      let scan := scan.indent place.column scan.tokens.length .blockMappingStart
      some ((scan.allowKey !scan.inFlow).push .value)

/-- A line of three hyphens or three dots. -/
def documentMark (scan : Scan) (token : Token) : Option Scan := do
  return ((← (scan.dedent fun _ ↦ true).dropKey).allowKey false).push token

/-- The end of the text. -/
def finish (scan : Scan) : Option Scan := (scan.dedent fun _ ↦ true).dropKey

/-- Whether a character may be in the name of an anchor. -/
def isAnchorChar (c : Char) : Bool := c.isAlphanum || c == '_' || c == '-'

/-- Whether the name of an anchor may end before some text. -/
def endsAnchor (rest : List Placed) : Bool :=
  atGap rest ||
    (rest.head?.any fun c ↦ ['?', ':', ',', ']', '\x7d', '%', '@', '\x60'].contains c.char)

/-- The name of an anchor and what is left after it. -/
def readAnchor (cs : List Placed) : Option (String × List Placed) :=
  let name := cs.takeWhile fun c ↦ isAnchorChar c.char
  let rest := cs.dropWhile fun c ↦ isAnchorChar c.char
  if name.isEmpty || !endsAnchor rest then none
  else some (String.ofList (name.map Placed.char), rest)

/-- Whether a plain scalar cannot start with a character. -/
def isIndicator (c : Char) : Bool :=
  ['-', '?', ':', ',', '[', ']', '\x7b', '\x7d', '#', '&', '*', '!', '|', '>', '\x27', '"', '%',
    '@', '\x60'].contains c

/-- Whether a plain scalar can start with a character before some text. -/
def startsPlain (scan : Scan) (c : Char) (rest : List Placed) : Bool :=
  (!isIndicator c && !isSpace c) || (c == '-' && !(rest.head?.any fun next ↦ isSpace next.char)) ||
    (!scan.inFlow && (c == '?' || c == ':') && !atGap rest)

/-- The column that the lines of a plain scalar have to reach. -/
def plainColumn (scan : Scan) : Nat := (scan.indents.head?.map (· + 1)).getD 0

/-- Take a scalar that was read. -/
def scalar (scan : Scan) (plain : Bool) (read : ScalarRead) : Scan × List Placed :=
  ((scan.allowKey read.newLine).push (.scalar (String.ofList read.text) plain), read.rest)

/-- Read the token that starts at a character. -/
def next (scan : Scan) (c : Placed) (rest : List Placed) : Option (Scan × List Placed) :=
  if isMarker '-' (c :: rest) then
    (scan.documentMark .documentStart).map fun scan ↦ (scan, rest.drop 2)
  else if isMarker '.' (c :: rest) then
    (scan.documentMark .documentEnd).map fun scan ↦ (scan, rest.drop 2)
  else match c.char with
  | '[' => (scan.openFlow c.place .flowSequenceStart).map fun scan ↦ (scan, rest)
  | '\x7b' => (scan.openFlow c.place .flowMappingStart).map fun scan ↦ (scan, rest)
  | ']' => (scan.closeFlow .flowSequenceEnd).map fun scan ↦ (scan, rest)
  | '\x7d' => (scan.closeFlow .flowMappingEnd).map fun scan ↦ (scan, rest)
  | ',' => scan.flowEntry.map fun scan ↦ (scan, rest)
  | '*' => do
    let scan ← scan.saveKey c.place
    let (name, rest) ← readAnchor rest
    return ((scan.allowKey false).push (.reference name), rest)
  | '&' => do
    let scan ← scan.saveKey c.place
    let (name, rest) ← readAnchor rest
    return ((scan.allowKey false).push (.anchor name), rest)
  | '\x27' => do
    let scan ← scan.saveKey c.place
    return scan.scalar false (← readSingle [] .none rest)
  | '"' => do
    let scan ← scan.saveKey c.place
    return scan.scalar false (← readDouble [] .none rest)
  | char =>
    if char == '-' && atGap rest then (scan.blockEntry c.place).map fun scan ↦ (scan, rest)
    else if char == '?' && (scan.inFlow || atGap rest) then
      (scan.explicitKey c.place).map fun scan ↦ (scan, rest)
    else if char == ':' && (scan.inFlow || atGap rest) then
      (scan.value c.place).map fun scan ↦ (scan, rest)
    else if scan.startsPlain char rest then do
      let scan ← scan.saveKey c.place
      return scan.scalar true (← readPlain scan.inFlow scan.plainColumn [] .none (c :: rest))
    else none

end Scan

/-- Skip to the next token. The result says whether a key may start there. -/
def skipGap (inFlow keyAllowed inComment : Bool) : List Placed → Bool × List Placed
  | [] => (keyAllowed, [])
  | c :: rest =>
    if isBreak c.char then skipGap inFlow (keyAllowed || !inFlow) false rest
    else if inComment then skipGap inFlow keyAllowed true rest
    else if c.char == ' ' || (c.char == '\t' && (inFlow || !keyAllowed)) then
      skipGap inFlow keyAllowed false rest
    else if c.char == '#' then skipGap inFlow keyAllowed true rest
    else (keyAllowed, c :: rest)

/-- Scan at most `steps` tokens. Running out of them is an error. -/
def scanTokens : Nat → Scan → List Placed → Option (List Token)
  | 0, _, _ => none
  | steps + 1, scan, cs =>
    let (keyAllowed, cs) := skipGap scan.inFlow scan.keyAllowed false cs
    let scan := scan.allowKey keyAllowed
    match cs with
    | [] => scan.finish.map Scan.tokens
    | c :: rest => do
      let scan ← scan.refreshKeys c.place
      let (scan, rest) ← (scan.dedent fun column ↦ decide (c.place.column < column)).next c rest
      scanTokens steps scan rest

/-- The tokens of a text. Each takes at least one character. -/
def tokens? (text : List Char) : Option (List Token) :=
  (place? text).bind fun cs ↦ scanTokens (cs.length + 1) {} cs

end PropDoc.Yaml
