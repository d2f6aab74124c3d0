import PropDoc.Text.Hex

/-!
# Characters and scalars of YAML

The characters of a text know where they stand, and scalars are read from them.
-/

namespace PropDoc.Yaml

/-! ### Characters in their place

YAML cares for columns and lines, so the text is first turned into characters that know where they
stand. Carriage returns and next-line characters become line breaks on the way.
-/

/-- Where a character stands. All three count from zero. -/
structure Place where
  line : Nat
  column : Nat
  index : Nat

/-- A character and where it stands. -/
structure Placed where
  char : Char
  place : Place

/-- Whether a character is a space or a tab. -/
def isSpace (c : Char) : Bool := c == ' ' || c == '\t'

/-- Whether a character ends a line, once carriage returns are gone. -/
def isBreak (c : Char) : Bool := c == '\n' || c.toNat == 0x2028 || c.toNat == 0x2029

/-- Whether a line break of some form is written as a plain one. -/
def isPlainBreak (c : Char) : Bool := c == '\n' || c == '\r' || c.toNat == 0x85

/-- Whether a character may occur in YAML at all. -/
def isAllowed (c : Char) : Bool :=
  c == '\t' || c == '\n' || c == '\r' || c.toNat == 0x85 ||
    (decide (0x20 ≤ c.toNat) && decide (c.toNat ≤ 0x7e)) ||
    (decide (0xa0 ≤ c.toNat) && c.toNat != 0xfeff && c.toNat != 0xfffe && c.toNat != 0xffff)

/-- The characters of a text from some place on. -/
def placeFrom (place : Place) : List Char → List Placed
  | [] => []
  | '\r' :: '\n' :: rest =>
    ⟨'\n', place⟩ :: placeFrom ⟨place.line + 1, 0, place.index + 2⟩ rest
  | c :: rest =>
    if isPlainBreak c then ⟨'\n', place⟩ :: placeFrom ⟨place.line + 1, 0, place.index + 1⟩ rest
    else if isBreak c then ⟨c, place⟩ :: placeFrom ⟨place.line + 1, 0, place.index + 1⟩ rest
    else ⟨c, place⟩ :: placeFrom ⟨place.line, place.column + 1, place.index + 1⟩ rest

/-- The text without a byte order mark at its start. -/
def dropMark : List Char → List Char
  | c :: rest => if c.toNat == 0xfeff then rest else c :: rest
  | [] => []

/-- The characters of a text, if all of them may occur. -/
def place? (text : List Char) : Option (List Placed) :=
  if (dropMark text).all isAllowed then some (placeFrom ⟨0, 0, 0⟩ (dropMark text)) else none

/-- Whether a text is at its end, at a space or at a line break. -/
def atGap : List Placed → Bool
  | [] => true
  | c :: _ => isSpace c.char || isBreak c.char

/-- Whether a text starts a line with three times the same character and nothing right after it. -/
def isMarker (mark : Char) : List Placed → Bool
  | a :: b :: c :: rest =>
    a.place.column == 0 && a.char == mark && b.char == mark && c.char == mark && atGap rest
  | _ => false

/-! ### Scalars

Plain and quoted scalars may run over several lines. A line break inside one is read as a space,
and an empty line as a break.
-/

/-- What separates two words of a scalar. -/
inductive Gap where
  | none
  | spaces (text : List Char)
  /-- Line breaks: the first one, and those after it. -/
  | lines (first : Char) (more : List Char)
  /-- A line break that a backslash hides, and those after it. -/
  | continued (more : List Char)

namespace Gap

/-- The text that a gap leaves in the scalar. -/
def text : Gap → List Char
  | none => []
  | spaces text => text
  | lines first more =>
    if first = '\n' then (if more.isEmpty then [' '] else more) else first :: more
  | continued more => more

/-- A gap with one more space or tab. After a line break it is indentation. -/
def addSpace (gap : Gap) (c : Char) : Gap :=
  match gap with
  | none => spaces [c]
  | spaces text => spaces (text ++ [c])
  | lines .. => gap
  | continued _ => gap

/-- A gap with one more line break. Spaces before it are dropped. -/
def addBreak (gap : Gap) (c : Char) : Gap :=
  match gap with
  | none => lines c []
  | spaces _ => lines c []
  | lines first more => lines first (more ++ [c])
  | continued more => continued (more ++ [c])

/-- Whether a gap starts a new line. -/
def isLines : Gap → Bool
  | lines .. => true
  | continued _ => true
  | none => false
  | spaces _ => false

/-- Whether there is no gap. -/
def isNone : Gap → Bool
  | none => true
  | _ => false

end Gap

/-- A scalar that was read: its text, whether a new line was begun after it, and what is left. -/
structure ScalarRead where
  text : List Char
  newLine : Bool
  rest : List Placed

/-- Whether a character ends a plain scalar inside brackets. -/
def isFlowMark (c : Char) : Bool := [',', '[', ']', '\x7b', '\x7d'].contains c

/-- Whether a colon is followed by a character that may not follow it inside brackets. -/
def isBadColon (rest : List Placed) : Bool :=
  match rest with
  | next :: _ => next.char == '?' || isFlowMark next.char
  | [] => false

/-- Read a plain scalar. Outside of brackets its lines have to reach the given column. -/
def readPlain (inFlow : Bool) (column : Nat) (done : List Char) (gap : Gap) :
    List Placed → Option ScalarRead
  | [] => some ⟨done, gap.isLines, []⟩
  | c :: rest =>
    if isSpace c.char then
      if gap.isLines && c.char == '\t' && decide (c.place.column < column) then none
      else readPlain inFlow column done (gap.addSpace c.char) rest
    else if isBreak c.char then readPlain inFlow column done (gap.addBreak c.char) rest
    else if (!gap.isNone && !inFlow && decide (c.place.column < column)) ||
        isMarker '-' (c :: rest) || isMarker '.' (c :: rest) ||
        (!gap.isNone && c.char == '#') then
      some ⟨done, gap.isLines, c :: rest⟩
    else if inFlow && c.char == ':' && isBadColon rest then none
    else if (c.char == ':' && atGap rest) || (inFlow && isFlowMark c.char) then
      some ⟨done, gap.isLines, c :: rest⟩
    else readPlain inFlow column (done ++ gap.text ++ [c.char]) .none rest

/-- Read a scalar between single quotes, the first of which is gone. -/
def readSingle (done : List Char) (gap : Gap) : List Placed → Option ScalarRead
  | [] => none
  | ⟨'\x27', _⟩ :: ⟨'\x27', _⟩ :: rest => readSingle (done ++ gap.text ++ ['\x27']) .none rest
  | c :: rest =>
    if c.char = '\x27' then some ⟨done ++ gap.text, false, rest⟩
    else if isSpace c.char then readSingle done (gap.addSpace c.char) rest
    else if isBreak c.char then readSingle done (gap.addBreak c.char) rest
    else if isMarker '-' (c :: rest) || isMarker '.' (c :: rest) then none
    else readSingle (done ++ gap.text ++ [c.char]) .none rest

/-- The character that a letter after a backslash stands for. -/
def escape? (c : Char) : Option Char :=
  ([('0', Char.ofNat 0x0), ('a', Char.ofNat 0x7), ('b', Char.ofNat 0x8), ('t', '\t'),
    ('\t', '\t'), ('n', '\n'), ('v', Char.ofNat 0xb), ('f', Char.ofNat 0xc), ('r', '\r'),
    ('e', Char.ofNat 0x1b), (' ', ' '), ('"', '"'), ('/', '/'), ('\\', '\\'),
    ('N', Char.ofNat 0x85), ('_', Char.ofNat 0xa0), ('L', Char.ofNat 0x2028),
    ('P', Char.ofNat 0x2029)].find? fun entry ↦ entry.1 == c).map Prod.snd

/-- The character with a number in hexadecimal digits. -/
def hexChar? (digits : List Placed) : Option Char := do
  let value ← Text.hexNumber? (digits.map Placed.char)
  if h : value.isValidChar then some (Char.ofNatAux value h) else none

/-- Read a scalar between double quotes, the first of which is gone. -/
def readDouble (done : List Char) (gap : Gap) : List Placed → Option ScalarRead
  | [] => none
  | ⟨'\\', _⟩ :: ⟨'x', _⟩ :: a :: b :: rest => do
    readDouble (done ++ gap.text ++ [← hexChar? [a, b]]) .none rest
  | ⟨'\\', _⟩ :: ⟨'u', _⟩ :: a :: b :: c :: d :: rest => do
    readDouble (done ++ gap.text ++ [← hexChar? [a, b, c, d]]) .none rest
  | ⟨'\\', _⟩ :: ⟨'U', _⟩ :: a :: b :: c :: d :: e :: f :: g :: h :: rest => do
    readDouble (done ++ gap.text ++ [← hexChar? [a, b, c, d, e, f, g, h]]) .none rest
  | ⟨'\\', _⟩ :: c :: rest =>
    if isBreak c.char then readDouble (done ++ gap.text) (.continued []) rest
    else do readDouble (done ++ gap.text ++ [← escape? c.char]) .none rest
  | c :: rest =>
    if c.char = '"' then some ⟨done ++ gap.text, false, rest⟩
    else if isSpace c.char then readDouble done (gap.addSpace c.char) rest
    else if isBreak c.char then readDouble done (gap.addBreak c.char) rest
    else if isMarker '-' (c :: rest) || isMarker '.' (c :: rest) then none
    else readDouble (done ++ gap.text ++ [c.char]) .none rest

end PropDoc.Yaml
