import PropDoc.Text.Hex

/-!
# JSON

The values that documentation is written out as, how they are printed, and how they are read.
-/

namespace PropDoc

/-! ### JSON values

The values that documentation is written out as. An object keeps the order of its members.
-/

/-- A JSON value. Numbers are whole. -/
inductive Json where
  | null
  | bool (value : Bool)
  | number (value : Int)
  | string (value : String)
  | array (items : List Json)
  | object (members : List (String × Json))

end PropDoc

namespace PropDoc.Json

/-! ### JSON as text

Two layouts of the same value: on one line without spaces, or with every item and member on a line
of its own, indented by two spaces for each level. Strings are written alike in both: quotes,
backslashes and characters below the space are escaped and nothing else is.
-/

/-- The digits of a character below the space, four of them. -/
def hexDigits (c : Char) : List Char :=
  let digits := Nat.toDigits 16 c.toNat
  List.replicate (4 - digits.length) '0' ++ digits

/-- One character of a string. -/
def escapeChar (c : Char) : List Char :=
  if c = '"' then ['\\', '"']
  else if c = '\\' then ['\\', '\\']
  else if c.toNat = 0x8 then ['\\', 'b']
  else if c.toNat = 0xc then ['\\', 'f']
  else if c = '\n' then ['\\', 'n']
  else if c = '\r' then ['\\', 'r']
  else if c = '\t' then ['\\', 't']
  else if c.toNat < 0x20 then '\\' :: 'u' :: hexDigits c
  else [c]

/-- A string between its quotes. -/
def quote (text : String) : List Char := '"' :: text.toList.flatMap escapeChar ++ ['"']

/-- The start of a line at a level of nesting. -/
def newLine (level : Nat) : List Char := '\n' :: List.replicate (2 * level) ' '

mutual

/-- A value on one line. -/
def compactChars : Json → List Char
  | null => "null".toList
  | bool value => (if value then "true" else "false").toList
  | number value => (toString value).toList
  | string value => quote value
  | array items => '[' :: [','].intercalate (compactItems items) ++ [']']
  | object members => '\x7b' :: [','].intercalate (compactMembers members) ++ ['\x7d']

/-- The items of an array, each on one line. -/
def compactItems : List Json → List (List Char)
  | [] => []
  | item :: items => compactChars item :: compactItems items

/-- The members of an object, each on one line. -/
def compactMembers : List (String × Json) → List (List Char)
  | [] => []
  | (key, value) :: members => (quote key ++ ':' :: compactChars value) :: compactMembers members

end

mutual

/-- A value that starts at a level of nesting, spread over lines. -/
def indentedChars (level : Nat) : Json → List Char
  | null => "null".toList
  | bool value => (if value then "true" else "false").toList
  | number value => (toString value).toList
  | string value => quote value
  | array [] => ['[', ']']
  | array (item :: items) =>
    '[' :: [','].intercalate (indentedItems (level + 1) (item :: items)) ++ newLine level ++ [']']
  | object [] => ['\x7b', '\x7d']
  | object (member :: members) =>
    '\x7b' :: [','].intercalate (indentedMembers (level + 1) (member :: members)) ++
      newLine level ++ ['\x7d']

/-- The items of an array, each on a new line. -/
def indentedItems (level : Nat) : List Json → List (List Char)
  | [] => []
  | item :: items => (newLine level ++ indentedChars level item) :: indentedItems level items

/-- The members of an object, each on a new line. -/
def indentedMembers (level : Nat) : List (String × Json) → List (List Char)
  | [] => []
  | (key, value) :: members =>
    (newLine level ++ quote key ++ ':' :: ' ' :: indentedChars level value) ::
      indentedMembers level members

end

/-- A value as text, indented or on one line. -/
def render (indented : Bool) (value : Json) : String :=
  String.ofList (if indented then value.indentedChars 0 else value.compactChars)

/-! ### Reading JSON

The value that a text writes out, blanks between its parts allowed. Numbers are whole. A text with
anything after the value is refused. Recursion runs on a bound that the length of the text gives:
between two calls at most one passes without a character being read.
-/

/-- The characters that may stand between the parts of a value. -/
def isBlank (c : Char) : Bool := c == ' ' || c == '\n' || c == '\r' || c == '\t'

/-- The text after its blanks. -/
def skipBlanks (cs : List Char) : List Char := cs.dropWhile isBlank

/-- The character that a letter after a backslash stands for. -/
def plainEscape? (c : Char) : Option Char :=
  if c = '"' ∨ c = '\\' ∨ c = '/' then some c
  else if c = 'b' then some (Char.ofNat 0x8)
  else if c = 'f' then some (Char.ofNat 0xc)
  else if c = 'n' then some '\n'
  else if c = 'r' then some '\r'
  else if c = 't' then some '\t'
  else none

/-- Whether a number is the first half of a pair that stands for one character. -/
def isHighHalf (unit : Nat) : Bool := 0xd800 ≤ unit && unit < 0xdc00

/-- Whether a number is the second half of such a pair. -/
def isLowHalf (unit : Nat) : Bool := 0xdc00 ≤ unit && unit < 0xe000

/-- The characters of a string up to its closing quote, and the text after it. -/
def stringTail? : List Char → Option (List Char × List Char)
  | [] => none
  | '"' :: rest => some ([], rest)
  | '\\' :: 'u' :: a :: b :: c :: d :: rest =>
    match Text.hexNumber? [a, b, c, d] with
    | none => none
    | some unit =>
      if isHighHalf unit then
        match rest with
        | '\\' :: 'u' :: e :: f :: g :: h :: rest =>
          match Text.hexNumber? [e, f, g, h] with
          | none => none
          | some low =>
            if isLowHalf low then
              (stringTail? rest).map fun tail ↦
                (Char.ofNat (0x10000 + 0x400 * (unit - 0xd800) + (low - 0xdc00)) :: tail.1, tail.2)
            else none
        | _ => none
      else if isLowHalf unit then none
      else (stringTail? rest).map fun tail ↦ (Char.ofNat unit :: tail.1, tail.2)
  | '\\' :: c :: rest =>
    match plainEscape? c with
    | none => none
    | some c => (stringTail? rest).map fun tail ↦ (c :: tail.1, tail.2)
  | c :: rest =>
    if c.toNat < 0x20 then none else (stringTail? rest).map fun tail ↦ (c :: tail.1, tail.2)

/-- The number that decimal digits write. -/
def decimal (digits : List Char) : Nat :=
  digits.foldl (fun number digit ↦ 10 * number + (digit.toNat - 48)) 0

/-- A number without a sign. A zero starts no longer number. -/
def natural? (cs : List Char) : Option (Nat × List Char) :=
  let digits := cs.takeWhile Char.isDigit
  if digits.isEmpty || (digits.head? == some '0' && digits.length != 1) then none
  else some (decimal digits, cs.dropWhile Char.isDigit)

/-- A whole number. -/
def number? : List Char → Option (Int × List Char)
  | '-' :: rest => (natural? rest).map fun read ↦ (-(read.1 : Int), read.2)
  | cs => (natural? cs).map fun read ↦ ((read.1 : Int), read.2)

mutual

/-- The value that a text starts with. -/
def value? : Nat → List Char → Option (Json × List Char)
  | 0, _ => none
  | bound + 1, cs =>
    match skipBlanks cs with
    | 'n' :: 'u' :: 'l' :: 'l' :: rest => some (null, rest)
    | 't' :: 'r' :: 'u' :: 'e' :: rest => some (bool true, rest)
    | 'f' :: 'a' :: 'l' :: 's' :: 'e' :: rest => some (bool false, rest)
    | '"' :: rest => (stringTail? rest).map fun read ↦ (string (String.ofList read.1), read.2)
    | '[' :: rest =>
      match skipBlanks rest with
      | ']' :: rest => some (array [], rest)
      | _ => (items? bound rest).map fun read ↦ (array read.1, read.2)
    | '\x7b' :: rest =>
      match skipBlanks rest with
      | '\x7d' :: rest => some (object [], rest)
      | _ => (members? bound rest).map fun read ↦ (object read.1, read.2)
    | cs => (number? cs).map fun read ↦ (number read.1, read.2)

/-- The items of an array up to its closing bracket. -/
def items? : Nat → List Char → Option (List Json × List Char)
  | 0, _ => none
  | bound + 1, cs => do
    let (item, rest) ← value? bound cs
    match skipBlanks rest with
    | ',' :: rest => (items? bound rest).map fun read ↦ (item :: read.1, read.2)
    | ']' :: rest => some ([item], rest)
    | _ => none

/-- The members of an object up to its closing brace. -/
def members? : Nat → List Char → Option (List (String × Json) × List Char)
  | 0, _ => none
  | bound + 1, cs =>
    match skipBlanks cs with
    | '"' :: rest => do
      let (key, rest) ← stringTail? rest
      match skipBlanks rest with
      | ':' :: rest => do
        let (value, rest) ← value? bound rest
        match skipBlanks rest with
        | ',' :: rest =>
          (members? bound rest).map fun read ↦ ((String.ofList key, value) :: read.1, read.2)
        | '\x7d' :: rest => some ([(String.ofList key, value)], rest)
        | _ => none
      | _ => none
    | _ => none

end

/-- The value that a text writes out. -/
def parse? (text : String) : Option Json :=
  match value? (2 * text.toList.length + 2) text.toList with
  | some (value, rest) => if (skipBlanks rest).isEmpty then some value else none
  | none => none

end PropDoc.Json
