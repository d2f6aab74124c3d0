/-!
# Glob patterns

Patterns are read into tokens, and a path matches a pattern as a whole. A pattern that cannot be
read is refused with the reason.
-/

namespace PropDoc.Glob

/-! ### Tokens of a pattern

A pattern is a sequence of characters, wildcards, classes, runs of directories and groups of
alternatives. Groups may be nested.
-/

/-- A piece of a pattern. -/
inductive Token where
  | literal (c : Char)
  /-- Any one byte. -/
  | any
  /-- Any bytes. -/
  | run
  /-- Any directories before the rest, or none. -/
  | leading
  /-- A slash and anything after it. -/
  | trailing
  /-- A slash, or slashes with any directories between them. -/
  | between
  /-- One of some characters, or none of them. -/
  | oneOf (negated : Bool) (ranges : List (Char × Char))
  | alternatives (branches : List (List Token))

/-- Why a pattern cannot be read. -/
inductive Problem where
  | openClass
  | reversedRange (first last : Char)
  | openGroup
  | unopenedGroup
  | danglingEscape
  deriving DecidableEq

/-- The problem in words. -/
def Problem.reason : Problem → String
  | openClass => "unclosed character class; missing ']'"
  | reversedRange first last =>
    "invalid range; '" ++ first.toString ++ "' > '" ++ last.toString ++ "'"
  | openGroup =>
    "unclosed alternate group; missing '\x7d' (maybe escape '\x7b' with '[\x7b]'?)"
  | unopenedGroup =>
    "unopened alternate group; missing '\x7b' (maybe escape '\x7d' with '[\x7d]'?)"
  | danglingEscape => "dangling '\\'"

/-- The problem of a pattern in words. -/
def Problem.message (pattern : String) (problem : Problem) : String :=
  "error parsing glob '" ++ pattern ++ "': " ++ problem.reason

/-! ### Classes -/

/-- The state of reading a class: the ranges so far, last one first, and whether a hyphen waits
for the end of the last one. -/
structure ClassState where
  ranges : List (Char × Char) := []
  hyphen : Bool := false

/-- Read one character of a class that does not close it. -/
def ClassState.add (state : ClassState) (c : Char) : Except Problem ClassState :=
  match state.ranges with
  | [] => .ok { ranges := [(c, c)] }
  | (first, last) :: earlier =>
    if state.hyphen then
      if c < first then .error (.reversedRange first c)
      else .ok { ranges := (first, c) :: earlier }
    else if c = '-' then .ok { state with hyphen := true }
    else .ok { ranges := (c, c) :: (first, last) :: earlier }

/-- The ranges of a class. A hyphen at the end stands for itself. -/
def ClassState.finish (state : ClassState) : List (Char × Char) :=
  (if state.hyphen then ('-', '-') :: state.ranges else state.ranges).reverse

/-- Read a class up to the bracket that closes it. A bracket that comes first stands for itself. -/
def readClass (state : ClassState) : List Char → Except Problem (List (Char × Char) × List Char)
  | [] => .error .openClass
  | c :: rest =>
    if c = ']' ∧ state.ranges ≠ [] then .ok (state.finish, rest)
    else match state.add c with
      | .ok state => readClass state rest
      | .error problem => .error problem

/-- What follows a class is shorter than what it was read from. -/
theorem length_lt_of_readClass {state : ClassState} {cs rest : List Char}
    {ranges : List (Char × Char)} (h : readClass state cs = .ok (ranges, rest)) :
    rest.length < cs.length := by
  induction cs generalizing state with
  | nil => simp [readClass] at h
  | cons c cs ih =>
    simp only [readClass] at h
    split at h
    · cases h
      simp
    · split at h
      · have := ih h
        simp only [List.length_cons]
        omega
      · cases h

/-- Whether a class is negated, and what follows the sign. -/
def readNegation : List Char → Bool × List Char
  | '!' :: rest => (true, rest)
  | '^' :: rest => (true, rest)
  | rest => (false, rest)

/-- The sign of a class is a start of it. -/
theorem length_readNegation_le (cs : List Char) : (readNegation cs).2.length ≤ cs.length := by
  unfold readNegation
  split <;> simp

/-! ### Reading patterns -/

/-- A group that is being read: its branches so far and the tokens before it, last ones first. -/
structure OpenGroup where
  branches : List (List Token)
  before : List Token

/-- The state of reading a pattern: the tokens of the current branch, last one first, and the
groups around it, innermost first. -/
structure State where
  tokens : List Token := []
  groups : List OpenGroup := []

namespace State

/-- Add a token to the current branch. -/
def push (state : State) (token : Token) : State := { state with tokens := token :: state.tokens }

/-- Whether a group is open. -/
def inGroup (state : State) : Bool := !state.groups.isEmpty

/-- Open a group. -/
def openGroup (state : State) : State := ⟨[], ⟨[], state.tokens⟩ :: state.groups⟩

/-- End a branch. Outside of groups a comma stands for itself. -/
def comma (state : State) : State :=
  match state.groups with
  | [] => state.push (.literal ',')
  | group :: groups =>
    ⟨[], { group with branches := state.tokens.reverse :: group.branches } :: groups⟩

/-- Close a group. -/
def closeGroup (state : State) : Except Problem State :=
  match state.groups with
  | [] => .error .unopenedGroup
  | group :: groups =>
    let branches := (state.tokens.reverse :: group.branches).reverse
    .ok ⟨.alternatives branches :: group.before, groups⟩

/-- Put a run of directories in the place of the last token. One that is there already stays. -/
def mergeLast (state : State) (token : Token) : State :=
  match state.tokens with
  | .leading :: _ => state
  | .trailing :: _ => state
  | _ :: earlier => { state with tokens := token :: earlier }
  | [] => state.push token

end State

/-- Whether a double star after `previous` can stand for directories. -/
def continuesPath (state : State) (previous : Option Char) : Bool :=
  previous == some '/' || (state.inGroup && (previous == some ',' || previous == some '\x7b'))

/-- Read a double star, given what comes before and after it. The result is the new state, the
character read last and what is left. -/
def readDoubleStar (state : State) (previous : Option Char) (rest : List Char) :
    State × Char × List Char :=
  let stars := ((state.push .run).push .run, '*', rest)
  if state.tokens.isEmpty then
    match rest with
    | [] => (state.push .leading, '*', rest)
    | '/' :: after => (state.push .leading, '/', after)
    | _ => stars
  else if continuesPath state previous then
    match rest with
    | [] => (state.mergeLast .trailing, '*', rest)
    | '/' :: after => (state.mergeLast .between, '/', after)
    | c :: _ =>
      if state.inGroup && (c == ',' || c == '\x7d') then (state.mergeLast .trailing, '*', rest)
      else stars
  else stars

/-- A double star takes nothing back. -/
theorem length_readDoubleStar_le (state : State) (previous : Option Char) (rest : List Char) :
    (readDoubleStar state previous rest).2.2.length ≤ rest.length := by
  unfold readDoubleStar
  split
  · split <;> simp
  · split
    · split
      · simp
      · simp
      · split <;> simp
    · simp

/-- Read the rest of a pattern, given the character before it. -/
def readTokens (state : State) (previous : Option Char) (cs : List Char) :
    Except Problem State :=
  match cs with
  | [] => .ok state
  | '?' :: rest => readTokens (state.push .any) (some '?') rest
  | '*' :: '*' :: rest =>
    have := length_readDoubleStar_le state previous rest
    let step := readDoubleStar state previous rest
    readTokens step.1 (some step.2.1) step.2.2
  | '*' :: rest => readTokens (state.push .run) (some '*') rest
  | '[' :: rest =>
    have := length_readNegation_le rest
    match h : readClass {} (readNegation rest).2 with
    | .ok (ranges, after) =>
      have := length_lt_of_readClass h
      readTokens (state.push (.oneOf (readNegation rest).1 ranges)) (some ']') after
    | .error problem => .error problem
  | '\x7b' :: rest => readTokens state.openGroup (some '\x7b') rest
  | '\x7d' :: rest =>
    match state.closeGroup with
    | .ok state => readTokens state (some '\x7d') rest
    | .error problem => .error problem
  | ',' :: rest => readTokens state.comma (some ',') rest
  | ['\\'] => .error .danglingEscape
  | '\\' :: c :: rest => readTokens (state.push (.literal c)) (some c) rest
  | c :: rest => readTokens (state.push (.literal c)) (some c) rest
termination_by cs.length
decreasing_by
  all_goals simp only [List.length_cons]
  all_goals omega

/-- The tokens of a pattern. -/
def parse (pattern : String) : Except Problem (List Token) :=
  match readTokens {} none pattern.toList with
  | .ok state => if state.inGroup then .error .openGroup else .ok state.tokens.reverse
  | .error problem => .error problem

/-! ### Matching paths against patterns

A pattern matches a whole path, byte by byte; a slash and a line break are bytes like any other.
A character of a class stands for each of its bytes, and a range runs from the last byte of its
first character to the first byte of its last one.
-/

/-- The bytes of a character. -/
def charBytes (c : Char) : List UInt8 := c.toString.toUTF8.data.toList

/-- The ranges of bytes that a range of characters stands for. -/
def byteRanges (range : Char × Char) : List (UInt8 × UInt8) :=
  let first := charBytes range.1
  let last := charBytes range.2
  let single := fun byte ↦ (byte, byte)
  if range.1 = range.2 then first.map single
  else
    first.dropLast.map single ++
      [((first.getLast?).getD 0, (last.head?).getD 0)] ++ (last.drop 1).map single

/-- Whether a byte is in one of some ranges of characters. -/
def inRanges (ranges : List (Char × Char)) (byte : UInt8) : Bool :=
  (ranges.flatMap byteRanges).any fun range ↦
    decide (range.1 ≤ byte) && decide (byte ≤ range.2)

/-- Every end of a list, the whole of it first. -/
def ends : List UInt8 → List (List UInt8)
  | [] => [[]]
  | byte :: bytes => (byte :: bytes) :: ends bytes

/-- Whether some end of the bytes, after any number of others, can be gone on with. -/
def skipping (next : List UInt8 → Bool) (bytes : List UInt8) : Bool := (ends bytes).any next

/-- Take a slash and go on. -/
def slash (next : List UInt8 → Bool) : List UInt8 → Bool
  | [] => false
  | byte :: bytes => byte == 47 && next bytes

mutual

/-- Whether some tokens write nothing at all: groups without a branch that writes something. -/
def writeNothing : List Token → Bool
  | [] => true
  | token :: tokens => writesNothing token && writeNothing tokens

/-- Whether a token writes nothing at all. -/
def writesNothing : Token → Bool
  | .alternatives branches => allWriteNothing branches
  | .literal _ => false
  | .any => false
  | .run => false
  | .leading => false
  | .trailing => false
  | .between => false
  | .oneOf .. => false

/-- Whether all of some branches write nothing. -/
def allWriteNothing : List (List Token) → Bool
  | [] => true
  | branch :: branches => writeNothing branch && allWriteNothing branches

end

mutual

/-- Match tokens one after the other and go on with what is left. -/
def matchTokens (next : List UInt8 → Bool) : List Token → List UInt8 → Bool
  | [] => next
  | token :: tokens => matchToken (matchTokens next tokens) token

/-- Match one token and go on with what is left. -/
def matchToken (next : List UInt8 → Bool) : Token → List UInt8 → Bool
  | .literal c => fun bytes ↦
    (charBytes c).isPrefixOf bytes && next (bytes.drop (charBytes c).length)
  | .any => fun
    | [] => false
    | _ :: bytes => next bytes
  | .run => skipping next
  | .leading => fun bytes ↦ next bytes || slash next bytes || skipping (slash next) bytes
  | .trailing => slash (skipping next)
  | .between => fun bytes ↦ slash next bytes || slash (skipping (slash next)) bytes
  | .oneOf negated ranges => fun
    | [] => false
    | byte :: bytes => inRanges ranges byte != negated && next bytes
  | .alternatives branches => fun bytes ↦
    if allWriteNothing branches then next bytes else matchBranches next branches bytes

/-- Match one of some branches and go on with what is left. A branch that writes nothing does not
count. -/
def matchBranches (next : List UInt8 → Bool) : List (List Token) → List UInt8 → Bool
  | [] => fun _ ↦ false
  | branch :: branches => fun bytes ↦
    (!writeNothing branch && matchTokens next branch bytes) || matchBranches next branches bytes

end

/-- Whether the tokens of a pattern match a path. A pattern that is only a run of directories
matches every path. -/
def matchesTokens (tokens : List Token) (path : String) : Bool :=
  match tokens with
  | [.leading] => true
  | _ => matchTokens List.isEmpty tokens path.toUTF8.data.toList

/-- Whether a pattern matches a path. A pattern that cannot be read matches none. -/
def isMatch (pattern path : String) : Bool :=
  match parse pattern with
  | .ok tokens => matchesTokens tokens path
  | .error _ => false

end PropDoc.Glob
