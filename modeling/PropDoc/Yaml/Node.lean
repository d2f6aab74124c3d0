import PropDoc.Yaml.Token

/-!
# Documents

A YAML text holds at most one document here, and a document is a tree of scalars, sequences and
mappings. A reference stands for the node that its anchor names.
-/

namespace PropDoc.Yaml

/-- A node of a document. -/
inductive Node where
  | scalar (text : String) (plain : Bool)
  | sequence (items : List Node)
  | mapping (entries : List (Node × Node))

/-- The node of a place where nothing is written. -/
def Node.nothing : Node := .scalar "" true

/-- What is left to read, and the nodes that have anchors, latest first. -/
structure ReadState where
  tokens : List Token
  anchors : List (String × Node) := []

/-- A reader of nodes. -/
abbrev ReadM := StateT ReadState Option

namespace ReadM

/-- The next token, left where it is. -/
def peek : ReadM (Option Token) := return (← get).tokens.head?

/-- Drop the next token. -/
def skip : ReadM Unit := modify fun state ↦ { state with tokens := state.tokens.drop 1 }

/-- Drop the next token if it is the given one, and say whether it was. -/
def skipIf (token : Token) : ReadM Bool := do
  if (← peek) = some token then
    skip
    return true
  else return false

/-- Whether the next token is one of some. -/
def isNext (tokens : List Token) : ReadM Bool := do
  return match ← peek with
    | some token => tokens.contains token
    | none => true

/-- Give a node an anchor. -/
def bindAnchor (name : String) (node : Node) : ReadM Unit :=
  modify fun state ↦ { state with anchors := (name, node) :: state.anchors }

/-- The node that an anchor names. -/
def anchored (name : String) : ReadM Node := do
  match (← get).anchors.find? fun entry ↦ entry.1 == name with
  | some (_, node) => return node
  | none => failure

end ReadM

open ReadM

mutual

/-- Read a node in at most `steps` steps. `block` says whether block collections may start here,
and `indentless` whether a sequence may start without indentation. -/
def readNode (steps : Nat) (block indentless : Bool) : ReadM Node :=
  match steps with
  | 0 => failure
  | steps + 1 => do
    match ← peek with
    | some (.reference name) =>
      skip
      anchored name
    | some (.anchor name) =>
      skip
      let node ← readContent steps block indentless true
      bindAnchor name node
      return node
    | _ => readContent steps block indentless false

/-- Read what follows an anchor, if there is one. Only after an anchor it may be nothing. -/
def readContent (steps : Nat) (block indentless optional : Bool) : ReadM Node :=
  match steps with
  | 0 => failure
  | steps + 1 => do
    match ← peek with
    | some (.scalar text plain) =>
      skip
      return .scalar text plain
    | some .flowSequenceStart =>
      skip
      return .sequence (← readFlowItems steps true)
    | some .flowMappingStart =>
      skip
      return .mapping (← readFlowEntries steps true)
    | token =>
      if indentless && token = some .blockEntry then
        return .sequence (← readIndentlessItems steps)
      else if block && token = some .blockSequenceStart then
        skip
        return .sequence (← readBlockItems steps)
      else if block && token = some .blockMappingStart then
        skip
        return .mapping (← readBlockEntries steps)
      else if optional then return .nothing
      else failure

/-- Read a node unless one of some tokens comes next. -/
def readUnless (steps : Nat) (block indentless : Bool) (stops : List Token) : ReadM Node :=
  match steps with
  | 0 => failure
  | steps + 1 => do
    if ← isNext stops then return .nothing else readNode steps block indentless

/-- Read the entries of a block sequence up to its end. -/
def readBlockItems (steps : Nat) : ReadM (List Node) :=
  match steps with
  | 0 => failure
  | steps + 1 => do
    if ← skipIf .blockEntry then
      let item ← readUnless steps true false [.blockEntry, .blockEnd]
      return item :: (← readBlockItems steps)
    else if ← skipIf .blockEnd then return []
    else failure

/-- Read the entries of a sequence without indentation. It ends where no entry follows. -/
def readIndentlessItems (steps : Nat) : ReadM (List Node) :=
  match steps with
  | 0 => failure
  | steps + 1 => do
    if ← skipIf .blockEntry then
      let item ← readUnless steps true false [.blockEntry, .key, .value, .blockEnd]
      return item :: (← readIndentlessItems steps)
    else return []

/-- Read the entries of a block mapping up to its end. -/
def readBlockEntries (steps : Nat) : ReadM (List (Node × Node)) :=
  match steps with
  | 0 => failure
  | steps + 1 => do
    if ← skipIf .key then
      let key ← readUnless steps true true [.key, .value, .blockEnd]
      let value ←
        if ← skipIf .value then readUnless steps true true [.key, .value, .blockEnd]
        else pure .nothing
      return (key, value) :: (← readBlockEntries steps)
    else if ← skipIf .blockEnd then return []
    else failure

/-- Read the items of a sequence in brackets. A pair without braces is a mapping of its own. -/
def readFlowItems (steps : Nat) (first : Bool) : ReadM (List Node) :=
  match steps with
  | 0 => failure
  | steps + 1 => do
    if ← skipIf .flowSequenceEnd then return []
    else if !first && !(← skipIf .flowEntry) then failure
    else if ← skipIf .flowSequenceEnd then return []
    else if ← skipIf .key then
      let key ← readUnless steps false false [.value, .flowEntry, .flowSequenceEnd]
      let value ←
        if ← skipIf .value then readUnless steps false false [.flowEntry, .flowSequenceEnd]
        else pure .nothing
      return .mapping [(key, value)] :: (← readFlowItems steps false)
    else
      let item ← readNode steps false false
      return item :: (← readFlowItems steps false)

/-- Read the entries of a mapping in braces. A key alone has nothing as its value. -/
def readFlowEntries (steps : Nat) (first : Bool) : ReadM (List (Node × Node)) :=
  match steps with
  | 0 => failure
  | steps + 1 => do
    if ← skipIf .flowMappingEnd then return []
    else if !first && !(← skipIf .flowEntry) then failure
    else if ← skipIf .flowMappingEnd then return []
    else if ← skipIf .key then
      let key ← readUnless steps false false [.value, .flowEntry, .flowMappingEnd]
      let value ←
        if ← skipIf .value then readUnless steps false false [.flowEntry, .flowMappingEnd]
        else pure .nothing
      return (key, value) :: (← readFlowEntries steps false)
    else
      let key ← readNode steps false false
      return (key, .nothing) :: (← readFlowEntries steps false)

end

/-- Read the one document of a text. A text without content holds nothing. -/
def readDocument (steps : Nat) : ReadM Node := do
  let node ← match ← peek with
    | none => pure .nothing
    | some .documentStart =>
      skip
      readUnless steps true false [.documentStart, .documentEnd]
    | some _ => readNode steps true false
  modify fun state ↦ { state with tokens := state.tokens.dropWhile (· = .documentEnd) }
  if (← peek).isNone then return node else failure

/-- The document of a text. -/
def parse? (text : String) : Option Node := do
  let tokens ← tokens? text.toList
  (readDocument (4 * tokens.length + 4)).run' ⟨tokens, []⟩

end PropDoc.Yaml
