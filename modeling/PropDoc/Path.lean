/-!
# Paths

A path is kept as it was written. What it names is its list of components: a leading slash is the
root, repeated slashes and inner dots mean nothing, and a dot counts only where it comes first.
Two paths are the same when their components are.
-/

namespace PropDoc

/-- A path as written. -/
structure Path where
  text : String
  deriving DecidableEq

namespace Path

/-- One step of a path. -/
inductive Component where
  | root
  | current
  | parent
  | name (text : String)
  deriving DecidableEq

/-- The pieces between slashes. -/
def segments (path : Path) : List (List Char) := path.text.toList.splitOn '/'

/-- Whether a piece between slashes means nothing inside a path. -/
def isVoid (segment : List Char) : Bool := segment.isEmpty || segment == ['.']

/-- A piece between slashes as a step. -/
def stepOf (segment : List Char) : Component :=
  if segment == ['.', '.'] then .parent else .name (String.ofList segment)

/-- The steps that some pieces make. -/
def steps (segments : List (List Char)) : List Component :=
  (segments.filter fun segment ↦ !isVoid segment).map stepOf

/-- Whether a path starts at the root. -/
def isAbsolute (path : Path) : Bool := ['/'].isPrefixOf path.text.toList

/-- What a path starts with before its steps: the root, a dot, or nothing. -/
def opening (path : Path) : List Component :=
  if path.isAbsolute then [.root]
  else if path.segments.head? == some ['.'] then [.current]
  else []

/-- The components of a path. -/
def components (path : Path) : List Component := path.opening ++ steps path.segments

/-- Whether two paths have the same components. -/
def same (p q : Path) : Bool := decide (p.components = q.components)

/-- A component as it is written. -/
def Component.text : Component → String
  | root => "/"
  | current => "."
  | parent => ".."
  | name text => text

/-- The path with the given components. -/
def ofComponents : List Component → Path
  | .root :: steps => ⟨"/" ++ String.intercalate "/" (steps.map Component.text)⟩
  | steps => ⟨String.intercalate "/" (steps.map Component.text)⟩

/-- A path seen from another. An absolute one replaces it. -/
def join (base path : Path) : Path :=
  if path.isAbsolute then path
  else if base.text.isEmpty || ['/'].isSuffixOf base.text.toList then ⟨base.text ++ path.text⟩
  else ⟨base.text ++ "/" ++ path.text⟩

/-- A path with names below it. -/
def joinAll (base : Path) (names : List String) : Path :=
  names.foldl (fun path name ↦ path.join ⟨name⟩) base

/-- Whether a path is written with a slash at its end. -/
def endsInSlash (path : Path) : Bool := ['/'].isSuffixOf path.text.toList

/-- The path without its last component. The root and the empty path have no parent. -/
def parent? (path : Path) : Option Path :=
  match path.components.getLast? with
  | none | some .root => none
  | some _ => some (ofComponents path.components.dropLast)

/-- The paths above a path, nearest first. -/
def ancestors (path : Path) : List Path :=
  (List.range (path.components.length - 1)).reverse.map fun count ↦
    ofComponents (path.components.take (count + 1))

/-- The last component, if it is a name. -/
def fileName? (path : Path) : Option String :=
  match path.components.getLast? with
  | some (.name text) => some text
  | _ => none

/-- The stem and the extension of a file name, split at its last dot. A dot that comes first
starts no extension. -/
def splitName? (name : String) : Option (String × String) :=
  let reversed := name.toList.reverse
  match reversed.dropWhile (· != '.') with
  | _ :: stem =>
    if stem.isEmpty then none
    else some (String.ofList stem.reverse, String.ofList (reversed.takeWhile (· != '.')).reverse)
  | [] => none

/-- The text after the last dot of the file name. -/
def extension? (path : Path) : Option String :=
  (path.fileName?.bind splitName?).map Prod.snd

/-- The path without the extension of its file name. -/
def dropExtension (path : Path) : Path :=
  match path.fileName?.bind splitName? with
  | some (stem, _) => ofComponents (path.components.dropLast ++ [.name stem])
  | none => path

/-- The path with a text written right after it. -/
def withSuffix (path : Path) (suffix : String) : Path := ⟨path.text ++ suffix⟩

/-- The text with the given pieces between its slashes. -/
def joinSegments (segments : List (List Char)) : String :=
  String.ofList (['/'].intercalate segments)

/-- The pieces without those at the end that mean nothing. -/
def dropVoidEnd (segments : List (List Char)) : List (List Char) :=
  (segments.reverse.dropWhile isVoid).reverse

/-- The pieces after some steps. -/
def skipSteps : Nat → List (List Char) → List (List Char)
  | 0, segments => segments
  | count + 1, segments => skipSteps count ((segments.dropWhile isVoid).drop 1)

/-- The text of a path without trailing slashes and dots. -/
def trimmedText (path : Path) : String :=
  if path.isAbsolute then "/" ++ joinSegments (dropVoidEnd (path.segments.drop 1))
  else if path.segments.head? == some ['.'] then
    joinSegments (['.'] :: dropVoidEnd (path.segments.drop 1))
  else joinSegments (dropVoidEnd path.segments)

/-- The path below a base, if the base is a start of it. The text inside is kept as written. -/
def relativeTo? (path base : Path) : Option Path :=
  if base.components.isPrefixOf path.components then
    if base.components.isEmpty then some ⟨path.trimmedText⟩
    else
      let opened := if path.opening.isEmpty then path.segments else path.segments.drop 1
      let rest := skipSteps (base.components.length - path.opening.length) opened
      some ⟨joinSegments (dropVoidEnd (rest.dropWhile isVoid))⟩
  else none

/-- One step of resolving dots: a dot is dropped, and two dots take away the last component unless
nothing but the root is left of it. -/
def resolveStep (done : List Component) : Component → List Component
  | .current => done
  | .parent => if done = [] ∨ done = [.root] then done ++ [.parent] else done.dropLast
  | .root => [.root]
  | .name text => done ++ [.name text]

/-- The path with its dots resolved, from the text alone. -/
def normalize (path : Path) : Path := ofComponents (path.components.foldl resolveStep [])

end Path

end PropDoc
