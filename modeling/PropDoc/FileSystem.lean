import PropDoc.Path
import PropDoc.Syntax.Node

/-!
# File systems

What is stored, as a tree of directories, what can go wrong with an access, and how paths are
followed.
-/

namespace PropDoc

/-! ### Faults

What a file system can say against an access. The wording of each fault is given once, here.
-/

/-- Why a path could not be used. -/
inductive Fault where
  | notFound
  | alreadyExists
  | notDirectory
  | isDirectory
  deriving DecidableEq

/-- The fault in words. -/
def Fault.message : Fault → String
  | notFound => "No such file or directory (os error 2)"
  | alreadyExists => "File exists (os error 17)"
  | notDirectory => "Not a directory (os error 20)"
  | isDirectory => "Is a directory (os error 21)"

/-! ### Directory trees

A tree of files and directories, without links. What a tree holds is seen through `get?`: a place
is the list of names on the way down. `put` writes one place, and what is written into a directory
is found there. `files` lists the places of the files in the order of their names.
-/

/-- A file with its bytes, or a directory with its entries by name. -/
inductive Entry where
  | file (content : Syntax.Source)
  | directory (entries : List (String × Entry))

/-- The names on the way down from the top of a tree. -/
abbrev Location := List String

namespace Entry

/-- Whether an entry is a directory. -/
def isDirectory : Entry → Bool
  | file _ => false
  | directory _ => true

/-- Whether an entry is a file. -/
def isFile (entry : Entry) : Bool := !entry.isDirectory

/-- What a directory holds under a name. -/
def child? (entry : Entry) (name : String) : Option Entry :=
  match entry with
  | file _ => none
  | directory entries => entries.lookup name

/-- What is at a place. -/
def get? (entry : Entry) : Location → Option Entry
  | [] => some entry
  | name :: rest => (entry.child? name).bind fun child ↦ child.get? rest

/-- The entries of a directory with one written: in place if its name is known, at the end
otherwise. -/
def putEntry (name : String) (new : Entry) : List (String × Entry) → List (String × Entry)
  | [] => [(name, new)]
  | (known, old) :: entries =>
    if known = name then (known, new) :: entries else (known, old) :: putEntry name new entries

/-- The tree with another entry at a place. Directories that are missing on the way are made; a
file on the way is kept, and nothing is written below it. -/
def put (entry new : Entry) : Location → Entry
  | [] => new
  | name :: rest =>
    match entry with
    | file content => file content
    | directory entries =>
      directory (putEntry name (((entries.lookup name).getD (directory [])).put new rest) entries)

/-- The tree without what is at a place. The top itself stays. -/
def erase (entry : Entry) : Location → Entry
  | [] => entry
  | name :: rest =>
    match entry with
    | file content => file content
    | directory entries =>
      match rest with
      | [] => directory (entries.filter fun known ↦ known.1 != name)
      | rest =>
        match entries.lookup name with
        | none => directory entries
        | some child => directory (putEntry name (child.erase rest) entries)

/-- Whether one name comes before another, compared by their characters. -/
def comesBefore (first second : String × α) : Bool := decide (first.1 ≤ second.1)

mutual

/-- The places of the files of a tree. Entries are taken in the order of their names, and the
directories below the top are entered only if their names allow it. -/
def files (enters : String → Bool) : Entry → List Location
  | file _ => [[]]
  | directory entries =>
    ((filesEach enters entries).mergeSort comesBefore).flatMap fun found ↦
      found.2.map fun location ↦ found.1 :: location

/-- The places of the files of each entry, seen from that entry. -/
def filesEach (enters : String → Bool) :
    List (String × Entry) → List (String × List Location)
  | [] => []
  | (name, entry) :: entries =>
    (name, if entry.isDirectory && !enters name then [] else entry.files enters) ::
      filesEach enters entries

end

mutual

/-- The number of files in a tree. -/
def fileCount : Entry → Nat
  | file _ => 1
  | directory entries => fileCountEach entries

/-- The number of files in some entries. -/
def fileCountEach : List (String × Entry) → Nat
  | [] => 0
  | (_, entry) :: entries => entry.fileCount + fileCountEach entries

end

/-- The top of a tree is the tree. -/
@[simp] theorem get?_nil (entry : Entry) : entry.get? [] = some entry := rfl

/-- What is written under a name is found there. -/
theorem lookup_putEntry_self (name : String) (new : Entry) (entries : List (String × Entry)) :
    (putEntry name new entries).lookup name = some new := by
  induction entries with
  | nil => simp [putEntry]
  | cons known entries ih =>
    obtain ⟨key, old⟩ := known
    by_cases h : key = name
    · simp [putEntry, h]
    · have hne : (name == key) = false := by simpa using fun heq ↦ h heq.symm
      simp [putEntry, h, List.lookup_cons, hne, ih]

/-- Writing under one name changes no other. -/
theorem lookup_putEntry_of_ne {name other : String} (h : other ≠ name) (new : Entry)
    (entries : List (String × Entry)) :
    (putEntry name new entries).lookup other = entries.lookup other := by
  induction entries with
  | nil =>
    have hne : (other == name) = false := by simpa using h
    simp [putEntry, List.lookup_cons, hne]
  | cons known entries ih =>
    obtain ⟨key, old⟩ := known
    by_cases hk : key = name
    · subst hk
      have hne : (other == key) = false := by simpa using h
      simp [putEntry, List.lookup_cons, hne]
    · simp [putEntry, hk, List.lookup_cons, ih]

/-- What is below a place is found from the place. -/
theorem get?_append (entry : Entry) (first second : Location) :
    entry.get? (first ++ second) = (entry.get? first).bind fun found ↦ found.get? second := by
  induction first generalizing entry with
  | nil => rfl
  | cons name first ih =>
    simp only [List.cons_append, get?]
    cases entry.child? name with
    | none => rfl
    | some child => exact ih child

/-- What has something below it is there. -/
theorem isSome_get?_of_append {entry : Entry} {first second : Location}
    (h : (entry.get? (first ++ second)).isSome) : (entry.get? first).isSome := by
  rw [get?_append] at h
  exact Option.isSome_of_isSome_bind h

/-- What is written into a directory is found there. -/
theorem get?_put_of_directory {entry : Entry} {location : Location}
    {entries : List (String × Entry)} (h : entry.get? location = some (directory entries))
    (name : String) (new : Entry) :
    (entry.put new (location ++ [name])).get? (location ++ [name]) = some new := by
  induction location generalizing entry with
  | nil =>
    cases h
    simp [put, get?, child?, lookup_putEntry_self]
  | cons first location ih =>
    cases entry with
    | file content => simp [get?, child?] at h
    | directory known =>
      simp only [get?, child?, Option.bind_eq_some_iff] at h
      obtain ⟨child, hchild, hrest⟩ := h
      simp only [List.cons_append, put, get?, child?, lookup_putEntry_self, hchild,
        Option.getD_some, Option.bind_some]
      exact ih hrest

end Entry

/-! ### File systems

A file system is a directory tree, read by absolute paths. A path is followed piece by piece:
whatever is not the last piece has to be a directory, two dots go up, and a slash at the end asks
for a directory. Nothing here has an effect: an operation that writes gives the new file system.
-/

/-- A file system, by what is at its root. -/
structure FileSystem where
  root : Entry := .directory []

namespace FileSystem

/-- Go from a place to what a piece of a path names there. -/
def step (fs : FileSystem) (location : Location) (segment : List Char) : Except Fault Location :=
  match fs.root.get? location with
  | none => .error .notFound
  | some (.file _) => .error .notDirectory
  | some (.directory entries) =>
    if Path.isVoid segment then .ok location
    else if segment = ['.', '.'] then .ok location.dropLast
    else if (entries.lookup (String.ofList segment)).isSome then
      .ok (location ++ [String.ofList segment])
    else .error .notFound

/-- The place that some pieces of a path lead to. -/
def follow (fs : FileSystem) (segments : List (List Char)) : Except Fault Location :=
  segments.foldlM fs.step []

/-- The place that a path names. -/
def locate (fs : FileSystem) (path : Path) : Except Fault Location := fs.follow path.segments

/-- What a path names. -/
def lookup? (fs : FileSystem) (path : Path) : Option Entry :=
  (fs.locate path).toOption.bind fs.root.get?

/-- Whether a path names anything. -/
def contains (fs : FileSystem) (path : Path) : Bool := (fs.lookup? path).isSome

/-- Whether a path names a file. -/
def isFile (fs : FileSystem) (path : Path) : Bool := (fs.lookup? path).any Entry.isFile

/-- Whether a path names a directory. -/
def isDirectory (fs : FileSystem) (path : Path) : Bool := (fs.lookup? path).any Entry.isDirectory

/-- The absolute path of a place. -/
def pathOf (location : Location) : Path :=
  Path.ofComponents (.root :: location.map Path.Component.name)

/-- The absolute path, without dots, of what a path names. -/
def canonical (fs : FileSystem) (path : Path) : Except Fault Path := (fs.locate path).map pathOf

/-- The bytes of a file. -/
def read (fs : FileSystem) (path : Path) : Except Fault Syntax.Source := do
  match fs.root.get? (← fs.locate path) with
  | some (.file content) => return content
  | some (.directory _) => throw .isDirectory
  | none => throw .notFound

/-- The pieces of a path without the slashes at its end. -/
def trimmedSegments (path : Path) : List (List Char) :=
  (path.segments.reverse.dropWhile List.isEmpty).reverse

/-- The file system with another entry at a place. -/
def put (fs : FileSystem) (location : Location) (entry : Entry) : FileSystem :=
  ⟨fs.root.put entry location⟩

/-- The place of the directory that the last piece of a path is looked up in. -/
def parentLocation (fs : FileSystem) (path : Path) : Except Fault Location := do
  let parent ← fs.follow (trimmedSegments path).dropLast
  fs.step parent []

/-- The file system with a new directory. Its parent has to be there. -/
def makeDirectory (fs : FileSystem) (path : Path) : Except Fault FileSystem :=
  match (trimmedSegments path).getLast? with
  | none => .error .alreadyExists
  | some name => do
    let parent ← fs.parentLocation path
    match fs.step parent name with
    | .ok _ => throw .alreadyExists
    | .error _ => return fs.put (parent ++ [String.ofList name]) (.directory [])

/-- Make a directory and, before it, those above it that are missing. The paths are the directory
and what lies above it, nearest first. What was made before a fault stays. -/
def makeAll (fs : FileSystem) : List Path → FileSystem × Option Fault
  | [] => (fs, none)
  | path :: above =>
    match fs.makeDirectory path with
    | .ok made => (made, none)
    | .error .notFound =>
      match fs.makeAll above with
      | (made, some fault) => (made, some fault)
      | (made, none) =>
        match made.makeDirectory path with
        | .ok made => (made, none)
        | .error fault => (made, if made.isDirectory path then none else some fault)
    | .error fault => (fs, if fs.isDirectory path then none else some fault)

/-- Make a directory and all that are missing above it. -/
def makeDirectories (fs : FileSystem) (path : Path) : FileSystem × Option Fault :=
  fs.makeAll (path :: path.ancestors)

/-- Make all the directories above a path that are missing. -/
def makeParents (fs : FileSystem) (path : Path) : FileSystem × Option Fault :=
  fs.makeAll path.ancestors

/-- The file system with a file's bytes written. Its directory has to be there. -/
def write (fs : FileSystem) (path : Path) (content : Syntax.Source) : Except Fault FileSystem :=
  match (trimmedSegments path).getLast? with
  | none => .error .isDirectory
  | some name => do
    let parent ← fs.parentLocation path
    if path.endsInSlash then throw .isDirectory
    match fs.step parent name with
    | .ok location =>
      if (fs.root.get? location).any Entry.isDirectory then throw .isDirectory
      return fs.put location (.file content)
    | .error _ => return fs.put (parent ++ [String.ofList name]) (.file content)

/-- Write a file and make the directories above it. -/
def writeWithParents (fs : FileSystem) (path : Path) (content : Syntax.Source) :
    FileSystem × Option Fault :=
  match fs.makeParents path with
  | (made, some fault) => (made, some fault)
  | (made, none) =>
    match made.write path content with
    | .ok written => (written, none)
    | .error fault => (made, some fault)

/-- The file system without what a path names. -/
def remove (fs : FileSystem) (path : Path) : Except Fault FileSystem := do
  return ⟨fs.root.erase (← fs.locate path)⟩

/-- The paths of the files below a path, in the order of their names. -/
def walk (fs : FileSystem) (enters : String → Bool) (path : Path) : Except Fault (List Path) := do
  match fs.root.get? (← fs.locate path) with
  | some entry =>
    return (entry.files enters).map fun location ↦ path.joinAll location
  | none => throw .notFound

/-- The number of files. -/
def fileCount (fs : FileSystem) : Nat := fs.root.fileCount

end FileSystem

end PropDoc
