import PropDoc.Config.Reader
import PropDoc.FileSystem
import PropDoc.Project.Loading

/-!
# Documenting what is below a path

Which files a path stands for, and the documentation of their project.
-/

namespace PropDoc

/-! ### Finding sources

The sources below a directory are its files in the order of their names, less those whose extension
is not configured and those that a pattern leaves out. Hidden directories and installed packages
are not entered; where the search starts is not asked for its name. A path that names a file is
itself the only source there, whatever its name.
-/

/-- Whether a directory of a name is entered. -/
def entersDirectory (name : String) : Bool :=
  !(['.'].isPrefixOf name.toList || name == "node_modules")

/-- Whether a file that was found is a source. Patterns are matched against its path from the base
directory. -/
def Config.selects (config : Config) (base path : Path) : Bool :=
  config.handles (path.extension?.getD "") &&
    !config.excludes ((path.relativeTo? base).getD path).text

namespace FileSystem

/-- The sources below a path. -/
def sourcesBelow (fs : FileSystem) (config : Config) (base path : Path) :
    Except Error (List Path) :=
  match fs.walk entersDirectory path with
  | .ok found => .ok (found.filter (config.selects base))
  | .error fault => .error (.walkStopped path fault)

/-- The sources that a path stands for. -/
def sourcesAt (fs : FileSystem) (config : Config) (base path : Path) : Except Error (List Path) :=
  if fs.isDirectory path then fs.sourcesBelow config base path else .ok [path]

end FileSystem

/-! ### Documenting a path

A path is documented by documenting the project of the sources that it stands for. Both the path
and the base directory are resolved first, the path before the base.
-/

namespace FileSystem

/-- The absolute path of what a path names, or the error that there is none. -/
def resolve (fs : FileSystem) (path : Path) : Except Error Path :=
  match fs.canonical path with
  | .ok resolved => .ok resolved
  | .error fault => .error (.inaccessible path fault)

end FileSystem

namespace Project

/-- The project of the sources that a resolved path stands for. -/
def ofPath (parse : Parser) (fs : FileSystem) (config : Config) (base path : Path) :
    Except Error Project := do
  load parse fs base (← fs.sourcesAt config base path)

end Project

/-- The documentation of the sources that a path stands for, shown from a base directory. -/
def documentPath (parse : Parser) (fs : FileSystem) (config : Config) (base path : Path) :
    Except Error ProjectDoc := do
  let path ← fs.resolve path
  let base ← fs.resolve base
  let project ← Project.ofPath parse fs config base path
  project.document config.docOptions

end PropDoc
