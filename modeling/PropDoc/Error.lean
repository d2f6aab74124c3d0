import PropDoc.Comment.Event
import PropDoc.FileSystem
import PropDoc.Path
import PropDoc.SourceFile.Basic

/-!
# Errors

Everything that stops a run, with the file it concerns. The wording of each error is given once,
here.
-/

namespace PropDoc

/-- What stops a run. -/
inductive Error where
  | unreadable (path : Path) (issue : SyntaxIssue)
  | unnamedComponent (path : Path) (line : Nat)
  | missingFunction (path : Path) (name : String)
  | unresolvedType (path : Path) (name : String)
  | multipleComponents (path : Path)
  | faultyComment (path : Path) (diagnostic : Comment.Diagnostic)
  | unsupportedFile (path : Path)
  | inaccessible (path : Path) (fault : Fault)
  /-- A directory walk could not go on at a path. -/
  | walkStopped (path : Path) (fault : Fault)
  deriving DecidableEq

/-- The error in words. -/
def Error.message : Error → String
  | unreadable path issue =>
    issue.problem.message ++ " on line " ++ toString issue.line ++ " in " ++ path.text
  | unnamedComponent path line =>
    "exported declaration on line " ++ toString line ++ " in " ++ path.text ++
      " has no resolvable name"
  | missingFunction path name =>
    "no component function found for `" ++ name ++ "` in " ++ path.text
  | unresolvedType path name => "cannot resolve props type `" ++ name ++ "` used in " ++ path.text
  | multipleComponents path => "Multiple exported component definitions found in " ++ path.text
  | faultyComment path diagnostic =>
    diagnostic.text ++ " on line " ++ toString diagnostic.line ++ " in " ++ path.text
  | unsupportedFile path => "no parser available for " ++ path.text
  | inaccessible path fault => "failed to read " ++ path.text ++ ": " ++ fault.message
  | walkStopped path fault =>
    "failed to read " ++ path.text ++ ": IO error for operation on " ++ path.text ++ ": " ++
      fault.message

end PropDoc
