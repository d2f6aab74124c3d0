import PropDoc.Command.Run
import PropDoc.Snapshot.Basic

/-!
# The program

Reads a snapshot from standard input, carries out the command that the arguments name, prints what
it printed, and writes the file that it wrote.
-/

namespace PropDoc

open Command

/-- All of a stream's text. -/
partial def readAll (stream : IO.FS.Stream) (text : String := "") : IO String := do
  let line ← stream.getLine
  if line.isEmpty then return text else readAll stream (text ++ line)

/-- The file that a command writes, as it was named. -/
def Command.target? (command : Command) : Option Path :=
  match command.task with
  | .generate options => options.output
  | .init options => some options.output

/-- Write to disk what a command that went well has written. -/
def save (command : Command) (directory : Path) (outcome : Outcome) : IO Unit := do
  match command.target?, outcome.ending with
  | some path, .exit 0 =>
    if let .ok content := outcome.fileSystem.read (directory.join path) then
      if let some parent := path.parent? then
        if !parent.text.isEmpty then IO.FS.createDirAll parent.text
      IO.FS.writeBinFile path.text content.bytes
  | _, _ => return

/-- Carry out a command on a snapshot. -/
def carryOut (command : Command) (directory : Path) (snapshot : Snapshot) : IO UInt32 := do
  let start ← IO.monoMsNow
  let outcome := command.run { parse := snapshot.parser, directory } snapshot.fileSystem
  save command directory outcome
  let stop ← IO.monoMsNow
  IO.print (outcome.printed (toString (stop - start) ++ ".00ms"))
  IO.eprint outcome.errors
  match outcome.ending with
  | .exit code => return code.toUInt32
  | .failed failure =>
    IO.eprintln ("Error: " ++ failure.message)
    return Outcome.refused.toUInt32

end PropDoc

open PropDoc in
/-- The program. -/
def main (arguments : List String) : IO UInt32 := do
  match Command.parse arguments with
  | .error error =>
    if error.isAnswer then
      IO.print error.message
      return 0
    IO.eprint error.message
    return Command.Outcome.refused.toUInt32
  | .ok command =>
    match Snapshot.parse? (← readAll (← IO.getStdin)) with
    | some (directory, snapshot) => carryOut command directory snapshot
    | none =>
      IO.eprintln "Error: no snapshot on standard input"
      return Command.Outcome.refused.toUInt32
