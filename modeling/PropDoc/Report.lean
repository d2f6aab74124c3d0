import PropDoc.Documentation
import PropDoc.Signature.Printer

/-!
# Reports for a terminal

Styled text, and the reports that are made of it.
-/

namespace PropDoc

/-! ### Styled text

Text for a terminal. A style is switched on before the text and reset after it; where the text
itself resets styles, the style is switched on again. Without colors only the text is written. In
both cases the text is first filled up with spaces to a least number of characters.
-/

/-- How a piece of text looks. -/
inductive Style where
  | boldCyan
  | boldBlue
  | boldGreen
  | bold
  | dim
  | red
  | yellow
  | green
  deriving DecidableEq

namespace Style

/-- The numbers that switch a style on. -/
def codes : Style → String
  | boldCyan => "1;36"
  | boldBlue => "1;34"
  | boldGreen => "1;32"
  | bold => "1"
  | dim => "2"
  | red => "31"
  | yellow => "33"
  | green => "32"

/-- What switches a style on. -/
def switch (style : Style) : String := "\x1b[" ++ style.codes ++ "m"

/-- What switches all styles off. -/
def reset : String := "\x1b[0m"

/-- The text with the style switched on again after each reset. -/
def renewed (style : Style) (text : String) : String :=
  String.intercalate (reset ++ style.switch) (text.splitOn reset)

/-- The text filled up with spaces to a least number of characters. -/
def padded (width : Nat) (text : String) : String :=
  text ++ String.ofList (List.replicate (width - text.length) ' ')

/-- A text in a style, filled up to a width. -/
def paintWide (colored : Bool) (width : Nat) (style : Style) (text : String) : String :=
  if colored then style.switch ++ padded width (style.renewed text) ++ reset
  else padded width text

/-- A text in a style. -/
def paint (colored : Bool) (style : Style) (text : String) : String :=
  paintWide colored 0 style text

end Style

/-! ### Reports

A report shows the documentation of a project to a reader at a terminal: what was read, each
component with its props, and how many of them have a description.
-/

/-- What a report is about. -/
structure Report where
  /-- The path that was documented, as it was given. -/
  target : String
  /-- The configuration file that was read. -/
  config : Option String
  docs : ProjectDoc
  /-- The number of files that were asked for. -/
  fileCount : Nat

namespace Report

/-- The program's name. -/
def programName : String := "react-tsdoc"

/-- The program's version. -/
def version : String := "0.1.0"

/-- The least number of characters that a prop's name takes up. -/
def nameWidth : Nat := 20

/-- A prop: a mark if it is required, its name, type and default, and below them its
description. -/
def prop (colored : Bool) (name : String) (record : PropRecord) : String :=
  "    " ++ (if record.required then Style.red.paint colored "*" else " ") ++
    Style.bold.paintWide colored nameWidth name ++ " " ++
    Style.yellow.paint colored record.type.text ++
    (match record.default? with
      | some value => Style.dim.paint colored (" = " ++ value)
      | none => "") ++ "\n" ++
    (match record.description? with
      | some description => "      " ++ description ++ "\n"
      | none => "")

/-- A component: its file, its summary and its props. -/
def component (colored : Bool) (file : String) (doc : ComponentDoc) : String :=
  "  " ++ Style.boldBlue.paint colored file ++ "\n" ++
    (if doc.description.isEmpty then "" else "    " ++ doc.description ++ "\n") ++
    (if doc.props.isEmpty then "    " ++ Style.dim.paint colored "(no props)" ++ "\n"
      else "\n" ++ String.join (doc.props.entries.map fun entry ↦ prop colored entry.1 entry.2))

/-- All props of a project. -/
def props (docs : ProjectDoc) : List PropRecord := docs.values.flatMap fun doc ↦ doc.props.values

/-- The last line: how many files, components and props there are, and how many props have a
description. -/
def status (colored : Bool) (report : Report) : String :=
  let count := (props report.docs).length
  let described := ((props report.docs).filter fun record ↦ record.description?.isSome).length
  "  " ++ Style.dim.paint colored ("Files: " ++ toString report.fileCount) ++
    "  Components: " ++ Style.boldGreen.paint colored (toString report.docs.size) ++
    "  Props: " ++ toString count ++
    (if count = 0 then ""
      else (if described = count then Style.green else Style.yellow).paint colored
        ("  (" ++ toString described ++ " documented)")) ++ "\n"

/-- The first lines: the program, and what it read. -/
def header (colored : Bool) (report : Report) : String :=
  "\n  " ++ Style.boldCyan.paint colored programName ++ " v" ++ version ++ "\n\n" ++
    "  " ++ Style.dim.paint colored "Scanning: " ++ report.target ++ "\n" ++
    (match report.config with
      | some config => "  " ++ Style.dim.paint colored "Config:   " ++ config ++ "\n"
      | none => "") ++ "\n"

/-- A report as text. -/
def render (colored : Bool) (report : Report) : String :=
  report.header colored ++
    String.join (report.docs.entries.map fun entry ↦ component colored entry.1 entry.2 ++ "\n") ++
    report.status colored ++ "\n"

end Report

end PropDoc
