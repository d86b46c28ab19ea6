import ProcessLint.Run.Encoding
import ProcessLint.Text.Blank

/-! The outcome of a run as text, in four formats. -/
namespace ProcessLint
namespace Run

inductive Format
  | text | json | compact | pretty
  deriving DecidableEq, Repr

namespace Format

def all : List Format := [.text, .json, .compact, .pretty]

def name : Format → String
  | .text => "text"
  | .json => "json"
  | .compact => "compact"
  | .pretty => "pretty"

def ofName? (s : String) : Option Format := all.find? fun f => f.name == s

end Format

inductive Color
  | red | green | yellow | blue
  deriving DecidableEq, Repr

def Color.code : Color → String
  | .red => "\x1b[31m"
  | .green => "\x1b[32m"
  | .yellow => "\x1b[33m"
  | .blue => "\x1b[34m"

def paint (colored : Bool) (c : Color) (s : String) : String :=
  if colored then c.code ++ s ++ "\x1b[0m" else s

/-- The counts of all findings, red after errors and unread files, yellow after other findings. -/
def summary (colored : Bool) (r : Run) : String :=
  let errors := r.errorCount
  let warnings := r.warningCount
  let advisories := r.advisoryCount
  let color : Color :=
    if errors > 0 ∨ r.failed > 0 then .red
    else if warnings > 0 ∨ advisories > 0 then .yellow
    else .green
  paint colored color <|
    "Found " ++ toString errors ++ " error(s), " ++ toString warnings ++ " warning(s), " ++
      toString advisories ++ " advisory(ies) in " ++ toString r.files.length ++ " file(s)" ++
      if r.failed > 0 then ", " ++ toString r.failed ++ " file(s) failed to load" else ""

/-- The lines of a group of findings under a heading; an empty group leaves nothing. -/
def groupLines (colored : Bool) (heading : String) (c : Color) (fs : List Finding) : List String :=
  if fs.isEmpty then []
  else
    ("  " ++ paint colored c heading) ::
      fs.flatMap fun f => (Text.lines f.format.toList).map fun l => "    " ++ .ofList l

/-- The lines of one file: its path, its groups and an empty line; nothing without findings. -/
def fileLines (colored : Bool) (f : FileReport) : List String :=
  if f.isClean then []
  else
    f.path :: groupLines colored "Warnings:" .yellow f.report.warnings ++
      groupLines colored "Errors:" .red f.report.errors ++
      groupLines colored "Advisories:" .blue f.advisories ++ [""]

def textLines (colored : Bool) (r : Run) : List String :=
  r.files.flatMap (fileLines colored) ++ [r.summary colored]

def compactLine (f : FileReport) (g : Finding) : String :=
  f.path ++ ": " ++ g.severity.name ++ " [" ++ g.code ++ "] " ++ g.message

def compactLines (r : Run) : List String :=
  r.files.flatMap fun f => f.findings.map (compactLine f)

def unlines (ls : List String) : String := String.join (ls.map fun l => l ++ "\n")

def prettyText (r : Run) : String :=
  String.join (r.files.map fun f =>
    if f.isClean then ""
    else f.path ++ "\n" ++ String.join (f.findings.map fun g => (Diagnostic.ofFinding g).render)) ++
  r.summary true ++ "\n"

def print (r : Run) : Format → String
  | .text => unlines (r.textLines true)
  | .json => r.write ++ "\n"
  | .compact => unlines r.compactLines
  | .pretty => r.prettyText

end Run
end ProcessLint
