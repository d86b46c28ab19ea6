import ProcessLint.Severity

/-! A finding: what a rule has to say about a definition. -/
namespace ProcessLint

structure Finding where
  code : String
  rule : String
  severity : Severity
  message : String
  suggestion : Option String := none
  deriving DecidableEq

namespace Finding

/-- The lines shown on a terminal, each with its end. -/
def format (f : Finding) : String :=
  f.code ++ " " ++ f.rule ++ "\n" ++
    "  " ++ f.severity.name ++ ": " ++ f.message ++ "\n" ++
    match f.suggestion with
    | some s => "  = help: " ++ s ++ "\n"
    | none => ""

end Finding

/-- A finding laid out for a graphical report. -/
structure Diagnostic where
  message : String
  code : String
  help : Option String
  severity : Severity
  deriving DecidableEq

namespace Diagnostic

def ofFinding (f : Finding) : Diagnostic where
  message := "[" ++ f.code ++ "] " ++ f.message
  code := f.code ++ " " ++ f.rule
  help := f.suggestion
  severity := f.severity

def mark : Severity → String
  | .info => ">"
  | .warning => "!"
  | .error => "x"

def unpadded (s : String) : String :=
  .ofList (s.toList.reverse.dropWhile (· == ' ')).reverse

/-- The diagnostic as plain text: its code, a blank line, the marked message, and the help. -/
def render (d : Diagnostic) : String :=
  d.code ++ "\n\n" ++ "  " ++ mark d.severity ++ " " ++ unpadded d.message ++ "\n" ++
    match d.help with
    | some h => "  help: " ++ unpadded h ++ "\n"
    | none => ""

end Diagnostic
end ProcessLint
