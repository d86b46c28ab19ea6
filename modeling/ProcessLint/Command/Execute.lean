import ProcessLint.Command.Init
import ProcessLint.Command.Invocation
import ProcessLint.Command.Rules
import ProcessLint.Run.Check

/-! Carrying out a command line. -/
namespace ProcessLint
namespace Command

/-- What a command leaves behind: its status, what it prints, what it complains about, and the
files. -/
structure Outcome where
  status : Nat := 0
  output : String := ""
  complaint : Option String := none
  tree : Tree

def versionLine : String := "ebl-lint 0.85.0"

/-- The status of a command line that cannot be read and of a run that fails. -/
def failureStatus : Nat := 2

/-- The status of a command that cannot be carried out. -/
def faultStatus : Nat := 1

/-- Settings with what the command line says instead. -/
def CheckOptions.override (o : CheckOptions) (s : Settings) : Settings :=
  { s with
    preset := o.heuristics.getD s.preset
    failOn := o.failOn.or s.failOn
    options :=
      { s.options with
        warnUnknownAssets := s.options.warnUnknownAssets && !o.noUnknownAssets }
    selection := { s.selection with exclude := s.selection.exclude ++ o.exclude } }

def fault (t : Tree) (message : String) : Outcome :=
  { status := faultStatus, complaint := some ("Error: " ++ message), tree := t }

/-- Validates, prints, and fails if the run does. -/
def check (t : Tree) (o : CheckOptions) (source : SettingsSource) : Outcome :=
  match source.load t with
  | .error f => fault t f.message
  | .ok s =>
    let s := o.override s
    match Run.check t o.path o.dictionary s with
    | .error f => fault t f.message
    | .ok r =>
      { status := if r.isFailure s.failOn then failureStatus else 0
        output := r.print o.format, tree := t }

/-- Carries out a command, where `shared` is the directory of the settings for all projects. -/
def execute (t : Tree) (i : Invocation) (shared : Option String) : Outcome :=
  match i.request with
  | .check o => check t o (.find t o.path i.config shared)
  | .listRules => { output := Run.unlines ruleListing, tree := t }
  | .init force =>
    match init t force with
    | .ok t => { output := Run.unlines initLines, tree := t }
    | .error f => fault t f.message
  | .version => { output := versionLine ++ "\n", tree := t }
  | .help => { tree := t }

end Command
end ProcessLint
