import ProcessLint.Files.Tree
import ProcessLint.Settings.Reading

/-! Where settings are found. -/
namespace ProcessLint

inductive SettingsSource
  /-- A file that was named. -/
  | explicit (path : String)
  /-- A file in the directory that is looked at or above it. -/
  | project (path : String)
  /-- The file for all projects. -/
  | everywhere (path : String)
  /-- No file. -/
  | default
  deriving DecidableEq

namespace SettingsSource

def path? : SettingsSource → Option String
  | explicit p | project p | everywhere p => some p
  | default => none

/-- The names of settings files, the first before the second. -/
def names : List String := ["ebl-lint.toml", ".ebl-lint.toml"]

def everywhereName : String := "config.toml"

/-- The directory to start from: the path itself, or the directory of a file. -/
def startOf (t : Tree) (path : String) : String :=
  if t.isFile path then
    match Path.parent? path with
    | some "" | none => "."
    | some p => p
  else path

/-- The directories to search: the start and all above it. A start that is not there is taken as
it is written. -/
def directories (t : Tree) (start : String) : List String :=
  Path.ancestors <|
    match t.locate? start with
    | some l => Tree.pathOf l
    | none => start

/-- The settings file of a project: in the nearest directory, under the first name. -/
def findProject? (t : Tree) (start : String) : Option String :=
  (directories t start).findSome? fun d => (names.map (Path.join d)).find? t.isFile

/-- A file that is named comes first, then that of the project, then that for all projects. -/
def find (t : Tree) (target : String) (named : Option String) (shared : Option String) :
    SettingsSource :=
  match named with
  | some p => explicit p
  | none =>
    match findProject? t (startOf t target) with
    | some p => project p
    | none =>
      match shared.map (Path.join · everywhereName) with
      | some p => if t.isFile p then everywhere p else default
      | none => default

structure Fault where
  path : String
  deriving DecidableEq

def Fault.message (f : Fault) : String := "Failed to load config: " ++ f.path

/-- A relative path of a dictionary starts at the directory of the settings. -/
def anchored (path : String) (s : Settings) : Settings :=
  { s with
    dictionary := s.dictionary.map fun d =>
      match Path.parent? path with
      | some base => Path.join base d
      | none => d }

def load (t : Tree) (source : SettingsSource) : Except Fault Settings :=
  match source.path? with
  | none => .ok {}
  | some p =>
    match (t.read? p).bind Settings.read? with
    | some s => .ok (anchored p s)
    | none => .error ⟨p⟩

end SettingsSource
end ProcessLint
