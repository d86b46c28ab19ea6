import ProcessLint.Document.Encoding
import ProcessLint.Document.Rendering
import ProcessLint.Files.Discovery
import ProcessLint.Heuristic.Preset
import ProcessLint.Run.Basic
import ProcessLint.Settings.Lookup
import ProcessLint.Validation.Session

/-! Validating the files of a tree. -/
namespace ProcessLint
namespace Run

open Heuristic (Banking Preset)

inductive Fault
  | noDictionary
  | unreadableDictionary (path : String)
  | unknownPreset (u : Preset.Unknown)
  | discovery (f : Discovery.Fault)
  deriving DecidableEq

def Fault.message : Fault → String
  | noDictionary =>
    "No dictionary given: pass --dictionary or set `dictionary` in ebl-lint.toml"
  | unreadableDictionary path => "Failed to load dictionary: " ++ path
  | unknownPreset u => u.message
  | discovery f => f.message

def dictionaryAt? (t : Tree) (path : String) : Option Dictionary := do
  let text ← t.read? path
  let source ← Dictionary.Source.read? text
  (Dictionary.ofSource source).toOption

def heuristics (s : Settings) : Except Preset.Unknown (List Banking) :=
  (Preset.ofName s.preset).map fun p => p.rules.filter fun h => s.isEnabled h.name

/-- What a heuristic can be switched off under: its name and the codes of its findings. -/
def heuristicKeys : List String := Preset.all.rules.flatMap fun h => h.name :: h.codes

def unknownKeys (s : Settings) : List String := s.unknownKeys heuristicKeys

def validator (d : Dictionary) (s : Settings) : Validator :=
  { dictionary := d, options := s.options, disabled := s.disabledRules }

/-- The findings of heuristics on a definition whose codes are enabled. -/
def advisories (s : Settings) (hs : List Banking) (d : Document) : List Finding :=
  if hs.isEmpty then [] else (Heuristic.scan hs d.text).filter fun f => s.isEnabled f.code

def reportOn? (t : Tree) (v : Validator) (s : Settings) (hs : List Banking) (path : String) :
    Option FileReport := do
  let text ← t.read? path
  let d ← Document.read? text
  some { path, report := v.validate d, advisories := advisories s hs d }

/-- Reports on the files in their order; those that hold no definition are counted. -/
def ofFiles (t : Tree) (v : Validator) (s : Settings) (hs : List Banking) (paths : List String) :
    Run :=
  let reports := paths.map (reportOn? t v s hs)
  { files := reports.filterMap id, failed := (reports.filter Option.isNone).length }

/-- Validates the files that a path names, with a dictionary that is given or configured. -/
def check (t : Tree) (path : String) (dictionary : Option String) (s : Settings) :
    Except Fault Run :=
  match dictionary.or s.dictionary with
  | none => .error .noDictionary
  | some dictionaryPath =>
    match dictionaryAt? t dictionaryPath with
    | none => .error (.unreadableDictionary dictionaryPath)
    | some d =>
      match heuristics s with
      | .error u => .error (.unknownPreset u)
      | .ok hs =>
        match Discovery.collect t path s.selection with
        | .error f => .error (.discovery f)
        | .ok paths => .ok (ofFiles t (validator d s) s hs paths)

end Run
end ProcessLint
