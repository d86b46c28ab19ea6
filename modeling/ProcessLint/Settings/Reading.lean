import ProcessLint.Settings.Basic
import ProcessLint.Toml.Read

/-! Settings as they are written in TOML. -/
namespace ProcessLint

namespace Toml.Value

def toText? : Value → Option String
  | .text s => some s
  | _ => none

def toBool? : Value → Option Bool
  | .bool b => some b
  | _ => none

def toTexts? : Value → Option (List String)
  | .array vs => vs.mapM toText?
  | _ => none

/-- The fields of a section: the members of a table, or the items of an array in the order of the
names. A date has no field at all. -/
def fields? (names : List String) : Value → Option (List (String × Value))
  | .table ms => some ms
  | .array vs => some (names.zip vs)
  | .moment => some []
  | _ => none

/-- A word is itself, or the only name in a table that holds nothing under it. -/
def toWord? : Value → Option String
  | .text s => some s
  | .table [(s, .table [])] => some s
  | .table [(s, .array [])] => some s
  | _ => none

end Toml.Value

open Toml (Value)

def Toml.fieldOr? (fs : List (String × Value)) (name : String) (read? : Value → Option α)
    (default : α) : Option α :=
  match fs.lookup name with
  | some v => read? v
  | none => some default

open Toml (fieldOr?)

namespace Options

def ofToml? (v : Value) : Option Options := do
  let fs ← v.fields? ["warn_unknown_assets", "dictionary_coverage", "data_object_prefix",
    "hosted_on_type", "hosted_on_catalogs"]
  let base : Options := {}
  let warnUnknownAssets ← fieldOr? fs "warn_unknown_assets" Value.toBool? base.warnUnknownAssets
  let dictionaryCoverage ← fieldOr? fs "dictionary_coverage" Value.toBool? base.dictionaryCoverage
  let dataObjectPrefix ← fieldOr? fs "data_object_prefix" Value.toText? base.dataObjectPrefix
  let hostedOnType ← fieldOr? fs "hosted_on_type" Value.toText? base.hostedOnType
  let hostedOnCatalogs ← fieldOr? fs "hosted_on_catalogs" Value.toTexts? base.hostedOnCatalogs
  some { warnUnknownAssets, dictionaryCoverage, dataObjectPrefix, hostedOnType, hostedOnCatalogs }

end Options

namespace Selection

def ofToml? (v : Value) : Option Selection := do
  let fs ← v.fields? ["suffix", "exclude", "respect_gitignore"]
  let base : Selection := {}
  let suffix ← fieldOr? fs "suffix" Value.toText? base.suffix
  let exclude ← fieldOr? fs "exclude" Value.toTexts? base.exclude
  let respectGitignore ← fieldOr? fs "respect_gitignore" Value.toBool? base.respectGitignore
  some { suffix, exclude, respectGitignore }

end Selection

namespace Settings

def presetOfToml? (v : Value) : Option String := do
  let fs ← v.fields? ["preset"]
  fieldOr? fs "preset" Value.toText? ({} : Settings).preset

def ruleOfToml? (v : Value) : Option (Option Bool) := do
  let fs ← v.fields? ["enabled"]
  fieldOr? fs "enabled" (fun v => v.toBool?.map some) none

def rulesOfToml? : Value → Option (List (String × Option Bool))
  | .table ms => ms.mapM fun m => (ruleOfToml? m.2).map (m.1, ·)
  | _ => none

def severityOfToml? (v : Value) : Option Severity := v.toWord?.bind Severity.ofName?

def ofMembers? (fs : List (String × Value)) : Option Settings := do
  let dictionary ← fieldOr? fs "dictionary" (fun v => v.toText?.map some) none
  let failOn ← fieldOr? fs "fail_on" (fun v => (severityOfToml? v).map some) none
  let options ← fieldOr? fs "validator" Options.ofToml? {}
  let selection ← fieldOr? fs "input" Selection.ofToml? {}
  let preset ← fieldOr? fs "heuristics" presetOfToml? ({} : Settings).preset
  let rules ← fieldOr? fs "rules" rulesOfToml? []
  some { dictionary, failOn, options, selection, preset, rules }

def read? (text : String) : Option Settings := (Toml.ofText? text).bind ofMembers?

end Settings
end ProcessLint
