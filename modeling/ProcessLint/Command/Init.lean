import ProcessLint.Files.Tree

/-! Writing a first settings file. -/
namespace ProcessLint
namespace Command

def defaultSettings : List String :=
  ["# ebl-lint configuration",
   "",
   "# Dictionary of actors, verbs and permissions (relative to this file)",
   "dictionary = \"dictionary.json\"",
   "",
   "# Fail the run on heuristic advisories at or above this severity",
   "# fail_on = \"warning\"",
   "",
   "[validator]",
   "# Warn when a relationship endpoint is not a known entity, asset or actor",
   "warn_unknown_assets = true",
   "",
   "# Report declared names missing from the dictionary catalogue (EBL016)",
   "dictionary_coverage = false",
   "",
   "# Prefix that marks data objects in action lines",
   "data_object_prefix = \"DO_\"",
   "",
   "# Relationship type that needs a catalogue data object",
   "hosted_on_type = \"hosted_on\"",
   "hosted_on_catalogs = [\"DO_ApplicationCatalog\", \"DO_PlatformRegistry\"]",
   "",
   "[input]",
   "# Suffix of syntax tree files",
   "suffix = \".ebl.json\"",
   "",
   "# Glob patterns to exclude when walking a directory",
   "exclude = [",
   "    \"**/target/**\",",
   "]",
   "",
   "# Respect .gitignore files",
   "respect_gitignore = true",
   "",
   "[heuristics]",
   "# none, banking or all",
   "preset = \"none\"",
   "",
   "# Rules are enabled by default; disable by name or code",
   "# [rules.reserved-keyword]",
   "# enabled = false",
   "",
   "# [rules.AUDIT-001]",
   "# enabled = false"]

def settingsName : String := "ebl-lint.toml"

/-- Why the file is not written. -/
inductive InitFault
  | present
  | unwritable
  deriving DecidableEq

def InitFault.message : InitFault → String
  | present =>
    "Configuration file already exists at " ++ settingsName ++ ". Use --force to overwrite."
  | unwritable => "Failed to write " ++ settingsName

/-- Writes the file, in the stead of another one only when forced to. -/
def init (t : Tree) (force : Bool) : Except InitFault Tree :=
  if t.exists? settingsName && !force then .error .present
  else
    match t.write? settingsName (String.join (defaultSettings.map fun l => l ++ "\n")) with
    | some t => .ok t
    | none => .error .unwritable

def initLines : List String :=
  ["Created " ++ settingsName, "", "Next steps:",
   "  1. Point `dictionary` at your dictionary JSON", "  2. Run: ebl-lint check"]

end Command
end ProcessLint
