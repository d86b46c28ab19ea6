import ProcessLint.Rule

/-! The settings of a run, with their defaults. -/
namespace ProcessLint

structure Options where
  /-- Report ends of relationships that are not known. -/
  warnUnknownAssets : Bool := true
  /-- Report names that the dictionary does not catalogue. -/
  dictionaryCoverage : Bool := false
  /-- What the names of data objects in action lines start with. -/
  dataObjectPrefix : String := "DO_"
  /-- The relationship type that needs a catalogue. -/
  hostedOnType : String := "hosted_on"
  /-- The data objects of which one is a catalogue. -/
  hostedOnCatalogs : List String := ["DO_ApplicationCatalog", "DO_PlatformRegistry"]
  deriving DecidableEq

structure Selection where
  /-- What file names end with. -/
  suffix : String := ".ebl.json"
  /-- Patterns of paths that are left out. -/
  exclude : List String := ["**/target/**"]
  /-- Leave out what version control ignores. -/
  respectGitignore : Bool := true
  deriving DecidableEq

structure Settings where
  dictionary : Option String := none
  /-- Advisories of this severity fail a run. -/
  failOn : Option Severity := none
  options : Options := {}
  selection : Selection := {}
  /-- The name of the heuristics preset. -/
  preset : String := "none"
  /-- Rules switched on or off by code or name, each key once. -/
  rules : List (String × Option Bool) := []
  deriving DecidableEq

namespace Settings

/-- A key is enabled unless an entry equal to it, case aside, says otherwise. -/
def isEnabled (s : Settings) (key : String) : Bool :=
  (s.rules.filter fun r => Text.sameAscii r.1 key).all fun r => r.2.getD true

/-- A rule is enabled under its code and its name, and if it is opt-in, when asked for. -/
def enables (s : Settings) (r : Rule) : Bool :=
  (!r.isOptIn || s.options.dictionaryCoverage) && s.isEnabled r.code && s.isEnabled r.name

def disabledRules (s : Settings) : List Rule := Rule.all.filter fun r => !s.enables r

theorem mem_disabledRules {s : Settings} {r : Rule} :
    r ∈ s.disabledRules ↔ s.enables r = false := by
  simp [disabledRules, Rule.mem_all]

/-- The configured keys, in order, that are neither of a rule nor among the given ones. -/
def unknownKeys (s : Settings) (known : List String) : List String :=
  ((s.rules.map Prod.fst).filter fun k =>
    (Rule.ofKey? k).isNone && !known.any fun e => Text.sameAscii e k).mergeSort

end Settings
end ProcessLint
