import ProcessLint.Finding
import ProcessLint.Text.Fold

/-! The catalogue of validator rules. A rule has a code, a name and a fixed severity. -/
namespace ProcessLint

inductive Rule
  /-- A field declares `min` greater than `max`. -/
  | fieldBounds
  /-- An `Enum` field has no list of values. -/
  | enumWithoutValues
  /-- An entity refers to a data object that is not declared. -/
  | missingDataRef
  /-- The default of an enum property is outside its declared values. -/
  | enumDefaultOutsideValues
  /-- An actor of a process never acts. -/
  | unusedProcessActor
  /-- An action line does not start with an actor and a verb. -/
  | actionShape
  /-- The actor of an action is not in the dictionary. -/
  | unknownActor
  /-- The verb of an action is not in the dictionary. -/
  | unknownVerb
  /-- Verbs are granted, and this one to nobody. -/
  | verbNeverPermitted
  /-- The verbs granted to the actor do not include this one. -/
  | actorVerbNotAllowed
  /-- The actor may not read or write a data object. -/
  | dataPermission
  /-- Free text holds a reserved keyword. -/
  | reservedKeyword
  /-- An end of a relationship is no known entity, asset or actor. -/
  | unknownRelationshipEndpoint
  /-- The type of a relationship is not recognised. -/
  | unknownRelationshipType
  /-- A hosting relationship in a definition without a catalogue. -/
  | hostedOnWithoutCatalog
  /-- A declared name is not in the dictionary's catalogue. -/
  | dictionaryCoverage
  deriving DecidableEq, Repr

namespace Rule

def all : List Rule :=
  [.fieldBounds, .enumWithoutValues, .missingDataRef, .enumDefaultOutsideValues,
   .unusedProcessActor, .actionShape, .unknownActor, .unknownVerb, .verbNeverPermitted,
   .actorVerbNotAllowed, .dataPermission, .reservedKeyword, .unknownRelationshipEndpoint,
   .unknownRelationshipType, .hostedOnWithoutCatalog, .dictionaryCoverage]

theorem mem_all (r : Rule) : r ∈ all := by cases r <;> simp [all]

def code : Rule → String
  | .fieldBounds => "EBL001"
  | .enumWithoutValues => "EBL002"
  | .missingDataRef => "EBL003"
  | .enumDefaultOutsideValues => "EBL004"
  | .unusedProcessActor => "EBL005"
  | .actionShape => "EBL006"
  | .unknownActor => "EBL007"
  | .unknownVerb => "EBL008"
  | .verbNeverPermitted => "EBL009"
  | .actorVerbNotAllowed => "EBL010"
  | .dataPermission => "EBL011"
  | .reservedKeyword => "EBL012"
  | .unknownRelationshipEndpoint => "EBL013"
  | .unknownRelationshipType => "EBL014"
  | .hostedOnWithoutCatalog => "EBL015"
  | .dictionaryCoverage => "EBL016"

def name : Rule → String
  | .fieldBounds => "field-bounds"
  | .enumWithoutValues => "enum-without-values"
  | .missingDataRef => "missing-data-ref"
  | .enumDefaultOutsideValues => "enum-default-outside-values"
  | .unusedProcessActor => "unused-process-actor"
  | .actionShape => "action-shape"
  | .unknownActor => "unknown-actor"
  | .unknownVerb => "unknown-verb"
  | .verbNeverPermitted => "verb-never-permitted"
  | .actorVerbNotAllowed => "actor-verb-not-allowed"
  | .dataPermission => "data-permission"
  | .reservedKeyword => "reserved-keyword"
  | .unknownRelationshipEndpoint => "unknown-relationship-endpoint"
  | .unknownRelationshipType => "unknown-relationship-type"
  | .hostedOnWithoutCatalog => "hosted-on-without-catalog"
  | .dictionaryCoverage => "dictionary-coverage"

/-- What cannot be right is an error; all else is a warning. -/
def severity : Rule → Severity
  | .fieldBounds | .missingDataRef | .enumDefaultOutsideValues => .error
  | _ => .warning

def description : Rule → String
  | .fieldBounds => "DataObject field declares min greater than max"
  | .enumWithoutValues => "DataObject Enum field without a values= list"
  | .missingDataRef => "Entity dataRef names an undeclared DataObject"
  | .enumDefaultOutsideValues => "Enum property default not among its values"
  | .unusedProcessActor => "Process actor declared but never used in an Action"
  | .actionShape => "Action line must start with '<Actor> <Verb>'"
  | .unknownActor => "Action actor not in the dictionary"
  | .unknownVerb => "Action verb not in the dictionary"
  | .verbNeverPermitted => "Verb not permitted by any actor whitelist"
  | .actorVerbNotAllowed => "Actor's whitelist does not include the verb"
  | .dataPermission => "Actor lacks read or write permission on a DataObject"
  | .reservedKeyword => "Free text contains a reserved keyword"
  | .unknownRelationshipEndpoint =>
    "Relationship endpoint is not a known Entity, ITAsset or Actor"
  | .unknownRelationshipType => "Relationship type not recognised"
  | .hostedOnWithoutCatalog => "hosted_on relationship without a catalogue DataObject"
  | .dictionaryCoverage => "Declared name missing from the dictionary catalogue"

/-- Runs only when asked for. -/
def isOptIn : Rule → Bool
  | .dictionaryCoverage => true
  | _ => false

/-- Whether a key is the code or the name of the rule, in any case of its letters. -/
def answersTo (r : Rule) (key : String) : Bool :=
  Text.sameAscii r.code key || Text.sameAscii r.name key

def ofKey? (key : String) : Option Rule := all.find? (·.answersTo key)

def title (r : Rule) : String := r.code ++ " " ++ r.name

def finding (r : Rule) (message : String) (suggestion : Option String) : Finding :=
  ⟨r.code, r.name, r.severity, message, suggestion⟩

end Rule
end ProcessLint
