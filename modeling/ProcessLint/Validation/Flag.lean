import ProcessLint.Dictionary.Basic
import ProcessLint.Number.Numeral
import ProcessLint.Rule
import ProcessLint.Validation.Action

/-! What the validator objects to, and in which words. -/
namespace ProcessLint

inductive Side
  | source | target
  deriving DecidableEq, Repr

def Side.title : Side → String
  | .source => "From"
  | .target => "To"

inductive Catalogued
  | dataObject | entity | actor
  deriving DecidableEq, Repr

inductive Flag
  | fieldBounds (field : String) (min max : Binary64)
  | enumWithoutValues (field : String)
  | missingDataRef (entity dataRef : String)
  /-- The key is the entity and its property. -/
  | enumDefaultOutsideValues (default key : String)
  | unusedProcessActor (actor : String)
  | actionShape (line : String)
  | unknownActor (actor : String)
  | unknownVerb (verb : String)
  | verbNeverPermitted (verb : String)
  | actorVerbNotAllowed (actor verb : String)
  | dataPermission (actor verb dataObject : String) (access : Access)
  /-- The place is the kind of free text. -/
  | reservedKeyword (place spelling : String)
  | unknownRelationshipEndpoint (relationship : String) (side : Side) (endpoint : String)
  | unknownRelationshipType (relationship type : String) (known : List String)
  | hostedOnWithoutCatalog (relationship type : String) (catalogs : List String)
  | dictionaryCoverage (kind : Catalogued) (name : String)
  deriving DecidableEq

namespace Flag

def rule : Flag → Rule
  | fieldBounds .. => .fieldBounds
  | enumWithoutValues .. => .enumWithoutValues
  | missingDataRef .. => .missingDataRef
  | enumDefaultOutsideValues .. => .enumDefaultOutsideValues
  | unusedProcessActor .. => .unusedProcessActor
  | actionShape .. => .actionShape
  | unknownActor .. => .unknownActor
  | unknownVerb .. => .unknownVerb
  | verbNeverPermitted .. => .verbNeverPermitted
  | actorVerbNotAllowed .. => .actorVerbNotAllowed
  | dataPermission .. => .dataPermission
  | reservedKeyword .. => .reservedKeyword
  | unknownRelationshipEndpoint .. => .unknownRelationshipEndpoint
  | unknownRelationshipType .. => .unknownRelationshipType
  | hostedOnWithoutCatalog .. => .hostedOnWithoutCatalog
  | dictionaryCoverage .. => .dictionaryCoverage

def message : Flag → String
  | fieldBounds field min max =>
    "DataObject: field '" ++ field ++ "' has min>max (" ++ min.plainText ++ " > " ++
      max.plainText ++ ")"
  | enumWithoutValues field => "DataObject: field '" ++ field ++ "' Enum without values= list."
  | missingDataRef entity dataRef =>
    "Entity '" ++ entity ++ "' references missing DataObject '" ++ dataRef ++ "'"
  | enumDefaultOutsideValues default key =>
    "Enum default '" ++ default ++ "' not in values for " ++ key
  | unusedProcessActor actor =>
    "Process: actor '" ++ actor ++ "' declared but never used in Actions."
  | actionShape _ => "Action missing explicit 'Actor Verb' prefix; use '- <Actor> <Verb> ...'"
  | unknownActor actor => "Action actor '" ++ actor ++ "' not in dictionary."
  | unknownVerb verb => "Verb '" ++ verb ++ "' not in domain verb list."
  | verbNeverPermitted verb =>
    "Verb '" ++ verb ++ "' is never permitted by any actor in the domain whitelist."
  | actorVerbNotAllowed actor verb =>
    "Actor '" ++ actor ++ "' not allowed to perform '" ++ verb ++ "'."
  | dataPermission actor verb dataObject access =>
    "Actor '" ++ actor ++ "' lacks " ++ access.title ++ " permission on '" ++ dataObject ++
      "' (verb '" ++ verb ++ "')."
  | reservedKeyword place spelling =>
    place ++ ": free-text contains reserved keyword '" ++ spelling ++
      "'; consider quoting or using structured fields."
  | unknownRelationshipEndpoint relationship side endpoint =>
    "Relationship '" ++ relationship ++ "': " ++ side.title ++ "='" ++ endpoint ++
      "' not a known Entity/ITAsset/Actor."
  | unknownRelationshipType relationship type _ =>
    "Relationship '" ++ relationship ++ "': Type '" ++ type ++ "' is not allowed."
  | hostedOnWithoutCatalog relationship type catalogs =>
    "Relationship '" ++ relationship ++ "': " ++ type ++ " used but neither " ++
      " nor ".intercalate catalogs ++ " defined."
  | dictionaryCoverage .dataObject name => "DataObject '" ++ name ++ "' not found in dictionary."
  | dictionaryCoverage .entity name => "Entity '" ++ name ++ "' not found in dictionary."
  | dictionaryCoverage .actor name => "Process: actor '" ++ name ++ "' not found in dictionary."

/-- How the flag can be resolved, where there is one way. -/
def help? : Flag → Option String
  | missingDataRef entity dataRef =>
    some ("Define DataObject '" ++ dataRef ++ "' or fix the dataRef of '" ++ entity ++ "'")
  | actionShape line => some ("Rewrite as '- <Actor> <Verb> " ++ Action.remark line ++ "'")
  | actorVerbNotAllowed actor verb =>
    some ("Add '" ++ verb ++ "' to actor '" ++ actor ++ "' permissions in dictionary")
  | dataPermission actor _ dataObject access =>
    some ("Add " ++ access.name ++ " permission for '" ++ actor ++ "' on '" ++ dataObject ++
      "' in actorDataPerms")
  | unknownRelationshipType _ type known =>
    some <|
      if known.isEmpty then "Add '" ++ type ++ "' to relationshipTypes in the dictionary"
      else "Valid types: " ++ ", ".intercalate known
  | _ => none

def finding (f : Flag) : Finding := f.rule.finding f.message f.help?

@[simp] theorem finding_code (f : Flag) : f.finding.code = f.rule.code := rfl

@[simp] theorem finding_severity (f : Flag) : f.finding.severity = f.rule.severity := rfl

end Flag
end ProcessLint
