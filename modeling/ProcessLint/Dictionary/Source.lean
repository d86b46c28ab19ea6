import ProcessLint.Json.Read
import ProcessLint.Json.Record

/-! Dictionaries as they are configured: core vocabulary and business domains. -/
namespace ProcessLint
namespace Dictionary

open Json (Fields)

structure DataGrants where
  read : List String := []
  write : List String := []

/-- The names of one business domain. -/
structure Domain where
  actors : List String := []
  verbs : List String := []
  entities : List String := []
  dataObjects : List String := []
  relationships : List String := []
  /-- The verbs that actors may perform. -/
  actorVerbs : Json.Map (List String) := {}
  actorDataPerms : Json.Map DataGrants := {}

/-- The vocabulary of all domains. -/
structure Core where
  /-- The reserved keywords. -/
  reserved : List String := []
  /-- The access that verbs imply, as it is written. -/
  verbPermissions : Json.Map String := {}
  relationshipTypes : List String := []

/-- A dictionary as it is configured: named domains, of which some may be left open, and a single
domain without a name. -/
structure Source where
  core : Option Core := none
  domains : Json.Map (Option Domain) := {}
  domain : Option Domain := none

namespace DataGrants

def ofJson? (v : Json) : Option DataGrants := do
  let fs ← v.fields? ["read", "write"]
  let read ← fs.optional? "read" Json.toTexts? []
  let write ← fs.optional? "write" Json.toTexts? []
  some { read, write }

end DataGrants

namespace Domain

def ofJson? (v : Json) : Option Domain := do
  let fs ← v.fields? ["actors", "verbs", "entities", "dataObjects", "relationships", "actorVerbs",
    "actorDataPerms"]
  let actors ← fs.optional? "actors" Json.toTexts? []
  let verbs ← fs.optional? "verbs" Json.toTexts? []
  let entities ← fs.optional? "entities" Json.toTexts? []
  let dataObjects ← fs.optional? "dataObjects" Json.toTexts? []
  let relationships ← fs.optional? "relationships" Json.toTexts? []
  let actorVerbs ← fs.optional? "actorVerbs" (Json.toMap? Json.toTexts?) {}
  let actorDataPerms ← fs.optional? "actorDataPerms" (Json.toMap? DataGrants.ofJson?) {}
  some { actors, verbs, entities, dataObjects, relationships, actorVerbs, actorDataPerms }

end Domain

namespace Core

def reserved? (v : Json) : Option (List String) := do
  let fs ← v.fields? ["reserved"]
  fs.optional? "reserved" Json.toTexts? []

def ofJson? (v : Json) : Option Core := do
  let fs ← v.fields? ["keywords", "verbPermissions", "relationshipTypes"]
  let keywords ← fs.optional? "keywords" (Json.toOption? reserved?) none
  let verbPermissions ← fs.optional? "verbPermissions" (Json.toMap? Json.toText?) {}
  let relationshipTypes ← fs.optional? "relationshipTypes" Json.toTexts? []
  some { reserved := keywords.getD [], verbPermissions, relationshipTypes }

end Core

namespace Source

def ofJson? (v : Json) : Option Source := do
  let fs ← v.fields? ["core", "domains", "domain"]
  let core ← fs.optional? "core" (Json.toOption? Core.ofJson?) none
  let domains ← fs.optional? "domains" (Json.toMap? (Json.toOption? Domain.ofJson?)) {}
  let domain ← fs.optional? "domain" (Json.toOption? Domain.ofJson?) none
  some { core, domains, domain }

def read? (text : String) : Option Source := (Json.ofText? text).bind ofJson?

def allDomains (s : Source) : List Domain := s.domains.entries.filterMap Prod.snd ++ s.domain.toList

end Source
end Dictionary
end ProcessLint
