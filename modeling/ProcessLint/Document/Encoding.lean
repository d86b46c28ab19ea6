import ProcessLint.Document.Basic
import ProcessLint.Json.Read
import ProcessLint.Json.Record
import ProcessLint.Json.Write

/-! Definitions as JSON values: how they are written and how they are read. -/
namespace ProcessLint

open Json (Fields)

/-- A member that is written only when there is something to write. -/
def Json.memberIf (holds : Bool) (name : String) (v : Json) : List (String × Json) :=
  if holds then [(name, v)] else []

def Json.memberOf? (name : String) (write : α → Json) : Option α → List (String × Json)
  | some a => [(name, write a)]
  | none => []

def Json.textsUnlessEmpty (name : String) (ts : List String) : List (String × Json) :=
  Json.memberIf (!ts.isEmpty) name (.texts ts)

namespace Field

def members (f : Field) : List (String × Json) :=
  [("name", .text f.name), ("type", .text f.type)] ++
    Json.memberOf? "min" (fun x => .number (.ofBinary64 x)) f.min ++
    Json.memberOf? "max" (fun x => .number (.ofBinary64 x)) f.max ++
    Json.memberOf? "values" .texts f.values ++
    Json.textsUnlessEmpty "attrs" f.attrs

def toJson (f : Field) : Json := .record f.members

def ofJson? (number : Numeral → Option Binary64) (v : Json) : Option Field := do
  let fs ← v.fields? ["name", "type", "min", "max", "values", "attrs"]
  let name ← fs.required? "name" Json.toText?
  let type ← fs.required? "type" Json.toText?
  let min ← fs.optional? "min" (Json.toOption? (Json.toBinary64? number)) none
  let max ← fs.optional? "max" (Json.toOption? (Json.toBinary64? number)) none
  let values ← fs.optional? "values" (Json.toOption? Json.toTexts?) none
  let attrs ← fs.optional? "attrs" Json.toTexts? []
  some { name, type, min, max, values, attrs }

end Field

namespace DataObject

def members (d : DataObject) : List (String × Json) :=
  [("name", .text d.name), ("fields", .array (d.fields.map Field.toJson))]

def ofJson? (number : Numeral → Option Binary64) (v : Json) : Option DataObject := do
  let fs ← v.fields? ["name", "fields"]
  let name ← fs.required? "name" Json.toText?
  let fields ← fs.optional? "fields" (Json.toList? (Field.ofJson? number)) []
  some { name, fields }

end DataObject

namespace Property

def members (p : Property) : List (String × Json) :=
  [("name", .text p.name), ("type", .text p.type)] ++
    Json.memberOf? "values" .texts p.values ++
    Json.memberOf? "default" .text p.default

def toJson (p : Property) : Json := .record p.members

def ofJson? (v : Json) : Option Property := do
  let fs ← v.fields? ["name", "type", "values", "default"]
  let name ← fs.required? "name" Json.toText?
  let type ← fs.required? "type" Json.toText?
  let values ← fs.optional? "values" (Json.toOption? Json.toTexts?) none
  let default ← fs.optional? "default" (Json.toOption? Json.toText?) none
  some { name, type, values, default }

end Property

namespace Entity

def members (e : Entity) : List (String × Json) :=
  [("name", .text e.name), ("dataRef", .text e.dataRef),
   ("properties", .array (e.properties.map Property.toJson))]

def ofJson? (v : Json) : Option Entity := do
  let fs ← v.fields? ["name", "dataRef", "properties"]
  let name ← fs.required? "name" Json.toText?
  let dataRef ← fs.required? "dataRef" Json.toText?
  let properties ← fs.optional? "properties" (Json.toList? Property.ofJson?) []
  some { name, dataRef, properties }

end Entity

namespace Asset

def members (a : Asset) : List (String × Json) := [("name", .text a.name)]

def ofJson? (v : Json) : Option Asset := do
  let fs ← v.fields? ["name"]
  let name ← fs.required? "name" Json.toText?
  some { name }

end Asset

namespace Relationship

def members (r : Relationship) : List (String × Json) :=
  [("name", .text r.name), ("from", .text r.source), ("to", .text r.target),
   ("type", .text r.type)]

def ofJson? (v : Json) : Option Relationship := do
  let fs ← v.fields? ["name", "from", "to", "type"]
  let name ← fs.required? "name" Json.toText?
  let source ← fs.required? "from" Json.toText?
  let target ← fs.required? "to" Json.toText?
  let type ← fs.required? "type" Json.toText?
  some { name, source, target, type }

end Relationship

namespace Step

def members (s : Step) : List (String × Json) :=
  [("name", .text s.name)] ++
    Json.textsUnlessEmpty "inputs" s.inputs ++
    Json.textsUnlessEmpty "validations" s.validations ++
    Json.textsUnlessEmpty "actions" s.actions ++
    Json.textsUnlessEmpty "onError" s.onError ++
    Json.textsUnlessEmpty "outputs" s.outputs

def toJson (s : Step) : Json := .record s.members

def ofJson? (v : Json) : Option Step := do
  let fs ← v.fields? ["name", "inputs", "validations", "actions", "onError", "outputs"]
  let name ← fs.required? "name" Json.toText?
  let inputs ← fs.optional? "inputs" Json.toTexts? []
  let validations ← fs.optional? "validations" Json.toTexts? []
  let actions ← fs.optional? "actions" Json.toTexts? []
  let onError ← fs.optional? "onError" Json.toTexts? []
  let outputs ← fs.optional? "outputs" Json.toTexts? []
  some { name, inputs, validations, actions, onError, outputs }

end Step

namespace Process

mutual

def members : Process → List (String × Json)
  | ⟨name, actors, steps, actions, processes⟩ =>
    [("name", .text name), ("actors", .texts actors), ("steps", .array (steps.map Step.toJson))] ++
      Json.textsUnlessEmpty "actions" actions ++
      Json.memberIf (!processes.isEmpty) "processes" (.array (allToJson processes))

def allToJson : List Process → List Json
  | [] => []
  | p :: ps => .record (members p) :: allToJson ps

end

/-- Reads a process whose processes are nested no deeper than the given number. -/
def ofJson? : Nat → Json → Option Process
  | 0, _ => none
  | n + 1, v => do
    let fs ← v.fields? ["name", "actors", "steps", "actions", "processes"]
    let name ← fs.required? "name" Json.toText?
    let actors ← fs.optional? "actors" Json.toTexts? []
    let steps ← fs.optional? "steps" (Json.toList? Step.ofJson?) []
    let actions ← fs.optional? "actions" Json.toTexts? []
    let processes ← fs.optional? "processes" (Json.toList? (ofJson? n)) []
    some { name, actors, steps, actions, processes }

end Process

namespace BusinessRule

def members (r : BusinessRule) : List (String × Json) :=
  [("name", .text r.name), ("description", .text r.description), ("trigger", .text r.trigger)]

def ofJson? (v : Json) : Option BusinessRule := do
  let fs ← v.fields? ["name", "description", "trigger"]
  let name ← fs.required? "name" Json.toText?
  let description ← fs.optional? "description" Json.toText? ""
  let trigger ← fs.optional? "trigger" Json.toText? ""
  some { name, description, trigger }

end BusinessRule

namespace ReportQuery

def members (r : ReportQuery) : List (String × Json) :=
  [("name", .text r.name), ("query", .text r.query)]

def ofJson? (v : Json) : Option ReportQuery := do
  let fs ← v.fields? ["name", "query"]
  let name ← fs.required? "name" Json.toText?
  let query ← fs.optional? "query" Json.toText? ""
  some { name, query }

end ReportQuery

namespace Item

/-- The word that tells the kinds of declarations apart. -/
def kind : Item → String
  | .dataObject _ => "dataObject"
  | .entity _ => "entity"
  | .asset _ => "itAsset"
  | .relationship _ => "relationship"
  | .process _ => "process"
  | .rule _ => "rule"
  | .report _ => "report"

def members : Item → List (String × Json)
  | .dataObject d => d.members
  | .entity e => e.members
  | .asset a => a.members
  | .relationship r => r.members
  | .process p => p.members
  | .rule r => r.members
  | .report r => r.members

def toJson (i : Item) : Json := .record (("kind", .text i.kind) :: i.members)

/-- Reads a process; its own nesting bounds that of the processes in it. -/
def processOfJson? (v : Json) : Option Process := Process.ofJson? v.depth v

def ofKind? (number : Numeral → Option Binary64) (kind : String) (v : Json) : Option Item :=
  match kind with
  | "dataObject" => (DataObject.ofJson? number v).map dataObject
  | "entity" => (Entity.ofJson? v).map entity
  | "itAsset" => (Asset.ofJson? v).map asset
  | "relationship" => (Relationship.ofJson? v).map relationship
  | "process" => (processOfJson? v).map process
  | "rule" => (BusinessRule.ofJson? v).map rule
  | "report" => (ReportQuery.ofJson? v).map report
  | _ => none

/-- The kind of a declaration and what else it says. The kind is the member of that name,
wherever it stands, or the first item. -/
def splitKind? : Json → Option (String × Json)
  | .object members =>
    match members.filter fun m => m.1 = some "kind" with
    | [(_, .string (some kind))] =>
      some (kind, .object (members.filter fun m => m.1 ≠ some "kind"))
    | _ => none
  | .array (.string (some kind) :: items) => some (kind, .array items)
  | _ => none

def ofJson? (number : Numeral → Option Binary64) (v : Json) : Option Item :=
  match splitKind? v with
  | some (kind, rest) => ofKind? number kind rest
  | none => none

/-- How deep the values inside a declaration may be nested. -/
def depthLimit : Nat := 125

/-- Reads a declaration inside a document. All of it is read before its kind is looked at: no
part may be nested too deep, and no text or number may be without a value. -/
def ofDocumentJson? (number : Numeral → Option Binary64) (v : Json) : Option Item :=
  if v.depth ≤ depthLimit && v.isSound number then ofJson? number v else none

end Item

namespace Document

def toJson (d : Document) : Json :=
  .record (Json.memberOf? "source" .text d.source ++ [("items", .array (d.items.map Item.toJson))])

def ofJson? (number : Numeral → Option Binary64) (v : Json) : Option Document := do
  let fs ← v.fields? ["source", "items"]
  let source ← fs.optional? "source" (Json.toOption? Json.toText?) none
  let items ← fs.optional? "items" (Json.toList? (Item.ofDocumentJson? number)) []
  some { source, items }

/-- Reads the JSON text of a definition, and each number in it by the given reader. -/
def readBy? (number : Numeral → Option Binary64) (text : String) : Option Document :=
  (Json.ofText? text).bind (ofJson? number)

def read? : String → Option Document := readBy? Numeral.toBinary64?

/-- The JSON text of a definition, without blanks. -/
def write (d : Document) : String := d.toJson.write .compact

end Document
end ProcessLint
