import ProcessLint.Report
import ProcessLint.Settings.Basic
import ProcessLint.Validation.DataToken
import ProcessLint.Validation.Flag
import ProcessLint.Validation.Memory

/-! Validation: the flags that each event raises, and the report of those that are wanted. -/
namespace ProcessLint

open Identifier (canonical)

/-- A dictionary and options to validate with. Every prefix of data objects can be searched for: that
one whose pattern exceeds the greatest size turns the checks of permissions off is left out. -/
structure Validator where
  dictionary : Dictionary := {}
  options : Options := {}
  /-- Rules whose flags are not wanted. -/
  disabled : List Rule := []

namespace Validator

def flagIf (holds : Bool) (f : Flag) : List Flag := if holds then [f] else []

@[simp] theorem mem_flagIf {holds : Bool} {f g : Flag} :
    g ∈ flagIf holds f ↔ holds = true ∧ g = f := by
  cases holds <;> simp [flagIf]

@[simp] theorem flagIf_false (f : Flag) : flagIf false f = [] := rfl

theorem filter_flagIf (p : Flag → Bool) (holds : Bool) (f : Flag) :
    (flagIf holds f).filter p = flagIf (holds && p f) f := by
  cases holds <;> cases hp : p f <;> simp [flagIf, hp]

/-! ### Declarations -/

def fieldFlags (f : Field) : List Flag :=
  (match f.min, f.max with
    | some min, some max => flagIf (max.lt min) (.fieldBounds f.name min max)
    | _, _ => []) ++
  flagIf (isEnumType f.type && f.values.isNone) (.enumWithoutValues f.name)

def dataObjectFlags (v : Validator) (d : DataObject) : List Flag :=
  flagIf (!v.dictionary.cataloguesDataObject d.name) (.dictionaryCoverage .dataObject d.name) ++
    d.fields.flatMap fieldFlags

def entityFlags (v : Validator) (e : Entity) : List Flag :=
  flagIf (!v.dictionary.cataloguesEntity e.name) (.dictionaryCoverage .entity e.name)

def knowsEndpoint (v : Validator) (m : Memory) (name : String) : Bool :=
  m.entities.contains name || m.assets.contains name || v.dictionary.hasActor name

def endpointFlags (v : Validator) (m : Memory) (r : Relationship) : List Flag :=
  flagIf (!v.knowsEndpoint m r.source) (.unknownRelationshipEndpoint r.name .source r.source) ++
  flagIf (!v.knowsEndpoint m r.target) (.unknownRelationshipEndpoint r.name .target r.target)

def relationshipFlags (v : Validator) (m : Memory) (r : Relationship) : List Flag :=
  (if v.options.warnUnknownAssets then v.endpointFlags m r else []) ++
  flagIf (!v.dictionary.isRelationshipType r.type)
    (.unknownRelationshipType r.name r.type v.dictionary.relationshipTypeNames)

/-! ### Processes -/

def enterFlags (v : Validator) (p : Process) : List Flag :=
  if v.dictionary.hasActorCatalogue then
    (p.declaredActors.filter fun a => !v.dictionary.hasActor a).map (.dictionaryCoverage .actor)
  else []

def leaveFlags (m : Memory) : List Flag :=
  match m.scopes with
  | s :: _ => (s.declared.filter fun a => !s.used.contains a).map .unusedProcessActor
  | [] => []

/-- A data object needs the access of its tag, or else the access that the verb implies. -/
def tokenFlags (v : Validator) (a : Action) (t : DataToken) : List Flag :=
  match t.tag.or (v.dictionary.accessOf? a.verb) with
  | some access =>
    flagIf (!v.dictionary.permits access a.actor t.name)
      (.dataPermission a.actor a.verb t.name access)
  | none => []

def actionFlags (v : Validator) (line : String) : List Flag :=
  match Action.ofLine? line with
  | none => [.actionShape line]
  | some a =>
    flagIf (!v.dictionary.hasActor a.actor) (.unknownActor a.actor) ++
    flagIf (!v.dictionary.hasVerb a.verb) (.unknownVerb a.verb) ++
    flagIf (!v.dictionary.verbPermittedByAny a.verb) (.verbNeverPermitted a.verb) ++
    flagIf (!v.dictionary.actorAllows a.actor a.verb) (.actorVerbNotAllowed a.actor a.verb) ++
    (DataToken.scan v.options.dataObjectPrefix line).flatMap (v.tokenFlags a)

/-! ### Free text -/

def textFlags (v : Validator) (place text : String) : List Flag :=
  if (Text.trim text.toList).isEmpty then []
  else (v.dictionary.reservedIn text).map fun k => .reservedKeyword place k.spelling

def validationText (line : String) : String :=
  match Text.trimStart line.toList with
  | '-' :: r => .ofList r
  | cs => .ofList cs

/-! ### The end of a definition -/

def referenceFlags (m : Memory) : List Flag :=
  (m.references.filter fun r => !m.dataObjects.contains r.2).map fun r => .missingDataRef r.1 r.2

def enumFlags (m : Memory) : List Flag :=
  m.enums.filterMap fun r => r.strays?.map fun d => .enumDefaultOutsideValues d r.key

/-- The relationship type is the one that needs a catalogue. -/
def isHosting (v : Validator) (type : String) : Bool :=
  canonical type == canonical v.options.hostedOnType

def hostingFlags (v : Validator) (m : Memory) : List Flag :=
  let catalogs := v.options.hostedOnCatalogs
  if catalogs.isEmpty || catalogs.any m.dataObjects.contains then []
  else (m.relationships.filter fun r => v.isHosting r.2).map fun r =>
    .hostedOnWithoutCatalog r.1 v.options.hostedOnType catalogs

/-- What can be told only at the end, and is told once. -/
def settleFlags (v : Validator) (m : Memory) : List Flag :=
  if m.settled then [] else referenceFlags m ++ enumFlags m ++ v.hostingFlags m

/-! ### Runs -/

def flags (v : Validator) (m : Memory) : Event → List Flag
  | .dataObject d => v.dataObjectFlags d
  | .entity e => v.entityFlags e
  | .asset _ => []
  | .relationship r => v.relationshipFlags m r
  | .enter p => v.enterFlags p
  | .leave _ => leaveFlags m
  | .action line => v.actionFlags line
  | .validation line => v.textFlags "Validation" (validationText line)
  | .rule r =>
    v.textFlags "Rule.Description" r.description ++ v.textFlags "Rule.Trigger" r.trigger
  | .report r => v.textFlags "Report.Query" r.query
  | .close => v.settleFlags m

def flagsOf (v : Validator) : Memory → List Event → List Flag
  | _, [] => []
  | m, e :: es => v.flags m e ++ v.flagsOf (m.note e) es

/-- All flags of a sequence of events and of the end behind it. -/
def allFlags (v : Validator) (es : List Event) : List Flag :=
  v.flagsOf {} es ++ v.settleFlags (es.foldl Memory.note {})

/-- Flags of a rule are wanted unless it is disabled or has to be asked for and is not. -/
def wants (v : Validator) (r : Rule) : Bool :=
  !v.disabled.contains r && (!r.isOptIn || v.options.dictionaryCoverage)

/-- Adds the finding of a flag to a report, if it is wanted. -/
def emit (v : Validator) (report : Report) (f : Flag) : Report :=
  if v.wants f.rule then report.push f.finding else report

def addTo (v : Validator) (report : Report) (fs : List Flag) : Report := fs.foldl v.emit report

def findings (v : Validator) (fs : List Flag) : List Finding :=
  (fs.filter fun f => v.wants f.rule).map Flag.finding

theorem addTo_eq_pushAll (v : Validator) (r : Report) (fs : List Flag) :
    v.addTo r fs = r.pushAll (v.findings fs) := by
  induction fs generalizing r with
  | nil => rfl
  | cons f fs ih =>
    have h : v.addTo r (f :: fs) = v.addTo (v.emit r f) fs := rfl
    rw [h, ih]
    by_cases hf : v.wants f.rule <;> simp [emit, findings, Report.pushAll, hf]

def errorsOf (v : Validator) (fs : List Flag) : List Finding :=
  (v.findings fs).filter (·.severity = .error)

def warningsOf (v : Validator) (fs : List Flag) : List Finding :=
  (v.findings fs).filter (·.severity ≠ .error)

theorem addTo_eq (v : Validator) (r : Report) (fs : List Flag) :
    v.addTo r fs = ⟨r.errors ++ v.errorsOf fs, r.warnings ++ v.warningsOf fs⟩ := by
  rw [addTo_eq_pushAll, Report.pushAll_eq]
  rfl

@[simp] theorem findings_append (v : Validator) (fs gs : List Flag) :
    v.findings (fs ++ gs) = v.findings fs ++ v.findings gs := by simp [findings]

@[simp] theorem errorsOf_append (v : Validator) (fs gs : List Flag) :
    v.errorsOf (fs ++ gs) = v.errorsOf fs ++ v.errorsOf gs := by simp [errorsOf]

@[simp] theorem warningsOf_append (v : Validator) (fs gs : List Flag) :
    v.warningsOf (fs ++ gs) = v.warningsOf fs ++ v.warningsOf gs := by simp [warningsOf]

theorem mem_findings {v : Validator} {fs : List Flag} {x : Finding} :
    x ∈ v.findings fs ↔ ∃ f ∈ fs, v.wants f.rule = true ∧ f.finding = x := by
  simp [findings, and_assoc]

section

variable {v : Validator} {fs : List Flag}

theorem severity_of_mem_findings (p : Severity → Prop) (h : ∀ f ∈ fs, p f.rule.severity)
    {x : Finding} (hx : x ∈ v.findings fs) : p x.severity := by
  obtain ⟨f, hf, -, rfl⟩ := mem_findings.mp hx
  exact h f hf

theorem errorsOf_eq_findings (h : ∀ f ∈ fs, f.rule.severity = .error) :
    v.errorsOf fs = v.findings fs :=
  List.filter_eq_self.mpr fun _ hx => by simpa using severity_of_mem_findings (· = .error) h hx

theorem warningsOf_eq_nil (h : ∀ f ∈ fs, f.rule.severity = .error) : v.warningsOf fs = [] :=
  List.filter_eq_nil_iff.mpr fun _ hx => by simpa using severity_of_mem_findings (· = .error) h hx

theorem errorsOf_eq_nil (h : ∀ f ∈ fs, f.rule.severity ≠ .error) : v.errorsOf fs = [] :=
  List.filter_eq_nil_iff.mpr fun _ hx => by simpa using severity_of_mem_findings (· ≠ .error) h hx

theorem warningsOf_eq_findings (h : ∀ f ∈ fs, f.rule.severity ≠ .error) :
    v.warningsOf fs = v.findings fs :=
  List.filter_eq_self.mpr fun _ hx => by simpa using severity_of_mem_findings (· ≠ .error) h hx

end

theorem addTo_append (v : Validator) (r : Report) (fs gs : List Flag) :
    v.addTo r (fs ++ gs) = v.addTo (v.addTo r fs) gs := by simp [addTo]

theorem flagsOf_append (v : Validator) (m : Memory) (es fs : List Event) :
    v.flagsOf m (es ++ fs) = v.flagsOf m es ++ v.flagsOf (es.foldl Memory.note m) fs := by
  induction es generalizing m with
  | nil => rfl
  | cons e es ih => simp [flagsOf, ih]

end Validator
end ProcessLint
