import Mathlib.Data.List.Induction
import ProcessLint.Proofs.EnumRecords
import ProcessLint.Proofs.EventRules
import ProcessLint.Proofs.Traversal

/-! Validation item by item: what an item raises depends only on the entities and assets declared
before it, and on these only if it is a relationship. -/
namespace ProcessLint

/-! ### Declared names -/

/-- The names that a relationship may end at: those of entities and of assets. -/
structure Names where
  entities : List String := []
  assets : List String := []

def Names.Has (c : Names) (name : String) : Prop := name ∈ c.entities ∨ name ∈ c.assets

def Item.entityName? : Item → Option String
  | .entity e => some e.name
  | _ => none

def Item.assetName? : Item → Option String
  | .asset a => some a.name
  | _ => none

def Item.isRelationship : Item → Bool
  | .relationship _ => true
  | _ => false

def Names.ofItems (is : List Item) : Names :=
  ⟨is.filterMap Item.entityName?, is.filterMap Item.assetName?⟩

def Memory.names (m : Memory) : Names := ⟨m.entities, m.assets⟩

/-- Nothing is known but declared names, and nothing has been reported. -/
def Session.knowing (c : Names) : Session :=
  { memory := { entities := c.entities, assets := c.assets } }

namespace Memory

/-- An item adds the names it declares; it ends nothing, and what processes were open stay open. -/
theorem foldl_note_item (m : Memory) (i : Item) :
    (i.events.foldl note m).names =
        ⟨m.entities ++ i.entityName?.toList, m.assets ++ i.assetName?.toList⟩ ∧
      (i.events.foldl note m).settled = m.settled ∧
      (i.events.foldl note m).scopes = m.scopes := by
  cases i with
  | process p => simp [Item.events, foldl_note_process, names, Item.entityName?, Item.assetName?]
  | entity e => simp [Item.events, note, noteEntity_eq, names, Item.entityName?, Item.assetName?]
  | _ => simp [Item.events, note, names, Item.entityName?, Item.assetName?]

theorem foldl_note_items (m : Memory) (is : List Item) :
    ((is.flatMap Item.events).foldl note m).names =
        ⟨m.entities ++ is.filterMap Item.entityName?, m.assets ++ is.filterMap Item.assetName?⟩ ∧
      ((is.flatMap Item.events).foldl note m).settled = m.settled ∧
      ((is.flatMap Item.events).foldl note m).scopes = m.scopes := by
  induction is generalizing m with
  | nil => exact ⟨by simp [names], rfl, rfl⟩
  | cons i is ih =>
    obtain ⟨hnames, hsettled, hscopes⟩ := foldl_note_item m i
    obtain ⟨ihnames, ihsettled, ihscopes⟩ := ih (i.events.foldl note m)
    simp only [names, Names.mk.injEq] at hnames ihnames
    rw [List.flatMap_cons, List.foldl_append]
    refine ⟨?_, ihsettled.trans hsettled, ihscopes.trans hscopes⟩
    simp only [names, ihnames, hnames, Names.mk.injEq]
    constructor
    · cases h : i.entityName? <;> simp [h]
    · cases h : i.assetName? <;> simp [h]

end Memory

namespace Validator

/-! ### One item -/

/-- The errors that the events of an item raise on their own. -/
def itemErrors (v : Validator) (i : Item) : List Finding := (v.run {} i.events).report.errors

/-- The warnings that the events of an item raise on their own, when nothing is known but the
declared names. -/
def itemWarnings (v : Validator) (c : Names) (i : Item) : List Finding :=
  (v.run (.knowing c) i.events).report.warnings

theorem flagsOf_item (v : Validator) (m : Memory) (i : Item) :
    v.flagsOf m i.events = v.flagsOf (Session.knowing m.names).memory i.events := by
  cases i with
  | process p => exact v.flagsOf_process_congr _ _ p
  | _ => rfl

theorem flagsOf_item_congr (v : Validator) {c c' : Names} (i : Item)
    (h : i.isRelationship → ∀ n, c.Has n ↔ c'.Has n) :
    v.flagsOf (Session.knowing c).memory i.events =
      v.flagsOf (Session.knowing c').memory i.events := by
  cases i with
  | process p => exact v.flagsOf_process_congr _ _ p
  | relationship r =>
    have hends (name : String) : v.knowsEndpoint (Session.knowing c).memory name =
        v.knowsEndpoint (Session.knowing c').memory name := by
      have hn := h rfl name
      simp only [Names.Has] at hn
      simp only [knowsEndpoint, Session.knowing, ← Bool.decide_or, List.contains_eq_mem, hn]
    simp [Item.events, flagsOf, flags, relationshipFlags, endpointFlags, hends]
  | _ => rfl

/-- Errors do not depend on the declared names at all. -/
theorem errorsOf_item (v : Validator) (c c' : Names) (i : Item) :
    v.errorsOf (v.flagsOf (Session.knowing c).memory i.events) =
      v.errorsOf (v.flagsOf (Session.knowing c').memory i.events) := by
  cases i with
  | relationship r =>
    have hnone (d : Names) :
        v.errorsOf (v.flagsOf (Session.knowing d).memory [.relationship r]) = [] := by
      refine errorsOf_eq_nil fun f hf => ?_
      simp only [flagsOf, List.append_nil] at hf
      have hrule := rule_mem_of_mem_flags hf
      simp only [Event.rules, List.mem_cons, List.not_mem_nil, or_false] at hrule
      rcases hrule with hr | hr <;> simp [hr, Rule.severity]
    exact (hnone c).trans (hnone c').symm
  | _ => exact congrArg v.errorsOf (v.flagsOf_item_congr _ (by simp [Item.isRelationship]))

theorem report_run_item (v : Validator) (s : Session) (i : Item) :
    (v.run s i.events).report.errors = s.report.errors ++ v.itemErrors i ∧
      (v.run s i.events).report.warnings =
        s.report.warnings ++ v.itemWarnings s.memory.names i := by
  simp only [itemErrors, itemWarnings, report_run, addTo_eq, v.flagsOf_item s.memory]
  exact ⟨congrArg _ (v.errorsOf_item s.memory.names {} i), by simp [Session.knowing]⟩

/-! ### All items -/

theorem names_run_items (v : Validator) (is : List Item) :
    (v.run {} (is.flatMap Item.events)).memory.names = Names.ofItems is := by
  rw [memory_run, (Memory.foldl_note_items {} is).1]
  rfl

theorem flatMap_itemWarnings_append (v : Validator) (is js : List Item) :
    (is.zipIdx.flatMap fun i => v.itemWarnings (Names.ofItems ((is ++ js).take i.2)) i.1) =
      is.zipIdx.flatMap fun i => v.itemWarnings (Names.ofItems (is.take i.2)) i.1 := by
  refine List.flatMap_congr fun i hi => ?_
  have hlt : i.2 < is.length := by simpa using List.snd_lt_of_mem_zipIdx hi
  rw [List.take_append_of_le_length (Nat.le_of_lt hlt)]

/-- The findings of items one after the other, each with the names declared before it. -/
theorem report_run_items (v : Validator) (is : List Item) :
    (v.run {} (is.flatMap Item.events)).report.errors = is.flatMap v.itemErrors ∧
      (v.run {} (is.flatMap Item.events)).report.warnings =
        is.zipIdx.flatMap fun i => v.itemWarnings (Names.ofItems (is.take i.2)) i.1 := by
  induction is using List.reverseRecOn with
  | nil => exact ⟨rfl, rfl⟩
  | append_singleton is i ih =>
    obtain ⟨herrors, hwarnings⟩ := v.report_run_item (v.run {} (is.flatMap Item.events)) i
    rw [names_run_items] at hwarnings
    rw [List.flatMap_append, run_append, List.flatMap_singleton, herrors, hwarnings, ih.1, ih.2]
    constructor
    · simp
    · rw [List.zipIdx_append, List.flatMap_append, flatMap_itemWarnings_append]
      simp

/-! ### The end -/

theorem severity_referenceFlags (m : Memory) : ∀ f ∈ referenceFlags m, f.rule.severity = .error := by
  intro f hf
  rw [rule_of_mem_referenceFlags hf]
  rfl

theorem severity_enumFlags (m : Memory) : ∀ f ∈ enumFlags m, f.rule.severity = .error := by
  intro f hf
  rw [rule_of_mem_enumFlags hf]
  rfl

theorem severity_hostingFlags (v : Validator) (m : Memory) :
    ∀ f ∈ v.hostingFlags m, f.rule.severity ≠ .error := by
  intro f hf
  rw [rule_of_mem_hostingFlags hf]
  decide

/-- What is told at the end: of references and of enum defaults in the errors, of hosting in the
warnings. -/
theorem addTo_settleFlags (v : Validator) (r : Report) {m : Memory} (h : m.settled = false) :
    v.addTo r (v.settleFlags m) =
      ⟨r.errors ++ (v.findings (referenceFlags m) ++ v.findings (enumFlags m)),
        r.warnings ++ v.findings (v.hostingFlags m)⟩ := by
  have hr := severity_referenceFlags m
  have he := severity_enumFlags m
  have hh := v.severity_hostingFlags m
  rw [addTo_eq]
  simp [settleFlags, h, errorsOf_eq_findings hr, errorsOf_eq_findings he, errorsOf_eq_nil hh,
    warningsOf_eq_nil hr, warningsOf_eq_nil he, warningsOf_eq_findings hh]

theorem validate_eq (v : Validator) (d : Document) :
    v.validate d =
      v.addTo (v.run {} (d.items.flatMap Item.events)).report
        (v.settleFlags (v.run {} (d.items.flatMap Item.events)).memory) := by
  rw [validate, report, Document.events, run_append, finish]
  simp [step, settleFlags, Memory.note, addTo, flags]

/-- The report on a definition is put together from what its items raise on their own and from
what can be told only at the end. Of all that comes before an item, its findings depend on declared
names at most, and on these only if it is a relationship. -/
theorem validate_eq_items (v : Validator) (d : Document) :
    let m := (v.run {} (d.items.flatMap Item.events)).memory
    (v.validate d).errors =
        d.items.flatMap v.itemErrors ++
          (v.findings (referenceFlags m) ++ v.findings (enumFlags m)) ∧
      (v.validate d).warnings =
        (d.items.zipIdx.flatMap fun i => v.itemWarnings (Names.ofItems (d.items.take i.2)) i.1) ++
          v.findings (v.hostingFlags m) ∧
      (∀ c c' i, (i.isRelationship → ∀ n, c.Has n ↔ c'.Has n) →
        v.itemWarnings c i = v.itemWarnings c' i) ∧
      ∀ s i, (v.run s i.events).report.errors = s.report.errors ++ v.itemErrors i ∧
        (v.run s i.events).report.warnings =
          s.report.warnings ++ v.itemWarnings s.memory.names i := by
  intro m
  obtain ⟨herrors, hwarnings⟩ := v.report_run_items d.items
  have hsettled : m.settled = false := by
    change (v.run {} (d.items.flatMap Item.events)).memory.settled = false
    rw [memory_run, (Memory.foldl_note_items {} d.items).2.1]
  refine ⟨?_, ?_, fun c c' i h => ?_, v.report_run_item⟩
  · rw [validate_eq, addTo_settleFlags _ _ hsettled, herrors]
  · rw [validate_eq, addTo_settleFlags _ _ hsettled, hwarnings]
  · simp only [itemWarnings, report_run, v.flagsOf_item_congr i h]
    rfl

end Validator
end ProcessLint
