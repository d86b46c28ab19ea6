import ProcessLint.Proofs.Settling

/-! References and hosts at the end of a definition: what is told of them depends on all the data
objects that were declared before it, wherever they stand. -/
namespace ProcessLint

open Identifier (canonical)

namespace Event

def dataObjectName? : Event → Option String
  | .dataObject d => some d.name
  | _ => none

def entity? : Event → Option Entity
  | .entity e => some e
  | _ => none

def relationship? : Event → Option Relationship
  | .relationship r => some r
  | _ => none

end Event

namespace Memory

theorem declarations_note (m : Memory) (e : Event) :
    (m.note e).dataObjects = m.dataObjects ++ e.dataObjectName?.toList ∧
      (m.note e).references =
        m.references ++ (e.entity?.map fun x => (x.name, x.dataRef)).toList ∧
      (m.note e).relationships =
        m.relationships ++ (e.relationship?.map fun r => (r.name, r.type)).toList := by
  cases e with
  | entity e =>
    simp [note, noteEntity_eq, Event.dataObjectName?, Event.entity?, Event.relationship?]
  | action line =>
    rw [note_line m rfl]
    cases hs : m.scopes <;>
      simp [useAll, hs, Event.dataObjectName?, Event.entity?, Event.relationship?]
  | _ => simp [note, Event.dataObjectName?, Event.entity?, Event.relationship?]

/-- A list to which every event adds what it declares has all declarations, in their order. -/
theorem foldl_note_eq_append {α : Type} {field : Memory → List α} {declared? : Event → Option α}
    (hnote : ∀ m e, field (m.note e) = field m ++ (declared? e).toList) (m : Memory)
    (es : List Event) : field (es.foldl note m) = field m ++ es.filterMap declared? := by
  induction es generalizing m with
  | nil => simp
  | cons e es ih =>
    rw [List.foldl_cons, ih, hnote, List.append_assoc]
    cases h : declared? e <;> simp [h]

theorem dataObjects_foldl_note (es : List Event) :
    (es.foldl note {}).dataObjects = es.filterMap Event.dataObjectName? :=
  foldl_note_eq_append (fun m e => (m.declarations_note e).1) {} es

theorem references_foldl_note (es : List Event) :
    (es.foldl note {}).references =
      (es.filterMap Event.entity?).map fun e => (e.name, e.dataRef) := by
  rw [List.map_filterMap]
  exact foldl_note_eq_append (fun m e => (m.declarations_note e).2.1) {} es

theorem relationships_foldl_note (es : List Event) :
    (es.foldl note {}).relationships =
      (es.filterMap Event.relationship?).map fun r => (r.name, r.type) := by
  rw [List.map_filterMap]
  exact foldl_note_eq_append (fun m e => (m.declarations_note e).2.2) {} es

end Memory

namespace Validator

/-- One flag for each entity whose data object is declared by no event. -/
theorem referenceFlags_foldl_note (es : List Event) :
    referenceFlags (es.foldl Memory.note {}) =
      ((es.filterMap Event.entity?).filter fun e =>
        e.dataRef ∉ es.filterMap Event.dataObjectName?).map fun e =>
          .missingDataRef e.name e.dataRef := by
  rw [referenceFlags, Memory.references_foldl_note, Memory.dataObjects_foldl_note, List.filter_map,
    List.map_map]
  congr 1
  refine List.filter_congr fun e _ => ?_
  rw [Function.comp_apply, List.contains_eq_mem, decide_not]

/-- One flag for each relationship that needs a catalogue, unless an event declares one or none is
asked for. -/
theorem hostingFlags_foldl_note (v : Validator) (es : List Event) :
    v.hostingFlags (es.foldl Memory.note {}) =
      if v.options.hostedOnCatalogs = [] ∨
          ∃ c ∈ v.options.hostedOnCatalogs, c ∈ es.filterMap Event.dataObjectName? then []
      else
        ((es.filterMap Event.relationship?).filter fun r =>
          canonical r.type = canonical v.options.hostedOnType).map fun r =>
            .hostedOnWithoutCatalog r.name v.options.hostedOnType v.options.hostedOnCatalogs := by
  rw [hostingFlags, Memory.relationships_foldl_note, Memory.dataObjects_foldl_note, List.filter_map,
    List.map_map]
  simp only [Bool.or_eq_true, List.isEmpty_iff, List.any_eq_true, List.contains_iff_mem]
  rfl

theorem filter_missingDataRefs (v : Validator) (es : List Event) (n : Nat) :
    (v.reportAfter es n).filter (·.isOf .missingDataRef) =
      if n ≤ es.idxOf .close ∨ v.disabled.contains .missingDataRef then {}
      else { errors := (referenceFlags (.beforeClose es)).map Flag.finding } := by
  rw [v.filter_reportAfter_unless_disabled (by decide), List.filter_append,
    filter_rule_eq_ite (fun _ => rule_of_mem_referenceFlags),
    filter_rule_eq_ite (fun _ => rule_of_mem_enumFlags),
    filter_rule_eq_ite (fun _ => rule_of_mem_hostingFlags)]
  simp only [if_true, reduceCtorEq, if_false, List.append_nil, List.map_nil]

theorem filter_hostedOn (v : Validator) (es : List Event) (n : Nat) :
    (v.reportAfter es n).filter (·.isOf .hostedOnWithoutCatalog) =
      if n ≤ es.idxOf .close ∨ v.disabled.contains .hostedOnWithoutCatalog then {}
      else { warnings := (v.hostingFlags (.beforeClose es)).map Flag.finding } := by
  rw [v.filter_reportAfter_unless_disabled (by decide), List.filter_append,
    filter_rule_eq_ite (fun _ => rule_of_mem_referenceFlags),
    filter_rule_eq_ite (fun _ => rule_of_mem_enumFlags),
    filter_rule_eq_ite (fun _ => rule_of_mem_hostingFlags)]
  rfl

/-- Whatever the events and their order, the first end tells of the entities before it, in their
order and as often as they were declared, each that refers to the name of no data object declared
before it. Of the relationships before it that need a catalogue it tells each, in their order,
unless no catalogue is asked for or one of them was declared, before or after the relationship.
Nothing is told of either earlier, and nothing more later. -/
theorem unresolved_of_events (v : Validator) (es : List Event) (n : Nat) :
    let seen := es.take (es.idxOf .close)
    let names := seen.filterMap Event.dataObjectName?
    let catalogs := v.options.hostedOnCatalogs
    (v.reportAfter es n).filter (·.isOf .missingDataRef) =
      (if n ≤ es.idxOf .close ∨ v.disabled.contains .missingDataRef then {}
      else
        { errors := ((seen.filterMap Event.entity?).filter fun e => e.dataRef ∉ names).map
            fun e => (Flag.missingDataRef e.name e.dataRef).finding }) ∧
    (v.reportAfter es n).filter (·.isOf .hostedOnWithoutCatalog) =
      (if n ≤ es.idxOf .close ∨ v.disabled.contains .hostedOnWithoutCatalog ∨ catalogs = [] ∨
          ∃ c ∈ catalogs, c ∈ names then {}
      else
        { warnings := ((seen.filterMap Event.relationship?).filter fun r =>
            canonical r.type = canonical v.options.hostedOnType).map fun r =>
              (Flag.hostedOnWithoutCatalog r.name v.options.hostedOnType catalogs).finding }) := by
  intro seen names catalogs
  have hreferences := referenceFlags_foldl_note seen
  have hhosting := v.hostingFlags_foldl_note seen
  rw [filter_missingDataRefs, filter_hostedOn, Memory.beforeClose, hreferences, hhosting,
    List.map_map]
  refine ⟨rfl, ?_⟩
  by_cases hnone : catalogs = [] ∨ ∃ c ∈ catalogs, c ∈ names
  · rw [if_pos hnone]
    simp only [hnone, or_true, if_true, List.map_nil, ite_self]
  · rw [if_neg hnone, List.map_map]
    simp only [hnone, or_false]
    rfl

/-- A catalogue that follows the relationship counts as one that precedes it. -/
example : ({} : Validator).report
    [.relationship ⟨"R1", "Loan", "Loan", "Hosted_On"⟩,
      .entity { name := "Loan", dataRef := "DO_Loan" },
      .dataObject { name := "DO_PlatformRegistry" }] =
    ({} : Validator).report
      [.dataObject { name := "DO_PlatformRegistry" },
        .relationship ⟨"R1", "Loan", "Loan", "Hosted_On"⟩,
        .entity { name := "Loan", dataRef := "DO_Loan" }] := by
  decide +kernel

end Validator
end ProcessLint
