import ProcessLint.Proofs.Composition

/-! What is remembered at the end of a definition: the declarations of its items, in their order.
The report is put together from the items and from these. -/
namespace ProcessLint

namespace Item

def dataObjectName? : Item → Option String
  | .dataObject d => some d.name
  | _ => none

def reference? : Item → Option (String × String)
  | .entity e => some (e.name, e.dataRef)
  | _ => none

def relationship? : Item → Option (String × String)
  | .relationship r => some (r.name, r.type)
  | _ => none

def enumDeclarations : Item → List EnumDeclaration
  | .entity e => e.enumDeclarations
  | _ => []

end Item

namespace Memory

theorem foldl_note_item_eq (m : Memory) (i : Item) :
    i.events.foldl note m =
      { m with
        dataObjects := m.dataObjects ++ i.dataObjectName?.toList
        entities := m.entities ++ i.entityName?.toList
        assets := m.assets ++ i.assetName?.toList
        references := m.references ++ i.reference?.toList
        relationships := m.relationships ++ i.relationship?.toList
        enums := EnumRecord.mergeAll m.enums i.enumDeclarations } := by
  cases i with
  | process p =>
    simp [Item.events, foldl_note_process, Item.dataObjectName?, Item.entityName?, Item.assetName?,
      Item.reference?, Item.relationship?, Item.enumDeclarations, EnumRecord.mergeAll]
  | entity e =>
    simp [Item.events, note, noteEntity_eq, Item.dataObjectName?, Item.entityName?,
      Item.assetName?, Item.reference?, Item.relationship?, Item.enumDeclarations]
  | _ =>
    simp [Item.events, note, Item.dataObjectName?, Item.entityName?, Item.assetName?,
      Item.reference?, Item.relationship?, Item.enumDeclarations, EnumRecord.mergeAll]

def ofItems (is : List Item) : Memory where
  dataObjects := is.filterMap Item.dataObjectName?
  entities := is.filterMap Item.entityName?
  assets := is.filterMap Item.assetName?
  references := is.filterMap Item.reference?
  relationships := is.filterMap Item.relationship?
  enums := EnumRecord.mergeAll [] (is.flatMap Item.enumDeclarations)

theorem mem_dataObjects_ofItems {is : List Item} {name : String} :
    name ∈ (ofItems is).dataObjects ↔ ∃ o, .dataObject o ∈ is ∧ o.name = name := by
  simp only [ofItems, List.mem_filterMap]
  constructor
  · rintro ⟨i, hi, hname⟩
    cases i with
    | dataObject o => exact ⟨o, hi, by simpa [Item.dataObjectName?] using hname⟩
    | _ => simp [Item.dataObjectName?] at hname
  · rintro ⟨o, ho, rfl⟩
    exact ⟨_, ho, rfl⟩

theorem mem_references_ofItems {is : List Item} {r : String × String} :
    r ∈ (ofItems is).references ↔ ∃ e, .entity e ∈ is ∧ (e.name, e.dataRef) = r := by
  simp only [ofItems, List.mem_filterMap]
  constructor
  · rintro ⟨i, hi, hr⟩
    cases i with
    | entity e => exact ⟨e, hi, by simpa [Item.reference?] using hr⟩
    | _ => simp [Item.reference?] at hr
  · rintro ⟨e, he, rfl⟩
    exact ⟨_, he, rfl⟩

theorem foldl_note_items_eq (is : List Item) :
    (is.flatMap Item.events).foldl note {} = ofItems is := by
  induction is using List.reverseRecOn with
  | nil => rfl
  | append_singleton is i ih =>
    rw [List.flatMap_append, List.foldl_append, ih, List.flatMap_singleton, foldl_note_item_eq]
    simp only [ofItems, EnumRecord.mergeAll, List.filterMap_append, List.flatMap_append,
      List.flatMap_singleton, List.foldl_append]
    rfl

end Memory

namespace Validator

theorem memory_run_items (v : Validator) (is : List Item) :
    (v.run {} (is.flatMap Item.events)).memory = Memory.ofItems is := by
  rw [memory_run, Memory.foldl_note_items_eq]

theorem errors_validate (v : Validator) (d : Document) :
    (v.validate d).errors =
      d.items.flatMap v.itemErrors ++
        (v.findings (referenceFlags (.ofItems d.items)) ++
          v.findings (enumFlags (.ofItems d.items))) := by
  rw [validate_eq, memory_run_items, addTo_settleFlags _ _ rfl, (v.report_run_items d.items).1]

theorem warnings_validate (v : Validator) (d : Document) :
    (v.validate d).warnings =
      (d.items.zipIdx.flatMap fun i => v.itemWarnings (Names.ofItems (d.items.take i.2)) i.1) ++
        v.findings (v.hostingFlags (.ofItems d.items)) := by
  rw [validate_eq, memory_run_items, addTo_settleFlags _ _ rfl, (v.report_run_items d.items).2]

theorem itemWarnings_congr (v : Validator) {c c' : Names} (i : Item)
    (h : i.isRelationship → ∀ n, c.Has n ↔ c'.Has n) :
    v.itemWarnings c i = v.itemWarnings c' i := by
  simp only [itemWarnings, report_run, v.flagsOf_item_congr i h]
  rfl

/-- Of each key the last default is told if it is not among the last values. -/
theorem mem_enumFlags_ofItems {is : List Item} {f : Flag} :
    f ∈ enumFlags (.ofItems is) ↔ ∃ key default,
      (EnumRecord.latest (is.flatMap Item.enumDeclarations) key).strays? = some default ∧
        f = .enumDefaultOutsideValues default key := by
  simp only [enumFlags, Memory.ofItems, EnumRecord.mergeAll_nil, List.mem_filterMap, List.mem_map]
  constructor
  · rintro ⟨r, ⟨key, -, rfl⟩, hf⟩
    obtain ⟨default, hd, rfl⟩ := Option.map_eq_some_iff.mp hf
    exact ⟨key, default, hd, rfl⟩
  · rintro ⟨key, default, hd, rfl⟩
    have hmem : key ∈ (is.flatMap Item.enumDeclarations).map EnumDeclaration.key := by
      by_contra h
      simp [EnumRecord.latest_of_not_mem h, EnumRecord.strays?] at hd
    exact ⟨_, ⟨key, mem_distinct.mpr hmem, rfl⟩, by rw [hd]; rfl⟩

end Validator
end ProcessLint
