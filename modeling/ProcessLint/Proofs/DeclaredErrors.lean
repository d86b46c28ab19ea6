import ProcessLint.Proofs.Declarations

/-! The three ways in which a definition has errors, as facts about what it declares. -/
namespace ProcessLint

open EnumDeclaration (lastValues? lastDefault? ofKey)

def Field.HasInvertedBounds (f : Field) : Prop :=
  ∃ min max, f.min = some min ∧ f.max = some max ∧ max.lt min = true

namespace Document

/-- A field of a data object has a minimum above its maximum. -/
def HasInvertedBounds (x : Document) : Prop :=
  ∃ o, .dataObject o ∈ x.items ∧ ∃ f ∈ o.fields, f.HasInvertedBounds

/-- An entity refers to a data object that is not declared anywhere in the definition. -/
def HasDanglingReference (x : Document) : Prop :=
  ∃ e, .entity e ∈ x.items ∧ ∀ o, .dataObject o ∈ x.items → o.name ≠ e.dataRef

/-- The default that is given last for an enum property is not among the values that are given last
for it. -/
def HasStrayDefault (x : Document) : Prop :=
  ∃ key default values,
    lastDefault? (ofKey (x.items.flatMap Item.enumDeclarations) key) = some default ∧
      lastValues? (ofKey (x.items.flatMap Item.enumDeclarations) key) = some values ∧
      default ∉ values

end Document

/-! ### Events that raise no errors -/

def Event.OnlyWarns (e : Event) : Prop := ∀ r ∈ e.rules, r.severity = .warning

theorem Event.onlyWarns_of_isLine {e : Event} (h : e.isLine) : e.OnlyWarns := by
  cases e with
  | action line => simp [OnlyWarns, rules, Rule.severity]
  | validation line => simp [OnlyWarns, rules, Rule.severity]
  | _ => simp [isLine] at h

theorem Process.onlyWarns_events (p : Process) : ∀ e ∈ p.events, e.OnlyWarns := by
  refine forall_mem_events (fun q => ?_) (fun e he => Event.onlyWarns_of_isLine he) (fun q => ?_) p
  · simp [Event.OnlyWarns, Event.rules, Rule.severity]
  · simp [Event.OnlyWarns, Event.rules, Rule.severity]

theorem Item.onlyWarns_events {i : Item} (h : ∀ o, i ≠ .dataObject o) :
    ∀ e ∈ i.events, e.OnlyWarns := by
  cases i with
  | dataObject o => exact absurd rfl (h o)
  | process p => exact p.onlyWarns_events
  | _ => simp [events, Event.OnlyWarns, Event.rules, Rule.severity]

namespace Validator

theorem errorsOf_ne_nil_iff {v : Validator} {fs : List Flag} :
    v.errorsOf fs ≠ [] ↔ ∃ f ∈ fs, v.wants f.rule = true ∧ f.rule.severity = .error := by
  simp [errorsOf, findings, List.filter_eq_nil_iff]

theorem findings_ne_nil_iff {v : Validator} {fs : List Flag} {r : Rule}
    (h : ∀ f ∈ fs, f.rule = r) : v.findings fs ≠ [] ↔ v.wants r = true ∧ fs ≠ [] := by
  rw [v.findings_of_rule h]
  cases v.wants r <;> simp

/-! ### Data objects -/

theorem fieldBounds_flagged_iff {f : Field} :
    (∃ g ∈ fieldFlags f, g.rule = .fieldBounds) ↔ f.HasInvertedBounds := by
  have hvalues : ∀ g ∈ flagIf (isEnumType f.type && f.values.isNone) (.enumWithoutValues f.name),
      g.rule ≠ .fieldBounds := by
    intro g hg
    obtain ⟨-, rfl⟩ := mem_flagIf.mp hg
    simp [Flag.rule]
  constructor
  · rintro ⟨g, hg, hr⟩
    rcases List.mem_append.mp hg with hg | hg
    · split at hg
      · rename_i min max hmin hmax
        exact ⟨min, max, hmin, hmax, (mem_flagIf.mp hg).1⟩
      · simp at hg
    · exact absurd hr (hvalues g hg)
  · rintro ⟨min, max, hmin, hmax, hlt⟩
    refine ⟨.fieldBounds f.name min max, List.mem_append_left _ ?_, rfl⟩
    simp [hmin, hmax, hlt]

theorem itemErrors_eq (v : Validator) (i : Item) :
    v.itemErrors i = v.errorsOf (v.flagsOf {} i.events) := by
  rw [itemErrors, report_run, addTo_eq]
  rfl

/-- On its own an item raises no other errors than those of inverted bounds. -/
theorem itemErrors_ne_nil_iff (v : Validator) (i : Item) :
    v.itemErrors i ≠ [] ↔ v.wants .fieldBounds = true ∧
      ∃ o, i = .dataObject o ∧ ∃ f ∈ o.fields, f.HasInvertedBounds := by
  rw [itemErrors_eq, errorsOf_ne_nil_iff]
  constructor
  · rintro ⟨g, hg, hw, hs⟩
    -- all that other items can raise are warnings, and so are two of the three flags of these
    by_cases hi : ∀ o, i ≠ .dataObject o
    · obtain ⟨e, he, hr⟩ := exists_rule_mem_of_mem_flagsOf hg
      have hwarns := Item.onlyWarns_events hi e he _ hr
      rw [hs] at hwarns
      cases hwarns
    · push Not at hi
      obtain ⟨o, rfl⟩ := hi
      simp only [Item.events, flagsOf, flags, dataObjectFlags, List.append_nil, List.mem_append,
        mem_flagIf, List.mem_flatMap] at hg
      rcases hg with ⟨-, rfl⟩ | ⟨f, hf, hg⟩
      · cases hs
      · rcases rule_of_mem_fieldFlags hg with hr | hr
        · exact ⟨hr ▸ hw, o, rfl, f, hf, fieldBounds_flagged_iff.mp ⟨g, hg, hr⟩⟩
        · rw [hr] at hs
          cases hs
  · rintro ⟨hw, o, rfl, f, hf, hinverted⟩
    obtain ⟨g, hg, hr⟩ := fieldBounds_flagged_iff.mpr hinverted
    refine ⟨g, ?_, hr ▸ hw, hr ▸ rfl⟩
    simp only [Item.events, flagsOf, flags, dataObjectFlags, List.append_nil, List.mem_append,
      List.mem_flatMap]
    exact Or.inr ⟨f, hf, hg⟩

/-! ### All declarations -/

theorem referenceFlags_ne_nil_iff {x : Document} :
    referenceFlags (.ofItems x.items) ≠ [] ↔ x.HasDanglingReference := by
  simp only [referenceFlags, ne_eq, List.map_eq_nil_iff, List.filter_eq_nil_iff, not_forall,
    Bool.not_eq_true', not_not, List.contains_eq_mem, decide_eq_false_iff_not]
  constructor
  · rintro ⟨r, hr, hmissing⟩
    obtain ⟨e, he, rfl⟩ := Memory.mem_references_ofItems.mp hr
    exact ⟨e, he, fun o ho hname => hmissing (Memory.mem_dataObjects_ofItems.mpr ⟨o, ho, hname⟩)⟩
  · rintro ⟨e, he, hmissing⟩
    refine ⟨(e.name, e.dataRef), Memory.mem_references_ofItems.mpr ⟨e, he, rfl⟩, fun hmem => ?_⟩
    obtain ⟨o, ho, hname⟩ := Memory.mem_dataObjects_ofItems.mp hmem
    exact hmissing o ho hname

theorem enumFlags_ne_nil_iff {x : Document} :
    enumFlags (.ofItems x.items) ≠ [] ↔ x.HasStrayDefault := by
  constructor
  · intro h
    obtain ⟨f, hf⟩ := List.exists_mem_of_ne_nil _ h
    obtain ⟨key, default, hd, -⟩ := mem_enumFlags_ofItems.mp hf
    obtain ⟨hdefault, values, hvalues, hstray⟩ := EnumRecord.strays?_latest.mp hd
    exact ⟨key, default, values, hdefault, hvalues, hstray⟩
  · rintro ⟨key, default, values, hdefault, hvalues, hstray⟩
    have hd := EnumRecord.strays?_latest.mpr ⟨hdefault, values, hvalues, hstray⟩
    exact List.ne_nil_of_mem (mem_enumFlags_ofItems.mpr ⟨key, default, hd, rfl⟩)

/-- A definition has errors when one of the three rules for errors is wanted and has something to
object to. -/
theorem errors_validate_ne_nil_iff (v : Validator) (x : Document) :
    (v.validate x).errors ≠ [] ↔
      v.wants .fieldBounds = true ∧ x.HasInvertedBounds ∨
        v.wants .missingDataRef = true ∧ x.HasDanglingReference ∨
        v.wants .enumDefaultOutsideValues = true ∧ x.HasStrayDefault := by
  have hitems : x.items.flatMap v.itemErrors ≠ [] ↔
      v.wants .fieldBounds = true ∧ x.HasInvertedBounds := by
    simp only [ne_eq, List.flatMap_eq_nil_iff, not_forall, exists_prop]
    constructor
    · rintro ⟨i, hi, hne⟩
      obtain ⟨hw, o, rfl, hfield⟩ := (v.itemErrors_ne_nil_iff i).mp hne
      exact ⟨hw, o, hi, hfield⟩
    · rintro ⟨hw, o, ho, hfield⟩
      exact ⟨_, ho, (v.itemErrors_ne_nil_iff _).mpr ⟨hw, o, rfl, hfield⟩⟩
  have hreferences : v.findings (referenceFlags (.ofItems x.items)) ≠ [] ↔
      v.wants .missingDataRef = true ∧ x.HasDanglingReference := by
    rw [findings_ne_nil_iff fun _ => rule_of_mem_referenceFlags, referenceFlags_ne_nil_iff]
  have henums : v.findings (enumFlags (.ofItems x.items)) ≠ [] ↔
      v.wants .enumDefaultOutsideValues = true ∧ x.HasStrayDefault := by
    rw [findings_ne_nil_iff fun _ => rule_of_mem_enumFlags, enumFlags_ne_nil_iff]
  rw [errors_validate, ← hitems, ← hreferences, ← henums]
  simp only [ne_eq, List.append_eq_nil_iff, not_and_or]

end Validator
end ProcessLint
