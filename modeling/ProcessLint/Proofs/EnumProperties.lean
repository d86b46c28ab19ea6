import Mathlib.Data.List.Nodup
import ProcessLint.Proofs.Declarations
import ProcessLint.Proofs.EnumDefaults

/-! Enum properties of a definition, each looked at on its own. They are remembered under the name of
the entity and the name of the property, joined by a dot, and what is told of one depends on it alone
as long as no other is remembered under the same text. -/
namespace ProcessLint

structure EnumProperty where
  entity : String
  property : Property
  deriving DecidableEq

namespace EnumProperty

def names (p : EnumProperty) : String × String := (p.entity, p.property.name)

/-- The text under which the property is remembered. -/
def key (p : EnumProperty) : String := p.entity ++ "." ++ p.property.name

def declaration (p : EnumProperty) : EnumDeclaration :=
  ⟨p.key, p.property.cleanValues, p.property.cleanDefault⟩

/-- What is to be told of the property by its own values and its own default. -/
def strayFlag? (p : EnumProperty) : Option Flag := do
  let default ← p.property.cleanDefault
  if p.property.cleanValues = [] ∨ default ∈ p.property.cleanValues then none
  else some (.enumDefaultOutsideValues default p.key)

theorem strayFlag?_of_ofKey {ds : List EnumDeclaration} {p : EnumProperty}
    (h : EnumDeclaration.ofKey ds p.key = [p.declaration]) :
    EnumDeclaration.strayFlag? ds p.key = p.strayFlag? := by
  have hdefault : EnumDeclaration.lastDefault? [p.declaration] = p.property.cleanDefault := by
    cases hd : p.property.cleanDefault <;>
      simp [EnumDeclaration.lastDefault?, declaration, hd]
  have hvalues : EnumDeclaration.lastValues? [p.declaration] =
      if p.property.cleanValues = [] then none else some p.property.cleanValues := by
    by_cases hv : p.property.cleanValues = [] <;>
      simp [EnumDeclaration.lastValues?, EnumDeclaration.values?, declaration, hv]
  simp only [EnumDeclaration.strayFlag?, h, hdefault, hvalues, strayFlag?]
  by_cases hv : p.property.cleanValues = []
  · cases p.property.cleanDefault <;> simp [hv]
  · simp [hv]

theorem ofKey_declarations (ps : List EnumProperty) (key : String) :
    EnumDeclaration.ofKey (ps.map EnumProperty.declaration) key =
      (ps.filter (·.key = key)).map EnumProperty.declaration := by
  rw [EnumDeclaration.ofKey, List.filter_map]
  rfl

end EnumProperty

def Entity.enumProperties (e : Entity) : List EnumProperty :=
  (e.properties.filter fun p => isEnumType p.type).map (EnumProperty.mk e.name)

def Item.enumProperties : Item → List EnumProperty
  | .entity e => e.enumProperties
  | _ => []

def Document.enumProperties (d : Document) : List EnumProperty :=
  d.items.flatMap Item.enumProperties

theorem Item.enumDeclarations_eq (i : Item) :
    i.enumDeclarations = i.enumProperties.map EnumProperty.declaration := by
  cases i with
  | entity e =>
    simp only [enumDeclarations, Entity.enumDeclarations, enumProperties, Entity.enumProperties]
    induction e.properties with
    | nil => rfl
    | cons p ps ih =>
      by_cases h : isEnumType p.type
      · simp [Property.enumDeclaration?, EnumProperty.declaration, EnumProperty.key, h, ih]
      · simp [Property.enumDeclaration?, h, ih]
  | _ => rfl

namespace Document

theorem flatMap_enumDeclarations (d : Document) :
    d.items.flatMap Item.enumDeclarations =
      d.enumProperties.map EnumProperty.declaration := by
  rw [enumProperties, List.map_flatMap]
  exact List.flatMap_congr fun i _ => i.enumDeclarations_eq

theorem close_not_mem_items (d : Document) : Event.close ∉ d.items.flatMap Item.events := by
  intro h
  have hsettled := (Memory.settled_foldl_note {} _).mpr (Or.inr h)
  rw [(Memory.foldl_note_items {} d.items).2.1] at hsettled
  cases hsettled

theorem idxOf_close (d : Document) :
    d.events.idxOf .close = (d.items.flatMap Item.events).length := by
  rw [events, List.idxOf_append_of_notMem d.close_not_mem_items, List.idxOf_cons_self]
  rfl

theorem beforeClose_events (d : Document) : Memory.beforeClose d.events = .ofItems d.items := by
  rw [Memory.beforeClose, idxOf_close, events, List.take_left, Memory.foldl_note_items_eq]

end Document

/-! ### Properties with a key of their own -/

namespace EnumProperty

/-- Properties that are remembered under one text have the same names. -/
def KeysApart (ps : List EnumProperty) : Prop :=
  ∀ p ∈ ps, ∀ q ∈ ps, p.key = q.key → p.names = q.names

/-- The first dot ends what stands in front of it. -/
theorem eq_of_append_dot_eq {xs ys as bs : List Char} (hx : '.' ∉ xs) (hy : '.' ∉ ys)
    (h : xs ++ '.' :: as = ys ++ '.' :: bs) : xs = ys ∧ as = bs := by
  rcases List.append_eq_append_iff.mp h with ⟨zs, rfl, hz⟩ | ⟨zs, rfl, hz⟩
  all_goals
    cases zs with
    | nil => simpa [eq_comm] using hz
    | cons z zs =>
      obtain ⟨rfl, -⟩ := List.cons.inj hz
      simp at hx hy

theorem toList_key (p : EnumProperty) :
    p.key.toList = p.entity.toList ++ '.' :: p.property.name.toList := by
  simp [key, String.toList_append]

/-- Names of entities without a dot keep the keys apart, whatever the properties are called. -/
theorem keysApart_of_entities {ps : List EnumProperty} (h : ∀ p ∈ ps, '.' ∉ p.entity.toList) :
    KeysApart ps := by
  intro p hp q hq heq
  have hlist := congrArg String.toList heq
  rw [toList_key, toList_key] at hlist
  obtain ⟨hentity, hname⟩ := eq_of_append_dot_eq (h p hp) (h q hq) hlist
  exact Prod.ext (String.toList_inj.mp hentity) (String.toList_inj.mp hname)

/-- So do names of properties without a dot, whatever the entities are called. -/
theorem keysApart_of_properties {ps : List EnumProperty}
    (h : ∀ p ∈ ps, '.' ∉ p.property.name.toList) : KeysApart ps := by
  intro p hp q hq heq
  have hlist := congrArg (fun s : String => s.toList.reverse) heq
  simp only [toList_key, List.reverse_append, List.reverse_cons, List.append_assoc,
    List.singleton_append] at hlist
  have hdot {r : EnumProperty} (hr : r ∈ ps) : '.' ∉ r.property.name.toList.reverse := by
    simpa using h r hr
  obtain ⟨hname, hentity⟩ := eq_of_append_dot_eq (hdot hp) (hdot hq) hlist
  exact Prod.ext (String.toList_inj.mp (List.reverse_injective hentity))
    (String.toList_inj.mp (List.reverse_injective hname))

theorem nodup_keys {ps : List EnumProperty} (hnames : (ps.map names).Nodup)
    (hkeys : KeysApart ps) : (ps.map key).Nodup := by
  refine List.Nodup.map_on ?_ (List.Nodup.of_map _ hnames)
  intro p hp q hq heq
  exact List.inj_on_of_nodup_map hnames hp hq (hkeys p hp q hq heq)

theorem filter_key_eq {ps : List EnumProperty} (h : (ps.map key).Nodup) {p : EnumProperty}
    (hp : p ∈ ps) : ps.filter (·.key = p.key) = [p] := by
  have hiff : ∀ q ∈ ps, decide (q.key = p.key) = (q == p) := by
    intro q hq
    rw [Bool.eq_iff_iff, decide_eq_true_iff, beq_iff_eq]
    exact ⟨List.inj_on_of_nodup_map h hq hp, congrArg key⟩
  rw [List.filter_congr hiff, List.filter_beq, List.count_eq_one_of_mem (List.Nodup.of_map _ h) hp]
  rfl

end EnumProperty

namespace Property

/-- A value stays one when both are cleaned, unless it has a colon or a bracket or nothing of it is
left. -/
theorem clean_mem_cleanValues {p : Property} {value : String} (hvalue : value ∈ p.values.getD [])
    (hplain : ∀ c ∈ value.toList, c ∉ [':', '[', ']'])
    (hleft : without [':', '"', '\''] value ≠ "") :
    without [':', '"', '\''] value ∈ p.cleanValues := by
  have hsame : without ['[', ']', '"', '\''] value = without [':', '"', '\''] value := by
    refine congrArg String.ofList (List.filter_congr fun c hc => ?_)
    have hc := hplain c hc
    simp only [List.mem_cons, List.not_mem_nil, or_false, not_or] at hc
    simp [hc]
  refine List.mem_filter.mpr ⟨List.mem_map.mpr ⟨value, hvalue, hsame⟩, ?_⟩
  simpa using hleft

end Property

namespace Validator

theorem enumDefaults_validate (v : Validator) (d : Document) :
    let ds := d.enumProperties.map EnumProperty.declaration
    (v.validate d).filter (·.isOf .enumDefaultOutsideValues) =
      if v.disabled.contains .enumDefaultOutsideValues then {}
      else
        { errors := ((ds.map EnumDeclaration.key).eraseDups.filterMap
            (EnumDeclaration.strayFlag? ds)).map Flag.finding } := by
  intro ds
  have hlast : ¬ d.events.length + 1 ≤ d.events.idxOf .close :=
    Nat.not_le.mpr (Nat.lt_succ_of_le List.idxOf_le_length)
  have hrecords : (Memory.ofItems d.items).enums = EnumRecord.mergeAll [] ds :=
    congrArg (EnumRecord.mergeAll []) d.flatMap_enumDeclarations
  have hall := v.filter_enumDefaults d.events (d.events.length + 1)
  rw [v.reportAfter_of_lt (Nat.lt_succ_self _), d.beforeClose_events, enumFlags_eq hrecords] at hall
  simpa [hlast, validate] using hall

theorem exists_of_strayFlag? {ds : List EnumDeclaration} {key : String} {f : Flag}
    (h : EnumDeclaration.strayFlag? ds key = some f) :
    ∃ default, f = .enumDefaultOutsideValues default key := by
  simp only [EnumDeclaration.strayFlag?, Option.bind_eq_bind, Option.bind_eq_some_iff] at h
  obtain ⟨values, -, default, -, h⟩ := h
  split at h
  · cases h
  · exact ⟨default, (Option.some.inj h).symm⟩

/-- Of a property that has its key to itself it is told what its own values and default say, between
what is told of other keys. -/
theorem enumDefaults_around (v : Validator) (d : Document) {p : EnumProperty}
    (halone : d.enumProperties.filter (·.key = p.key) = [p]) :
    ∃ before after : List Flag,
      (v.validate d).filter (·.isOf .enumDefaultOutsideValues) =
        (if v.disabled.contains .enumDefaultOutsideValues then {}
        else { errors := (before ++ p.strayFlag?.toList ++ after).map Flag.finding }) ∧
      ∀ f ∈ before ++ after, ∀ default, f ≠ .enumDefaultOutsideValues default p.key := by
  let ds := d.enumProperties.map EnumProperty.declaration
  have hp : p ∈ d.enumProperties := by
    have hmem : p ∈ d.enumProperties.filter (·.key = p.key) := by simp [halone]
    exact (List.mem_filter.mp hmem).1
  have hkey : p.key ∈ (ds.map EnumDeclaration.key).eraseDups := by
    rw [List.mem_eraseDups, List.map_map]
    exact List.mem_map.mpr ⟨p, hp, rfl⟩
  have hnodup : (ds.map EnumDeclaration.key).eraseDups.Nodup := by
    rw [← distinct_eq_eraseDups]
    exact nodup_distinct _
  obtain ⟨front, back, hkeys⟩ := List.append_of_mem hkey
  rw [hkeys, List.nodup_middle, List.nodup_cons] at hnodup
  have hown : EnumDeclaration.strayFlag? ds p.key = p.strayFlag? := by
    refine EnumProperty.strayFlag?_of_ofKey ?_
    rw [EnumProperty.ofKey_declarations, halone]
    rfl
  refine ⟨front.filterMap (EnumDeclaration.strayFlag? ds),
    back.filterMap (EnumDeclaration.strayFlag? ds), ?_, fun f hf default heq => ?_⟩
  · rw [enumDefaults_validate, hkeys, List.append_assoc, List.filterMap_append, List.filterMap_cons,
      hown]
    cases p.strayFlag? <;> rfl
  · rw [← List.filterMap_append] at hf
    obtain ⟨key, hmem, hflag⟩ := List.mem_filterMap.mp hf
    obtain ⟨other, rfl⟩ := exists_of_strayFlag? hflag
    obtain ⟨-, rfl⟩ := Flag.enumDefaultOutsideValues.inj heq
    exact hnodup.1 hmem

/-- A default that is literally one of the values is told when values are left after cleaning and the
cleaned default is not one of them, and not otherwise. It is never told when it has no colon and no
bracket and something of it is left. -/
theorem ownDefault_of_validate (v : Validator) (d : Document) {p : EnumProperty}
    (halone : d.enumProperties.filter (·.key = p.key) = [p]) {default : String}
    (hdefault : p.property.default = some default)
    (hvalue : default ∈ p.property.values.getD []) :
    let cleaned := without [':', '"', '\''] default
    let told := p.property.cleanValues ≠ [] ∧ cleaned ∉ p.property.cleanValues
    (∃ before after : List Flag,
      (v.validate d).filter (·.isOf .enumDefaultOutsideValues) =
        (if v.disabled.contains .enumDefaultOutsideValues then {}
        else
          { errors :=
              (before ++ (if told then [Flag.enumDefaultOutsideValues cleaned p.key] else []) ++
                after).map Flag.finding }) ∧
      ∀ f ∈ before ++ after, ∀ other, f ≠ .enumDefaultOutsideValues other p.key) ∧
    ((∀ c ∈ default.toList, c ∉ [':', '[', ']']) → cleaned ≠ "" → ¬ told) := by
  intro cleaned told
  have hown : p.strayFlag?.toList =
      if told then [Flag.enumDefaultOutsideValues cleaned p.key] else [] := by
    have hclean : p.property.cleanDefault = some cleaned := by
      rw [Property.cleanDefault, hdefault, Option.map_some]
    have htold : told ↔ ¬ (p.property.cleanValues = [] ∨ cleaned ∈ p.property.cleanValues) :=
      not_or.symm
    simp only [EnumProperty.strayFlag?, hclean, htold]
    by_cases hv : p.property.cleanValues = [] ∨ cleaned ∈ p.property.cleanValues <;> simp [hv]
  rw [← hown]
  exact ⟨v.enumDefaults_around d halone,
    fun hplain hleft h => h.2 (Property.clean_mem_cleanValues hvalue hplain hleft)⟩

def colonState : EnumProperty where
  entity := "Loan"
  property := {
    name := "state", type := "Enum", values := some ["due:soon", "paid"],
    default := some "due:soon" }

def colonLoan : Document where
  items := [
    .dataObject { name := "DO_Loan" },
    .entity {
      name := colonState.entity, dataRef := "DO_Loan", properties := [colonState.property] }]

theorem ownDefault_of_colonLoan :
    colonLoan.enumProperties.filter (·.key = colonState.key) = [colonState] ∧
      ∃ before after : List Flag,
        (({} : Validator).validate colonLoan).filter (·.isOf .enumDefaultOutsideValues) =
          { errors :=
              (before ++ [Flag.enumDefaultOutsideValues "duesoon" "Loan.state"] ++ after).map
                Flag.finding } ∧
        ∀ f ∈ before ++ after, ∀ other, f ≠ .enumDefaultOutsideValues other "Loan.state" := by
  have halone : colonLoan.enumProperties.filter (·.key = colonState.key) = [colonState] := by
    decide +kernel
  exact ⟨halone, (ownDefault_of_validate {} colonLoan halone rfl (by decide +kernel)).1⟩

/-- The default is one of the values, and it is reported all the same. -/
theorem colonLoan_reported :
    colonLoan.enumProperties = [colonState] ∧ colonState.property.default = some "due:soon" ∧
      "due:soon" ∈ colonState.property.values.getD [] ∧
      ({} : Validator).validate colonLoan =
        { errors := [(Flag.enumDefaultOutsideValues "duesoon" "Loan.state").finding] } := by
  decide +kernel

/-- When enum properties are declared once and their keys are apart, what is told of enum defaults
is what each property's own values and default say, in the order of the properties. -/
theorem enumDefaults_of_keysApart (v : Validator) (d : Document)
    (hnames : (d.enumProperties.map EnumProperty.names).Nodup)
    (hkeys : EnumProperty.KeysApart d.enumProperties) :
    (v.validate d).filter (·.isOf .enumDefaultOutsideValues) =
      if v.disabled.contains .enumDefaultOutsideValues then {}
      else { errors := (d.enumProperties.filterMap EnumProperty.strayFlag?).map Flag.finding } := by
  let ds := d.enumProperties.map EnumProperty.declaration
  have hnodup := EnumProperty.nodup_keys hnames hkeys
  have hmap : ds.map EnumDeclaration.key = d.enumProperties.map EnumProperty.key := by
    rw [List.map_map]
    rfl
  have hdistinct : (d.enumProperties.map EnumProperty.key).eraseDups =
      d.enumProperties.map EnumProperty.key := by
    rw [← distinct_eq_eraseDups, distinct_of_nodup hnodup]
  have hflags : (d.enumProperties.map EnumProperty.key).filterMap
      (EnumDeclaration.strayFlag? ds) = d.enumProperties.filterMap EnumProperty.strayFlag? := by
    rw [List.filterMap_map]
    refine List.filterMap_congr fun p hp => EnumProperty.strayFlag?_of_ofKey ?_
    rw [EnumProperty.ofKey_declarations, EnumProperty.filter_key_eq hnodup hp]
    rfl
  rw [enumDefaults_validate, hmap, hdistinct, hflags]

/-- Two entities with an enum property each. The first property has a default, the second none. -/
def twoStates (first second : String × String) (default : String) : Document where
  items := [
    .dataObject { name := "DO_Loan" },
    .entity {
      name := first.1
      dataRef := "DO_Loan"
      properties := [{
        name := first.2, type := "Enum", values := some ["open"], default := some default }] },
    .entity {
      name := second.1
      dataRef := "DO_Loan"
      properties := [{ name := second.2, type := "Enum", values := some ["paid"] }] }]

theorem enumDefaults_of_twoStates :
    let d := twoStates ("Loan.Risk", "State") ("Loan", "State") "late"
    (d.enumProperties.map EnumProperty.names).Nodup ∧ EnumProperty.KeysApart d.enumProperties ∧
      (({} : Validator).validate d).filter (·.isOf .enumDefaultOutsideValues) =
        { errors := [(Flag.enumDefaultOutsideValues "late" "Loan.Risk.State").finding] } := by
  intro d
  have hnames : (d.enumProperties.map EnumProperty.names).Nodup := by decide +kernel
  have hkeys : EnumProperty.KeysApart d.enumProperties :=
    EnumProperty.keysApart_of_properties (by decide +kernel)
  have htold := enumDefaults_of_keysApart {} d hnames hkeys
  have hone : d.enumProperties.filterMap EnumProperty.strayFlag? =
      [.enumDefaultOutsideValues "late" "Loan.Risk.State"] := by decide +kernel
  rw [hone] at htold
  exact ⟨hnames, hkeys, htold⟩

/-- With the same text for both properties, the default of the first is held against the values of
the second: one that is right is reported, and one that is wrong is not. -/
theorem twoStates_crossed :
    let d := twoStates ("Loan.Risk", "State") ("Loan", "Risk.State")
    ((d "open").enumProperties.map EnumProperty.names).Nodup ∧
      ((d "open").enumProperties.filterMap EnumProperty.strayFlag? = [] ∧
        ({} : Validator).validate (d "open") =
          { errors := [(Flag.enumDefaultOutsideValues "open" "Loan.Risk.State").finding] }) ∧
      ((d "paid").enumProperties.filterMap EnumProperty.strayFlag? =
          [.enumDefaultOutsideValues "paid" "Loan.Risk.State"] ∧
        ({} : Validator).validate (d "paid") = {}) := by
  decide +kernel

end Validator
end ProcessLint
