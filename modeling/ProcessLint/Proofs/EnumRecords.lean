import Mathlib.Data.List.Induction
import ProcessLint.Validation.Memory

/-! Enum properties that share a key: there is one record for each key, in the order in which the
keys first occur, with the values and the default that were given last. -/
namespace ProcessLint

/-- What an enum property declares, as it is compared. -/
structure EnumDeclaration where
  /-- The entity and its property. -/
  key : String
  values : List String
  default : Option String
  deriving DecidableEq

namespace EnumDeclaration

def values? (d : EnumDeclaration) : Option (List String) :=
  if d.values.isEmpty then none else some d.values

/-- The values of the last declaration that gives any. -/
def lastValues? (ds : List EnumDeclaration) : Option (List String) :=
  (ds.filterMap values?).getLast?

def lastDefault? (ds : List EnumDeclaration) : Option String := (ds.filterMap default).getLast?

theorem lastValues?_concat (ds : List EnumDeclaration) (d : EnumDeclaration) :
    lastValues? (ds ++ [d]) = d.values?.or (lastValues? ds) := by
  rw [lastValues?, List.filterMap_append, List.getLast?_append]
  cases h : d.values? <;> simp [h, lastValues?]

theorem lastDefault?_concat (ds : List EnumDeclaration) (d : EnumDeclaration) :
    lastDefault? (ds ++ [d]) = d.default.or (lastDefault? ds) := by
  rw [lastDefault?, List.filterMap_append, List.getLast?_append]
  cases h : d.default <;> simp [h, lastDefault?]

theorem ne_nil_of_lastValues? {ds : List EnumDeclaration} {values : List String}
    (h : lastValues? ds = some values) : values ≠ [] := by
  obtain ⟨d, -, hd⟩ := List.mem_filterMap.mp (List.mem_of_getLast? h)
  simp only [values?, Option.ite_none_left_eq_some, Option.some.injEq] at hd
  obtain ⟨hne, rfl⟩ := hd
  simpa using hne

def ofKey (ds : List EnumDeclaration) (key : String) : List EnumDeclaration :=
  ds.filter (·.key = key)

theorem ofKey_concat (ds : List EnumDeclaration) (d : EnumDeclaration) (key : String) :
    ofKey (ds ++ [d]) key = if d.key = key then ofKey ds key ++ [d] else ofKey ds key := by
  by_cases h : d.key = key <;> simp [ofKey, h]

theorem ofKey_ne_nil_iff {ds : List EnumDeclaration} {key : String} :
    ofKey ds key ≠ [] ↔ key ∈ ds.map EnumDeclaration.key := by
  simp [ofKey, List.filter_eq_nil_iff]

end EnumDeclaration

/-- What an enum property of an entity declares; other properties declare nothing. -/
def Property.enumDeclaration? (entity : String) (p : Property) : Option EnumDeclaration :=
  if isEnumType p.type then some ⟨entity ++ "." ++ p.name, p.cleanValues, p.cleanDefault⟩ else none

def Entity.enumDeclarations (e : Entity) : List EnumDeclaration :=
  e.properties.filterMap (Property.enumDeclaration? e.name)

namespace EnumRecord

open EnumDeclaration (lastValues? lastDefault? ofKey lastValues?_concat lastDefault?_concat
  ofKey_concat ne_nil_of_lastValues?)

def mergeAll (rs : List EnumRecord) (ds : List EnumDeclaration) : List EnumRecord :=
  ds.foldl (fun rs d => merge d.key d.values d.default rs) rs

/-- The record of a key: of its declarations the last values and the last default. -/
def latest (ds : List EnumDeclaration) (key : String) : EnumRecord where
  key := key
  values := (lastValues? (ofKey ds key)).getD []
  default := lastDefault? (ofKey ds key)

theorem latest_of_not_mem {ds : List EnumDeclaration} {key : String}
    (h : key ∉ ds.map EnumDeclaration.key) : latest ds key = { key } := by
  have hnone : ofKey ds key = [] := not_not.mp (mt EnumDeclaration.ofKey_ne_nil_iff.mp h)
  simp [latest, hnone, lastValues?, lastDefault?]

/-- A declaration updates the record of its key and no other. -/
theorem latest_concat (ds : List EnumDeclaration) (d : EnumDeclaration) (key : String) :
    latest (ds ++ [d]) key =
      if d.key = key then (latest ds key).update d.values d.default else latest ds key := by
  by_cases h : d.key = key
  · have hvalues : (d.values?.or (lastValues? (ofKey ds key))).getD [] =
        if d.values.isEmpty then (lastValues? (ofKey ds key)).getD [] else d.values := by
      unfold EnumDeclaration.values?
      split <;> simp
    rw [if_pos h]
    simp only [latest, update, ofKey_concat, if_pos h, lastValues?_concat, lastDefault?_concat,
      hvalues]
  · simp only [latest, ofKey_concat, if_neg h]

theorem merge_map (key : String) (values : List String) (default : Option String)
    (record : String → EnumRecord) (hkey : ∀ k, (record k).key = k) {ks : List String}
    (hks : ks.Nodup) (hnew : key ∉ ks → record key = { key }) :
    merge key values default (ks.map record) =
      (if key ∈ ks then ks else ks ++ [key]).map fun k =>
        if key = k then (record k).update values default else record k := by
  induction ks with
  | nil => simp [merge, hnew]
  | cons k ks ih =>
    obtain ⟨hk, hks⟩ := List.nodup_cons.mp hks
    simp only [List.map_cons, merge, hkey]
    by_cases heq : k = key
    · subst heq
      have hrest : ks.map record = ks.map fun j =>
          if k = j then (record j).update values default else record j :=
        List.map_congr_left fun j hj => by rw [if_neg (by rintro rfl; exact hk hj)]
      simp [← hrest]
    · have hne : key ≠ k := fun h => heq h.symm
      have hmerge := ih hks fun h => hnew (by simp [hne, h])
      rw [if_neg heq, hmerge]
      by_cases hmem : key ∈ ks <;> simp [hmem, hne]

/-- One record for each key, in the order in which the keys first occur. -/
theorem mergeAll_nil (ds : List EnumDeclaration) :
    mergeAll [] ds = (distinct (ds.map EnumDeclaration.key)).map (latest ds) := by
  -- from the end, since the last declaration of a key is the one that counts
  induction ds using List.reverseRecOn with
  | nil => rfl
  | append_singleton ds d ih =>
    have hstep : mergeAll [] (ds ++ [d]) = merge d.key d.values d.default (mergeAll [] ds) := by
      simp [mergeAll]
    have hlatest : latest (ds ++ [d]) = fun k =>
        if d.key = k then (latest ds k).update d.values d.default else latest ds k :=
      funext fun k => latest_concat ds d k
    have hmerge := merge_map d.key d.values d.default (latest ds) (fun _ => rfl)
      (nodup_distinct (ds.map EnumDeclaration.key)) fun h => latest_of_not_mem (by simpa using h)
    rw [hstep, ih, hmerge, List.map_append, List.map_singleton, distinct_concat, hlatest]
    simp only [mem_distinct]

/-- The records do not depend on the order of declarations with different keys, except for their
own order. -/
theorem mergeAll_perm {ds es : List EnumDeclaration} (h : ∀ key, ofKey ds key = ofKey es key) :
    (mergeAll [] ds).Perm (mergeAll [] es) := by
  have hkeys : (distinct (ds.map EnumDeclaration.key)).Perm
      (distinct (es.map EnumDeclaration.key)) := by
    refine (List.perm_ext_iff_of_nodup (nodup_distinct _) (nodup_distinct _)).mpr fun key => ?_
    rw [mem_distinct, mem_distinct, ← EnumDeclaration.ofKey_ne_nil_iff,
      ← EnumDeclaration.ofKey_ne_nil_iff, h key]
  have hlatest : latest ds = latest es := funext fun key => by simp only [latest, h key]
  rw [mergeAll_nil, mergeAll_nil, hlatest]
  exact hkeys.map _

theorem strays?_latest {ds : List EnumDeclaration} {key : String} {default : String} :
    (latest ds key).strays? = some default ↔
      lastDefault? (ofKey ds key) = some default ∧
        ∃ values, lastValues? (ofKey ds key) = some values ∧ default ∉ values := by
  simp only [strays?, latest, Option.filter_eq_some_iff]
  refine and_congr_right fun _ => ?_
  cases h : lastValues? (ofKey ds key) with
  | none => simp
  | some values => simp [ne_nil_of_lastValues? h]

end EnumRecord

namespace Memory

theorem foldl_noteProperty_eq (entity : String) (m : Memory) (ps : List Property) :
    ps.foldl (noteProperty entity) m =
      { m with
        enums := EnumRecord.mergeAll m.enums (ps.filterMap (Property.enumDeclaration? entity)) } := by
  induction ps generalizing m with
  | nil => rfl
  | cons p ps ih =>
    rw [List.foldl_cons, ih]
    by_cases h : isEnumType p.type <;>
      simp [noteProperty, Property.enumDeclaration?, h, EnumRecord.mergeAll]

theorem noteEntity_eq (m : Memory) (e : Entity) :
    m.noteEntity e =
      { m with
        entities := m.entities ++ [e.name]
        references := m.references ++ [(e.name, e.dataRef)]
        enums := EnumRecord.mergeAll m.enums e.enumDeclarations } :=
  foldl_noteProperty_eq e.name _ e.properties

end Memory
end ProcessLint
