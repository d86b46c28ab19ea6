import ProcessLint.Proofs.Settling

/-! Enum defaults at the end of a definition: of each key the default that was given last is held
against the values that were given last, however often and in whatever order it was declared. -/
namespace ProcessLint

open EnumDeclaration (lastValues? lastDefault? ofKey)

/-- The enum properties that an event declares, each under its key: the entity, a dot and its own
name. -/
def Event.enumProperties : Event → List (String × Property)
  | .entity e =>
    (e.properties.filter fun p => Identifier.canonical p.type = "enum").map fun p =>
      (e.name ++ "." ++ p.name, p)
  | _ => []

def Event.enumDeclarations : Event → List EnumDeclaration
  | .entity e => e.enumDeclarations
  | _ => []

def EnumDeclaration.ofProperty (d : String × Property) : EnumDeclaration :=
  ⟨d.1, d.2.cleanValues, d.2.cleanDefault⟩

theorem Event.enumDeclarations_eq (e : Event) :
    e.enumDeclarations = e.enumProperties.map EnumDeclaration.ofProperty := by
  cases e with
  | entity e =>
    simp only [enumDeclarations, enumProperties, Entity.enumDeclarations, List.map_map]
    rw [← List.filterMap_eq_map, List.filterMap_filter]
    refine List.filterMap_congr fun p _ => ?_
    simp [Property.enumDeclaration?, isEnumType, EnumDeclaration.ofProperty]
  | _ => rfl

theorem without_eq (dropped : List Char) (s : String) :
    without dropped s =
      .ofList (s.toList.filter fun c => decide (Text.isBlank c = false ∧ c ∉ dropped)) := by
  simp [without]

theorem Property.cleanValues_eq (p : Property) :
    p.cleanValues = ((p.values.getD []).map (without ['[', ']', '"', '\''])).filter (· ≠ "") := by
  refine List.filter_congr fun s _ => ?_
  rw [Bool.eq_iff_iff]
  simp

namespace EnumDeclaration

theorem lastValues?_ofProperty (ps : List (String × Property)) (key : String) :
    lastValues? (ofKey (ps.map ofProperty) key) =
      (((ps.filter (·.1 = key)).map Prod.snd).filterMap fun p =>
        if p.cleanValues = [] then none else some p.cleanValues).getLast? := by
  simp only [lastValues?, ofKey, List.filter_map, List.filterMap_map]
  refine congrArg List.getLast? (List.filterMap_congr fun d _ => ?_)
  simp [values?, ofProperty]

theorem lastDefault?_ofProperty (ps : List (String × Property)) (key : String) :
    lastDefault? (ofKey (ps.map ofProperty) key) =
      (((ps.filter (·.1 = key)).map Prod.snd).filterMap Property.cleanDefault).getLast? := by
  simp only [lastDefault?, ofKey, List.filter_map, List.filterMap_map]
  rfl

/-- What is to be told of a key among declarations: its last default, when that is not one of its
last values. -/
def strayFlag? (ds : List EnumDeclaration) (key : String) : Option Flag := do
  let values ← lastValues? (ofKey ds key)
  let default ← lastDefault? (ofKey ds key)
  if default ∈ values then none else some (.enumDefaultOutsideValues default key)

theorem map_finding_strayFlag? (ds : List EnumDeclaration) (key : String) :
    (strayFlag? ds key).map Flag.finding =
      (lastValues? (ofKey ds key)).bind fun values =>
        (lastDefault? (ofKey ds key)).bind fun default =>
          if default ∈ values then none
          else some ⟨"EBL004", "enum-default-outside-values", .error,
            "Enum default '" ++ default ++ "' not in values for " ++ key, none⟩ := by
  simp only [strayFlag?]
  cases lastValues? (ofKey ds key) with
  | none => rfl
  | some values =>
    cases lastDefault? (ofKey ds key) with
    | none => rfl
    | some default =>
      by_cases hmem : default ∈ values
      · simp [hmem]
      · simp [hmem]
        rfl

end EnumDeclaration

theorem EnumRecord.strays?_latest_map (ds : List EnumDeclaration) (key : String) :
    ((latest ds key).strays?.map fun default => .enumDefaultOutsideValues default key) =
      EnumDeclaration.strayFlag? ds key := by
  simp only [strays?, latest, EnumDeclaration.strayFlag?]
  cases hvalues : lastValues? (ofKey ds key) with
  | none => simp
  | some values =>
    have hne := EnumDeclaration.ne_nil_of_lastValues? hvalues
    cases lastDefault? (ofKey ds key) with
    | none => rfl
    | some default => by_cases hmem : default ∈ values <;> simp [Option.filter, hne, hmem]

namespace Memory

theorem enums_note (m : Memory) (e : Event) :
    (m.note e).enums = EnumRecord.mergeAll m.enums e.enumDeclarations := by
  cases e with
  | entity e => simp [note, noteEntity_eq, Event.enumDeclarations]
  | action line =>
    simp only [note, use]
    split
    · split <;> rfl
    · rfl
  | _ => rfl

theorem enums_foldl_note (m : Memory) (es : List Event) :
    (es.foldl note m).enums =
      EnumRecord.mergeAll m.enums (es.flatMap Event.enumDeclarations) := by
  induction es generalizing m with
  | nil => rfl
  | cons e es ih =>
    rw [List.foldl_cons, ih, enums_note, List.flatMap_cons]
    simp only [EnumRecord.mergeAll, List.foldl_append]

end Memory

namespace Validator

/-- The flags of all keys, in the order in which the keys first occur. -/
theorem enumFlags_eq {m : Memory} {ds : List EnumDeclaration}
    (h : m.enums = EnumRecord.mergeAll [] ds) :
    enumFlags m =
      (ds.map EnumDeclaration.key).eraseDups.filterMap (EnumDeclaration.strayFlag? ds) := by
  rw [enumFlags, h, EnumRecord.mergeAll_nil, distinct_eq_eraseDups, List.filterMap_map]
  exact List.filterMap_congr fun key _ => EnumRecord.strays?_latest_map ds key

/-- Of the enum defaults nothing is told up to the first end, and from then on what the records
say. -/
theorem filter_enumDefaults (v : Validator) (es : List Event) (n : Nat) :
    (v.reportAfter es n).filter (·.isOf .enumDefaultOutsideValues) =
      if n ≤ es.idxOf .close ∨ v.disabled.contains .enumDefaultOutsideValues then {}
      else { errors := (enumFlags (.beforeClose es)).map Flag.finding } := by
  rw [v.filter_reportAfter_unless_disabled (by decide), List.filter_append,
    filter_rule_eq_ite (fun _ => rule_of_mem_referenceFlags),
    filter_rule_eq_ite (fun _ => rule_of_mem_enumFlags),
    filter_rule_eq_ite (fun _ => rule_of_mem_hostingFlags)]
  rfl

/-- Whatever the events and their order, the first end tells of the enum properties that were
declared before it one stray default for each key that has one, in the order in which the keys first
occur. Values are compared without blanks, brackets and quotes, and those of which nothing is left
do not count; a default is compared without blanks, colons and quotes. Nothing is told of enum
defaults earlier, and nothing more later. -/
theorem enumDefaults_of_events (v : Validator) (es : List Event) (n : Nat) :
    let declared := (es.take (es.idxOf .close)).flatMap Event.enumProperties
    let under (key : String) : List Property := (declared.filter (·.1 = key)).map Prod.snd
    let stripped (dropped : List Char) (s : String) : String :=
      .ofList (s.toList.filter fun c => decide (Text.isBlank c = false ∧ c ∉ dropped))
    let values (p : Property) : List String :=
      ((p.values.getD []).map (stripped ['[', ']', '"', '\''])).filter (· ≠ "")
    let lastValues? (key : String) : Option (List String) :=
      ((under key).filterMap fun p => if values p = [] then none else some (values p)).getLast?
    let lastDefault? (key : String) : Option String :=
      ((under key).filterMap fun p => p.default.map (stripped [':', '"', '\''])).getLast?
    (v.reportAfter es n).filter (·.isOf .enumDefaultOutsideValues) =
      if n ≤ es.idxOf .close ∨ v.disabled.contains .enumDefaultOutsideValues then {}
      else
        { errors := (declared.map Prod.fst).eraseDups.filterMap fun key => do
            let values ← lastValues? key
            let default ← lastDefault? key
            if default ∈ values then none
            else some ⟨"EBL004", "enum-default-outside-values", .error,
              "Enum default '" ++ default ++ "' not in values for " ++ key, none⟩ } := by
  intro declared under stripped values lastV lastD
  have hdeclarations : (es.take (es.idxOf .close)).flatMap Event.enumDeclarations =
      declared.map EnumDeclaration.ofProperty := by
    rw [List.flatMap_congr fun e _ => e.enumDeclarations_eq, ← List.map_flatMap]
  have hrecords : (Memory.beforeClose es).enums =
      EnumRecord.mergeAll [] (declared.map EnumDeclaration.ofProperty) :=
    hdeclarations ▸ Memory.enums_foldl_note {} _
  have hkeys : (declared.map EnumDeclaration.ofProperty).map EnumDeclaration.key =
      declared.map Prod.fst := by
    rw [List.map_map]
    rfl
  have hstripped (dropped : List Char) : without dropped = stripped dropped :=
    funext fun s => without_eq dropped s
  have hvalues (p : Property) : p.cleanValues = values p := by
    rw [p.cleanValues_eq, hstripped]
  have hdefault (p : Property) : p.cleanDefault = p.default.map (stripped [':', '"', '\'']) := by
    rw [Property.cleanDefault, hstripped]
  rw [filter_enumDefaults, enumFlags_eq hrecords, hkeys, List.map_filterMap]
  split
  · rfl
  · refine congrArg (fun errors => ({ errors } : Report)) (List.filterMap_congr fun key _ => ?_)
    have hlastValues : lastValues? (ofKey (declared.map .ofProperty) key) = lastV key := by
      rw [EnumDeclaration.lastValues?_ofProperty, funext hvalues]
    have hlastDefault : lastDefault? (ofKey (declared.map .ofProperty) key) = lastD key := by
      rw [EnumDeclaration.lastDefault?_ofProperty, funext hdefault]
    rw [EnumDeclaration.map_finding_strayFlag?, hlastValues, hlastDefault]
    rfl

/-- A loan's state, declared twice in other spellings of the type. The values of the second
declaration are nothing but brackets and blanks, and its default takes the place of the first. -/
def twice : List Event :=
  [.entity
    { name := "Loan", dataRef := "DO_Loan"
      properties :=
        [{ name := "state", type := "Enum", values := some ["[open", "'la te']"]
           default := some "open" },
         { name := "kind", type := "text", values := some ["a"], default := some "b" }] },
   .entity
    { name := "Loan", dataRef := "DO_Loan"
      properties :=
        [{ name := "state", type := "E-num", values := some ["[ ]"]
           default := some "\"clo:sed\"" }] },
   .close]

theorem enumDefaults_of_twice :
    (({} : Validator).reportAfter twice 3).filter (·.isOf .enumDefaultOutsideValues) =
      { errors :=
          [⟨"EBL004", "enum-default-outside-values", .error,
            "Enum default 'closed' not in values for Loan.state", none⟩] } ∧
    (({} : Validator).reportAfter twice 2).filter (·.isOf .enumDefaultOutsideValues) = {} :=
  ⟨(({} : Validator).enumDefaults_of_events twice 3).trans (by decide +kernel),
    (({} : Validator).enumDefaults_of_events twice 2).trans (by decide +kernel)⟩

/-- The default of an earlier declaration may be among the values of a later one. -/
example : EnumDeclaration.strayFlag?
      [⟨"Loan.state", ["open"], some "late"⟩, ⟨"Loan.state", ["late"], none⟩] "Loan.state" =
    none := by
  decide

end Validator
end ProcessLint
