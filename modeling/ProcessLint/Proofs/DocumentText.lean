import ProcessLint.Proofs.Records
import ProcessLint.Proofs.Rounding

/-! The JSON text of a definition reads back as the definition, but for its numbers. These come
back as the reader of numbers reads what is written for them. -/
namespace ProcessLint

open Json (Every Slots)

variable {number : Numeral → Option Binary64} {g : Binary64 → Binary64}

theorem map_eq_self_iff {α : Type} {f : α → α} {xs : List α} :
    xs.map f = xs ↔ ∀ x ∈ xs, f x = x := by
  rw [← List.map_inj_left, List.map_id']

/-! ### Schemas -/

theorem Json.readOr_map_number (h : ∀ x, number (.ofBinary64 x) = some (g x))
    (o : Option Binary64) :
    readOr (toOption? (toBinary64? number)) none (o.map fun x => .number (.ofBinary64 x)) =
      some (o.map g) :=
  readOr_map_map h (by simp) o

namespace Field

/-- The field with each bound changed. -/
def mapBounds (g : Binary64 → Binary64) (f : Field) : Field :=
  { f with min := f.min.map g, max := f.max.map g }

def bounds (f : Field) : List Binary64 := f.min.toList ++ f.max.toList

theorem mapBounds_eq_self {f : Field} : f.mapBounds g = f ↔ ∀ x ∈ f.bounds, g x = x := by
  obtain ⟨name, type, min, max, values, attrs⟩ := f
  cases min <;> cases max <;> simp [mapBounds, bounds]

def slots (f : Field) : Slots where
  fields :=
    [("name", some (.text f.name)), ("type", some (.text f.type)),
     ("min", f.min.map fun x => .number (.ofBinary64 x)),
     ("max", f.max.map fun x => .number (.ofBinary64 x)),
     ("values", f.values.map .texts), ("attrs", Json.unlessEmpty .text f.attrs)]
  distinct := by simp

theorem toJson_eq (f : Field) : f.toJson = .record f.slots.members := by
  simp only [toJson, members, Json.textsUnlessEmpty, Json.texts, Json.memberOf?_eq,
    Json.memberIf_eq, List.append_assoc, ← Json.written_append]
  rfl

theorem ofJson?_toJson (h : ∀ x, number (.ofBinary64 x) = some (g x)) (f : Field) :
    ofJson? number f.toJson = some (f.mapBounds g) := by
  rw [toJson_eq, ofJson?,
    f.slots.fields?_record ["name", "type", "min", "max", "values", "attrs"] rfl]
  simp [slots, List.lookup_cons, Json.readOr_map_number h, mapBounds]

theorem every_toJson {p : Numeral → Prop} (hp : ∀ x, p (.ofBinary64 x)) (f : Field) :
    f.toJson.Every p := by
  rw [toJson_eq]
  refine Slots.Every.record ?_
  have hnumber (x : Binary64) : (Json.number (.ofBinary64 x)).Every p := .number (hp x)
  have hattrs := Json.every_unlessEmpty fun a (_ : a ∈ f.attrs) => Every.text (p := p) a
  simpa [Slots.Every, slots, hnumber] using hattrs

end Field

namespace DataObject

def mapBounds (g : Binary64 → Binary64) (d : DataObject) : DataObject :=
  { d with fields := d.fields.map (Field.mapBounds g) }

def bounds (d : DataObject) : List Binary64 := d.fields.flatMap Field.bounds

theorem mapBounds_eq_self {d : DataObject} : d.mapBounds g = d ↔ ∀ x ∈ d.bounds, g x = x := by
  obtain ⟨name, fields⟩ := d
  rw [bounds, List.forall_mem_flatMap]
  simp [mapBounds, map_eq_self_iff, Field.mapBounds_eq_self]

def slots (d : DataObject) : Slots where
  fields := [("name", some (.text d.name)), ("fields", some (.array (d.fields.map Field.toJson)))]
  distinct := by simp

theorem ofJson?_slots (h : ∀ x, number (.ofBinary64 x) = some (g x)) (d : DataObject) :
    ofJson? number (.record d.slots.members) = some (d.mapBounds g) := by
  have hfields := Json.toList?_map_map fun f (_ : f ∈ d.fields) => Field.ofJson?_toJson h f
  rw [ofJson?, d.slots.fields?_record ["name", "fields"] rfl]
  simp [slots, List.lookup_cons, hfields, mapBounds]

theorem every_slots {p : Numeral → Prop} (hp : ∀ x, p (.ofBinary64 x)) (d : DataObject) :
    d.slots.Every p := by
  simp [Slots.Every, slots, Json.every_array_map, Field.every_toJson hp]

end DataObject

namespace Property

def slots (p : Property) : Slots where
  fields :=
    [("name", some (.text p.name)), ("type", some (.text p.type)),
     ("values", p.values.map .texts), ("default", p.default.map .text)]
  distinct := by simp

theorem toJson_eq (p : Property) : p.toJson = .record p.slots.members := by
  simp only [toJson, members, Json.memberOf?_eq, List.append_assoc, ← Json.written_append]
  rfl

@[simp] theorem ofJson?_toJson (p : Property) : ofJson? p.toJson = some p := by
  rw [toJson_eq, ofJson?, p.slots.fields?_record ["name", "type", "values", "default"] rfl]
  simp [slots, List.lookup_cons]

theorem every_toJson (q : Numeral → Prop) (p : Property) : p.toJson.Every q := by
  rw [toJson_eq]
  refine Slots.Every.record ?_
  simp [Slots.Every, slots]

end Property

namespace Entity

def slots (e : Entity) : Slots where
  fields :=
    [("name", some (.text e.name)), ("dataRef", some (.text e.dataRef)),
     ("properties", some (.array (e.properties.map Property.toJson)))]
  distinct := by simp

theorem ofJson?_slots (e : Entity) : ofJson? (.record e.slots.members) = some e := by
  rw [ofJson?, e.slots.fields?_record ["name", "dataRef", "properties"] rfl]
  simp [slots, List.lookup_cons, Json.toList?_map]

theorem every_slots (p : Numeral → Prop) (e : Entity) : e.slots.Every p := by
  simp [Slots.Every, slots, Json.every_array_map, Property.every_toJson]

end Entity

namespace Asset

def slots (a : Asset) : Slots where
  fields := [("name", some (.text a.name))]
  distinct := by simp

theorem ofJson?_slots (a : Asset) : ofJson? (.record a.slots.members) = some a := by
  rw [ofJson?, a.slots.fields?_record ["name"] rfl]
  simp [slots]

theorem every_slots (p : Numeral → Prop) (a : Asset) : a.slots.Every p := by
  simp [Slots.Every, slots]

end Asset

namespace Relationship

def slots (r : Relationship) : Slots where
  fields :=
    [("name", some (.text r.name)), ("from", some (.text r.source)), ("to", some (.text r.target)),
     ("type", some (.text r.type))]
  distinct := by simp

theorem ofJson?_slots (r : Relationship) : ofJson? (.record r.slots.members) = some r := by
  rw [ofJson?, r.slots.fields?_record ["name", "from", "to", "type"] rfl]
  simp [slots, List.lookup_cons]

theorem every_slots (p : Numeral → Prop) (r : Relationship) : r.slots.Every p := by
  simp [Slots.Every, slots]

end Relationship

/-! ### Processes -/

namespace Step

def slots (s : Step) : Slots where
  fields :=
    [("name", some (.text s.name)), ("inputs", Json.unlessEmpty .text s.inputs),
     ("validations", Json.unlessEmpty .text s.validations),
     ("actions", Json.unlessEmpty .text s.actions), ("onError", Json.unlessEmpty .text s.onError),
     ("outputs", Json.unlessEmpty .text s.outputs)]
  distinct := by simp

theorem toJson_eq (s : Step) : s.toJson = .record s.slots.members := by
  simp only [toJson, members, Json.textsUnlessEmpty, Json.texts, Json.memberIf_eq,
    List.append_assoc, ← Json.written_append]
  rfl

@[simp] theorem ofJson?_toJson (s : Step) : ofJson? s.toJson = some s := by
  rw [toJson_eq, ofJson?, s.slots.fields?_record
    ["name", "inputs", "validations", "actions", "onError", "outputs"] rfl]
  simp [slots, List.lookup_cons]

theorem every_toJson (p : Numeral → Prop) (s : Step) : s.toJson.Every p := by
  rw [toJson_eq]
  refine Slots.Every.record ?_
  have htexts (ts : List String) := Json.every_unlessEmpty fun t (_ : t ∈ ts) =>
    Every.text (p := p) t
  simpa [Slots.Every, slots] using ⟨htexts s.inputs, htexts s.validations, htexts s.actions,
    htexts s.onError, htexts s.outputs⟩

end Step

namespace Process

def toJson (p : Process) : Json := .record p.members

def slots (p : Process) : Slots where
  fields :=
    [("name", some (.text p.name)), ("actors", some (.texts p.actors)),
     ("steps", some (.array (p.steps.map Step.toJson))),
     ("actions", Json.unlessEmpty .text p.actions),
     ("processes", Json.unlessEmpty toJson p.processes)]
  distinct := by simp

theorem allToJson_eq (ps : List Process) : allToJson ps = ps.map toJson := by
  induction ps with
  | nil => rfl
  | cons p ps ih => rw [allToJson, ih, List.map_cons, toJson]

theorem members_eq (p : Process) : p.members = p.slots.members := by
  obtain ⟨name, actors, steps, actions, processes⟩ := p
  simp only [members, allToJson_eq, Json.textsUnlessEmpty, Json.texts, Json.memberIf_eq,
    List.append_assoc, ← Json.written_append]
  rfl

theorem toJson_eq (p : Process) : p.toJson = .record p.slots.members := by
  rw [toJson, members_eq]

theorem depth_add_two_le_of_mem {p q : Process} (h : q ∈ p.processes) :
    q.toJson.depth + 2 ≤ p.toJson.depth := by
  have hwritten : Json.unlessEmpty toJson p.processes =
      some (.array (p.processes.map toJson)) := by
    simp [Json.unlessEmpty, List.ne_nil_of_mem h]
  have hfield : ("processes", some (.array (p.processes.map toJson))) ∈ p.slots.fields := by
    simp [slots, hwritten]
  have hinner : q.toJson.depth < (Json.array (p.processes.map toJson)).depth :=
    Json.depth_lt_array (List.mem_map_of_mem h)
  have houter := Slots.depth_lt_record hfield
  rw [toJson_eq p]
  omega

/-- A process is read back when the limit allows for its nesting. -/
theorem ofJson?_toJson {n : Nat} {p : Process} (h : p.toJson.depth ≤ n) :
    ofJson? n p.toJson = some p := by
  induction n generalizing p with
  | zero =>
    rw [toJson, Json.record, Json.depth] at h
    omega
  | succ n ih =>
    have hinner : ∀ q ∈ p.processes, ofJson? n q.toJson = some q := fun q hq => by
      have := depth_add_two_le_of_mem hq
      exact ih (by omega)
    rw [toJson_eq, ofJson?,
      p.slots.fields?_record ["name", "actors", "steps", "actions", "processes"] rfl]
    have heta : (⟨p.name, p.actors, p.steps, p.actions, p.processes⟩ : Process) = p := by
      cases p
      rfl
    simpa [slots, List.lookup_cons, Json.toList?_map, Json.readOr_unlessEmpty hinner] using heta

mutual

theorem every_slots (p : Numeral → Prop) : (q : Process) → q.slots.Every p
  | ⟨name, actors, steps, actions, processes⟩ => by
    have hactions := Json.every_unlessEmpty fun a (_ : a ∈ actions) => Every.text (p := p) a
    have hprocesses := Json.every_unlessEmpty (every_toJson p processes)
    simpa [Slots.Every, slots, Json.every_array_map, Step.every_toJson] using
      ⟨hactions, hprocesses⟩

theorem every_toJson (p : Numeral → Prop) : (qs : List Process) → ∀ q ∈ qs, q.toJson.Every p
  | [] => nofun
  | q :: qs =>
    List.forall_mem_cons.mpr ⟨q.toJson_eq ▸ (every_slots p q).record, every_toJson p qs⟩

end

end Process

/-! ### Rules and reports -/

namespace BusinessRule

def slots (r : BusinessRule) : Slots where
  fields :=
    [("name", some (.text r.name)), ("description", some (.text r.description)),
     ("trigger", some (.text r.trigger))]
  distinct := by simp

theorem ofJson?_slots (r : BusinessRule) : ofJson? (.record r.slots.members) = some r := by
  rw [ofJson?, r.slots.fields?_record ["name", "description", "trigger"] rfl]
  simp [slots, List.lookup_cons]

theorem every_slots (p : Numeral → Prop) (r : BusinessRule) : r.slots.Every p := by
  simp [Slots.Every, slots]

end BusinessRule

namespace ReportQuery

def slots (r : ReportQuery) : Slots where
  fields := [("name", some (.text r.name)), ("query", some (.text r.query))]
  distinct := by simp

theorem ofJson?_slots (r : ReportQuery) : ofJson? (.record r.slots.members) = some r := by
  rw [ofJson?, r.slots.fields?_record ["name", "query"] rfl]
  simp [slots, List.lookup_cons]

theorem every_slots (p : Numeral → Prop) (r : ReportQuery) : r.slots.Every p := by
  simp [Slots.Every, slots]

end ReportQuery

/-! ### Declarations -/

namespace Item

def mapBounds (g : Binary64 → Binary64) : Item → Item
  | .dataObject d => .dataObject (d.mapBounds g)
  | i => i

def bounds : Item → List Binary64
  | .dataObject d => d.bounds
  | _ => []

theorem mapBounds_eq_self {i : Item} : i.mapBounds g = i ↔ ∀ x ∈ i.bounds, g x = x := by
  cases i with
  | dataObject d => simp [mapBounds, bounds, DataObject.mapBounds_eq_self]
  | _ => simp [mapBounds, bounds]

def slots : Item → Slots
  | .dataObject d => d.slots
  | .entity e => e.slots
  | .asset a => a.slots
  | .relationship r => r.slots
  | .process p => p.slots
  | .rule r => r.slots
  | .report r => r.slots

theorem members_eq (i : Item) : i.members = i.slots.members := by
  cases i with
  | process p => exact p.members_eq
  | _ => rfl

theorem kind_not_mem (i : Item) : "kind" ∉ i.slots.fields.map Prod.fst := by
  cases i <;> simp [slots, DataObject.slots, Entity.slots, Asset.slots, Relationship.slots,
    Process.slots, BusinessRule.slots, ReportQuery.slots]

theorem every_slots {p : Numeral → Prop} (hp : ∀ x, p (.ofBinary64 x)) (i : Item) :
    i.slots.Every p := by
  cases i with
  | dataObject d => exact d.every_slots hp
  | entity e => exact e.every_slots p
  | asset a => exact a.every_slots p
  | relationship r => exact r.every_slots p
  | process q => exact q.every_slots p
  | rule r => exact r.every_slots p
  | report r => exact r.every_slots p

def kindedSlots (i : Item) : Slots where
  fields := ("kind", some (.text i.kind)) :: i.slots.fields
  distinct := List.nodup_cons.mpr ⟨i.kind_not_mem, i.slots.distinct⟩

theorem toJson_eq (i : Item) : i.toJson = .record i.kindedSlots.members := by
  rw [toJson, members_eq]
  rfl

theorem every_toJson {p : Numeral → Prop} (hp : ∀ x, p (.ofBinary64 x)) (i : Item) :
    i.toJson.Every p := by
  have hkinded : i.kindedSlots.Every p := by
    refine List.forall_mem_cons.mpr ⟨?_, i.every_slots hp⟩
    rintro v ⟨⟩
    exact .text i.kind
  exact i.toJson_eq ▸ hkinded.record

/-- The kind is told from the other fields. -/
theorem splitKind?_toJson (i : Item) :
    splitKind? i.toJson = some (i.kind, .record i.slots.members) := by
  have hother : ∀ m ∈ i.slots.members.map (fun m => (some m.1, m.2)), m.1 ≠ some "kind" := by
    refine List.forall_mem_map.mpr fun m hm h => i.kind_not_mem ?_
    rw [← Option.some.inj h]
    exact (Json.names_written_sublist i.slots.fields).subset (List.mem_map_of_mem hm)
  have hkind : (i.slots.members.map fun m => (some m.1, m.2)).filter
      (fun m => m.1 = some "kind") = [] :=
    List.filter_eq_nil_iff.mpr fun m hm => by simpa using hother m hm
  have hrest : (i.slots.members.map fun m => (some m.1, m.2)).filter
      (fun m => m.1 ≠ some "kind") = i.slots.members.map fun m => (some m.1, m.2) :=
    List.filter_eq_self.mpr fun m hm => by simpa using hother m hm
  rw [toJson, members_eq, Json.record, List.map_cons, splitKind?,
    List.filter_cons_of_pos (by simp), List.filter_cons_of_neg (by simp), hkind, hrest]
  rfl

theorem ofKind?_slots (h : ∀ x, number (.ofBinary64 x) = some (g x)) (i : Item) :
    ofKind? number i.kind (.record i.slots.members) = some (i.mapBounds g) := by
  cases i with
  | dataObject d => simp [ofKind?, kind, slots, DataObject.ofJson?_slots h, mapBounds]
  | entity e => simp [ofKind?, kind, slots, Entity.ofJson?_slots, mapBounds]
  | asset a => simp [ofKind?, kind, slots, Asset.ofJson?_slots, mapBounds]
  | relationship r => simp [ofKind?, kind, slots, Relationship.ofJson?_slots, mapBounds]
  | process p =>
    have hprocess : processOfJson? (.record p.slots.members) = some p := by
      rw [processOfJson?, ← p.toJson_eq]
      exact Process.ofJson?_toJson le_rfl
    simp [ofKind?, kind, slots, hprocess, mapBounds]
  | rule r => simp [ofKind?, kind, slots, BusinessRule.ofJson?_slots, mapBounds]
  | report r => simp [ofKind?, kind, slots, ReportQuery.ofJson?_slots, mapBounds]

theorem ofJson?_toJson (h : ∀ x, number (.ofBinary64 x) = some (g x)) (i : Item) :
    ofJson? number i.toJson = some (i.mapBounds g) := by
  rw [ofJson?, splitKind?_toJson]
  exact ofKind?_slots h i

/-- A declaration that is not nested too deep is read back. -/
theorem ofDocumentJson?_toJson (h : ∀ x, number (.ofBinary64 x) = some (g x)) {i : Item}
    (hdepth : i.toJson.depth ≤ depthLimit) :
    ofDocumentJson? number i.toJson = some (i.mapBounds g) := by
  have hsound : i.toJson.isSound number = true := (i.every_toJson fun x => by simp [h]).isSound
  rw [ofDocumentJson?, if_pos (by simp [hdepth, hsound])]
  exact ofJson?_toJson h i

end Item

/-! ### Definitions -/

namespace Document

def mapBounds (g : Binary64 → Binary64) (d : Document) : Document :=
  { d with items := d.items.map (Item.mapBounds g) }

/-- The least and greatest values that a definition sets for fields. -/
def bounds (d : Document) : List Binary64 := d.items.flatMap Item.bounds

theorem mapBounds_eq_self {d : Document} : d.mapBounds g = d ↔ ∀ x ∈ d.bounds, g x = x := by
  obtain ⟨source, items⟩ := d
  rw [bounds, List.forall_mem_flatMap]
  simp [mapBounds, map_eq_self_iff, Item.mapBounds_eq_self]

def slots (d : Document) : Slots where
  fields :=
    [("source", d.source.map .text), ("items", some (.array (d.items.map Item.toJson)))]
  distinct := by simp

theorem toJson_eq (d : Document) : d.toJson = .record d.slots.members := by
  obtain ⟨source, items⟩ := d
  cases source <;> rfl

theorem depth_lt_of_mem {d : Document} {i : Item} (h : i ∈ d.items) :
    i.toJson.depth + 2 ≤ d.toJson.depth := by
  have hfield : ("items", some (.array (d.items.map Item.toJson))) ∈ d.slots.fields := by
    simp [slots]
  have hitem : i.toJson.depth < (Json.array (d.items.map Item.toJson)).depth :=
    Json.depth_lt_array (List.mem_map_of_mem h)
  have hitems := Slots.depth_lt_record hfield
  rw [toJson_eq]
  omega

theorem ofJson?_toJson_of_items {d : Document}
    (h : ∀ i ∈ d.items, Item.ofDocumentJson? number i.toJson = some (i.mapBounds g)) :
    ofJson? number d.toJson = some (d.mapBounds g) := by
  rw [toJson_eq, ofJson?, d.slots.fields?_record ["source", "items"] rfl]
  simp [slots, List.lookup_cons, Json.toList?_map_map h, mapBounds]

theorem ofJson?_toJson (h : ∀ x, number (.ofBinary64 x) = some (g x)) {d : Document}
    (hdepth : d.toJson.depth ≤ 127) : ofJson? number d.toJson = some (d.mapBounds g) :=
  ofJson?_toJson_of_items fun i hi => by
    have := depth_lt_of_mem hi
    exact Item.ofDocumentJson?_toJson h (by unfold Item.depthLimit; omega)

theorem every_toJson {p : Numeral → Prop} (hp : ∀ x, p (.ofBinary64 x)) (d : Document) :
    d.toJson.Every p := by
  rw [toJson_eq]
  refine Slots.Every.record ?_
  simp [Slots.Every, slots, Json.every_array_map, Item.every_toJson hp]

theorem readBy?_compact {v : Json} (h : v.Every Numeral.IsPlain) :
    readBy? number (v.write .compact) = ofJson? number v := by
  have hvalue := h.ofText?_write Json.Layout.isBlank_compact
    (by simp : ∀ c ∈ [], Json.Token.isBlank c)
  have htext : v.write .compact = v.write .compact ++ .ofList [] := by simp
  rw [readBy?, htext, hvalue]
  rfl

theorem readBy?_write_eq (d : Document) : readBy? number d.write = ofJson? number d.toJson :=
  readBy?_compact (d.every_toJson Numeral.isPlain_ofBinary64)

/-- A definition whose text nests arrays and objects no deeper than the reader allows is read
back from the text, if each number is read as the nearest one. -/
theorem readBy?_write {d : Document} (h : d.toJson.depth ≤ 127) :
    readBy? Numeral.nearest? d.write = some d := by
  have hsame : d.mapBounds id = d := mapBounds_eq_self.mpr fun _ _ => rfl
  rw [readBy?_write_eq, ofJson?_toJson Numeral.nearest?_ofBinary64 h]
  exact congrArg some hsame

/-- A declaration of each kind, processes inside one another, bounds that are no short decimals,
and an empty list of values beside none. -/
def mixed : Document where
  source := some "# \"Kredit\"\r\n\x00€"
  items :=
    [.dataObject
      { name := "Loan"
        fields :=
          [{ name := "rate", type := "decimal",
             min := some ⟨false, 7205759403792794, -56, by decide⟩,
             max := some ⟨true, 1, -1074, by decide⟩, attrs := ["unique"] },
           { name := "state", type := "enum", values := some [] }] },
     .entity
      { name := "Borrower", dataRef := "Loan"
        properties := [{ name := "kind", type := "enum", values := some ["", "\\"] }] },
     .asset { name := "Ledger" },
     .relationship { name := "kept", source := "Borrower", target := "Ledger", type := "kind" },
     .process
      { name := "Approve", actors := ["Clerk"]
        steps := [{ name := "Check", actions := ["Clerk reads Loan"], onError := ["stop"] }]
        processes :=
          [{ name := "Score", actions := ["Clerk scores"], processes := [⟨"", [], [], [], []⟩] }] },
     .rule { name := "R", description := "\t" },
     .report { name := "Open loans" }]

theorem readBy?_write_mixed :
    mixed.toJson.depth ≤ 127 ∧ readBy? Numeral.nearest? mixed.write = some mixed :=
  ⟨by decide, readBy?_write (by decide)⟩

end Document
end ProcessLint
