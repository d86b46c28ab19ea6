import ProcessLint.Document.Event
import ProcessLint.Validation.Action
import ProcessLint.Identifier

/-! What the validator remembers while it reads a definition. -/
namespace ProcessLint

open Identifier (canonical)

/-- An open process: the actors it declares and those that have acted. -/
structure Scope where
  declared : List String := []
  used : List String := []
  deriving DecidableEq

/-- What is known of an enum property: the values and the default that were given last. -/
structure EnumRecord where
  key : String
  values : List String := []
  default : Option String := none
  deriving DecidableEq

structure Memory where
  dataObjects : List String := []
  entities : List String := []
  assets : List String := []
  /-- Entities and the data objects they refer to. -/
  references : List (String × String) := []
  /-- Relationships and their types. -/
  relationships : List (String × String) := []
  /-- Enum properties in the order in which they were first seen. -/
  enums : List EnumRecord := []
  /-- The open processes, the innermost first. -/
  scopes : List Scope := []
  /-- The end of a definition has been seen. -/
  settled : Bool := false
  deriving DecidableEq

def isEnumType (type : String) : Bool := canonical type == "enum"

def without (dropped : List Char) (s : String) : String :=
  .ofList (s.toList.filter fun c => !Text.isBlank c && !dropped.contains c)

namespace Property

/-- The values as they are compared: blanks, brackets and quotes do not count. -/
def cleanValues (p : Property) : List String :=
  ((p.values.getD []).map (without ['[', ']', '"', '\''])).filter fun v => !v.isEmpty

/-- The default as it is compared: blanks, colons and quotes do not count. -/
def cleanDefault (p : Property) : Option String := p.default.map (without [':', '"', '\''])

end Property

namespace EnumRecord

/-- Values that are given replace the known ones, and so does a default. -/
def update (r : EnumRecord) (values : List String) (default : Option String) : EnumRecord :=
  { r with
    values := if values.isEmpty then r.values else values
    default := default.or r.default }

def merge (key : String) (values : List String) (default : Option String) :
    List EnumRecord → List EnumRecord
  | [] => [update { key } values default]
  | r :: rs =>
    if r.key = key then r.update values default :: rs else r :: merge key values default rs

def strays? (r : EnumRecord) : Option String :=
  r.default.filter fun d => !r.values.isEmpty && !r.values.contains d

end EnumRecord

/-- Elements in the order in which they first occur, each once. -/
def distinct [BEq α] : List α → List α
  | [] => []
  | a :: as => a :: (distinct as).filter fun b => !(b == a)

section

variable {α : Type} [BEq α] [LawfulBEq α]

theorem nodup_distinct (as : List α) : (distinct as).Nodup := by
  induction as with
  | nil => simp [distinct]
  | cons a as ih =>
    refine List.nodup_cons.mpr ⟨?_, List.Pairwise.filter _ ih⟩
    simp [List.mem_filter]

theorem distinct_filter (p : α → Bool) (as : List α) :
    distinct (as.filter p) = (distinct as).filter p := by
  induction as with
  | nil => rfl
  | cons a as ih =>
    by_cases ha : p a
    · simp only [List.filter_cons, ha, if_true, distinct, ih, List.filter_filter, Bool.and_comm]
    · have hne (b : α) : (p b && !(b == a)) = p b := by
        by_cases hb : b = a
        · simp [hb, ha]
        · simp [hb]
      simp [ha, distinct, ih, List.filter_filter, hne]

theorem distinct_eq_eraseDups (as : List α) : distinct as = as.eraseDups := by
  induction hn : as.length using Nat.strongRecOn generalizing as with
  | ind n ih =>
    cases as with
    | nil => simp [distinct]
    | cons a as =>
      have hle := List.length_filter_le (fun b => !(b == a)) as
      rw [distinct, List.eraseDups_cons, ← distinct_filter]
      rw [ih _ (by simp only [List.length_cons] at hn; omega) _ rfl]

@[simp] theorem mem_distinct {a : α} {as : List α} : a ∈ distinct as ↔ a ∈ as := by
  rw [distinct_eq_eraseDups, List.mem_eraseDups]

theorem distinct_of_nodup {as : List α} (h : as.Nodup) : distinct as = as := by
  induction as with
  | nil => rfl
  | cons a as ih =>
    obtain ⟨ha, has⟩ := List.nodup_cons.mp h
    have hself : as.filter (fun b => !(b == a)) = as :=
      List.filter_eq_self.mpr fun b hb => by simpa using ne_of_mem_of_not_mem hb ha
    rw [distinct, ih has, hself]

theorem distinct_concat (as : List α) (a : α) :
    distinct (as ++ [a]) = if a ∈ as then distinct as else distinct as ++ [a] := by
  rw [distinct_eq_eraseDups, distinct_eq_eraseDups, List.eraseDups_append]
  by_cases h : a ∈ as <;> simp [List.removeAll, h, List.eraseDups_cons]

end

/-- The actors in the header of a process: of each only the name characters count. -/
def Process.declaredActors (p : Process) : List String :=
  distinct <| (p.actors.map fun a => .ofList (a.toList.filter Text.isNameChar)).filter
    fun a => !a.isEmpty

namespace Memory

def use (m : Memory) (actor : String) : Memory :=
  match m.scopes with
  | s :: ss => { m with scopes := { s with used := actor :: s.used } :: ss }
  | [] => m

def noteProperty (entity : String) (m : Memory) (p : Property) : Memory :=
  if isEnumType p.type then
    { m with
      enums := EnumRecord.merge (entity ++ "." ++ p.name) p.cleanValues p.cleanDefault m.enums }
  else m

def noteEntity (m : Memory) (e : Entity) : Memory :=
  e.properties.foldl (noteProperty e.name)
    { m with
      entities := m.entities ++ [e.name], references := m.references ++ [(e.name, e.dataRef)] }

def note (m : Memory) : Event → Memory
  | .dataObject d => { m with dataObjects := m.dataObjects ++ [d.name] }
  | .entity e => m.noteEntity e
  | .asset a => { m with assets := m.assets ++ [a.name] }
  | .relationship r => { m with relationships := m.relationships ++ [(r.name, r.type)] }
  | .enter p => { m with scopes := ⟨p.declaredActors, []⟩ :: m.scopes }
  | .leave _ => { m with scopes := m.scopes.tail }
  | .action line =>
    match Action.ofLine? line with
    | some a => m.use a.actor
    | none => m
  | .close => { m with settled := true }
  | .validation _ | .rule _ | .report _ => m

end Memory
end ProcessLint
