import ProcessLint.Dictionary.Source
import ProcessLint.Identifier
import ProcessLint.Keyword

/-! The dictionary: which names are known, and who may do what. What nobody restricts is
allowed. -/
namespace ProcessLint

open Identifier (Key)

inductive Access
  | read | write
  deriving DecidableEq, Repr

namespace Access

def name : Access → String
  | .read => "read"
  | .write => "write"

def title : Access → String
  | .read => "READ"
  | .write => "WRITE"

/-- Blanks around the word and the case of its letters do not count. -/
def ofName? (s : String) : Option Access :=
  let word := (Text.trim s.toList).map Char.toLower
  if word = "read".toList then some .read
  else if word = "write".toList then some .write
  else none

end Access

/-- The names that actors are restricted to. An actor without names may do anything, and has no
entry. -/
structure Restrictions where
  entries : List (Key × List Key) := []
  nonempty : ∀ e ∈ entries, e.2 ≠ [] := by exact List.forall_mem_nil _

namespace Restrictions

def extend (actor : Key) (names : List Key) : List (Key × List Key) → List (Key × List Key)
  | [] => [(actor, names)]
  | e :: es => if e.1 = actor then (actor, e.2 ++ names) :: es else e :: extend actor names es

theorem nonempty_extend {actor : Key} {names : List Key} {es : List (Key × List Key)}
    (hn : names ≠ []) (h : ∀ e ∈ es, e.2 ≠ []) : ∀ e ∈ extend actor names es, e.2 ≠ [] := by
  induction es with
  | nil => simpa [extend] using hn
  | cons a as ih =>
    simp only [List.forall_mem_cons] at h
    simp only [extend]
    split
    · simpa [h.1] using h.2
    · simpa [h.1] using ih h.2

theorem lookup_cons (b : Key) (a : Key × List Key) (as : List (Key × List Key)) :
    (a :: as).lookup b = if b = a.1 then some a.2 else as.lookup b := by
  rw [List.lookup_cons]
  by_cases h : b = a.1
  · simp [h]
  · simp [h, beq_eq_false_iff_ne.mpr h]

theorem lookup_extend (actor b : Key) (names : List Key) (es : List (Key × List Key)) :
    (extend actor names es).lookup b =
      if b = actor then some ((es.lookup b).getD [] ++ names) else es.lookup b := by
  induction es with
  | nil => simp [extend, lookup_cons]
  | cons a as ih =>
    by_cases ha : a.1 = actor
    · subst ha
      by_cases hb : b = a.1 <;> simp [extend, lookup_cons, hb]
    · by_cases hb : b = actor
      · subst hb
        simp [extend, lookup_cons, ha, Ne.symm ha, ih]
      · simp [extend, lookup_cons, ha, hb, ih]

/-- Merges names into those of an actor; an empty list restricts nobody. -/
def merge (t : Restrictions) (actor : Key) (names : List Key) : Restrictions :=
  if h : names = [] then t else ⟨extend actor names t.entries, nonempty_extend h t.nonempty⟩

def namesOf (t : Restrictions) (actor : Key) : List Key := (t.entries.lookup actor).getD []

@[simp] theorem namesOf_empty (actor : Key) : namesOf {} actor = [] := rfl

@[simp] theorem namesOf_merge (t : Restrictions) (actor b : Key) (names : List Key) :
    (t.merge actor names).namesOf b = t.namesOf b ++ if b = actor then names else [] := by
  by_cases hn : names = []
  · simp [merge, hn]
  · by_cases hb : b = actor <;> simp [merge, namesOf, hn, hb, lookup_extend]

/-- An actor with an entry may do what is listed there, and any other everything. -/
def permits (t : Restrictions) (actor subject : Key) : Bool :=
  match t.entries.lookup actor with
  | some names => names.contains subject
  | none => true

theorem permits_iff {t : Restrictions} {actor subject : Key} :
    t.permits actor subject = true ↔ t.namesOf actor = [] ∨ subject ∈ t.namesOf actor := by
  simp only [permits, namesOf]
  cases h : t.entries.lookup actor with
  | none => simp
  | some names =>
    have hn : names ≠ [] := by
      obtain ⟨l, r, he, -⟩ := List.lookup_eq_some_iff.mp h
      exact t.nonempty (actor, names) (by simp [he])
    simp [hn]

end Restrictions

structure Dictionary where
  /-- The reserved keywords in the order of their keys, each key once. -/
  keywords : List Keyword := []
  /-- The access that verbs imply; the last entry of a verb counts. -/
  verbAccess : List (Key × Access) := []
  relationshipTypes : List Key := []
  actors : List Key := []
  verbs : List Key := []
  entities : List Key := []
  dataObjects : List Key := []
  /-- Verbs that actors may perform. -/
  performs : Restrictions := {}
  /-- Data objects that actors may read. -/
  reads : Restrictions := {}
  /-- Data objects that actors may write. -/
  writes : Restrictions := {}
  /-- The verbs that some actor is restricted to. -/
  permitted : List Key := []

namespace Dictionary

/-- A verb whose access is neither of the two. -/
structure UnknownAccess where
  verb : String
  value : String
  deriving DecidableEq

def UnknownAccess.message (u : UnknownAccess) : String :=
  "verbPermissions." ++ u.verb ++ ": unknown access `" ++ u.value ++ "`, expected: read, write"

def firsts (key : α → String) : List α → List α
  | [] => []
  | a :: as => a :: (firsts key as).filter fun b => key b != key a

/-- The keywords of the configured entries: blank ones are none, and of those with one key the
first is kept. -/
def keywordsOf (entries : List String) : List Keyword :=
  (firsts Keyword.key (entries.filterMap Keyword.ofText?)).mergeSort fun a b => a.key ≤ b.key

/-- The access of every verb, or the first verb whose access is unknown. -/
def accessesOf : List (String × String) → Except UnknownAccess (List (Key × Access))
  | [] => .ok []
  | (verb, value) :: r =>
    match Access.ofName? value with
    | none => .error ⟨verb, value⟩
    | some a => (accessesOf r).map ((.of verb, a) :: ·)

/-! ### Merging -/

/-- Merges the core vocabulary. An unknown access is the only error, as no keyword is too long. -/
def mergeCore (d : Dictionary) (c : Core) : Except UnknownAccess Dictionary := do
  let verbAccess ← accessesOf c.verbPermissions.entries
  return { d with
    keywords := keywordsOf c.reserved
    verbAccess
    relationshipTypes := d.relationshipTypes ++ c.relationshipTypes.map Key.of }

def mergeVerbs (d : Dictionary) (l : String × List String) : Dictionary :=
  let verbs := l.2.map Key.of
  { d with permitted := d.permitted ++ verbs, performs := d.performs.merge (.of l.1) verbs }

def mergeGrants (d : Dictionary) (g : String × DataGrants) : Dictionary :=
  { d with
    reads := d.reads.merge (.of g.1) (g.2.read.map Key.of)
    writes := d.writes.merge (.of g.1) (g.2.write.map Key.of) }

def mergeDomain (d : Dictionary) (x : Domain) : Dictionary :=
  let named := { d with
    actors := d.actors ++ x.actors.map Key.of
    verbs := d.verbs ++ x.verbs.map Key.of
    entities := d.entities ++ x.entities.map Key.of
    dataObjects := d.dataObjects ++ x.dataObjects.map Key.of
    relationshipTypes := d.relationshipTypes ++ x.relationships.map Key.of }
  x.actorDataPerms.entries.foldl mergeGrants (x.actorVerbs.entries.foldl mergeVerbs named)

/-- Merges the core vocabulary and then all domains. -/
def ofSource (s : Source) : Except UnknownAccess Dictionary := do
  let d ← match s.core with
    | some core => mergeCore {} core
    | none => pure {}
  return s.allDomains.foldl mergeDomain d

/-! ### Questions -/

def hasActor (d : Dictionary) (name : String) : Bool := d.actors.contains (.of name)

def hasVerb (d : Dictionary) (name : String) : Bool := d.verbs.contains (.of name)

def isRelationshipType (d : Dictionary) (name : String) : Bool :=
  d.relationshipTypes.contains (.of name)

/-- Without a catalogue of entities every entity is in it. -/
def cataloguesEntity (d : Dictionary) (name : String) : Bool :=
  d.entities.isEmpty || d.entities.contains (.of name)

def cataloguesDataObject (d : Dictionary) (name : String) : Bool :=
  d.dataObjects.isEmpty || d.dataObjects.contains (.of name)

def hasActorCatalogue (d : Dictionary) : Bool := !d.actors.isEmpty

def actorAllows (d : Dictionary) (actor verb : String) : Bool :=
  d.performs.permits (.of actor) (.of verb)

/-- Some actor is restricted to verbs among which this one is; while no actor is restricted, every
verb is permitted. -/
def verbPermittedByAny (d : Dictionary) (verb : String) : Bool :=
  d.permitted.isEmpty || d.permitted.contains (.of verb)

def canRead (d : Dictionary) (actor dataObject : String) : Bool :=
  d.reads.permits (.of actor) (.of dataObject)

def canWrite (d : Dictionary) (actor dataObject : String) : Bool :=
  d.writes.permits (.of actor) (.of dataObject)

def permits (d : Dictionary) (access : Access) (actor dataObject : String) : Bool :=
  match access with
  | .read => d.canRead actor dataObject
  | .write => d.canWrite actor dataObject

def accessOf? (d : Dictionary) (verb : String) : Option Access :=
  (d.verbAccess.reverse.find? fun e => e.1 = .of verb).map Prod.snd

/-- The reserved keywords that stand in a text, in the order of their keys. -/
def reservedIn (d : Dictionary) (text : String) : List Keyword :=
  d.keywords.filter fun k => k.standsIn text

def relationshipTypeNames (d : Dictionary) : List String :=
  (d.relationshipTypes.eraseDups.map Key.text).mergeSort

def counts (d : Dictionary) : Nat × Nat × Nat :=
  (d.actors.eraseDups.length, d.verbs.eraseDups.length, d.relationshipTypes.eraseDups.length)

end Dictionary
end ProcessLint
