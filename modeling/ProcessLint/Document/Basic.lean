import ProcessLint.Number.Binary64

/-! Business process definitions as syntax trees. -/
namespace ProcessLint

/-- A field of a data object's schema. -/
structure Field where
  name : String
  type : String
  min : Option Binary64 := none
  max : Option Binary64 := none
  values : Option (List String) := none
  attrs : List String := []
  deriving DecidableEq

structure DataObject where
  name : String
  fields : List Field := []
  deriving DecidableEq

structure Property where
  name : String
  type : String
  values : Option (List String) := none
  default : Option String := none
  deriving DecidableEq

/-- An entity, whose schema is a data object. -/
structure Entity where
  name : String
  dataRef : String
  properties : List Property := []
  deriving DecidableEq

structure Asset where
  name : String
  deriving DecidableEq

structure Relationship where
  name : String
  source : String
  target : String
  type : String
  deriving DecidableEq

/-- A step of a process; all but its name are lines of text. -/
structure Step where
  name : String
  inputs : List String := []
  validations : List String := []
  actions : List String := []
  onError : List String := []
  outputs : List String := []
  deriving DecidableEq

/-- A process with its steps, the actions that belong to no step, and the processes inside. -/
structure Process where
  name : String
  actors : List String := []
  steps : List Step := []
  actions : List String := []
  processes : List Process := []

namespace Process

mutual

def decEq : (p q : Process) → Decidable (p = q)
  | ⟨n, a, s, c, ps⟩, ⟨n', a', s', c', ps'⟩ =>
    if h : n = n' ∧ a = a' ∧ s = s' ∧ c = c' then
      match decEqAll ps ps' with
      | .isTrue hp => .isTrue (by simp [h, hp])
      | .isFalse hp => .isFalse (by simp [hp])
    else .isFalse (by simpa [and_assoc] using fun h₁ h₂ h₃ h₄ => (h ⟨h₁, h₂, h₃, h₄⟩).elim)

def decEqAll : (ps qs : List Process) → Decidable (ps = qs)
  | [], [] => .isTrue rfl
  | [], _ :: _ => .isFalse (by simp)
  | _ :: _, [] => .isFalse (by simp)
  | p :: ps, q :: qs =>
    match decEq p q, decEqAll ps qs with
    | .isTrue h, .isTrue hs => .isTrue (by simp [h, hs])
    | .isFalse h, _ => .isFalse (by simp [h])
    | _, .isFalse hs => .isFalse (by simp [hs])

end

instance : DecidableEq Process := decEq

end Process

structure BusinessRule where
  name : String
  description : String := ""
  trigger : String := ""
  deriving DecidableEq

structure ReportQuery where
  name : String
  query : String := ""
  deriving DecidableEq

/-- A declaration of a definition. -/
inductive Item
  | dataObject (d : DataObject)
  | entity (e : Entity)
  | asset (a : Asset)
  | relationship (r : Relationship)
  | process (p : Process)
  | rule (r : BusinessRule)
  | report (r : ReportQuery)
  deriving DecidableEq

/-- A definition: its declarations in order, and its text when that was kept. -/
structure Document where
  source : Option String := none
  items : List Item := []
  deriving DecidableEq

end ProcessLint
