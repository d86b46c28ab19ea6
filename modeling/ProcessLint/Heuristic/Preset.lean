import ProcessLint.Heuristic.Banking

/-! Named selections of heuristics. -/
namespace ProcessLint
namespace Heuristic

inductive Preset
  | none | banking | all
  deriving DecidableEq, Repr

namespace Preset

def name : Preset → String
  | .none => "none"
  | .banking => "banking"
  | .all => "all"

def rules : Preset → List Banking
  | .none => []
  | .banking | .all => Banking.all

structure Unknown where
  name : String
  deriving DecidableEq

def Unknown.message (u : Unknown) : String :=
  "unknown heuristics preset `" ++ u.name ++ "`, expected: none, banking, all"

/-- The preset that a text names, blanks around it and the case of its letters aside; a blank
text names the empty preset. -/
def ofName (s : String) : Except Unknown Preset :=
  let key := String.ofList ((Text.trim s.toList).map Char.toLower)
  if key = "" ∨ key = "none" then .ok .none
  else if key = "banking" then .ok .banking
  else if key = "all" then .ok .all
  else .error ⟨key⟩

end Preset
end Heuristic
end ProcessLint
