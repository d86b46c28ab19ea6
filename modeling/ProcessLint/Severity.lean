/-! How grave a finding is. -/
namespace ProcessLint

inductive Severity
  | info | warning | error
  deriving DecidableEq, Repr

namespace Severity

def all : List Severity := [.info, .warning, .error]

theorem mem_all (s : Severity) : s ∈ all := by cases s <;> simp [all]

def name : Severity → String
  | .info => "info"
  | .warning => "warning"
  | .error => "error"

def ofName? (s : String) : Option Severity := all.find? fun v => v.name == s

@[simp] theorem ofName?_name (s : Severity) : ofName? s.name = some s := by cases s <;> decide

def rank : Severity → Nat
  | .info => 0
  | .warning => 1
  | .error => 2

/-- At least as grave as the other. -/
def reaches (s threshold : Severity) : Bool := threshold.rank ≤ s.rank

@[simp] theorem reaches_self (s : Severity) : s.reaches s = true := by cases s <;> rfl

end Severity
end ProcessLint
