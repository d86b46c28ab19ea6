import ProcessLint.Finding

/-! The findings of one validation, errors apart from warnings. -/
namespace ProcessLint

structure Report where
  errors : List Finding := []
  warnings : List Finding := []
  deriving DecidableEq

namespace Report

/-- Adds a finding at the end of its bucket; what is not an error counts as a warning. -/
def push (r : Report) (f : Finding) : Report :=
  if f.severity = .error then { r with errors := r.errors ++ [f] }
  else { r with warnings := r.warnings ++ [f] }

def pushAll (r : Report) (fs : List Finding) : Report := fs.foldl push r

theorem pushAll_eq (r : Report) (fs : List Finding) :
    r.pushAll fs =
      ⟨r.errors ++ fs.filter (·.severity = .error),
        r.warnings ++ fs.filter (·.severity ≠ .error)⟩ := by
  induction fs generalizing r with
  | nil => simp [pushAll]
  | cons f fs ih =>
    have h := ih (r.push f)
    simp only [pushAll, List.foldl_cons] at h ⊢
    rw [h]
    by_cases hf : f.severity = .error <;> simp [push, hf]

def hasErrors (r : Report) : Bool := !r.errors.isEmpty

def isClean (r : Report) : Bool := r.errors.isEmpty && r.warnings.isEmpty

def counts (r : Report) : Nat × Nat := (r.errors.length, r.warnings.length)

def findings (r : Report) : List Finding := r.errors ++ r.warnings

end Report
end ProcessLint
