import ProcessLint.Validation.Basic

/-! A validation under way: events come one after the other, in any order, and an end. -/
namespace ProcessLint

/-- What is remembered and what has been reported so far. -/
structure Session where
  memory : Memory := {}
  report : Report := {}
  deriving DecidableEq

namespace Validator

/-- Takes in one event: what it raises is reported, and what it says is remembered. -/
def step (v : Validator) (s : Session) (e : Event) : Session where
  memory := s.memory.note e
  report := v.addTo s.report (v.flags s.memory e)

def run (v : Validator) (s : Session) (es : List Event) : Session := es.foldl v.step s

@[simp] theorem run_nil (v : Validator) (s : Session) : v.run s [] = s := rfl

@[simp] theorem run_cons (v : Validator) (s : Session) (e : Event) (es : List Event) :
    v.run s (e :: es) = v.run (v.step s e) es := rfl

theorem run_append (v : Validator) (s : Session) (es fs : List Event) :
    v.run s (es ++ fs) = v.run (v.run s es) fs := by simp [run]

theorem memory_run (v : Validator) (s : Session) (es : List Event) :
    (v.run s es).memory = es.foldl Memory.note s.memory := by
  induction es generalizing s with
  | nil => rfl
  | cons e es ih => simp [ih, step]

theorem report_run (v : Validator) (s : Session) (es : List Event) :
    (v.run s es).report = v.addTo s.report (v.flagsOf s.memory es) := by
  induction es generalizing s with
  | nil => rfl
  | cons e es ih => simp [ih, step, flagsOf, addTo_append]

/-- Ends a validation: what is still to be told is reported. -/
def finish (v : Validator) (s : Session) : Report := v.addTo s.report (v.settleFlags s.memory)

def report (v : Validator) (es : List Event) : Report := v.finish (v.run {} es)

theorem report_eq (v : Validator) (es : List Event) : v.report es = v.addTo {} (v.allFlags es) := by
  simp [report, finish, report_run, memory_run, allFlags, addTo_append]

def validate (v : Validator) (d : Document) : Report := v.report d.events

end Validator
end ProcessLint
