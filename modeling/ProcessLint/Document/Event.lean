import ProcessLint.Document.Basic

/-! A definition as a sequence of events, in the order in which it is read. -/
namespace ProcessLint

inductive Event
  | dataObject (d : DataObject)
  | entity (e : Entity)
  | asset (a : Asset)
  | relationship (r : Relationship)
  /-- A process begins. -/
  | enter (p : Process)
  /-- A process ends. -/
  | leave (p : Process)
  /-- One action line. -/
  | action (line : String)
  /-- One validation line. -/
  | validation (line : String)
  | rule (r : BusinessRule)
  | report (r : ReportQuery)
  /-- The definition ends. -/
  | close
  deriving DecidableEq

/-- The validations of a step come before its actions. -/
def Step.events (s : Step) : List Event := s.validations.map .validation ++ s.actions.map .action

namespace Process

mutual

/-- A process begins, has its steps, its own actions and the processes inside, and ends. -/
def events : Process → List Event
  | ⟨name, actors, steps, actions, processes⟩ =>
    .enter ⟨name, actors, steps, actions, processes⟩ :: steps.flatMap Step.events ++
      actions.map .action ++ allEvents processes ++
      [.leave ⟨name, actors, steps, actions, processes⟩]

def allEvents : List Process → List Event
  | [] => []
  | p :: ps => events p ++ allEvents ps

end

end Process

def Item.events : Item → List Event
  | .dataObject d => [.dataObject d]
  | .entity e => [.entity e]
  | .asset a => [.asset a]
  | .relationship r => [.relationship r]
  | .process p => p.events
  | .rule r => [.rule r]
  | .report r => [.report r]

namespace Document

def events (d : Document) : List Event := d.items.flatMap Item.events ++ [.close]

end Document
end ProcessLint
