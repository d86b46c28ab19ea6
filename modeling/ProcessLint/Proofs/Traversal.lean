import Mathlib.Data.List.Basic
import ProcessLint.Validation.Session

/-! What the events of a process do: they leave the memory as they found it, and what they raise
does not depend on it. -/
namespace ProcessLint

/-! ### Lines -/

def Action.actorOf? (line : String) : Option String := (Action.ofLine? line).map Action.actor

namespace Event

def isLine : Event → Bool
  | .action _ | .validation _ => true
  | _ => false

def actor? : Event → Option String
  | .action line => Action.actorOf? line
  | _ => none

end Event

namespace Memory

def useAll (m : Memory) (actors : List String) : Memory :=
  match m.scopes with
  | s :: ss => { m with scopes := { s with used := actors.reverse ++ s.used } :: ss }
  | [] => m

theorem scopes_useAll (m : Memory) (actors : List String) :
    (m.useAll actors).scopes = match m.scopes with
      | s :: ss => { s with used := actors.reverse ++ s.used } :: ss
      | [] => [] := by
  unfold useAll
  split
  · rfl
  · assumption

@[simp] theorem useAll_nil (m : Memory) : m.useAll [] = m := by
  unfold useAll
  split
  · rename_i h
    simp [← h]
  · rfl

theorem useAll_cons (m : Memory) (a : String) (as : List String) :
    m.useAll (a :: as) = (m.use a).useAll as := by
  cases hm : m.scopes <;> simp [useAll, use, hm]

theorem note_line (m : Memory) {e : Event} (h : e.isLine) :
    m.note e = m.useAll e.actor?.toList := by
  cases e with
  | action line =>
    simp only [note, Event.actor?, Action.actorOf?]
    cases Action.ofLine? line with
    | none => simp
    | some a => simp [useAll_cons]
  | validation line => simp [note, Event.actor?]
  | _ => simp [Event.isLine] at h

/-- Lines do nothing but mark those who act. -/
theorem foldl_note_lines (m : Memory) {es : List Event} (h : ∀ e ∈ es, e.isLine) :
    es.foldl note m = m.useAll (es.filterMap Event.actor?) := by
  induction es generalizing m with
  | nil => simp
  | cons e es ih =>
    rw [List.foldl_cons, ih _ fun e' he' => h e' (by simp [he']), note_line m (h e (by simp))]
    cases ha : e.actor? <;> simp [ha, useAll_cons]

end Memory

namespace Validator

/-- What a line raises does not depend on what is remembered. -/
theorem flags_line (v : Validator) (m m' : Memory) {e : Event} (h : e.isLine) :
    v.flags m e = v.flags m' e := by
  cases e with
  | action line => rfl
  | validation line => rfl
  | _ => simp [Event.isLine] at h

theorem flagsOf_lines (v : Validator) (m m' : Memory) {es : List Event}
    (h : ∀ e ∈ es, e.isLine) : v.flagsOf m es = v.flagsOf m' es := by
  induction es generalizing m m' with
  | nil => rfl
  | cons e es ih =>
    rw [flagsOf, flagsOf, v.flags_line m m' (h e (by simp)),
      ih (m.note e) (m'.note e) fun e' he' => h e' (by simp [he'])]

end Validator

/-! ### Processes -/

namespace Process

/-- The action lines of the process itself, without those of the processes inside. -/
def ownLines (p : Process) : List String := p.steps.flatMap Step.actions ++ p.actions

def usedActors (p : Process) : List String := p.ownLines.filterMap Action.actorOf?

def unusedActors (p : Process) : List String :=
  p.declaredActors.filter fun a => !p.usedActors.contains a

/-- The events between the beginning of the process and the processes inside. -/
def ownEvents (p : Process) : List Event := p.steps.flatMap Step.events ++ p.actions.map .action

theorem events_eq (p : Process) :
    p.events = .enter p :: p.ownEvents ++ allEvents p.processes ++ [.leave p] := by
  obtain ⟨name, actors, steps, actions, processes⟩ := p
  simp [events, ownEvents]

theorem isLine_of_mem_ownEvents {p : Process} {e : Event} (h : e ∈ p.ownEvents) : e.isLine := by
  simp only [ownEvents, Step.events, List.mem_append, List.mem_flatMap, List.mem_map] at h
  rcases h with ⟨s, -, ⟨l, -, rfl⟩ | ⟨l, -, rfl⟩⟩ | ⟨l, -, rfl⟩ <;> rfl

section

variable {P : Event → Prop}

mutual

/-- What holds of the beginnings and ends of processes and of all lines, holds of the events of a
process. -/
theorem forall_mem_events (henter : ∀ p, P (.enter p)) (hline : ∀ e : Event, e.isLine → P e)
    (hleave : ∀ p, P (.leave p)) : ∀ p : Process, ∀ e ∈ p.events, P e
  | ⟨name, actors, steps, actions, processes⟩ => by
    intro e he
    rw [events_eq] at he
    simp only [List.cons_append, List.mem_cons, List.mem_append, List.not_mem_nil, or_false] at he
    rcases he with rfl | (hown | hinside) | rfl
    · exact henter _
    · exact hline e (isLine_of_mem_ownEvents hown)
    · exact forall_mem_allEvents henter hline hleave processes e hinside
    · exact hleave _

theorem forall_mem_allEvents (henter : ∀ p, P (.enter p)) (hline : ∀ e : Event, e.isLine → P e)
    (hleave : ∀ p, P (.leave p)) : ∀ ps : List Process, ∀ e ∈ allEvents ps, P e
  | [] => by simp [allEvents]
  | p :: ps => by
    intro e he
    rcases List.mem_append.mp he with h | h
    · exact forall_mem_events henter hline hleave p e h
    · exact forall_mem_allEvents henter hline hleave ps e h

end

end

theorem filterMap_actor?_ownEvents (p : Process) :
    p.ownEvents.filterMap Event.actor? = p.usedActors := by
  have hstep (s : Step) : s.events.filterMap Event.actor? =
      s.actions.filterMap Action.actorOf? := by
    simp [Step.events, List.filterMap_map, Function.comp_def, Event.actor?]
  have hsteps (ss : List Step) : (ss.flatMap Step.events).filterMap Event.actor? =
      (ss.flatMap Step.actions).filterMap Action.actorOf? := by
    induction ss with
    | nil => rfl
    | cons s ss ih => simp [List.filterMap_append, hstep, ih]
  simp [ownEvents, usedActors, ownLines, List.filterMap_append, hsteps, List.filterMap_map,
    Function.comp_def, Event.actor?]

end Process

namespace Memory

/-- What is remembered when a process has come to the processes inside. -/
def within (m : Memory) (p : Process) : Memory :=
  { m with scopes := ⟨p.declaredActors, p.usedActors.reverse⟩ :: m.scopes }

theorem foldl_note_ownEvents (m : Memory) (p : Process) :
    (.enter p :: p.ownEvents).foldl note m = m.within p := by
  rw [List.foldl_cons, foldl_note_lines _ fun e he => Process.isLine_of_mem_ownEvents he,
    Process.filterMap_actor?_ownEvents]
  simp [note, useAll, within]

mutual

/-- The events of a process leave the memory as they found it. -/
theorem foldl_note_process (m : Memory) : ∀ p : Process, p.events.foldl note m = m
  | ⟨name, actors, steps, actions, processes⟩ => by
    have hinside := foldl_note_processes (m.within ⟨name, actors, steps, actions, processes⟩)
      processes
    rw [Process.events_eq, List.foldl_append, List.foldl_append, foldl_note_ownEvents, hinside]
    rfl

theorem foldl_note_processes (m : Memory) :
    ∀ ps : List Process, (Process.allEvents ps).foldl note m = m
  | [] => rfl
  | p :: ps => by
    rw [Process.allEvents, List.foldl_append, foldl_note_process m p, foldl_note_processes m ps]

end

end Memory

namespace Validator

/-- What a process raises: on entry, on its own lines, inside, and in the end for each declared
actor that does not act in the process itself. -/
theorem flagsOf_process (v : Validator) (m : Memory) (p : Process) :
    v.flagsOf m p.events =
      v.enterFlags p ++ v.flagsOf {} p.ownEvents ++
        v.flagsOf (m.within p) (Process.allEvents p.processes) ++
        p.unusedActors.map .unusedProcessActor := by
  have hown := v.flagsOf_lines (m.note (.enter p)) {}
    fun e he => Process.isLine_of_mem_ownEvents (p := p) he
  have hleave : leaveFlags (m.within p) = p.unusedActors.map .unusedProcessActor := by
    simp [leaveFlags, Memory.within, Process.unusedActors]
  rw [Process.events_eq, flagsOf_append, flagsOf_append, List.foldl_append,
    Memory.foldl_note_ownEvents, Memory.foldl_note_processes, flagsOf, hown]
  simp [flagsOf, flags, hleave]

mutual

theorem flagsOf_process_congr (v : Validator) (m m' : Memory) :
    ∀ p : Process, v.flagsOf m p.events = v.flagsOf m' p.events
  | ⟨name, actors, steps, actions, processes⟩ => by
    rw [flagsOf_process, flagsOf_process, flagsOf_processes_congr v _ _ processes]

theorem flagsOf_processes_congr (v : Validator) (m m' : Memory) :
    ∀ ps : List Process,
      v.flagsOf m (Process.allEvents ps) = v.flagsOf m' (Process.allEvents ps)
  | [] => rfl
  | p :: ps => by
    rw [Process.allEvents, flagsOf_append, flagsOf_append, Memory.foldl_note_process,
      Memory.foldl_note_process, flagsOf_process_congr v m m' p, flagsOf_processes_congr v m m' ps]

end

end Validator
end ProcessLint
