import Mathlib.Data.List.Forall2
import ProcessLint.Proofs.Composition
import ProcessLint.Proofs.Filtering
import ProcessLint.Proofs.OpenProcesses

/-! The scopes of a validation: one for each open process, whatever the order of the events, with
the actors that the process declares and those that have acted in it. -/
namespace ProcessLint

/-! ### Scopes and open processes -/

/-- The scope has the actors in the header of a process, each once, and those who have acted since
it began while no process inside was open. -/
structure Scope.Records (s : Scope) (c : Process × List Event) : Prop where
  declared : s.declared = ((c.1.actors.map fun a => String.ofList (a.toList.filter fun c =>
    c.isAlphanum || c == '_')).filter fun a => !a.isEmpty).eraseDups
  used : ∀ a, a ∈ s.used ↔ ActsIn a c.2

namespace Scope.Records

theorem enter (p : Process) : Records ⟨p.declaredActors, []⟩ (p, []) where
  declared := distinct_eq_eraseDups _
  used a := by simp

variable {s : Scope} {c : Process × List Event}

theorem nodup (h : s.Records c) : s.declared.Nodup := by
  rw [h.declared, ← distinct_eq_eraseDups]
  exact nodup_distinct _

theorem idle (h : s.Records c) {e : Event} (he : Balanced c.2 → e.actor? = none) :
    s.Records (since e c) where
  declared := h.declared
  used a := by
    have hnot : ¬(Balanced c.2 ∧ e.actor? = some a) := by
      rintro ⟨hbalanced, ha⟩
      rw [he hbalanced] at ha
      cases ha
    rw [h.used, since, actsIn_concat, or_iff_left hnot]

theorem act (h : s.Records c) (hc : Balanced c.2) (e : Event) :
    Records { s with used := e.actor?.toList.reverse ++ s.used } (since e c) where
  declared := h.declared
  used a := by
    simp only [since, actsIn_concat, List.mem_append, List.mem_reverse, Option.mem_toList, h.used]
    constructor
    · rintro (ha | ha)
      · exact Or.inr ⟨hc, ha⟩
      · exact Or.inl ha
    · rintro (ha | ⟨-, ha⟩)
      · exact Or.inr ha
      · exact Or.inl ha

end Scope.Records

/-- The scopes are those of the processes, one by one. -/
def ScopesOf (cs : List (Process × List Event)) (ss : List Scope) : Prop :=
  List.Forall₂ (fun c s => s.Records c) cs ss

namespace ScopesOf

variable {cs : List (Process × List Event)} {ss : List Scope}

theorem nodup (h : ScopesOf cs ss) : ∀ s ∈ ss, s.declared.Nodup := by
  induction h with
  | nil => simp
  | cons hc _ ih => exact List.forall_mem_cons.mpr ⟨hc.nodup, ih⟩

/-- Nothing happens to the scopes when nobody acts, or when all processes have others open
inside. -/
theorem idle (h : ScopesOf cs ss) {e : Event} (he : ∀ c ∈ cs, Balanced c.2 → e.actor? = none) :
    ScopesOf (cs.map (since e)) ss := by
  have hboth := (List.forall₂_and_left cs ss).mpr ⟨he, h⟩
  refine List.forall₂_map_left_iff.mpr (hboth.imp ?_)
  rintro c s ⟨hc, hs⟩
  exact hs.idle hc

theorem enter (h : ScopesOf cs ss) (p : Process) :
    ScopesOf ((p, []) :: cs.map (since (.enter p))) (⟨p.declaredActors, []⟩ :: ss) :=
  List.Forall₂.cons (.enter p) (h.idle fun _ _ _ => rfl)

theorem leave (h : ScopesOf cs ss) (p : Process) :
    ScopesOf (cs.tail.map (since (.leave p))) ss.tail := by
  cases h with
  | nil => exact .nil
  | cons hc hcs => exact idle hcs fun _ _ _ => rfl

theorem act {m : Memory} (h : ScopesOf cs m.scopes) (hnested : Nested cs)
    (hopen : ∀ c ∈ cs, StaysOpen c.2) (e : Event) :
    ScopesOf (cs.map (since e)) (m.useAll e.actor?.toList).scopes := by
  rw [Memory.scopes_useAll]
  generalize m.scopes = ss at h ⊢
  cases h with
  | nil => exact .nil
  | @cons c s cs ss hc hcs =>
    refine List.Forall₂.cons (hc.act ⟨hopen c (by simp), (hnested 0 c rfl).symm⟩ e) ?_
    refine idle hcs fun c' hc' hbalanced => ?_
    -- the processes around the innermost one have begun before something that is still open
    obtain ⟨i, hi⟩ := List.mem_iff_getElem?.mp hc'
    have hdepth := hnested (i + 1) c' (by simpa using hi)
    have hequal := hbalanced.2
    omega

end ScopesOf

theorem Memory.scopes_note_other (m : Memory) {e : Event} (henter : e.isEnter = false)
    (hleave : e.isLeave = false) : (m.note e).scopes = (m.useAll e.actor?.toList).scopes := by
  cases e with
  | enter p => simp [Event.isEnter] at henter
  | leave p => simp [Event.isLeave] at hleave
  | action line => rw [note_line m rfl]
  | entity e => simpa [Event.actor?, Item.events] using (foldl_note_item m (.entity e)).2.2
  | _ => simp [note, Event.actor?]

/-- One event: where the scopes are those of the open processes, they are so behind it. -/
theorem ScopesOf.note {m : Memory} {es : List Event}
    (h : ScopesOf (openProcesses es).reverse m.scopes) (e : Event) :
    ScopesOf (openProcesses (es ++ [e])).reverse (m.note e).scopes := by
  have hnested := nested_openProcesses es
  have hopen : ∀ c ∈ (openProcesses es).reverse, StaysOpen c.2 := fun c hc =>
    staysOpen_of_mem_openProcesses (List.mem_reverse.mp hc)
  cases e with
  | enter p =>
    rw [openProcesses_enter, List.reverse_concat, ← List.map_reverse]
    exact h.enter p
  | leave p =>
    rw [reverse_openProcesses_leave hnested]
    exact h.leave p
  | _ =>
    rw [openProcesses_other rfl rfl, ← List.map_reverse, Memory.scopes_note_other m rfl rfl]
    exact h.act hnested hopen _

theorem Validator.scopesOf_run (v : Validator) (es : List Event) :
    ScopesOf (openProcesses es).reverse (v.run {} es).memory.scopes := by
  induction es using List.reverseRecOn with
  | nil => exact .nil
  | append_singleton es e ih =>
    rw [run_append]
    exact ih.note e

namespace Process

mutual

/-- A process and all inside it, in the order in which they end. -/
def family : Process → List Process
  | ⟨name, actors, steps, actions, processes⟩ =>
    families processes ++ [⟨name, actors, steps, actions, processes⟩]

def families : List Process → List Process
  | [] => []
  | p :: ps => family p ++ families ps

end

theorem family_eq (p : Process) : p.family = families p.processes ++ [p] := by
  obtain ⟨name, actors, steps, actions, processes⟩ := p
  rw [family]

end Process

def Item.processes : Item → List Process
  | .process p => p.family
  | _ => []

def Document.processes (d : Document) : List Process := d.items.flatMap Item.processes

namespace Validator

/-! ### Unused actors -/

theorem rule_of_mem_unused {actors : List String} {f : Flag}
    (h : f ∈ actors.map Flag.unusedProcessActor) : f.rule = .unusedProcessActor := by
  obtain ⟨a, -, rfl⟩ := List.mem_map.mp h
  rfl

theorem findings_unused (v : Validator) (actors : List String) :
    v.findings (actors.map .unusedProcessActor) =
      if v.disabled.contains .unusedProcessActor then []
      else actors.map fun a => (Flag.unusedProcessActor a).finding := by
  rw [v.findings_unless_disabled rfl fun f hf => rule_of_mem_unused hf, List.map_map]
  rfl

/-- The end of a process, whichever it is: the innermost scope is closed and the actors in it that
have not acted are told, and where no scope is open nothing happens. -/
theorem step_leave (v : Validator) (s : Session) (p : Process) :
    v.step s (.leave p) = match s.memory.scopes with
      | [] => s
      | f :: fs =>
        { memory := { s.memory with scopes := fs }
          report :=
            { s.report with
              warnings := s.report.warnings ++
                v.findings ((f.declared.filter fun a => !f.used.contains a).map
                  .unusedProcessActor) } } := by
  obtain ⟨m, r⟩ := s
  cases hm : m.scopes with
  | nil =>
    have hmemory : m.note (.leave p) = m := by
      obtain ⟨_, _, _, _, _, _, scopes, _⟩ := m
      obtain rfl : scopes = [] := hm
      rfl
    simp [step, flags, leaveFlags, hm, hmemory, addTo]
  | cons f fs =>
    have hrule : ∀ g ∈ (f.declared.filter fun a => !f.used.contains a).map
        Flag.unusedProcessActor, g.rule.severity ≠ .error := by
      intro g hg
      simp [rule_of_mem_unused hg, Rule.severity]
    simp only [step, flags, leaveFlags, Memory.note, hm, List.tail_cons, addTo_eq,
      errorsOf_eq_nil hrule, warningsOf_eq_findings hrule, List.append_nil]

theorem scopes_run_events (v : Validator) (s : Session) (d : Document) :
    (v.run s d.events).memory.scopes = s.memory.scopes := by
  have hitems := (Memory.foldl_note_items s.memory d.items).2.2
  rw [memory_run, Document.events, List.foldl_append]
  exact hitems

/-! ### Unused actors of a definition -/

/-- A process adds its own unused actors to those that are told inside. -/
theorem filter_flagsOf_process_eq (v : Validator) (m : Memory) (p : Process) :
    (v.flagsOf m p.events).filter (·.rule = .unusedProcessActor) =
      (v.flagsOf (m.within p) (Process.allEvents p.processes)).filter
          (·.rule = .unusedProcessActor) ++
        p.unusedActors.map .unusedProcessActor := by
  have henter : (v.enterFlags p).filter (·.rule = .unusedProcessActor) = [] := by
    have h : (v.flagsOf m [.enter p]).filter (·.rule = .unusedProcessActor) = [] :=
      filter_flagsOf_eq_nil (by simp [Event.rules])
    simpa [flagsOf, flags] using h
  have hown : (v.flagsOf {} p.ownEvents).filter (·.rule = .unusedProcessActor) = [] := by
    refine filter_flagsOf_eq_nil fun e he => ?_
    have hline := Process.isLine_of_mem_ownEvents he
    cases e <;> simp [Event.isLine, Event.rules] at hline ⊢
  have hleave : (p.unusedActors.map Flag.unusedProcessActor).filter
      (·.rule = .unusedProcessActor) = p.unusedActors.map .unusedProcessActor :=
    filter_rule_eq_self fun f hf => rule_of_mem_unused hf
  rw [flagsOf_process, List.filter_append, List.filter_append, List.filter_append, henter, hown,
    hleave, List.nil_append, List.nil_append]

mutual

theorem filter_flagsOf_process (v : Validator) (m : Memory) : ∀ p : Process,
    (v.flagsOf m p.events).filter (·.rule = .unusedProcessActor) =
      p.family.flatMap fun q => q.unusedActors.map .unusedProcessActor
  | ⟨name, actors, steps, actions, processes⟩ => by
    have hinside := filter_flagsOf_processes v
      (m.within ⟨name, actors, steps, actions, processes⟩) processes
    rw [filter_flagsOf_process_eq, hinside, Process.family_eq, List.flatMap_append,
      List.flatMap_singleton]

theorem filter_flagsOf_processes (v : Validator) (m : Memory) : ∀ ps : List Process,
    (v.flagsOf m (Process.allEvents ps)).filter (·.rule = .unusedProcessActor) =
      (Process.families ps).flatMap fun q => q.unusedActors.map .unusedProcessActor
  | [] => rfl
  | p :: ps => by
    have hp := filter_flagsOf_process v m p
    have hps := filter_flagsOf_processes v (p.events.foldl Memory.note m) ps
    rw [Process.allEvents, flagsOf_append, List.filter_append, hp, hps, Process.families,
      List.flatMap_append]

end

theorem filter_flagsOf_item (v : Validator) (m : Memory) (i : Item) :
    (v.flagsOf m i.events).filter (·.rule = .unusedProcessActor) =
      i.processes.flatMap fun q => q.unusedActors.map .unusedProcessActor := by
  cases i with
  | process p => exact v.filter_flagsOf_process m p
  | _ => exact filter_flagsOf_eq_nil (by simp [Item.events, Event.rules])

theorem filter_flagsOf_items (v : Validator) (m : Memory) (is : List Item) :
    (v.flagsOf m (is.flatMap Item.events)).filter (·.rule = .unusedProcessActor) =
      (is.flatMap Item.processes).flatMap fun q => q.unusedActors.map .unusedProcessActor := by
  induction is generalizing m with
  | nil => rfl
  | cons i is ih =>
    rw [List.flatMap_cons, flagsOf_append, List.filter_append, filter_flagsOf_item, ih,
      List.flatMap_cons, List.flatMap_append]

theorem filter_allFlags (v : Validator) (d : Document) :
    (v.allFlags d.events).filter (·.rule = .unusedProcessActor) =
      (d.processes.flatMap Process.unusedActors).map .unusedProcessActor := by
  have hclose (m : Memory) : (v.settleFlags m).filter (·.rule = .unusedProcessActor) = [] := by
    refine filter_rule_eq_nil fun f hf heq => ?_
    have hrule := rule_mem_of_mem_settleFlags hf
    rw [heq] at hrule
    simp [Event.rules] at hrule
  rw [allFlags, Document.events, flagsOf_append, List.filter_append, List.filter_append,
    filter_flagsOf_items, hclose, flagsOf, flagsOf, List.append_nil, List.append_nil, flags, hclose,
    List.append_nil, List.map_flatMap, Document.processes]

theorem validate_unused (v : Validator) (d : Document) :
    (v.validate d).warnings.filter (·.isOf .unusedProcessActor) =
      v.findings ((d.processes.flatMap Process.unusedActors).map .unusedProcessActor) := by
  have hwarnings : (v.validate d).warnings = v.warningsOf (v.allFlags d.events) := by
    rw [validate, report_eq, addTo_eq]
    exact List.nil_append _
  rw [hwarnings, filter_warningsOf v _ (by decide), filter_allFlags]

/-- A validation keeps one scope for each open process, in the order in which they began: with its
declared actors, and with those that acted while it was the innermost one. The end of a process
closes the innermost scope and tells the actors that did not act in it; with no scope open it
changes nothing. A definition leaves the scopes as they were, so that an actor has to act in the
very process that declares it. -/
theorem scopes_of_run (v : Validator) :
    (∀ es, let scopes := (v.run {} es).memory.scopes
      List.Forall₂ (fun c s => s.Records c) (openProcesses es) scopes.reverse ∧
        ∀ s ∈ scopes, s.declared.Nodup) ∧
    (∀ s p, v.step s (.leave p) = match s.memory.scopes with
      | [] => s
      | f :: fs =>
        { memory := { s.memory with scopes := fs }
          report :=
            { s.report with
              warnings := s.report.warnings ++
                if v.disabled.contains .unusedProcessActor then []
                else (f.declared.filter fun a => !f.used.contains a).map fun a =>
                  (Flag.unusedProcessActor a).finding } }) ∧
    (∀ s (d : Document), (v.run s d.events).memory.scopes = s.memory.scopes) ∧
    ∀ d : Document, (v.validate d).warnings.filter (·.isOf .unusedProcessActor) =
      if v.disabled.contains .unusedProcessActor then []
      else (d.processes.flatMap Process.unusedActors).map fun a =>
        (Flag.unusedProcessActor a).finding := by
  refine ⟨fun es => ?_, fun s p => ?_, v.scopes_run_events, fun d => ?_⟩
  · intro scopes
    have hscopes : ScopesOf (openProcesses es).reverse scopes := v.scopesOf_run es
    refine ⟨?_, hscopes.nodup⟩
    rw [← List.forall₂_reverse_iff, List.reverse_reverse]
    exact hscopes
  · rw [step_leave]
    simp only [findings_unused]
  · rw [validate_unused, findings_unused]

end Validator
end ProcessLint
