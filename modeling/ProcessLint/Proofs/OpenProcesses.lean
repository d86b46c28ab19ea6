import Mathlib.Data.List.Induction
import Mathlib.Data.List.Infix
import ProcessLint.Proofs.Traversal

/-! Which processes are open after events in any order, told from the events alone: those after
which, at every time since, no more processes have ended than begun. -/
namespace ProcessLint

namespace Event

def isEnter : Event → Bool
  | .enter _ => true
  | _ => false

def isLeave : Event → Bool
  | .leave _ => true
  | _ => false

end Event

/-! ### Beginnings and ends -/

def entries (es : List Event) : ℕ := es.countP Event.isEnter

def exits (es : List Event) : ℕ := es.countP Event.isLeave

theorem entries_concat (es : List Event) (e : Event) :
    entries (es ++ [e]) = entries es + if e.isEnter then 1 else 0 := by
  simp [entries, List.countP_append, List.countP_cons]

theorem exits_concat (es : List Event) (e : Event) :
    exits (es ++ [e]) = exits es + if e.isLeave then 1 else 0 := by
  simp [exits, List.countP_append, List.countP_cons]

/-- What was open before the events is open at every time in them and behind them. -/
def StaysOpen (es : List Event) : Prop := ∀ w, w <+: es → exits w ≤ entries w

instance : DecidablePred StaysOpen := fun es =>
  decidable_of_iff (∀ w ∈ es.inits, exits w ≤ entries w) (by simp [StaysOpen, List.mem_inits])

@[simp] theorem staysOpen_nil : StaysOpen [] := by simp [StaysOpen, exits, entries]

theorem StaysOpen.le {es : List Event} (h : StaysOpen es) : exits es ≤ entries es :=
  h es List.prefix_rfl

theorem staysOpen_concat {es : List Event} {e : Event} :
    StaysOpen (es ++ [e]) ↔ StaysOpen es ∧ exits (es ++ [e]) ≤ entries (es ++ [e]) := by
  constructor
  · intro h
    exact ⟨fun w hw => h w (hw.trans (List.prefix_append es [e])), h.le⟩
  · rintro ⟨hopen, hle⟩ w hw
    rcases List.prefix_concat_iff.mp hw with rfl | hw
    · exact hle
    · exact hopen w hw

/-- Nothing but the end of a process can close what is open. -/
theorem staysOpen_concat_of_not_isLeave {es : List Event} {e : Event} (he : e.isLeave = false) :
    StaysOpen (es ++ [e]) ↔ StaysOpen es := by
  rw [staysOpen_concat, entries_concat, exits_concat]
  constructor
  · exact And.left
  · intro h
    have hle := h.le
    simp only [he, Bool.false_eq_true, if_false]
    exact ⟨h, by omega⟩

theorem staysOpen_concat_leave {es : List Event} {p : Process} :
    StaysOpen (es ++ [.leave p]) ↔ StaysOpen es ∧ exits es < entries es := by
  rw [staysOpen_concat, entries_concat, exits_concat]
  simp only [Event.isEnter, Event.isLeave, if_true, Bool.false_eq_true, if_false, Nat.add_zero]
  rw [Nat.add_one_le_iff]

/-- As many processes end as begin, and at no time have more ended. -/
def Balanced (es : List Event) : Prop := StaysOpen es ∧ exits es = entries es

/-! ### Open processes -/

/-- Every process that begins, in the order of the events, with the events since. -/
def beginnings : List Event → List (Process × List Event)
  | [] => []
  | .enter p :: es => (p, es) :: beginnings es
  | _ :: es => beginnings es

/-- The processes that have begun and not ended, the innermost last, with the events since. -/
def openProcesses (es : List Event) : List (Process × List Event) :=
  (beginnings es).filter fun c => StaysOpen c.2

def since (e : Event) (c : Process × List Event) : Process × List Event := (c.1, c.2 ++ [e])

theorem beginnings_concat_enter (es : List Event) (p : Process) :
    beginnings (es ++ [.enter p]) = (beginnings es).map (since (.enter p)) ++ [(p, [])] := by
  induction es with
  | nil => rfl
  | cons e es ih => cases e <;> simp [beginnings, since, ih]

theorem beginnings_concat {e : Event} (he : e.isEnter = false) (es : List Event) :
    beginnings (es ++ [e]) = (beginnings es).map (since e) := by
  induction es with
  | nil =>
    cases e with
    | enter p => simp [Event.isEnter] at he
    | _ => rfl
  | cons e' es ih => cases e' <;> simp [beginnings, since, ih]

theorem staysOpen_of_mem_openProcesses {es : List Event} {c : Process × List Event}
    (h : c ∈ openProcesses es) : StaysOpen c.2 := by
  simpa using (List.mem_filter.mp h).2

theorem openProcesses_enter (es : List Event) (p : Process) :
    openProcesses (es ++ [.enter p]) = (openProcesses es).map (since (.enter p)) ++ [(p, [])] := by
  simp [openProcesses, beginnings_concat_enter, List.filter_map, Function.comp_def, since,
    staysOpen_concat_of_not_isLeave (e := .enter p) rfl]

theorem openProcesses_other {e : Event} (henter : e.isEnter = false) (hleave : e.isLeave = false)
    (es : List Event) : openProcesses (es ++ [e]) = (openProcesses es).map (since e) := by
  simp [openProcesses, beginnings_concat henter, List.filter_map, Function.comp_def, since,
    staysOpen_concat_of_not_isLeave hleave]

theorem openProcesses_leave_eq_filter (es : List Event) (p : Process) :
    openProcesses (es ++ [.leave p]) =
      ((openProcesses es).filter fun c => exits c.2 < entries c.2).map (since (.leave p)) := by
  simp [openProcesses, beginnings_concat (e := .leave p) rfl, List.filter_map, Function.comp_def,
    since, staysOpen_concat_leave, List.filter_filter, Bool.and_comm]

/-! ### Nesting -/

/-- Counted from the innermost process, as many more have begun than ended since each one as lie
inside it. -/
def Nested (cs : List (Process × List Event)) : Prop :=
  ∀ i c, cs[i]? = some c → entries c.2 = exits c.2 + i

namespace Nested

variable {cs : List (Process × List Event)}

theorem enter (h : Nested cs) (p : Process) :
    Nested ((p, []) :: cs.map (since (.enter p))) := by
  intro i c hc
  cases i with
  | zero =>
    obtain rfl : (p, []) = c := by simpa using hc
    rfl
  | succ i =>
    obtain ⟨c', hc', rfl⟩ : ∃ c', cs[i]? = some c' ∧ since (.enter p) c' = c := by simpa using hc
    have hdepth := h i c' hc'
    simp only [since, entries_concat, exits_concat, Event.isEnter, Event.isLeave, if_true,
      Bool.false_eq_true, if_false]
    omega

theorem other (h : Nested cs) {e : Event} (henter : e.isEnter = false)
    (hleave : e.isLeave = false) : Nested (cs.map (since e)) := by
  intro i c hc
  obtain ⟨c', hc', rfl⟩ : ∃ c', cs[i]? = some c' ∧ since e c' = c := by simpa using hc
  have hdepth := h i c' hc'
  simp only [since, entries_concat, exits_concat, henter, hleave, Bool.false_eq_true, if_false]
  omega

theorem leave (h : Nested cs) (p : Process) : Nested (cs.tail.map (since (.leave p))) := by
  intro i c hc
  obtain ⟨c', hc', rfl⟩ : ∃ c', cs[i + 1]? = some c' ∧ since (.leave p) c' = c := by
    simpa using hc
  have hdepth := h (i + 1) c' hc'
  simp only [since, entries_concat, exits_concat, Event.isEnter, Event.isLeave, if_true,
    Bool.false_eq_true, if_false]
  omega

/-- The innermost process, and no other, has as many ends as beginnings behind it. -/
theorem filter_eq_tail (h : Nested cs) : cs.filter (fun c => exits c.2 < entries c.2) = cs.tail := by
  cases cs with
  | nil => rfl
  | cons c cs =>
    have hfirst : ¬exits c.2 < entries c.2 := by
      have hdepth := h 0 c rfl
      omega
    have hrest : cs.filter (fun c => exits c.2 < entries c.2) = cs := by
      refine List.filter_eq_self.mpr fun c' hc' => ?_
      obtain ⟨i, hi⟩ := List.mem_iff_getElem?.mp hc'
      have hdepth := h (i + 1) c' (by simpa using hi)
      exact decide_eq_true (by omega)
    simp [hfirst, hrest]

end Nested

/-- The end of a process closes the innermost one, whichever process it names. -/
theorem reverse_openProcesses_leave {es : List Event} (h : Nested (openProcesses es).reverse)
    (p : Process) : (openProcesses (es ++ [.leave p])).reverse =
      (openProcesses es).reverse.tail.map (since (.leave p)) := by
  rw [openProcesses_leave_eq_filter, ← List.map_reverse, ← List.filter_reverse, h.filter_eq_tail]

theorem nested_openProcesses (es : List Event) : Nested (openProcesses es).reverse := by
  induction es using List.reverseRecOn with
  | nil => simp [Nested, openProcesses, beginnings]
  | append_singleton es e ih =>
    cases e with
    | enter p => simpa [openProcesses_enter] using ih.enter p
    | leave p =>
      rw [reverse_openProcesses_leave ih]
      exact ih.leave p
    | _ =>
      rw [openProcesses_other rfl rfl, ← List.map_reverse]
      exact ih.other rfl rfl

/-! ### Acting -/

/-- Somebody acts while as many processes have ended as begun. -/
def ActsIn (a : String) (es : List Event) : Prop :=
  ∃ before line after, es = before ++ .action line :: after ∧ Balanced before ∧
    Action.actorOf? line = some a

@[simp] theorem not_actsIn_nil (a : String) : ¬ActsIn a [] := by
  rintro ⟨before, line, after, h, -⟩
  simp at h

theorem actsIn_concat {a : String} {es : List Event} {e : Event} :
    ActsIn a (es ++ [e]) ↔ ActsIn a es ∨ Balanced es ∧ e.actor? = some a := by
  constructor
  · rintro ⟨before, line, after, h, hbefore, ha⟩
    rcases List.eq_nil_or_concat after with rfl | ⟨after, e', rfl⟩
    · obtain ⟨rfl, he⟩ := List.append_inj' h rfl
      obtain rfl : e = .action line := by simpa using he
      exact Or.inr ⟨hbefore, ha⟩
    · have h' : es ++ [e] = (before ++ .action line :: after) ++ [e'] := by simpa using h
      obtain ⟨hes, -⟩ := List.append_inj' h' rfl
      exact Or.inl ⟨before, line, after, hes, hbefore, ha⟩
  · rintro (⟨before, line, after, rfl, hbefore, ha⟩ | ⟨hes, ha⟩)
    · exact ⟨before, line, after ++ [e], by simp, hbefore, ha⟩
    · cases e with
      | action line => exact ⟨es, line, [], rfl, hes, ha⟩
      | _ => simp [Event.actor?] at ha

end ProcessLint
