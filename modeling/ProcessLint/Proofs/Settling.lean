import Mathlib.Data.List.Basic
import ProcessLint.Proofs.Composition
import ProcessLint.Proofs.Filtering

/-! Validations in which the events come in any order and any number of times: the report only
grows, each finding goes to the bucket of its rule, and what can be told only at the end is told by
one call. -/
namespace ProcessLint

/-! ### Buckets and findings -/

def Rule.errorRules : List Rule := [.fieldBounds, .missingDataRef, .enumDefaultOutsideValues]

theorem Rule.mem_errorRules_iff {r : Rule} : r ∈ errorRules ↔ r.severity = .error := by
  cases r <;> decide

theorem Rule.not_mem_errorRules_iff {r : Rule} : r ∉ errorRules ↔ r.severity = .warning := by
  cases r <;> decide

/-- The rules that can be looked at only at the end. -/
def Rule.deferred : List Rule :=
  [.missingDataRef, .enumDefaultOutsideValues, .hostedOnWithoutCatalog]

theorem Event.not_mem_deferred {e : Event} (he : e ≠ .close) :
    ∀ r ∈ e.rules, r ∉ Rule.deferred := by
  cases e with
  | close => exact absurd rfl he
  | _ => simp [Event.rules, Rule.deferred]

def Finding.isDeferred (f : Finding) : Bool := Rule.deferred.any fun r => f.isOf r

@[simp] theorem Flag.isDeferred_finding (f : Flag) :
    f.finding.isDeferred = decide (f.rule ∈ Rule.deferred) := by
  simp [Finding.isDeferred, List.any_eq]

namespace Report

/-- The second report goes on where the buckets of the first end. -/
structure IsPrefix (r q : Report) : Prop where
  errors : r.errors <+: q.errors
  warnings : r.warnings <+: q.warnings

/-- Each finding has the severity of its bucket and belongs to a rule of that severity. -/
structure IsSorted (r : Report) : Prop where
  errors : ∀ f ∈ r.errors, f.severity = .error ∧ ∃ q ∈ Rule.errorRules, f.isOf q
  warnings : ∀ f ∈ r.warnings, f.severity = .warning ∧ ∃ q, q ∉ Rule.errorRules ∧ f.isOf q

@[refl] theorem IsPrefix.refl (r : Report) : r.IsPrefix r := ⟨List.prefix_rfl, List.prefix_rfl⟩

theorem isSorted_empty : ({} : Report).IsSorted := ⟨by simp, by simp⟩

theorem filter_isDeferred {q : Rule} (hq : q ∈ Rule.deferred) (r : Report) :
    (r.filter Finding.isDeferred).filter (·.isOf q) = r.filter (·.isOf q) := by
  have himp (f : Finding) : (f.isOf q && f.isDeferred) = f.isOf q := by
    cases hf : f.isOf q with
    | true => exact List.any_eq_true.mpr ⟨q, hq, hf⟩
    | false => rfl
  simp only [filter, List.filter_filter, himp]

end Report

namespace Validator

/-! ### One call -/

theorem isPrefix_addTo (v : Validator) (r : Report) (fs : List Flag) :
    r.IsPrefix (v.addTo r fs) := by
  rw [addTo_eq]
  exact ⟨List.prefix_append _ _, List.prefix_append _ _⟩

theorem exists_rule_of_mem_findings {v : Validator} {fs : List Flag} {x : Finding}
    (h : x ∈ v.findings fs) : ∃ r : Rule, x.isOf r ∧ x.severity = r.severity := by
  obtain ⟨f, -, -, rfl⟩ := mem_findings.mp h
  exact ⟨f.rule, by simp, rfl⟩

theorem isSorted_addTo (v : Validator) {r : Report} (h : r.IsSorted) (fs : List Flag) :
    (v.addTo r fs).IsSorted := by
  rw [addTo_eq]
  constructor
  · intro x hx
    rcases List.mem_append.mp hx with hx | hx
    · exact h.errors x hx
    · obtain ⟨hmem, hs⟩ := List.mem_filter.mp hx
      obtain ⟨q, hq, hqs⟩ := exists_rule_of_mem_findings hmem
      have hs : x.severity = .error := of_decide_eq_true hs
      exact ⟨hs, q, Rule.mem_errorRules_iff.mpr (hqs ▸ hs), hq⟩
  · intro x hx
    rcases List.mem_append.mp hx with hx | hx
    · exact h.warnings x hx
    · obtain ⟨hmem, hs⟩ := List.mem_filter.mp hx
      obtain ⟨q, hq, hqs⟩ := exists_rule_of_mem_findings hmem
      have hs : x.severity ≠ .error := of_decide_eq_true hs
      have hrule : q ∉ Rule.errorRules := fun h => hs (hqs.trans (Rule.mem_errorRules_iff.mp h))
      exact ⟨hqs.trans (Rule.not_mem_errorRules_iff.mp hrule), q, hrule, hq⟩

theorem isSorted_run (v : Validator) (es : List Event) : (v.run {} es).report.IsSorted := by
  rw [report_run]
  exact v.isSorted_addTo Report.isSorted_empty _

/-- Only the end of a definition tells what can be told only then. -/
theorem filter_deferred_step (v : Validator) (s : Session) {e : Event} (he : e ≠ .close) :
    (v.step s e).report.filter Finding.isDeferred = s.report.filter Finding.isDeferred := by
  have hnone : (v.findings (v.flags s.memory e)).filter Finding.isDeferred = [] := by
    refine List.filter_eq_nil_iff.mpr fun x hx => ?_
    obtain ⟨f, hf, -, rfl⟩ := mem_findings.mp hx
    simp [Event.not_mem_deferred he _ (rule_mem_of_mem_flags hf)]
  simp only [step, addTo_eq_pushAll, Report.filter_pushAll, hnone]
  rfl

theorem report_step_close (v : Validator) {s : Session} (h : s.memory.settled = true) :
    (v.step s .close).report = s.report := by
  simp [step, flags, settleFlags, h, addTo]

end Validator

/-! ### The end that has been seen -/

namespace Memory

theorem settled_note (m : Memory) (e : Event) :
    (m.note e).settled = true ↔ m.settled = true ∨ e = .close := by
  cases e with
  | entity e => simp [note, noteEntity_eq]
  | action line =>
    simp only [note, use, reduceCtorEq, or_false]
    split
    · split <;> rfl
    · rfl
  | _ => simp [note]

theorem settled_foldl_note (m : Memory) (es : List Event) :
    (es.foldl note m).settled = true ↔ m.settled = true ∨ .close ∈ es := by
  induction es generalizing m with
  | nil => simp
  | cons e es ih => rw [List.foldl_cons, ih, settled_note, List.mem_cons, or_assoc, @eq_comm _ e]

def beforeClose (es : List Event) : Memory := (es.take (es.idxOf .close)).foldl note {}

end Memory

namespace Validator

theorem settled_run (v : Validator) (es : List Event) :
    (v.run {} es).memory.settled = true ↔ .close ∈ es := by
  rw [memory_run, Memory.settled_foldl_note]
  simp

/-! ### All calls -/

/-- The report after the first calls of a validation, which has one call for each event and a last
one that ends it. -/
def reportAfter (v : Validator) (es : List Event) (n : Nat) : Report :=
  if n ≤ es.length then (v.run {} (es.take n)).report else v.report es

theorem reportAfter_of_le (v : Validator) {es : List Event} {n : Nat} (h : n ≤ es.length) :
    v.reportAfter es n = (v.run {} (es.take n)).report := if_pos h

theorem reportAfter_of_lt (v : Validator) {es : List Event} {n : Nat} (h : es.length < n) :
    v.reportAfter es n = v.report es := if_neg (Nat.not_le.mpr h)

/-- A call adds what its event raises; the last call adds what the end of a definition would. -/
theorem reportAfter_succ (v : Validator) {es : List Event} {n : Nat} (h : n ≤ es.length) :
    v.reportAfter es (n + 1) = (v.step (v.run {} (es.take n)) (es[n]?.getD .close)).report := by
  rcases Nat.lt_or_eq_of_le h with hlt | rfl
  · rw [v.reportAfter_of_le hlt, List.take_add_one, List.getElem?_eq_getElem hlt, run_append]
    rfl
  · rw [v.reportAfter_of_lt (Nat.lt_succ_self _), List.take_length, List.getElem?_eq_none h]
    rfl

theorem getD_idxOf_close (es : List Event) : es[es.idxOf .close]?.getD .close = .close := by
  by_cases h : Event.close ∈ es
  · rw [List.getElem?_idxOf h, Option.getD_some]
  · rw [List.idxOf_of_notMem h, List.getElem?_eq_none (Nat.le_refl _), Option.getD_none]

theorem idxOf_close_le {es : List Event} {n : Nat} (h : es[n]?.getD .close = .close) :
    es.idxOf .close ≤ n := by
  rcases Nat.lt_or_ge n es.length with hn | hn
  · rw [List.getElem?_eq_getElem hn, Option.getD_some] at h
    by_contra hlt
    have hne := List.not_of_lt_findIdx (p := (· == Event.close)) (Nat.not_le.mp hlt)
    simp [h] at hne
  · exact Nat.le_trans List.idxOf_le_length hn

theorem settled_run_take (v : Validator) {es : List Event} {n : Nat} (h : n ≤ es.length) :
    (v.run {} (es.take n)).memory.settled = true ↔ es.idxOf .close < n := by
  rw [settled_run]
  by_cases hmem : Event.close ∈ es
  · rw [List.mem_take_iff_idxOf_lt hmem]
  · rw [List.idxOf_of_notMem hmem]
    exact iff_of_false (fun ht => hmem (List.mem_of_mem_take ht)) (Nat.not_lt.mpr h)

/-- A call that ends a definition again adds nothing, whatever has come in between. -/
theorem reportAfter_succ_of_idxOf_lt (v : Validator) {es : List Event} {n : Nat}
    (hidx : es.idxOf .close < n) (hn : es[n]?.getD .close = .close) :
    v.reportAfter es (n + 1) = v.reportAfter es n := by
  rcases Nat.lt_or_ge es.length n with hlt | hle
  · rw [v.reportAfter_of_lt hlt, v.reportAfter_of_lt (Nat.lt_succ_of_lt hlt)]
  · rw [v.reportAfter_succ hle, hn, v.reportAfter_of_le hle]
    exact v.report_step_close ((v.settled_run_take hle).mpr hidx)

theorem isPrefix_reportAfter (v : Validator) (es : List Event) (n : Nat) :
    (v.reportAfter es n).IsPrefix (v.reportAfter es (n + 1)) := by
  rcases Nat.lt_or_ge es.length n with hlt | hle
  · rw [v.reportAfter_of_lt hlt, v.reportAfter_of_lt (Nat.lt_succ_of_lt hlt)]
  · rw [v.reportAfter_succ hle, v.reportAfter_of_le hle]
    exact v.isPrefix_addTo _ _

theorem isSorted_reportAfter (v : Validator) (es : List Event) (n : Nat) :
    (v.reportAfter es n).IsSorted := by
  unfold reportAfter
  split
  · exact v.isSorted_run _
  · exact v.isSorted_addTo (v.isSorted_run _) _

theorem filter_deferred_reportAfter (v : Validator) {es : List Event} {n : Nat}
    (hne : n ≠ es.idxOf .close) :
    (v.reportAfter es (n + 1)).filter Finding.isDeferred =
      (v.reportAfter es n).filter Finding.isDeferred := by
  by_cases hclose : es[n]?.getD .close = .close
  -- an end that is not the first one comes after it
  · have hlt : es.idxOf .close < n := Nat.lt_of_le_of_ne (idxOf_close_le hclose) (Ne.symm hne)
    rw [v.reportAfter_succ_of_idxOf_lt hlt hclose]
  · have hle : n ≤ es.length := by
      by_contra h
      simp [List.getElem?_eq_none (Nat.le_of_not_le h)] at hclose
    rw [v.reportAfter_succ hle, v.reportAfter_of_le hle, v.filter_deferred_step _ hclose]

/-- The first call that ends a definition tells all that the memory has for the end. -/
theorem reportAfter_idxOf_close (v : Validator) (es : List Event) :
    let before := v.reportAfter es (es.idxOf .close)
    let m := (v.run {} (es.take (es.idxOf .close))).memory
    v.reportAfter es (es.idxOf .close + 1) =
      ⟨before.errors ++ (v.findings (referenceFlags m) ++ v.findings (enumFlags m)),
        before.warnings ++ v.findings (v.hostingFlags m)⟩ := by
  intro before m
  have hle : es.idxOf .close ≤ es.length := List.idxOf_le_length
  -- no earlier call was an end, so that this one has everything still to tell
  have hopen : m.settled = false := by
    rw [← Bool.not_eq_true]
    exact fun h => Nat.lt_irrefl _ ((v.settled_run_take hle).mp h)
  rw [v.reportAfter_succ hle, getD_idxOf_close]
  simp only [before, v.reportAfter_of_le hle, m]
  exact v.addTo_settleFlags _ hopen

theorem filter_reportAfter_of_deferred (v : Validator) {r : Rule} (hr : r ∈ Rule.deferred)
    (es : List Event) (n : Nat) :
    (v.reportAfter es n).filter (·.isOf r) =
      if n ≤ es.idxOf .close then {}
      else
        { errors := v.findings
            ((referenceFlags (.beforeClose es) ++ enumFlags (.beforeClose es)).filter (·.rule = r))
          warnings := v.findings ((v.hostingFlags (.beforeClose es)).filter (·.rule = r)) } := by
  induction n with
  | zero => rfl
  | succ n ih =>
    by_cases hn : n = es.idxOf .close
    · subst hn
      rw [if_pos (Nat.le_refl _)] at ih
      obtain ⟨herrors, hwarnings⟩ := Report.mk.inj ih
      rw [if_neg (Nat.not_succ_le_self _), reportAfter_idxOf_close, memory_run]
      simp only [Report.filter, List.filter_append, herrors, hwarnings, List.nil_append,
        filter_isOf_findings, findings_append]
      rfl
    · have hle : n + 1 ≤ es.idxOf .close ↔ n ≤ es.idxOf .close := by omega
      rw [← Report.filter_isDeferred hr, v.filter_deferred_reportAfter hn,
        Report.filter_isDeferred hr, ih]
      simp only [hle]

theorem filter_reportAfter_unless_disabled (v : Validator) {r : Rule} (hr : r ∈ Rule.deferred)
    (es : List Event) (n : Nat) :
    (v.reportAfter es n).filter (·.isOf r) =
      if n ≤ es.idxOf .close ∨ v.disabled.contains r then {}
      else
        { errors := ((referenceFlags (.beforeClose es) ++ enumFlags (.beforeClose es)).filter
            (·.rule = r)).map Flag.finding
          warnings :=
            ((v.hostingFlags (.beforeClose es)).filter (·.rule = r)).map Flag.finding } := by
  have hasked : r.isOptIn = false := by
    simp only [Rule.deferred, List.mem_cons, List.not_mem_nil, or_false] at hr
    rcases hr with rfl | rfl | rfl <;> rfl
  have htold (fs : List Flag) : v.findings (fs.filter (·.rule = r)) =
      if v.disabled.contains r then [] else (fs.filter (·.rule = r)).map Flag.finding :=
    v.findings_unless_disabled hasked fun f hf => of_decide_eq_true (List.mem_filter.mp hf).2
  rw [v.filter_reportAfter_of_deferred hr, htold, htold]
  by_cases hn : n ≤ es.idxOf .close
  · simp [hn]
  · cases v.disabled.contains r <;> simp [hn]

/-- Whatever the events and their order, each call only adds to the report, and each finding goes
to the bucket of its rule. What can be told only at the end is told by one call: the first that
ends a definition, or the last call if none does. It tells all of it. A later end adds nothing. -/
theorem reportAfter_settles_once (v : Validator) (es : List Event) :
    (∀ n, (v.reportAfter es n).IsPrefix (v.reportAfter es (n + 1)) ∧
        (v.reportAfter es n).IsSorted) ∧
      (∀ n, n ≠ es.idxOf .close → (v.reportAfter es (n + 1)).filter Finding.isDeferred =
        (v.reportAfter es n).filter Finding.isDeferred) ∧
      (let before := v.reportAfter es (es.idxOf .close)
        let m := (v.run {} (es.take (es.idxOf .close))).memory
        v.reportAfter es (es.idxOf .close + 1) =
          ⟨before.errors ++ (v.findings (referenceFlags m) ++ v.findings (enumFlags m)),
            before.warnings ++ v.findings (v.hostingFlags m)⟩) ∧
      ∀ n, es.idxOf .close < n → es[n]? = some .close ∨ es.length ≤ n →
        v.reportAfter es (n + 1) = v.reportAfter es n := by
  refine ⟨fun n => ⟨v.isPrefix_reportAfter es n, v.isSorted_reportAfter es n⟩,
    fun n => v.filter_deferred_reportAfter, v.reportAfter_idxOf_close es, fun n hidx hn => ?_⟩
  refine v.reportAfter_succ_of_idxOf_lt hidx ?_
  rcases hn with hn | hn
  · rw [hn, Option.getD_some]
  · rw [List.getElem?_eq_none hn, Option.getD_none]

end Validator
end ProcessLint
