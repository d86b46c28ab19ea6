import ProcessLint.Proofs.DataTokens
import ProcessLint.Proofs.Filtering

/-! The data objects that an action uses without permission: what is told of a line, word by
word. -/
namespace ProcessLint

open Text (WordRun wordRuns)

namespace Validator

/-- The access that a data object needs in an action, by its tag or else by the verb, when the actor
is denied it. -/
def denied? (v : Validator) (a : Action) (t : DataToken) : Option Access :=
  (t.tag.or (v.dictionary.accessOf? a.verb)).filter fun access =>
    !v.dictionary.permits access a.actor t.name

def wordFlag? (v : Validator) (a : Action) (run : WordRun) : Option Flag := do
  let t ← DataToken.ofRun? v.options.dataObjectPrefix.toList run
  let access ← v.denied? a t
  some (.dataPermission a.actor a.verb t.name access)

theorem tokenFlags_eq (v : Validator) (a : Action) (t : DataToken) :
    v.tokenFlags a t =
      ((v.denied? a t).map fun access => .dataPermission a.actor a.verb t.name access).toList := by
  rw [tokenFlags, denied?]
  cases t.tag.or (v.dictionary.accessOf? a.verb) with
  | none => rfl
  | some access =>
    cases hp : v.dictionary.permits access a.actor t.name <;> simp [flagIf, hp, Option.filter]

theorem filter_actionFlags (v : Validator) {line : String} {a : Action}
    (ha : Action.ofLine? line = some a) :
    (v.actionFlags line).filter (·.rule = .dataPermission) =
      (DataToken.scan v.options.dataObjectPrefix line).flatMap (v.tokenFlags a) := by
  have htokens : ((DataToken.scan v.options.dataObjectPrefix line).flatMap (v.tokenFlags a)).filter
      (·.rule = .dataPermission) =
        (DataToken.scan v.options.dataObjectPrefix line).flatMap (v.tokenFlags a) := by
    refine filter_rule_eq_self fun f hf => ?_
    obtain ⟨t, -, ht⟩ := List.mem_flatMap.mp hf
    exact rule_of_mem_tokenFlags ht
  simp only [actionFlags, ha, List.filter_append, filter_flagIf, htokens]
  simp [Flag.rule]

theorem flatMap_tokenFlags (v : Validator) (hmark : DataToken.IsMark v.options.dataObjectPrefix)
    (a : Action) (line : String) :
    (DataToken.scan v.options.dataObjectPrefix line).flatMap (v.tokenFlags a) =
      (wordRuns none line.toList).filterMap (v.wordFlag? a) := by
  rw [DataToken.scan_eq hmark]
  induction wordRuns none line.toList with
  | nil => rfl
  | cons run runs ih =>
    cases ht : DataToken.ofRun? v.options.dataObjectPrefix.toList run with
    | none =>
      have hnone : v.wordFlag? a run = none := by simp [wordFlag?, ht]
      rw [List.filterMap_cons_none ht, List.filterMap_cons_none hnone, ih]
    | some t =>
      have hflag : v.wordFlag? a run = (v.denied? a t).map fun access =>
          .dataPermission a.actor a.verb t.name access := by
        simp only [wordFlag?, ht, Option.bind_eq_bind, Option.bind_some]
        cases v.denied? a t <;> rfl
      rw [List.filterMap_cons_some ht, List.flatMap_cons, ih, tokenFlags_eq, List.filterMap_cons,
        hflag]
      cases v.denied? a t <;> rfl

/-- Of an action the data objects are told that the actor is denied, one for each word of the line
that names one, from left to right. -/
theorem dataPermissions_of_action (v : Validator)
    (hmark : DataToken.IsMark v.options.dataObjectPrefix) {line : String} {a : Action}
    (ha : Action.ofLine? line = some a) :
    ∃ runs, WordRun.AreAllOf runs line.toList ∧ ∀ s : Session,
      let before := s.report.filter (·.isOf .dataPermission)
      (v.step s (.action line)).report.filter (·.isOf .dataPermission) =
        { before with
          warnings := before.warnings ++
            if v.disabled.contains .dataPermission then []
            else (runs.filterMap (v.wordFlag? a)).map Flag.finding } := by
  refine ⟨wordRuns none line.toList, Text.areAllOf_wordRuns _, fun s => ?_⟩
  have hwarning : Rule.dataPermission.severity ≠ .error := by decide
  have hflags : (v.flags s.memory (.action line)).filter (·.rule = .dataPermission) =
      (wordRuns none line.toList).filterMap (v.wordFlag? a) :=
    (v.filter_actionFlags ha).trans (v.flatMap_tokenFlags hmark a line)
  have hrule : ∀ f ∈ (v.flags s.memory (.action line)).filter (·.rule = .dataPermission),
      f.rule = .dataPermission := fun f hf => of_decide_eq_true (List.mem_filter.mp hf).2
  have hfindings := v.findings_unless_disabled rfl hrule
  rw [hflags] at hfindings
  simp only [step, addTo_eq, Report.filter, List.filter_append, v.filter_errorsOf_eq_nil _ hwarning,
    v.filter_warningsOf _ hwarning, hflags, hfindings, List.append_nil]

/-! ### A teller with one till -/

abbrev tillTeller : Dictionary.Source where
  core := some { verbPermissions := .ofList [("Pay", "write")] }
  domains := .ofList []
  domain := some {
    actors := ["Teller"]
    verbs := ["Pay"]
    actorVerbs := .ofList []
    actorDataPerms := .ofList [("Teller", { read := ["DO_Till"], write := ["DO_Till"] })] }

/-- A payment in which words look like data objects and tags that are none. -/
def payment : String := "- Teller Pay DO_Till, DO_Loan  Output DO_LoanInput Inputs and DO_Loané Input"

theorem isMark_default : DataToken.IsMark ({} : Options).dataObjectPrefix where
  nonempty := by decide
  names := List.all_eq_true.mp (by decide)
  apart := by decide

theorem dataPermissions_of_payment : ∃ d, Dictionary.ofSource tillTeller = .ok d ∧
    let v : Validator := { dictionary := d }
    DataToken.IsMark v.options.dataObjectPrefix ∧
      Action.ofLine? payment = some ⟨"Teller", "Pay"⟩ ∧
      v.flags {} (.action payment) =
        [.dataPermission "Teller" "Pay" "DO_Loan" .read,
          .dataPermission "Teller" "Pay" "DO_LoanInput" .write] ∧
      ∃ runs, WordRun.AreAllOf runs payment.toList ∧ ∀ s : Session,
        let before := s.report.filter (·.isOf .dataPermission)
        (v.step s (.action payment)).report.filter (·.isOf .dataPermission) =
          { before with
            warnings := before.warnings ++
              (runs.filterMap (v.wordFlag? ⟨"Teller", "Pay"⟩)).map Flag.finding } := by
  have hline : Action.ofLine? payment = some ⟨"Teller", "Pay"⟩ := by decide +kernel
  exact ⟨_, rfl, isMark_default, hline, by decide +kernel,
    dataPermissions_of_action _ isMark_default hline⟩

end Validator
end ProcessLint
