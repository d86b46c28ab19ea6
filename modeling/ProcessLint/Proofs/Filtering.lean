import ProcessLint.Proofs.EventRules
import ProcessLint.Validation.Session

/-! Rules and checks that are switched off: two validations of the same events run in step, and one
reports what the other does, less the findings of what is switched off. -/
namespace ProcessLint

/-! ### The rule of a finding -/

theorem Rule.find?_code (r : Rule) : all.find? (fun q => q.code == r.code) = some r := by
  cases r <;> decide

theorem Rule.eq_of_code_eq {r q : Rule} (h : r.code = q.code) : r = q := by
  apply Option.some.inj
  rw [← find?_code r, h, find?_code q]

def Finding.isOf (f : Finding) (r : Rule) : Bool := f.code == r.code && f.rule == r.name

@[simp] theorem Flag.isOf_finding (f : Flag) (r : Rule) :
    f.finding.isOf r = decide (f.rule = r) := by
  by_cases h : f.rule = r
  · subst h
    simp [Finding.isOf, Flag.finding, Rule.finding]
  · have hcode : f.rule.code ≠ r.code := fun hc => h (Rule.eq_of_code_eq hc)
    simp [Finding.isOf, h, hcode]

/-! ### Filtered reports -/

namespace Report

/-- Both buckets of a report without the findings that do not pass the test. -/
def filter (keep : Finding → Bool) (r : Report) : Report :=
  ⟨r.errors.filter keep, r.warnings.filter keep⟩

theorem filter_pushAll (keep : Finding → Bool) (r : Report) (fs : List Finding) :
    (r.pushAll fs).filter keep = (r.filter keep).pushAll (fs.filter keep) := by
  simp only [pushAll_eq, filter, List.filter_append, List.filter_filter, Bool.and_comm]

end Report

def Session.filter (keep : Finding → Bool) (s : Session) : Session :=
  { s with report := s.report.filter keep }

namespace Validator

/-! ### Two validations in step -/

/-- Whatever is remembered, the second validator has to say of each event what the first has, less
the findings that do not pass the test. -/
def Filters (v w : Validator) (keep : Finding → Bool) : Prop :=
  ∀ m e, w.findings (w.flags m e) = (v.findings (v.flags m e)).filter keep

namespace Filters

variable {v w : Validator} {keep : Finding → Bool}

theorem addTo (h : Filters v w keep) (r : Report) (m : Memory) (e : Event) :
    w.addTo (r.filter keep) (w.flags m e) = (v.addTo r (v.flags m e)).filter keep := by
  rw [addTo_eq_pushAll, addTo_eq_pushAll, Report.filter_pushAll, h m e]

theorem step (h : Filters v w keep) (s : Session) (e : Event) :
    w.step (s.filter keep) e = (v.step s e).filter keep := by
  have hreport := h.addTo s.report s.memory e
  simp only [Validator.step, Session.filter, hreport]

theorem run (h : Filters v w keep) (s : Session) (es : List Event) :
    w.run (s.filter keep) es = (v.run s es).filter keep := by
  induction es generalizing s with
  | nil => rfl
  | cons e es ih => rw [run_cons, run_cons, h.step, ih]

theorem finish (h : Filters v w keep) (s : Session) :
    w.finish (s.filter keep) = (v.finish s).filter keep := h.addTo s.report s.memory .close

theorem report (h : Filters v w keep) (es : List Event) :
    w.report es = (v.report es).filter keep := by
  have hrun := h.run {} es
  rw [Validator.report, Validator.report, ← h.finish, ← hrun]
  rfl

end Filters

/-! ### Findings and their flags -/

/-- A test on findings that sees nothing but the flag may be made before flags are told. -/
theorem filter_findings (v : Validator) {keep : Finding → Bool} {p : Flag → Bool}
    (h : ∀ f : Flag, keep f.finding = p f) (fs : List Flag) :
    (v.findings fs).filter keep = v.findings (fs.filter p) := by
  simp only [findings, List.filter_map, List.filter_filter, Function.comp_def, h, Bool.and_comm]

theorem filter_isOf_findings (v : Validator) (fs : List Flag) (r : Rule) :
    (v.findings fs).filter (·.isOf r) = v.findings (fs.filter (·.rule = r)) :=
  v.filter_findings (fun f => f.isOf_finding r) fs

theorem findings_unless_disabled (v : Validator) {fs : List Flag} {r : Rule}
    (hr : r.isOptIn = false) (h : ∀ f ∈ fs, f.rule = r) :
    v.findings fs = if v.disabled.contains r then [] else fs.map Flag.finding := by
  rw [v.findings_of_rule h, wants, hr]
  cases v.disabled.contains r <;> rfl

theorem filter_errorsOf_eq_nil (v : Validator) (fs : List Flag) {r : Rule}
    (hr : r.severity ≠ .error) : (v.errorsOf fs).filter (·.isOf r) = [] := by
  refine List.filter_eq_nil_iff.mpr fun x hx => ?_
  obtain ⟨hmem, hs⟩ := List.mem_filter.mp hx
  obtain ⟨f, -, -, rfl⟩ := mem_findings.mp hmem
  intro hrule
  have hf : f.rule = r := by simpa using hrule
  exact hr (hf ▸ of_decide_eq_true hs)

theorem filter_warningsOf (v : Validator) (fs : List Flag) {r : Rule} (hr : r.severity ≠ .error) :
    (v.warningsOf fs).filter (·.isOf r) = v.findings (fs.filter (·.rule = r)) := by
  have hwarnings : v.warningsOf fs = v.findings (fs.filter (·.rule.severity ≠ .error)) :=
    v.filter_findings (fun f => by rw [Flag.finding_severity]) fs
  rw [hwarnings, filter_isOf_findings, List.filter_filter]
  congr 1
  refine List.filter_congr fun f _ => ?_
  by_cases hf : f.rule = r
  · simp [hf, hr]
  · simp [hf]

/-! ### What is switched off -/

theorem findings_eq_filter {v w : Validator} {keep : Finding → Bool} {fs : List Flag}
    (h : ∀ f ∈ fs, w.wants f.rule = (v.wants f.rule && keep f.finding)) :
    w.findings fs = (v.findings fs).filter keep := by
  have hfilter : fs.filter (fun f => w.wants f.rule) =
      fs.filter fun f => keep f.finding && v.wants f.rule :=
    List.filter_congr fun f hf => by rw [h f hf, Bool.and_comm]
  simp only [findings, hfilter, List.filter_map, List.filter_filter, Function.comp_def]

theorem filters_disabled (v : Validator) (rules : List Rule) :
    Filters { v with disabled := [] } { v with disabled := rules }
      fun f => !rules.any fun r => f.isOf r := by
  intro m e
  have hflags : ({ v with disabled := rules } : Validator).flags m e =
      ({ v with disabled := [] } : Validator).flags m e := by cases e <;> rfl
  rw [hflags]
  refine findings_eq_filter fun f _ => ?_
  have hany : (rules.any fun r => decide (f.rule = r)) = rules.contains f.rule := by
    rw [Bool.eq_iff_iff]
    simp
  simp [wants, hany, Bool.and_comm]

theorem filters_coverage (v : Validator) :
    Filters { v with options.dictionaryCoverage := true }
      { v with options.dictionaryCoverage := false }
      fun f => !f.isOf .dictionaryCoverage := by
  intro m e
  have hflags : ({ v with options.dictionaryCoverage := false } : Validator).flags m e =
      ({ v with options.dictionaryCoverage := true } : Validator).flags m e := by cases e <;> rfl
  rw [hflags]
  refine findings_eq_filter fun f _ => ?_
  have hopt : f.rule.isOptIn = decide (f.rule = .dictionaryCoverage) := by cases f.rule <;> rfl
  simp [wants, hopt]

/-- Ends of relationships are looked at when a relationship comes, and at no other time. -/
theorem flags_endpoints (v : Validator) (m : Memory) (e : Event) :
    ({ v with options.warnUnknownAssets := false } : Validator).flags m e =
      (({ v with options.warnUnknownAssets := true } : Validator).flags m e).filter
        fun f => f.rule ≠ .unknownRelationshipEndpoint := by
  cases e with
  | relationship r =>
    let loud : Validator := { v with options.warnUnknownAssets := true }
    let quiet : Validator := { v with options.warnUnknownAssets := false }
    have hsplit : loud.flags m (.relationship r) =
        loud.endpointFlags m r ++ quiet.flags m (.relationship r) := rfl
    have hends : (loud.endpointFlags m r).filter
        (fun f => f.rule ≠ .unknownRelationshipEndpoint) = [] :=
      List.filter_eq_nil_iff.mpr fun f hf => by simp [rule_of_mem_endpointFlags hf]
    have htype : (quiet.flags m (.relationship r)).filter
        (fun f => f.rule ≠ .unknownRelationshipEndpoint) = quiet.flags m (.relationship r) :=
      List.filter_eq_self.mpr fun f hf => by
        obtain ⟨-, rfl⟩ := mem_flagIf.mp hf
        simp [Flag.rule]
    change quiet.flags m (.relationship r) = (loud.flags m (.relationship r)).filter _
    rw [hsplit, List.filter_append, hends, htype, List.nil_append]
  | _ =>
    refine (List.filter_eq_self.mpr fun f hf => ?_).symm
    have hrule := rule_mem_of_mem_flags hf
    have hne : f.rule ≠ .unknownRelationshipEndpoint := by
      intro he
      rw [he] at hrule
      simp [Event.rules] at hrule
    simpa using hne

theorem filters_endpoints (v : Validator) :
    Filters { v with options.warnUnknownAssets := true }
      { v with options.warnUnknownAssets := false }
      fun f => !f.isOf .unknownRelationshipEndpoint := by
  intro m e
  rw [flags_endpoints, filter_findings _ fun f => by rw [Flag.isOf_finding, ← decide_not]]
  rfl

/-- A report depends on what is switched off only in that the findings of disabled rules, and of
the two checks that options switch off, are left out. -/
theorem report_eq_filter (v : Validator) (es : List Event) :
    (∀ rules, ({ v with disabled := rules } : Validator).report es =
      (({ v with disabled := [] } : Validator).report es).filter
        fun f => !rules.any fun r => f.isOf r) ∧
    ({ v with options.warnUnknownAssets := false } : Validator).report es =
      (({ v with options.warnUnknownAssets := true } : Validator).report es).filter
        (fun f => !f.isOf .unknownRelationshipEndpoint) ∧
    ({ v with options.dictionaryCoverage := false } : Validator).report es =
      (({ v with options.dictionaryCoverage := true } : Validator).report es).filter
        (fun f => !f.isOf .dictionaryCoverage) :=
  ⟨fun rules => (v.filters_disabled rules).report es, v.filters_endpoints.report es,
    v.filters_coverage.report es⟩

end Validator
end ProcessLint
