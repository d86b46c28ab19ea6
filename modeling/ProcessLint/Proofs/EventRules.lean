import ProcessLint.Validation.Basic

/-! Which rules an event can raise. -/
namespace ProcessLint

/-- The rules that are looked at when an event comes. -/
def Event.rules : Event → List Rule
  | .dataObject _ => [.dictionaryCoverage, .fieldBounds, .enumWithoutValues]
  | .entity _ => [.dictionaryCoverage]
  | .asset _ => []
  | .relationship _ => [.unknownRelationshipEndpoint, .unknownRelationshipType]
  | .enter _ => [.dictionaryCoverage]
  | .leave _ => [.unusedProcessActor]
  | .action _ =>
    [.actionShape, .unknownActor, .unknownVerb, .verbNeverPermitted, .actorVerbNotAllowed,
     .dataPermission]
  | .validation _ | .rule _ | .report _ => [.reservedKeyword]
  | .close => [.missingDataRef, .enumDefaultOutsideValues, .hostedOnWithoutCatalog]

namespace Validator

variable {v : Validator} {m : Memory} {f : Flag}

theorem rule_of_mem_fieldFlags {x : Field} (h : f ∈ fieldFlags x) :
    f.rule = .fieldBounds ∨ f.rule = .enumWithoutValues := by
  rcases List.mem_append.mp h with h | h
  · left
    split at h
    · obtain ⟨-, rfl⟩ := mem_flagIf.mp h
      rfl
    · simp at h
  · obtain ⟨-, rfl⟩ := mem_flagIf.mp h
    exact Or.inr rfl

theorem rule_of_mem_endpointFlags {r : Relationship} (h : f ∈ v.endpointFlags m r) :
    f.rule = .unknownRelationshipEndpoint := by
  rcases List.mem_append.mp h with h | h <;> (obtain ⟨-, rfl⟩ := mem_flagIf.mp h; rfl)

theorem rule_of_mem_tokenFlags {a : Action} {t : DataToken} (h : f ∈ v.tokenFlags a t) :
    f.rule = .dataPermission := by
  simp only [tokenFlags] at h
  split at h
  · obtain ⟨-, rfl⟩ := mem_flagIf.mp h
    rfl
  · simp at h

theorem rule_of_mem_textFlags {place text : String} (h : f ∈ v.textFlags place text) :
    f.rule = .reservedKeyword := by
  simp only [textFlags] at h
  split at h
  · simp at h
  · obtain ⟨k, -, rfl⟩ := List.mem_map.mp h
    rfl

theorem rule_mem_of_mem_actionFlags {line : String} (h : f ∈ v.actionFlags line) :
    f.rule ∈ (Event.action line).rules := by
  simp only [actionFlags] at h
  split at h
  · rw [List.mem_singleton.mp h]
    simp [Event.rules, Flag.rule]
  · simp only [List.mem_append, mem_flagIf, List.mem_flatMap] at h
    rcases h with h | ⟨t, -, ht⟩
    · rcases h with ((⟨-, rfl⟩ | ⟨-, rfl⟩) | ⟨-, rfl⟩) | ⟨-, rfl⟩ <;> simp [Event.rules, Flag.rule]
    · simp [Event.rules, rule_of_mem_tokenFlags ht]

theorem rule_of_mem_referenceFlags (h : f ∈ referenceFlags m) : f.rule = .missingDataRef := by
  obtain ⟨r, -, rfl⟩ := List.mem_map.mp h
  rfl

theorem rule_of_mem_enumFlags (h : f ∈ enumFlags m) : f.rule = .enumDefaultOutsideValues := by
  obtain ⟨r, -, hr⟩ := List.mem_filterMap.mp h
  obtain ⟨d, -, rfl⟩ := Option.map_eq_some_iff.mp hr
  rfl

theorem rule_of_mem_hostingFlags (h : f ∈ v.hostingFlags m) :
    f.rule = .hostedOnWithoutCatalog := by
  simp only [hostingFlags] at h
  split at h
  · simp at h
  · obtain ⟨r, -, rfl⟩ := List.mem_map.mp h
    rfl

theorem rule_mem_of_mem_settleFlags (h : f ∈ v.settleFlags m) : f.rule ∈ Event.close.rules := by
  simp only [settleFlags] at h
  split at h
  · simp at h
  · rcases List.mem_append.mp h with h | h
    · rcases List.mem_append.mp h with h | h
      · simp [Event.rules, rule_of_mem_referenceFlags h]
      · simp [Event.rules, rule_of_mem_enumFlags h]
    · simp [Event.rules, rule_of_mem_hostingFlags h]

/-- An event raises flags of its own rules only. -/
theorem rule_mem_of_mem_flags {e : Event} (h : f ∈ v.flags m e) : f.rule ∈ e.rules := by
  cases e with
  | dataObject d =>
    simp only [flags, dataObjectFlags, List.mem_append, mem_flagIf, List.mem_flatMap] at h
    rcases h with ⟨-, rfl⟩ | ⟨x, -, hx⟩
    · simp [Event.rules, Flag.rule]
    · rcases rule_of_mem_fieldFlags hx with hr | hr <;> simp [Event.rules, hr]
  | entity e =>
    obtain ⟨-, rfl⟩ := mem_flagIf.mp h
    simp [Event.rules, Flag.rule]
  | asset a => simp [flags] at h
  | relationship r =>
    simp only [flags, relationshipFlags, List.mem_append, mem_flagIf] at h
    rcases h with h | ⟨-, rfl⟩
    · split at h
      · simp [Event.rules, rule_of_mem_endpointFlags h]
      · simp at h
    · simp [Event.rules, Flag.rule]
  | enter p =>
    simp only [flags, enterFlags] at h
    split at h
    · obtain ⟨a, -, rfl⟩ := List.mem_map.mp h
      simp [Event.rules, Flag.rule]
    · simp at h
  | leave p =>
    simp only [flags, leaveFlags] at h
    split at h
    · obtain ⟨a, -, rfl⟩ := List.mem_map.mp h
      simp [Event.rules, Flag.rule]
    · simp at h
  | action line => exact rule_mem_of_mem_actionFlags h
  | validation line => simp [Event.rules, rule_of_mem_textFlags h]
  | rule r =>
    rcases List.mem_append.mp h with h | h <;> simp [Event.rules, rule_of_mem_textFlags h]
  | report r => simp [Event.rules, rule_of_mem_textFlags h]
  | close => exact rule_mem_of_mem_settleFlags h

theorem exists_mem_flags_of_mem_flagsOf {es : List Event} (h : f ∈ v.flagsOf m es) :
    ∃ m', ∃ e ∈ es, f ∈ v.flags m' e := by
  induction es generalizing m with
  | nil => simp [flagsOf] at h
  | cons e es ih =>
    rcases List.mem_append.mp h with h | h
    · exact ⟨m, e, by simp, h⟩
    · obtain ⟨m', e', he', hf⟩ := ih h
      exact ⟨m', e', by simp [he'], hf⟩

theorem exists_rule_mem_of_mem_flagsOf {es : List Event} (h : f ∈ v.flagsOf m es) :
    ∃ e ∈ es, f.rule ∈ e.rules := by
  obtain ⟨m', e, he, hf⟩ := exists_mem_flags_of_mem_flagsOf h
  exact ⟨e, he, rule_mem_of_mem_flags hf⟩

theorem findings_of_rule (v : Validator) {fs : List Flag} {r : Rule} (h : ∀ f ∈ fs, f.rule = r) :
    v.findings fs = if v.wants r then fs.map Flag.finding else [] := by
  cases hw : v.wants r with
  | true =>
    have hall : (fs.filter fun f => v.wants f.rule) = fs :=
      List.filter_eq_self.mpr fun f hf => by rw [h f hf, hw]
    rw [findings, hall]
    rfl
  | false =>
    have hnone : (fs.filter fun f => v.wants f.rule) = [] :=
      List.filter_eq_nil_iff.mpr fun f hf => by rw [h f hf, hw]; decide
    rw [findings, hnone]
    rfl

theorem filter_rule_eq_ite {fs : List Flag} {q : Rule} (h : ∀ f ∈ fs, f.rule = q) (r : Rule) :
    fs.filter (·.rule = r) = if q = r then fs else [] := by
  by_cases hq : q = r
  · rw [if_pos hq]
    exact List.filter_eq_self.mpr fun f hf => decide_eq_true ((h f hf).trans hq)
  · rw [if_neg hq]
    exact List.filter_eq_nil_iff.mpr fun f hf => by simpa [h f hf] using hq

theorem filter_rule_eq_self {fs : List Flag} {r : Rule} (h : ∀ f ∈ fs, f.rule = r) :
    fs.filter (·.rule = r) = fs := List.filter_eq_self.mpr fun f hf => decide_eq_true (h f hf)

theorem filter_rule_eq_nil {fs : List Flag} {r : Rule} (h : ∀ f ∈ fs, f.rule ≠ r) :
    fs.filter (·.rule = r) = [] := List.filter_eq_nil_iff.mpr fun f hf => by simpa using h f hf

/-- Events that do not look at a rule raise no flags of it. -/
theorem filter_flagsOf_eq_nil {es : List Event} {r : Rule} (h : ∀ e ∈ es, r ∉ e.rules) :
    (v.flagsOf m es).filter (·.rule = r) = [] := by
  refine filter_rule_eq_nil fun f hf heq => ?_
  obtain ⟨e, he, hr⟩ := exists_rule_mem_of_mem_flagsOf hf
  exact h e he (heq ▸ hr)

end Validator
end ProcessLint
