import ProcessLint.Proofs.Advice
import ProcessLint.Proofs.Filtering
import ProcessLint.Proofs.Verdict

/-! Rules switched off by a key: a run reports the same less the findings whose code or rule is the
key, case aside, and the keys that nothing answers to are those reported as unknown. -/
namespace ProcessLint

open Heuristic (Banking)

/-! ### Filtered runs -/

def Finding.answersTo (f : Finding) (key : String) : Bool :=
  Text.sameAscii f.code key || Text.sameAscii f.rule key

@[simp] theorem Flag.answersTo_finding (f : Flag) (key : String) :
    f.finding.answersTo key = f.rule.answersTo key := rfl

def FileReport.filter (keep : Finding → Bool) (f : FileReport) : FileReport where
  path := f.path
  report := f.report.filter keep
  advisories := f.advisories.filter keep

def Run.filter (keep : Finding → Bool) (r : Run) : Run where
  files := r.files.map (·.filter keep)
  failed := r.failed

/-! ### Settings with other rules -/

namespace Settings

def withRules (s : Settings) (rules : List (String × Option Bool)) : Settings :=
  { s with rules := rules }

def withRule (s : Settings) (key : String) (enabled : Option Bool) : Settings :=
  s.withRules ((key, enabled) :: s.rules)

theorem isEnabled_perm {s : Settings} {rules : List (String × Option Bool)}
    (h : rules.Perm s.rules) : (s.withRules rules).isEnabled = s.isEnabled :=
  funext fun _ => (h.filter _).all_eq

/-- An entry that switches nothing off changes nothing. -/
theorem isEnabled_withRule_of_ne (s : Settings) (key : String) {enabled : Option Bool}
    (h : enabled ≠ some false) : (s.withRule key enabled).isEnabled = s.isEnabled := by
  have hon : enabled.getD true = true := by
    cases enabled with
    | none => rfl
    | some b => simpa using h
  funext k
  by_cases hk : Text.sameAscii key k <;> simp [isEnabled, withRule, withRules, hk, hon]

/-- An entry switches off what is equal to its key, case aside. -/
theorem isEnabled_withRule (s : Settings) (key k : String) :
    (s.withRule key (some false)).isEnabled k = (s.isEnabled k && !Text.sameAscii k key) := by
  rw [Text.sameAscii_comm]
  by_cases hk : Text.sameAscii key k <;> simp [isEnabled, withRule, withRules, hk]

theorem enables_withRule (s : Settings) (key : String) (r : Rule) :
    (s.withRule key (some false)).enables r = (s.enables r && !r.answersTo key) := by
  have hoptions : (s.withRule key (some false)).options = s.options := rfl
  simp only [enables, isEnabled_withRule, hoptions, Rule.answersTo, Bool.not_or]
  ac_rfl

theorem mem_unknownKeys {s : Settings} {known : List String} {key : String} :
    key ∈ s.unknownKeys known ↔
      key ∈ s.rules.map Prod.fst ∧ (∀ r : Rule, r.answersTo key = false) ∧
        ∀ k ∈ known, Text.sameAscii k key = false := by
  have hrule : (Rule.ofKey? key).isNone = true ↔ ∀ r : Rule, r.answersTo key = false := by
    simp [Rule.ofKey?, Rule.mem_all]
  have hknown : (!known.any fun k => Text.sameAscii k key) = true ↔
      ∀ k ∈ known, Text.sameAscii k key = false := by simp
  rw [unknownKeys, List.mem_mergeSort, List.mem_filter, Bool.and_eq_true, hrule, hknown]

theorem mergeSort_eq_of_perm {ks ls : List String} (h : ks.Perm ls) :
    ks.mergeSort = ls.mergeSort := by
  have htrans (a b c : String) (hab : a ≤ b) (hbc : b ≤ c) : a ≤ c := String.le_trans hab hbc
  have hsorted (ks : List String) : ks.mergeSort.Pairwise (· ≤ ·) := by
    simpa using @List.pairwise_mergeSort _ (fun a b : String => a ≤ b) (by simpa using htrans)
      (fun a b => by simpa using String.le_total a b) ks
  have hperm : ks.mergeSort.Perm ls.mergeSort :=
    ((List.mergeSort_perm ks _).trans h).trans (List.mergeSort_perm ls _).symm
  exact hperm.eq_of_pairwise (fun a b _ _ => String.le_antisymm) (hsorted ks) (hsorted ls)

theorem unknownKeys_perm {s : Settings} {rules : List (String × Option Bool)}
    (h : rules.Perm s.rules) (known : List String) :
    (s.withRules rules).unknownKeys known = s.unknownKeys known :=
  mergeSort_eq_of_perm ((h.map Prod.fst).filter _)

end Settings

/-! ### Heuristics -/

namespace Heuristic.Banking

/-- The key is the name of the heuristic or one of its codes, in any case of its letters. -/
def answersTo (h : Banking) (key : String) : Bool :=
  Text.sameAscii h.name key || h.codes.any fun c => Text.sameAscii c key

end Heuristic.Banking

namespace Run

theorem forall_heuristicKeys_iff {key : String} :
    (∀ k ∈ heuristicKeys, Text.sameAscii k key = false) ↔
      ∀ h : Banking, h.answersTo key = false := by
  simp only [heuristicKeys, Heuristic.Preset.rules, List.forall_mem_flatMap, List.forall_mem_cons,
    Banking.mem_all, forall_const, Banking.answersTo, Bool.or_eq_false_iff, List.any_eq_false,
    Bool.not_eq_true]

/-! ### One file -/

variable {s : Settings} {key : String} {hs : List Banking}

/-- The heuristics that are left find the same, less what carries the name that is switched off. -/
theorem scan_filter (hs : List Banking) (key text : String) :
    Heuristic.scan (hs.filter fun h => !Text.sameAscii h.name key) text =
      (Heuristic.scan hs text).filter fun f => !Text.sameAscii f.rule key := by
  induction hs with
  | nil => rfl
  | cons h hs ih =>
    have hname (p : Bool) (hp : (!Text.sameAscii h.name key) = p) :
        ∀ f ∈ h.check (.ofText text), (!Text.sameAscii f.rule key) = p := by
      intro f hf
      rw [(Banking.carries_of_mem_check hf).1, hp]
    simp only [Heuristic.scan, List.flatMap_cons, List.filter_append] at ih ⊢
    cases hp : !Text.sameAscii h.name key with
    | false =>
      have hnone : (h.check (.ofText text)).filter (fun f => !Text.sameAscii f.rule key) = [] :=
        List.filter_eq_nil_iff.mpr fun f hf => by rw [hname false hp f hf]; decide
      rw [List.filter_cons, hp, if_neg Bool.false_ne_true, hnone, ih, List.nil_append]
    | true =>
      have hall : (h.check (.ofText text)).filter (fun f => !Text.sameAscii f.rule key) =
          h.check (.ofText text) := List.filter_eq_self.mpr (hname true hp)
      rw [List.filter_cons, hp, if_pos rfl, hall, List.flatMap_cons, ih]

theorem advisories_withRule (s : Settings) (key : String) (hs : List Banking) (d : Document) :
    advisories (s.withRule key (some false)) (hs.filter fun h => !Text.sameAscii h.name key) d =
      (advisories s hs d).filter fun f => !f.answersTo key := by
  have hscan (s : Settings) (hs : List Banking) : advisories s hs d =
      (Heuristic.scan hs d.text).filter fun f => s.isEnabled f.code := by
    cases hs <;> rfl
  rw [hscan, hscan, scan_filter, List.filter_filter, List.filter_filter]
  refine List.filter_congr fun f _ => ?_
  simp only [Settings.isEnabled_withRule, Finding.answersTo, Bool.not_or]
  ac_rfl

theorem validate_withRule (d : Dictionary) (s : Settings) (key : String) (x : Document) :
    (validator d (s.withRule key (some false))).validate x =
      ((validator d s).validate x).filter fun f => !f.answersTo key := by
  have hfilters : Validator.Filters (validator d s) (validator d (s.withRule key (some false)))
      fun f => !f.answersTo key := by
    intro m e
    have hflags : (validator d (s.withRule key (some false))).flags m e =
        (validator d s).flags m e := by cases e <;> rfl
    rw [hflags]
    refine Validator.findings_eq_filter fun f _ => ?_
    rw [wants_validator, wants_validator, Settings.enables_withRule, Flag.answersTo_finding]
  exact hfilters.report x.events

theorem heuristics_withRule (s : Settings) (key : String) :
    heuristics (s.withRule key (some false)) =
      (heuristics s).map (·.filter fun h => !Text.sameAscii h.name key) := by
  have hpreset : (s.withRule key (some false)).preset = s.preset := rfl
  simp only [heuristics, hpreset]
  cases Heuristic.Preset.ofName s.preset with
  | error u => rfl
  | ok p =>
    simp only [Except.map, Except.ok.injEq, List.filter_filter, Settings.isEnabled_withRule]
    simp only [Bool.and_comm]

/-! ### Runs -/

theorem ofFiles_withRule (t : Tree) (d : Dictionary) (s : Settings) (key : String)
    (hs : List Banking) (paths : List String) :
    ofFiles t (validator d (s.withRule key (some false))) (s.withRule key (some false))
        (hs.filter fun h => !Text.sameAscii h.name key) paths =
      (ofFiles t (validator d s) s hs paths).filter fun f => !f.answersTo key := by
  have hreport (p : String) : fileReport d (s.withRule key (some false))
      (hs.filter fun h => !Text.sameAscii h.name key) p =
        fun x => (fileReport d s hs p x).filter fun f => !f.answersTo key := by
    funext x
    simp only [fileReport, FileReport.filter, validate_withRule, advisories_withRule]
  simp only [ofFiles_eq, filter, List.map_filterMap, Option.map_map, Function.comp_def, hreport]

/-- Disabling a key takes from a run what carries it, and does not change whether there is a run. -/
theorem check_withRule (t : Tree) (path : String) (dictionary : Option String) (s : Settings)
    (key : String) :
    check t path dictionary (s.withRule key (some false)) =
      (check t path dictionary s).map (filter fun f => !f.answersTo key) := by
  have hdictionary : (s.withRule key (some false)).dictionary = s.dictionary := rfl
  have hselection : (s.withRule key (some false)).selection = s.selection := rfl
  unfold check
  rw [heuristics_withRule, hdictionary, hselection]
  cases dictionary.or s.dictionary with
  | none => rfl
  | some dictionaryPath =>
    simp only []
    cases dictionaryAt? t dictionaryPath with
    | none => rfl
    | some d =>
      cases heuristics s with
      | error u => rfl
      | ok hs =>
        simp only [Except.map]
        cases Discovery.collect t path s.selection with
        | error f => rfl
        | ok paths => simp only [ofFiles_withRule]

/-- A run depends on the entries of rules only in what is enabled under which key. -/
theorem check_congr {s : Settings} {rules : List (String × Option Bool)}
    (h : (s.withRules rules).isEnabled = s.isEnabled) (t : Tree) (path : String)
    (dictionary : Option String) :
    check t path dictionary (s.withRules rules) = check t path dictionary s := by
  have henables : (s.withRules rules).enables = s.enables := by
    funext r
    simp only [Settings.enables, h]
    rfl
  have hdisabled : (s.withRules rules).disabledRules = s.disabledRules := by
    simp only [Settings.disabledRules, henables]
  have hheuristics : heuristics (s.withRules rules) = heuristics s := by
    simp only [heuristics, h]
    rfl
  have hvalidator (d : Dictionary) : validator d (s.withRules rules) = validator d s := by
    simp only [validator, hdisabled]
    rfl
  have hadvisories : advisories (s.withRules rules) = advisories s := by
    funext hs d
    simp only [advisories, h]
  have hfiles (d : Dictionary) (hs : List Banking) (paths : List String) :
      ofFiles t (validator d (s.withRules rules)) (s.withRules rules) hs paths =
        ofFiles t (validator d s) s hs paths := by
    have hreport : fileReport d (s.withRules rules) = fileReport d s := by
      funext hs p x
      simp only [fileReport, hvalidator, hadvisories]
    rw [ofFiles_eq, ofFiles_eq, hreport]
  simp only [check, hheuristics, hfiles]
  rfl

/-- What a key switches off and whether it is unknown go by the same comparison. An entry that
disables a key takes from every run just the findings and advisories whose code or rule is the key,
case aside; any other entry changes nothing; and the key is unknown just when no rule and no
heuristic has it as its name or code. The order of the entries does not count. -/
theorem check_obeys_rules (t : Tree) (path : String) (dictionary : Option String) (s : Settings) :
    (∀ rules : List (String × Option Bool), rules.Perm s.rules →
        check t path dictionary (s.withRules rules) = check t path dictionary s ∧
          unknownKeys (s.withRules rules) = unknownKeys s) ∧
      ∀ key : String,
        check t path dictionary (s.withRule key (some false)) =
            (check t path dictionary s).map (filter fun f => !f.answersTo key) ∧
          (∀ enabled : Option Bool, enabled ≠ some false →
            check t path dictionary (s.withRule key enabled) = check t path dictionary s) ∧
          ∀ enabled : Option Bool, key ∈ unknownKeys (s.withRule key enabled) ↔
            (∀ r : Rule, r.answersTo key = false) ∧ ∀ h : Banking, h.answersTo key = false := by
  refine ⟨fun rules h => ⟨?_, Settings.unknownKeys_perm h _⟩, fun key => ⟨?_, ?_, ?_⟩⟩
  · exact check_congr (Settings.isEnabled_perm h) t path dictionary
  · exact check_withRule t path dictionary s key
  · intro enabled h
    exact check_congr (s.isEnabled_withRule_of_ne key h) t path dictionary
  · intro enabled
    rw [unknownKeys, Settings.mem_unknownKeys, forall_heuristicKeys_iff]
    simp [Settings.withRule, Settings.withRules]

/-! ### A disabled rule -/

abbrev loanSettings : Settings where
  rules := [("EBL005", some true), ("sox", some false)]

theorem check_loanTree_obeys_rules :
    let run := check Command.loanTree "/loan.json" (some "/dictionary.json")
    let rules := [("sox", some false), ("EBL005", some true)]
    rules.Perm loanSettings.rules ∧
      run (loanSettings.withRules rules) = run loanSettings ∧
      (run loanSettings).toOption.map errorCount = some 1 ∧
      run (loanSettings.withRule "Missing-Data-Ref" (some false)) =
        (run loanSettings).map (filter fun f => !f.answersTo "Missing-Data-Ref") ∧
      (run (loanSettings.withRule "Missing-Data-Ref" (some false))).toOption.map errorCount =
        some 0 ∧
      none ≠ some false ∧
      run (loanSettings.withRule "missing" none) = run loanSettings ∧
      "missing" ∈ unknownKeys (loanSettings.withRule "missing" none) := by
  intro run rules
  have hperm : rules.Perm loanSettings.rules := .swap ..
  obtain ⟨horder, hkeys⟩ :=
    check_obeys_rules Command.loanTree "/loan.json" (some "/dictionary.json") loanSettings
  have hunknown := (hkeys "missing").2.2 none
  exact ⟨hperm, (horder rules hperm).1, by decide +kernel, (hkeys "Missing-Data-Ref").1,
    by decide +kernel, by decide, (hkeys "missing").2.1 none (by decide),
    hunknown.mpr ⟨fun r => by cases r <;> decide, fun h => by cases h <;> decide⟩⟩

end Run
end ProcessLint
