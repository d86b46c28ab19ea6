import ProcessLint.Command.Execute
import ProcessLint.Proofs.DeclaredErrors

/-! The outcome of validating a set of files: each file has a report of its own, and the status
tells whether one of them has errors, cannot be read, or has a grave advisory. -/
namespace ProcessLint

open Heuristic (Banking)

/-- One of the rules for errors is enabled and has something to object to. -/
def Document.IsFaulty (s : Settings) (x : Document) : Prop :=
  s.enables .fieldBounds = true ∧ x.HasInvertedBounds ∨
    s.enables .missingDataRef = true ∧ x.HasDanglingReference ∨
    s.enables .enumDefaultOutsideValues = true ∧ x.HasStrayDefault

namespace Run

/-! ### One file -/

def documentAt? (t : Tree) (path : String) : Option Document := (t.read? path).bind Document.read?

def fileReport (d : Dictionary) (s : Settings) (hs : List Banking) (path : String) (x : Document) :
    FileReport where
  path := path
  report := (validator d s).validate x
  advisories := advisories s hs x

theorem reportOn?_eq (t : Tree) (d : Dictionary) (s : Settings) (hs : List Banking)
    (path : String) :
    reportOn? t (validator d s) s hs path = (documentAt? t path).map (fileReport d s hs path) := by
  unfold reportOn? documentAt?
  cases t.read? path with
  | none => rfl
  | some text => cases h : Document.read? text <;> simp [h, fileReport]

theorem mem_advisories {s : Settings} {hs : List Banking} {x : Document} {a : Finding} :
    a ∈ advisories s hs x ↔ a ∈ Heuristic.scan hs x.text ∧ s.isEnabled a.code = true := by
  unfold advisories
  cases hs with
  | nil => simp [Heuristic.scan]
  | cons h hs => simp

theorem wants_validator (d : Dictionary) (s : Settings) (r : Rule) :
    (validator d s).wants r = s.enables r := by
  cases h : s.enables r with
  | false => simp [Validator.wants, validator, Settings.mem_disabledRules, h]
  | true =>
    have hasked : (!r.isOptIn || s.options.dictionaryCoverage) = true := by
      simp only [Settings.enables, Bool.and_eq_true] at h
      exact h.1.1
    simp [Validator.wants, validator, Settings.mem_disabledRules, h, hasked]

theorem hasErrors_fileReport (d : Dictionary) (s : Settings) (hs : List Banking) (path : String)
    (x : Document) : (fileReport d s hs path x).report.hasErrors = true ↔ x.IsFaulty s := by
  have h := (validator d s).errors_validate_ne_nil_iff x
  simp only [wants_validator] at h
  rw [Document.IsFaulty, ← h]
  simp [fileReport, Report.hasErrors]

/-! ### All files -/

/-- What a run works with: the dictionary, the heuristics and the files to look at. -/
structure Inputs (t : Tree) (path : String) (dictionary : Option String) (s : Settings)
    (d : Dictionary) (hs : List Banking) (paths : List String) : Prop where
  dictionary : (dictionary.or s.dictionary).bind (dictionaryAt? t) = some d
  heuristics : Run.heuristics s = .ok hs
  paths : Discovery.collect t path s.selection = .ok paths

theorem exists_inputs_of_check {t : Tree} {path : String} {dictionary : Option String}
    {s : Settings} {r : Run} (h : check t path dictionary s = .ok r) :
    ∃ d hs paths, Inputs t path dictionary s d hs paths ∧
      r = ofFiles t (validator d s) s hs paths := by
  unfold check at h
  split at h
  · cases h
  · rename_i dictionaryPath hpath
    split at h
    · cases h
    · rename_i d hd
      split at h
      · cases h
      · rename_i hs hhs
        split at h
        · cases h
        · rename_i paths hpaths
          exact ⟨d, hs, paths, ⟨by rw [hpath]; exact hd, hhs, hpaths⟩, (Except.ok.inj h).symm⟩

theorem ofFiles_eq (t : Tree) (d : Dictionary) (s : Settings) (hs : List Banking)
    (paths : List String) :
    ofFiles t (validator d s) s hs paths =
      { files := paths.filterMap fun p => (documentAt? t p).map (fileReport d s hs p)
        failed := paths.countP fun p => (documentAt? t p).isNone } := by
  have hreports : paths.map (reportOn? t (validator d s) s hs) =
      paths.map fun p => (documentAt? t p).map (fileReport d s hs p) :=
    List.map_congr_left fun p _ => reportOn?_eq t d s hs p
  simp only [ofFiles, hreports, List.filterMap_map, ← List.countP_eq_length_filter, List.countP_map]
  simp [Function.comp_def]

section

variable {t : Tree} {d : Dictionary} {s : Settings} {hs : List Banking} {paths : List String}

theorem mem_files_iff {f : FileReport} :
    f ∈ (ofFiles t (validator d s) s hs paths).files ↔
      ∃ p ∈ paths, ∃ x, documentAt? t p = some x ∧ fileReport d s hs p x = f := by
  simp [ofFiles_eq]

theorem hasErrors_ofFiles_iff :
    (ofFiles t (validator d s) s hs paths).hasErrors = true ↔
      ∃ p ∈ paths, ∃ x, documentAt? t p = some x ∧ x.IsFaulty s := by
  simp only [hasErrors, List.any_eq_true, mem_files_iff]
  constructor
  · rintro ⟨_, ⟨p, hp, x, hx, rfl⟩, hf⟩
    exact ⟨p, hp, x, hx, (hasErrors_fileReport d s hs p x).mp hf⟩
  · rintro ⟨p, hp, x, hx, hf⟩
    exact ⟨_, ⟨p, hp, x, hx, rfl⟩, (hasErrors_fileReport d s hs p x).mpr hf⟩

theorem failed_ofFiles_iff :
    0 < (ofFiles t (validator d s) s hs paths).failed ↔ ∃ p ∈ paths, documentAt? t p = none := by
  simp [ofFiles_eq, List.countP_pos_iff]

theorem hasAdvisoriesAt_ofFiles_iff {threshold : Severity} :
    (ofFiles t (validator d s) s hs paths).hasAdvisoriesAt threshold = true ↔
      ∃ p ∈ paths, ∃ x, documentAt? t p = some x ∧ ∃ a ∈ Heuristic.scan hs x.text,
        s.isEnabled a.code = true ∧ a.severity.reaches threshold = true := by
  simp only [hasAdvisoriesAt, List.any_eq_true, mem_files_iff]
  constructor
  · rintro ⟨_, ⟨p, hp, x, hx, rfl⟩, a, ha, hreaches⟩
    obtain ⟨hscan, henabled⟩ := mem_advisories.mp ha
    exact ⟨p, hp, x, hx, a, hscan, henabled, hreaches⟩
  · rintro ⟨p, hp, x, hx, a, hscan, henabled, hreaches⟩
    exact ⟨_, ⟨p, hp, x, hx, rfl⟩, a, mem_advisories.mpr ⟨hscan, henabled⟩, hreaches⟩

end

/-! ### The order of the files -/

theorem pairwise_below (t : Tree) (s : Selection) (es : List Exclusion) (root : Location) :
    (Discovery.below t s es root).Pairwise fun l m => l.isUpTo m = true :=
  @List.pairwise_mergeSort _ Location.isUpTo (fun _ _ _ h k => Location.isUpTo_trans h k)
    (fun l m => (Bool.or_eq_true ..).mpr (Location.isUpTo_total l m)) _

theorem exists_places_of_collect {t : Tree} {path : String} {s : Selection} {paths : List String}
    (h : Discovery.collect t path s = .ok paths) :
    ∃ places : List Location, places.Pairwise (fun l m => l.isUpTo m = true) ∧
      paths = places.map (·.foldl Path.join path) := by
  unfold Discovery.collect at h
  split at h
  · exact ⟨[[]], List.pairwise_singleton _ _, (Except.ok.inj h).symm⟩
  · cases hes : Discovery.exclusions s.exclude with
    | error f => simp [hes, bind, Except.bind] at h
    | ok es =>
      simp only [hes, bind, Except.bind, pure, Except.pure] at h
      split at h
      · exact ⟨[], .nil, (Except.ok.inj h).symm⟩
      · split at h
        · rename_i l _
          split at h
          · cases h
          · exact ⟨Discovery.below t s es l, pairwise_below t s es l, (Except.ok.inj h).symm⟩
        · cases h

/-! ### The verdict -/

/-- What a run and its status tell about files that hold definitions or do not. -/
structure IsVerdictOn (t : Tree) (s : Settings) (d : Dictionary) (hs : List Banking)
    (paths : List String) (r : Run) (status : Nat) : Prop where
  /-- There is a report on each file that holds a definition, in the order of the files. -/
  files : r.files = paths.filterMap fun p => (documentAt? t p).map (fileReport d s hs p)
  /-- All other files are counted. -/
  failed : r.failed = paths.countP fun p => (documentAt? t p).isNone
  /-- Another run with the same dictionary and settings reports the same on a file with the same
  text, whatever the other files. -/
  independent (t' : Tree) (path' : String) (dictionary' : Option String) (r' : Run) :
    check t' path' dictionary' s = .ok r' →
      (dictionary'.or s.dictionary).bind (dictionaryAt? t') = some d →
        ∀ f ∈ r.files, ∀ f' ∈ r'.files, f'.path = f.path → t'.read? f.path = t.read? f.path → f' = f
  fails_iff : status = Command.failureStatus ↔
    (∃ p ∈ paths, documentAt? t p = none) ∨
      (∃ p ∈ paths, ∃ x, documentAt? t p = some x ∧ x.IsFaulty s) ∨
      ∃ threshold, s.failOn = some threshold ∧ ∃ p ∈ paths, ∃ x, documentAt? t p = some x ∧
        ∃ a ∈ Heuristic.scan hs x.text, s.isEnabled a.code = true ∧
          a.severity.reaches threshold = true
  passes : status ≠ Command.failureStatus → status = 0

theorem isVerdictOn_ofFiles {t : Tree} {s : Settings} {d : Dictionary} {hs : List Banking}
    {paths : List String} (hhs : heuristics s = .ok hs) :
    let r := ofFiles t (validator d s) s hs paths
    r.IsVerdictOn t s d hs paths (if r.isFailure s.failOn then Command.failureStatus else 0) := by
  intro r
  constructor
  case files => exact congrArg Run.files (ofFiles_eq t d s hs paths)
  case failed => exact congrArg Run.failed (ofFiles_eq t d s hs paths)
  case independent =>
    intro t' path' dictionary' r' hcheck hd f hf f' hf' hpath htext
    obtain ⟨d', hs', paths', hinputs, rfl⟩ := exists_inputs_of_check hcheck
    obtain rfl : d' = d := Option.some.inj (hinputs.dictionary.symm.trans hd)
    obtain rfl : hs' = hs := Except.ok.inj (hinputs.heuristics.symm.trans hhs)
    obtain ⟨p, -, x, hx, rfl⟩ := mem_files_iff.mp hf
    obtain ⟨p', -, x', hx', rfl⟩ := mem_files_iff.mp hf'
    -- one path and one text give one definition, whatever else is in the two trees
    obtain rfl : p' = p := hpath
    have htext : t'.read? p' = t.read? p' := htext
    obtain rfl : x' = x := by
      rw [documentAt?, htext] at hx'
      exact Option.some.inj (hx'.symm.trans hx)
    rfl
  case fails_iff =>
    have hstatus : (if r.isFailure s.failOn then Command.failureStatus else 0) =
        Command.failureStatus ↔ r.isFailure s.failOn = true := by
      cases r.isFailure s.failOn <;> simp [Command.failureStatus]
    rw [hstatus, isFailure, Bool.or_eq_true, Bool.or_eq_true, decide_eq_true_eq,
      hasErrors_ofFiles_iff, failed_ofFiles_iff, Option.any_eq_true]
    simp only [r, hasAdvisoriesAt_ofFiles_iff]
    rw [← or_assoc, or_comm (a := ∃ p ∈ paths, documentAt? t p = none)]
  case passes =>
    cases r.isFailure s.failOn <;> simp

end Run

namespace Command

/-- The verdict on a set of files is sound and complete. -/
theorem check_isVerdictOn {t : Tree} {o : CheckOptions} {source : SettingsSource} {s₀ : Settings}
    {r : Run} (hload : source.load t = .ok s₀)
    (hrun : Run.check t o.path o.dictionary (o.override s₀) = .ok r) :
    ∃ d hs paths, Run.Inputs t o.path o.dictionary (o.override s₀) d hs paths ∧
      (∃ places : List Location, places.Pairwise (fun l m => l.isUpTo m = true) ∧
        paths = places.map (·.foldl Path.join o.path)) ∧
      r.IsVerdictOn t (o.override s₀) d hs paths (check t o source).status := by
  have hstatus : (check t o source).status =
      if r.isFailure (o.override s₀).failOn then failureStatus else 0 := by
    simp [check, hload, hrun]
  obtain ⟨d, hs, paths, hinputs, rfl⟩ := Run.exists_inputs_of_check hrun
  refine ⟨d, hs, paths, hinputs, Run.exists_places_of_collect hinputs.paths, ?_⟩
  rw [hstatus]
  exact Run.isVerdictOn_ofFiles hinputs.heuristics

/-! ### A file with an error -/

/-- An entity of a loan without its data object, and a dictionary that lists nothing. -/
def loanTree : Tree where
  files := [(["dictionary.json"], "\x7b\x7d".toUTF8),
    (["loan.json"], "\x7b\"items\":[[\"entity\",\"Loan\",\"DO_Loan\"]]\x7d".toUTF8)]

def loanCheck : CheckOptions where
  path := "/loan.json"
  dictionary := some "/dictionary.json"

theorem check_loanTree_isVerdictOn :
    ∃ s₀ r, SettingsSource.default.load loanTree = .ok s₀ ∧
      Run.check loanTree loanCheck.path loanCheck.dictionary (loanCheck.override s₀) = .ok r ∧
      (check loanTree loanCheck .default).status = failureStatus ∧
      ∃ d hs paths,
        Run.Inputs loanTree loanCheck.path loanCheck.dictionary (loanCheck.override s₀) d hs paths ∧
        (∃ places : List Location, places.Pairwise (fun l m => l.isUpTo m = true) ∧
          paths = places.map (·.foldl Path.join loanCheck.path)) ∧
        r.IsVerdictOn loanTree (loanCheck.override s₀) d hs paths
          (check loanTree loanCheck .default).status := by
  have hload : SettingsSource.default.load loanTree = .ok {} := rfl
  cases hrun : Run.check loanTree loanCheck.path loanCheck.dictionary (loanCheck.override {}) with
  | ok r =>
    exact ⟨{}, r, hload, hrun, by decide +kernel, check_isVerdictOn hload hrun⟩
  | error f =>
    have hok : (Run.check loanTree loanCheck.path loanCheck.dictionary
        (loanCheck.override {})).toOption.isSome = true := by decide +kernel
    rw [hrun] at hok
    cases hok

end Command
end ProcessLint
