import Mathlib.Data.List.Forall2
import Mathlib.Data.List.Perm.Basic
import ProcessLint.Run.Output

/-! What a run displays: each finding stands once in the compact output and once in the text, the
summary counts what stands under each heading, and colors are all that a terminal adds. -/
namespace ProcessLint

/-! ### Rows of a text -/

namespace Text

/-- What stands between the line feeds of a text, and behind the last one. -/
def rows (s : String) : List String := (pieces (· == '\n') s.toList).map String.ofList

def withoutReturn (cs : List Char) : List Char :=
  if cs.getLast? = some '\r' then cs.dropLast else cs

theorem pieces_unlines {ls : List (List Char)} (h : ∀ l ∈ ls, '\n' ∉ l) :
    pieces (· == '\n') (ls.flatMap fun l => l ++ ['\n']) = ls ++ [[]] := by
  induction ls with
  | nil => rfl
  | cons l ls ih =>
    have hl : ∀ c ∈ l, (c == '\n') = false := fun c hc =>
      beq_false_of_ne fun hn => h l List.mem_cons_self (hn ▸ hc)
    have hrest := ih fun k hk => h k (List.mem_cons_of_mem _ hk)
    rw [List.flatMap_cons, List.append_assoc, List.singleton_append,
      pieces_append_cons _ hl (by decide), hrest, List.cons_append]

theorem lines_unlines {ls : List (List Char)} (h : ∀ l ∈ ls, '\n' ∉ l) :
    lines (ls.flatMap fun l => l ++ ['\n']) = ls.map withoutReturn := by
  simp [lines, pieces_unlines h, withoutReturn]

theorem withoutReturn_sublist (cs : List Char) : (withoutReturn cs).Sublist cs := by
  rw [withoutReturn]
  split
  · exact cs.dropLast_sublist
  · exact .refl cs

/-! ### Control codes -/

def endsCode (c : Char) : Bool := '@' ≤ c && c ≤ '~'

mutual

/-- The text without its control codes, each from an escape character with a bracket to the first
character that ends it. -/
def withoutCodes : List Char → List Char
  | [] => []
  | '\x1b' :: '[' :: r => behindCode r
  | c :: r => c :: withoutCodes r

def behindCode : List Char → List Char
  | [] => []
  | c :: r => if endsCode c then withoutCodes r else behindCode r

end

theorem withoutCodes_append {cs : List Char} (h : '\x1b' ∉ cs) (r : List Char) :
    withoutCodes (cs ++ r) = cs ++ withoutCodes r := by
  induction cs with
  | nil => rfl
  | cons c cs ih =>
    have hc : c ≠ '\x1b' := fun hc => h (hc ▸ List.mem_cons_self)
    have hrest := ih fun hcs => h (List.mem_cons_of_mem _ hcs)
    rw [List.cons_append, withoutCodes, hrest, List.cons_append]
    exact fun _ hesc => absurd hesc hc

/-- Deleting the control codes of the first text leaves the second one. -/
def Uncolors (s t : String) : Prop :=
  ∀ r, withoutCodes (s.toList ++ r) = t.toList ++ withoutCodes r

namespace Uncolors

variable {s t u v : String}

theorem append (h : Uncolors s t) (k : Uncolors u v) : Uncolors (s ++ u) (t ++ v) := by
  intro r
  rw [String.toList_append, List.append_assoc, h, k, String.toList_append, List.append_assoc]

theorem of_not_mem (h : '\x1b' ∉ s.toList) : Uncolors s s := withoutCodes_append h

theorem code (c : Run.Color) : Uncolors c.code "" := by
  intro r
  cases c <;> rfl

theorem paint (c : Run.Color) (h : '\x1b' ∉ s.toList) :
    Uncolors (Run.paint true c s) (Run.paint false c s) := by
  have hreset : Uncolors "\x1b[0m" "" := fun _ => rfl
  have hpainted := ((code c).append (of_not_mem h)).append hreset
  rwa [String.empty_append, String.append_empty] at hpainted

theorem eq (h : Uncolors s t) : withoutCodes s.toList = t.toList := by
  have := h []
  rwa [List.append_nil, withoutCodes, List.append_nil] at this

end Uncolors

/-! ### Plain texts -/

/-- The text stands on one line and has no control codes. -/
def IsPlain (s : String) : Prop := ∀ c ∈ s.toList, c ≠ '\n' ∧ c ≠ '\x1b'

instance (s : String) : Decidable (IsPlain s) := List.decidableBAll _ s.toList

@[simp] theorem isPlain_append {s t : String} : IsPlain (s ++ t) ↔ IsPlain s ∧ IsPlain t := by
  simp only [IsPlain, String.toList_append, List.forall_mem_append]

@[simp] theorem isPlain_nat (n : Nat) : IsPlain (toString n) := by
  intro c hc
  have hdigit : c.isDigit = true := by
    rw [Nat.toString_eq_repr, Nat.toList_repr] at hc
    exact Nat.isDigit_of_mem_toDigits (by decide) (by decide) hc
  exact ⟨ne_of_apply_ne Char.isDigit (by simp [hdigit]),
    ne_of_apply_ne Char.isDigit (by simp [hdigit])⟩

theorem IsPlain.not_mem_feed {s : String} (h : IsPlain s) : '\n' ∉ s.toList :=
  fun hc => (h _ hc).1 rfl

theorem IsPlain.not_mem_escape {s : String} (h : IsPlain s) : '\x1b' ∉ s.toList :=
  fun hc => (h _ hc).2 rfl

/-- The second text is plain, and the first one has control codes put in. -/
structure IsColored (s t : String) : Prop where
  uncolors : Uncolors s t
  plain : IsPlain t

namespace IsColored

variable {s t u v : String}

theorem refl (h : IsPlain s) : IsColored s s := ⟨.of_not_mem h.not_mem_escape, h⟩

theorem append (h : IsColored s t) (k : IsColored u v) : IsColored (s ++ u) (t ++ v) :=
  ⟨h.uncolors.append k.uncolors, isPlain_append.mpr ⟨h.plain, k.plain⟩⟩

theorem paint (c : Run.Color) (h : IsPlain s) :
    IsColored (Run.paint true c s) (Run.paint false c s) := ⟨.paint c h.not_mem_escape, h⟩

theorem plain_of_forall₂ {ks ls : List String} (h : List.Forall₂ IsColored ks ls) :
    ∀ l ∈ ls, IsPlain l := by
  induction h with
  | nil => exact nofun
  | cons hl _ ih => exact List.forall_mem_cons.mpr ⟨hl.plain, ih⟩

end IsColored

end Text

namespace Finding

/-- No text of the finding breaks a line or has control codes. -/
structure IsPlain (f : Finding) : Prop where
  code : Text.IsPlain f.code
  rule : Text.IsPlain f.rule
  message : Text.IsPlain f.message
  suggestion : ∀ s ∈ f.suggestion, Text.IsPlain s

instance (f : Finding) : Decidable f.IsPlain :=
  decidable_of_iff (Text.IsPlain f.code ∧ Text.IsPlain f.rule ∧ Text.IsPlain f.message ∧
      ∀ s ∈ f.suggestion, Text.IsPlain s)
    ⟨fun ⟨hc, hr, hm, hs⟩ => ⟨hc, hr, hm, hs⟩, fun ⟨hc, hr, hm, hs⟩ => ⟨hc, hr, hm, hs⟩⟩

def formatLines (f : Finding) : List String := (Text.lines f.format.toList).map String.ofList

/-- Code and rule, severity and message, and the suggestion if there is one. -/
def parts (f : Finding) : List String :=
  [f.code ++ " " ++ f.rule, "  " ++ f.severity.name ++ ": " ++ f.message] ++
    f.suggestion.toList.map fun s => "  = help: " ++ s

variable {f : Finding}

theorem toList_format (f : Finding) :
    f.format.toList = (f.parts.map String.toList).flatMap fun l => l ++ ['\n'] := by
  cases h : f.suggestion <;> simp [format, parts, h]

theorem IsPlain.of_mem_parts (h : f.IsPlain) : ∀ l ∈ f.parts, Text.IsPlain l := by
  have hname : Text.IsPlain f.severity.name := by cases f.severity <;> decide
  have hhead : Text.IsPlain (f.code ++ " " ++ f.rule) := by
    simp only [Text.isPlain_append]
    exact ⟨⟨h.code, by decide⟩, h.rule⟩
  have hbody : Text.IsPlain ("  " ++ f.severity.name ++ ": " ++ f.message) := by
    simp only [Text.isPlain_append]
    exact ⟨⟨⟨by decide, hname⟩, by decide⟩, h.message⟩
  have hhelp : ∀ s ∈ f.suggestion, Text.IsPlain ("  = help: " ++ s) := fun s hs =>
    Text.isPlain_append.mpr ⟨by decide, h.suggestion s hs⟩
  simpa [parts, hhead, hbody] using hhelp

theorem formatLines_eq (h : f.IsPlain) :
    f.formatLines = f.parts.map fun l => .ofList (Text.withoutReturn l.toList) := by
  have hlines : ∀ l ∈ f.parts.map String.toList, '\n' ∉ l :=
    List.forall_mem_map.mpr fun l hl => (h.of_mem_parts l hl).not_mem_feed
  rw [formatLines, toList_format, Text.lines_unlines hlines, List.map_map, List.map_map]
  rfl

theorem IsPlain.of_mem_formatLines (h : f.IsPlain) : ∀ l ∈ f.formatLines, Text.IsPlain l := by
  rw [formatLines_eq h]
  refine List.forall_mem_map.mpr fun l hl c hc => h.of_mem_parts l hl c ?_
  rw [String.toList_ofList] at hc
  exact Text.withoutReturn_sublist l.toList |>.subset hc

end Finding

structure FileReport.IsPlain (f : FileReport) : Prop where
  path : Text.IsPlain f.path
  errors : ∀ g ∈ f.report.errors, g.IsPlain
  warnings : ∀ g ∈ f.report.warnings, g.IsPlain
  advisories : ∀ g ∈ f.advisories, g.IsPlain

instance (f : FileReport) : Decidable f.IsPlain :=
  decidable_of_iff (Text.IsPlain f.path ∧ (∀ g ∈ f.report.errors, g.IsPlain) ∧
      (∀ g ∈ f.report.warnings, g.IsPlain) ∧ ∀ g ∈ f.advisories, g.IsPlain)
    ⟨fun ⟨hp, he, hw, ha⟩ => ⟨hp, he, hw, ha⟩, fun ⟨hp, he, hw, ha⟩ => ⟨hp, he, hw, ha⟩⟩

theorem FileReport.IsPlain.of_mem_findings {f : FileReport} (h : f.IsPlain) :
    ∀ g ∈ f.findings, g.IsPlain := by
  intro g hg
  simp only [findings, Report.findings, List.mem_append] at hg
  rcases hg with (hg | hg) | hg
  · exact h.errors g hg
  · exact h.warnings g hg
  · exact h.advisories g hg

namespace Run

def IsPlain (r : Run) : Prop := ∀ f ∈ r.files, f.IsPlain

instance (r : Run) : Decidable r.IsPlain := inferInstanceAs (Decidable (∀ f ∈ r.files, _))

/-! ### What is displayed -/

/-- A heading with the findings under it. -/
structure Group where
  heading : String
  findings : List Finding

def Group.lines (g : Group) : List String :=
  ("  " ++ g.heading) :: g.findings.flatMap fun f => f.formatLines.map fun l => "    " ++ l

def groupsOf (heading : String) (fs : List Finding) : List Group :=
  if fs = [] then [] else [⟨heading, fs⟩]

section

variable (heading : String) (fs : List Finding)

@[simp] theorem flatMap_findings_groupsOf : (groupsOf heading fs).flatMap Group.findings = fs := by
  cases fs <;> simp [groupsOf]

@[simp] theorem filter_groupsOf (other : String) :
    (groupsOf heading fs).filter (fun g => g.heading = other) =
      if heading = other then groupsOf heading fs else [] := by
  by_cases h : heading = other <;> cases fs <;> simp [groupsOf, h]

theorem groupLines_eq (c : Color) :
    groupLines false heading c fs = (groupsOf heading fs).flatMap Group.lines := by
  cases fs <;>
    simp [groupLines, groupsOf, paint, Group.lines, Finding.formatLines, Function.comp_def]

end

/-- A file that is displayed: its path, and groups of findings. -/
structure Entry where
  path : String
  groups : List Group

namespace Entry

/-- Warnings, errors and advisories, as far as there are any. -/
def ofFile (f : FileReport) : Entry where
  path := f.path
  groups := groupsOf "Warnings:" f.report.warnings ++ groupsOf "Errors:" f.report.errors ++
    groupsOf "Advisories:" f.advisories

def lines (e : Entry) : List String := e.path :: e.groups.flatMap Group.lines ++ [""]

def findings (e : Entry) : List Finding := e.groups.flatMap Group.findings

def under (e : Entry) (heading : String) : List Finding :=
  (e.groups.filter fun g => g.heading = heading).flatMap Group.findings

theorem under_warnings (f : FileReport) : (ofFile f).under "Warnings:" = f.report.warnings := by
  simp [ofFile, under]

theorem under_errors (f : FileReport) : (ofFile f).under "Errors:" = f.report.errors := by
  simp [ofFile, under]

theorem under_advisories (f : FileReport) : (ofFile f).under "Advisories:" = f.advisories := by
  simp [ofFile, under]

theorem findings_perm (f : FileReport) : (ofFile f).findings.Perm f.findings := by
  have hfindings : (ofFile f).findings = f.report.warnings ++ f.report.errors ++ f.advisories := by
    simp [ofFile, findings]
  rw [hfindings]
  exact List.perm_append_comm.append_right _

end Entry

def entries (r : Run) : List Entry := (r.files.filter fun f => f.findings ≠ []).map Entry.ofFile

def shownUnder (r : Run) (heading : String) : List Finding := r.entries.flatMap (·.under heading)

theorem flatMap_entries {β : Type} (r : Run) (g : Entry → List β) :
    r.entries.flatMap g =
      r.files.flatMap fun f => if f.findings = [] then [] else g (.ofFile f) := by
  rw [entries, List.flatMap_map]
  induction r.files with
  | nil => rfl
  | cons f fs ih => by_cases h : f.findings = [] <;> simpa [h] using ih

theorem fileLines_eq (f : FileReport) :
    fileLines false f = if f.findings = [] then [] else (Entry.ofFile f).lines := by
  by_cases h : f.findings = []
  · rw [if_pos h, fileLines, if_pos (f.isClean_iff.mpr h)]
  · rw [if_neg h, fileLines, if_neg (mt f.isClean_iff.mp h)]
    simp [groupLines_eq, Entry.lines, Entry.ofFile]

theorem textLines_eq (r : Run) :
    r.textLines false = r.entries.flatMap Entry.lines ++ [r.summary false] := by
  rw [textLines, flatMap_entries, funext fileLines_eq]

/-! ### Counts -/

theorem foldl_add_length {α : Type} (fs : List FileReport) (g : FileReport → List α) (n : Nat) :
    fs.foldl (fun n f => n + (g f).length) n = n + (fs.flatMap g).length := by
  induction fs generalizing n with
  | nil => rfl
  | cons f fs ih =>
    simp only [List.foldl_cons, ih, List.flatMap_cons, List.length_append, Nat.add_assoc]

theorem shownUnder_eq (r : Run) {heading : String} {g : FileReport → List Finding}
    (hg : ∀ f, (Entry.ofFile f).under heading = g f) (hsub : ∀ f, g f ⊆ f.findings) :
    r.shownUnder heading = r.files.flatMap g := by
  rw [shownUnder, flatMap_entries]
  refine List.flatMap_congr fun f _ => ?_
  by_cases h : f.findings = []
  · have hnone := hsub f
    rw [h] at hnone
    rw [if_pos h, List.subset_nil.mp hnone]
  · rw [if_neg h, hg]

theorem errorCount_eq (r : Run) : r.errorCount = (r.shownUnder "Errors:").length := by
  rw [shownUnder_eq r Entry.under_errors, errorCount, foldl_add_length, Nat.zero_add]
  intro f
  simp [FileReport.findings, Report.findings]

theorem warningCount_eq (r : Run) : r.warningCount = (r.shownUnder "Warnings:").length := by
  rw [shownUnder_eq r Entry.under_warnings, warningCount, foldl_add_length, Nat.zero_add]
  intro f
  simp [FileReport.findings, Report.findings]

theorem advisoryCount_eq (r : Run) : r.advisoryCount = (r.shownUnder "Advisories:").length := by
  rw [shownUnder_eq r Entry.under_advisories, advisoryCount, foldl_add_length, Nat.zero_add]
  intro f
  simp [FileReport.findings]

theorem summary_eq (r : Run) :
    r.summary false =
      "Found " ++ toString (r.shownUnder "Errors:").length ++ " error(s), " ++
        toString (r.shownUnder "Warnings:").length ++ " warning(s), " ++
        toString (r.shownUnder "Advisories:").length ++ " advisory(ies) in " ++
        toString r.files.length ++ " file(s)" ++
        if r.failed > 0 then ", " ++ toString r.failed ++ " file(s) failed to load" else "" := by
  rw [← errorCount_eq, ← warningCount_eq, ← advisoryCount_eq]
  rfl

theorem isPlain_summary (r : Run) : Text.IsPlain (r.summary false) := by
  have hfailed : Text.IsPlain
      (if r.failed > 0 then ", " ++ toString r.failed ++ " file(s) failed to load" else "") := by
    split
    · simp only [Text.isPlain_append, Text.isPlain_nat, and_true]
      decide
    · decide
  rw [summary_eq]
  simp only [Text.isPlain_append, Text.isPlain_nat, and_true, hfailed]
  decide

/-! ### Plain runs -/

theorem toList_unlines (ls : List String) :
    (unlines ls).toList = (ls.map String.toList).flatMap fun l => l ++ ['\n'] := by
  simp [unlines, String.toList_join, List.flatMap_map]

/-- Plain lines are the rows of the text that they make. -/
theorem rows_unlines {ls : List String} (h : ∀ l ∈ ls, Text.IsPlain l) :
    Text.rows (unlines ls) = ls ++ [""] := by
  have hpieces := Text.pieces_unlines (List.forall_mem_map.mpr fun l hl => (h l hl).not_mem_feed)
  rw [Text.rows, toList_unlines, hpieces, List.map_append, List.map_map]
  simp [Function.comp_def]

theorem unlines_cons (l : String) (ls : List String) :
    unlines (l :: ls) = l ++ "\n" ++ unlines ls := by simp [unlines]

theorem uncolors_unlines {ks ls : List String} (h : List.Forall₂ Text.IsColored ks ls) :
    Text.Uncolors (unlines ks) (unlines ls) := by
  induction h with
  | nil => exact .of_not_mem (by decide)
  | cons hl _ ih =>
    rw [unlines_cons, unlines_cons]
    exact (hl.uncolors.append (.of_not_mem (by decide))).append ih

section

variable {heading : String} {fs : List Finding} {f : FileReport} {r : Run}

theorem isColored_groupLines (c : Color) (hheading : Text.IsPlain heading)
    (hfs : ∀ g ∈ fs, g.IsPlain) :
    List.Forall₂ Text.IsColored (groupLines true heading c fs) (groupLines false heading c fs) := by
  have hindent : Text.IsColored "  " "  " := .refl (by decide)
  have hlines : ∀ l ∈ fs.flatMap fun g => g.formatLines.map fun l => "    " ++ l,
      Text.IsColored l l := by
    intro l hl
    obtain ⟨g, hg, hl⟩ := List.mem_flatMap.mp hl
    obtain ⟨k, hk, rfl⟩ := List.mem_map.mp hl
    exact .refl (Text.isPlain_append.mpr ⟨by decide, (hfs g hg).of_mem_formatLines k hk⟩)
  unfold groupLines
  split
  · exact .nil
  · refine .cons (hindent.append (.paint c hheading)) ?_
    simpa [Finding.formatLines, Function.comp_def] using List.forall₂_same.mpr hlines

theorem isColored_fileLines (hf : f.IsPlain) :
    List.Forall₂ Text.IsColored (fileLines true f) (fileLines false f) := by
  have hwarnings := isColored_groupLines .yellow (by decide : Text.IsPlain "Warnings:") hf.warnings
  have herrors := isColored_groupLines .red (by decide : Text.IsPlain "Errors:") hf.errors
  have hadvisories :=
    isColored_groupLines .blue (by decide : Text.IsPlain "Advisories:") hf.advisories
  have hempty : Text.IsColored "" "" := .refl (by decide)
  unfold fileLines
  split
  · exact .nil
  · exact List.rel_append
      (.cons (.refl hf.path) (List.rel_append (List.rel_append hwarnings herrors) hadvisories))
      (.cons hempty .nil)

theorem isColored_textLines (hr : r.IsPlain) :
    List.Forall₂ Text.IsColored (r.textLines true) (r.textLines false) := by
  have hfiles : List.Forall₂ Text.IsColored (r.files.flatMap (fileLines true))
      (r.files.flatMap (fileLines false)) := by
    simp only [List.flatMap_def]
    refine List.rel_flatten (List.forall₂_map_left_iff.mpr (List.forall₂_map_right_iff.mpr ?_))
    exact List.forall₂_same.mpr fun f hf => isColored_fileLines (hr f hf)
  have hsummary : Text.IsColored (r.summary true) (r.summary false) := .paint _ (isPlain_summary r)
  exact List.rel_append hfiles (.cons hsummary .nil)

theorem isPlain_of_mem_compactLines (hr : r.IsPlain) : ∀ l ∈ r.compactLines, Text.IsPlain l := by
  intro l hl
  obtain ⟨f, hf, hl⟩ := List.mem_flatMap.mp hl
  obtain ⟨g, hg, rfl⟩ := List.mem_map.mp hl
  have hfile := hr f hf
  have hplain := hfile.of_mem_findings g hg
  have hname : Text.IsPlain g.severity.name := by cases g.severity <;> decide
  simp only [compactLine, Text.isPlain_append]
  exact ⟨⟨⟨⟨⟨⟨hfile.path, by decide⟩, hname⟩, by decide⟩, hplain.code⟩, by decide⟩, hplain.message⟩

end

/-! ### The outputs -/

/-- What the compact output and the text show of a run. -/
structure DisplaysFindings (r : Run) : Prop where
  /-- The compact output has a row for each finding: files in their order, and in a file errors,
  warnings, advisories. -/
  compact : Text.rows (r.print .compact) =
    (r.files.flatMap fun f => (f.report.errors ++ f.report.warnings ++ f.advisories).map fun g =>
      f.path ++ ": " ++ g.severity.name ++ " [" ++ g.code ++ "] " ++ g.message) ++ [""]
  /-- The text has an entry for each file with findings, and behind them the summary. -/
  text : Text.rows (unlines (r.textLines false)) =
    r.entries.flatMap Entry.lines ++ [r.summary false, ""]
  /-- An entry has the findings of its file, each as often as the file has it. -/
  once (f : FileReport) : f ∈ r.files →
    (Entry.ofFile f).findings.Perm (f.report.errors ++ f.report.warnings ++ f.advisories)
  /-- With the files that have no entry, no finding is lost. -/
  all : (r.entries.flatMap Entry.findings).Perm
    (r.files.flatMap fun f => f.report.errors ++ f.report.warnings ++ f.advisories)
  /-- A finding is formatted in two lines, or in three with a suggestion. -/
  lines (e : Entry) : e ∈ r.entries → ∀ g ∈ e.findings,
    g.formatLines = g.parts.map fun l => .ofList (Text.withoutReturn l.toList)
  /-- The summary counts what stands under each heading. -/
  counts : r.summary false =
    "Found " ++ toString (r.shownUnder "Errors:").length ++ " error(s), " ++
      toString (r.shownUnder "Warnings:").length ++ " warning(s), " ++
      toString (r.shownUnder "Advisories:").length ++ " advisory(ies) in " ++
      toString r.files.length ++ " file(s)" ++
      if r.failed > 0 then ", " ++ toString r.failed ++ " file(s) failed to load" else ""
  /-- Colors are all that a terminal adds. -/
  uncolored : Text.withoutCodes (r.print .text).toList = (unlines (r.textLines false)).toList

/-- Every finding of a run with plain texts is displayed once in each of the two outputs, and the
summary agrees with them. -/
theorem displaysFindings_of_isPlain {r : Run} (hr : r.IsPlain) : r.DisplaysFindings := by
  have hcolored := isColored_textLines hr
  constructor
  case compact => exact rows_unlines (isPlain_of_mem_compactLines hr)
  case text =>
    rw [rows_unlines (Text.IsColored.plain_of_forall₂ hcolored), textLines_eq, List.append_assoc]
    rfl
  case once => exact fun f _ => Entry.findings_perm f
  case all =>
    rw [flatMap_entries]
    refine List.Perm.flatMap_left _ fun f _ => ?_
    by_cases h : f.findings = []
    · rw [if_pos h]
      exact h ▸ List.Perm.refl _
    · rw [if_neg h]
      exact Entry.findings_perm f
  case lines =>
    intro e he g hg
    obtain ⟨f, hf, rfl⟩ := List.mem_map.mp he
    have hplain := (hr f (List.mem_of_mem_filter hf)).of_mem_findings
    exact Finding.formatLines_eq (hplain g ((Entry.findings_perm f).mem_iff.mp hg))
  case counts => exact summary_eq r
  case uncolored => exact (uncolors_unlines hcolored).eq

/-- A file with an error, one with an advisory only, one that is clean, and one that could not be
read. -/
def loanRun : Run where
  files :=
    [{ path := "loans.ebl.json"
       report :=
         { errors :=
             [{ code := "EBL003", rule := "missing-data-ref", severity := .error,
                message := "Entity 'Loan' references missing DataObject 'DO_Loan'",
                suggestion := some "Define DataObject 'DO_Loan'\r" }]
           warnings := [{ code := "", rule := "", severity := .info, message := "" }] } },
     { path := "clean.ebl.json", report := {} },
     { path := "", report := {}
       advisories :=
         [{ code := "AUDIT-001", rule := "audit-trail", severity := .info,
            message := "[31mConsider adding audit trail" }] }]
  failed := 1

theorem displaysFindings_loanRun : loanRun.IsPlain ∧ loanRun.DisplaysFindings := by
  have hplain : loanRun.IsPlain := by decide
  exact ⟨hplain, displaysFindings_of_isPlain hplain⟩

end Run
end ProcessLint
