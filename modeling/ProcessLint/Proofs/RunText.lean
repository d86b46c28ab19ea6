import Mathlib.Algebra.Group.Nat.Defs
import ProcessLint.Proofs.Records
import ProcessLint.Run.Output

/-! The JSON text of a run reads back as the run. -/
namespace ProcessLint

open Json (Every Slots)

namespace Severity

@[simp] theorem ofJson?_toJson (s : Severity) : ofJson? s.toJson = some s := by
  simp [toJson, ofJson?, Json.text]

end Severity

namespace Finding

def slots (f : Finding) : Slots where
  fields :=
    [("code", some (.text f.code)), ("rule", some (.text f.rule)),
     ("severity", some f.severity.toJson), ("message", some (.text f.message)),
     ("suggestion", f.suggestion.map .text)]
  distinct := by simp

theorem toJson_eq (f : Finding) : f.toJson = .record f.slots.members := by
  obtain ⟨code, rule, severity, message, suggestion⟩ := f
  cases suggestion <;> rfl

@[simp] theorem ofJson?_toJson (f : Finding) : ofJson? f.toJson = some f := by
  rw [toJson_eq, ofJson?,
    f.slots.fields?_record ["code", "rule", "severity", "message", "suggestion"] rfl]
  simp [slots, List.lookup_cons]

theorem every_toJson (p : Numeral → Prop) (f : Finding) : f.toJson.Every p := by
  rw [toJson_eq]
  refine Slots.Every.record ?_
  simp [Slots.Every, slots, Severity.toJson]

end Finding

namespace Report

def slots (r : Report) : Slots where
  fields :=
    [("errors", some (.array (r.errors.map Finding.toJson))),
     ("warnings", some (.array (r.warnings.map Finding.toJson)))]
  distinct := by simp

theorem toJson_eq (r : Report) : r.toJson = .record r.slots.members := rfl

@[simp] theorem ofJson?_toJson (r : Report) : ofJson? r.toJson = some r := by
  rw [toJson_eq, ofJson?, r.slots.fields?_record ["errors", "warnings"] rfl]
  simp [slots, List.lookup_cons, Json.toList?_map]

theorem every_toJson (p : Numeral → Prop) (r : Report) : r.toJson.Every p := by
  rw [toJson_eq]
  refine Slots.Every.record ?_
  simp [Slots.Every, slots, Json.every_array_map, Finding.every_toJson]

end Report

namespace FileReport

def slots (f : FileReport) : Slots where
  fields :=
    [("path", some (.text f.path)), ("report", some f.report.toJson),
     ("advisories", Json.unlessEmpty Finding.toJson f.advisories)]
  distinct := by simp

theorem toJson_eq (f : FileReport) : f.toJson = .record f.slots.members := by
  obtain ⟨path, report, advisories⟩ := f
  cases advisories <;> rfl

/-- Advisories that are not written are read as none. -/
@[simp] theorem ofJson?_toJson (f : FileReport) : ofJson? f.toJson = some f := by
  rw [toJson_eq, ofJson?, f.slots.fields?_record ["path", "report", "advisories"] rfl]
  simp [slots, List.lookup_cons, Json.readOr_unlessEmpty]

theorem every_toJson (p : Numeral → Prop) (f : FileReport) : f.toJson.Every p := by
  rw [toJson_eq]
  refine Slots.Every.record ?_
  have hadvisories := Json.every_unlessEmpty fun a (_ : a ∈ f.advisories) => a.every_toJson p
  simpa [Slots.Every, slots, Report.every_toJson] using hadvisories

end FileReport

namespace Run

def slots (r : Run) : Slots where
  fields :=
    [("files", some (.array (r.files.map FileReport.toJson))),
     ("files_failed", some (.nat r.failed))]
  distinct := by simp

theorem toJson_eq (r : Run) : r.toJson = .record r.slots.members := rfl

theorem toCount?_nat {n : Nat} (h : n < 2 ^ 64) : toCount? (.nat n) = some n := by
  simpa [toCount?, Json.nat, Json.toNat?] using h

theorem ofJson?_toJson {r : Run} (h : r.failed < 2 ^ 64) : ofJson? r.toJson = some r := by
  rw [toJson_eq, ofJson?, r.slots.fields?_record ["files", "files_failed"] rfl]
  simp [slots, List.lookup_cons, Json.toList?_map, toCount?_nat h]

theorem every_toJson (r : Run) : r.toJson.Every Numeral.IsPlain := by
  rw [toJson_eq]
  refine Slots.Every.record ?_
  have hcount : (Json.nat r.failed).Every Numeral.IsPlain := .number (Numeral.isPlain_ofNat _)
  simpa [Slots.Every, slots, Json.every_array_map, FileReport.every_toJson] using hcount

/-- What is printed as JSON, the end of the last line with it, is read as the run: the same files
in their order, each with its errors, its warnings and its advisories, and the same count of files
that could not be read. -/
theorem read?_print_json {r : Run} (h : r.failed < 2 ^ 64) : read? (r.print .json) = some r := by
  have htext : r.print .json = r.toJson.write .indented ++ .ofList ['\n'] := rfl
  have hvalue := r.every_toJson.ofText?_write Json.Layout.isBlank_indented
    (by simp [Json.Token.isBlank] : ∀ c ∈ ['\n'], Json.Token.isBlank c)
  rw [read?, htext, hvalue]
  exact ofJson?_toJson h

/-- Two files that could be read, one of them clean, with texts that need every kind of escape. -/
def quotedRun : Run where
  files :=
    [{ path := "src/Darlehen \"neu\"/prüfung.json"
       report :=
         { errors :=
             [{ code := "EBL003", rule := "missing-data-object", severity := .error,
                message := "tab\there, C:\\data, bell\x07", suggestion := some "line\nbreak" }]
           warnings := [{ code := "", rule := "", severity := .warning, message := "" }] }
       advisories := [{ code := "BNK001", rule := "\r", severity := .info, message := "€/\x0c" }] },
     { path := "", report := {} }]
  failed := 2 ^ 64 - 1

theorem read?_print_json_quotedRun :
    quotedRun.failed < 2 ^ 64 ∧ read? (quotedRun.print .json) = some quotedRun :=
  ⟨by decide, read?_print_json (by decide)⟩

end Run
end ProcessLint
