import ProcessLint.Json.Read
import ProcessLint.Json.Record
import ProcessLint.Json.Write
import ProcessLint.Run.Basic

/-! Findings, reports and runs as JSON values. -/
namespace ProcessLint

open Json (Fields)

namespace Severity

def toJson (s : Severity) : Json := .text s.name

/-- A severity is its name, or an object that has the name as its only member. -/
def ofJson? : Json → Option Severity
  | .string (some s) => ofName? s
  | .object [(some s, .null)] => ofName? s
  | _ => none

end Severity

namespace Finding

def toJson (f : Finding) : Json :=
  .record <|
    [("code", .text f.code), ("rule", .text f.rule), ("severity", f.severity.toJson),
     ("message", .text f.message)] ++
    f.suggestion.toList.map fun s => ("suggestion", .text s)

def ofJson? (v : Json) : Option Finding := do
  let fs ← v.fields? ["code", "rule", "severity", "message", "suggestion"]
  let code ← fs.required? "code" Json.toText?
  let rule ← fs.required? "rule" Json.toText?
  let severity ← fs.required? "severity" Severity.ofJson?
  let message ← fs.required? "message" Json.toText?
  let suggestion ← fs.optional? "suggestion" (Json.toOption? Json.toText?) none
  some { code, rule, severity, message, suggestion }

end Finding

namespace Report

def toJson (r : Report) : Json :=
  .record [("errors", .array (r.errors.map Finding.toJson)),
    ("warnings", .array (r.warnings.map Finding.toJson))]

def ofJson? (v : Json) : Option Report := do
  let fs ← v.fields? ["errors", "warnings"]
  let errors ← fs.required? "errors" (Json.toList? Finding.ofJson?)
  let warnings ← fs.required? "warnings" (Json.toList? Finding.ofJson?)
  some { errors, warnings }

end Report

namespace FileReport

def toJson (f : FileReport) : Json :=
  .record <|
    [("path", .text f.path), ("report", f.report.toJson)] ++
    if f.advisories.isEmpty then []
    else [("advisories", .array (f.advisories.map Finding.toJson))]

def ofJson? (v : Json) : Option FileReport := do
  let fs ← v.fields? ["path", "report", "advisories"]
  let path ← fs.required? "path" Json.toText?
  let report ← fs.required? "report" Report.ofJson?
  let advisories ← fs.optional? "advisories" (Json.toList? Finding.ofJson?) []
  some { path, report, advisories }

end FileReport

namespace Run

def toJson (r : Run) : Json :=
  .record [("files", .array (r.files.map FileReport.toJson)), ("files_failed", .nat r.failed)]

/-- A count of files has at most 64 bits. -/
def toCount? (v : Json) : Option Nat := v.toNat?.filter (· < Nat.pow 2 64)

def ofJson? (v : Json) : Option Run := do
  let fs ← v.fields? ["files", "files_failed"]
  let files ← fs.required? "files" (Json.toList? FileReport.ofJson?)
  let failed ← fs.required? "files_failed" toCount?
  some { files, failed }

def read? (text : String) : Option Run := (Json.ofText? text).bind ofJson?

def write (r : Run) : String := r.toJson.write .indented

end Run
end ProcessLint
