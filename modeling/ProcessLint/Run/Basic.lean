import ProcessLint.Report

/-! The outcome of validating a set of files. -/
namespace ProcessLint

/-- What there is to say about one file; advisories stand apart from the validator's report. -/
structure FileReport where
  path : String
  report : Report
  advisories : List Finding := []
  deriving DecidableEq

namespace FileReport

def findings (f : FileReport) : List Finding := f.report.findings ++ f.advisories

def isClean (f : FileReport) : Bool := f.report.isClean && f.advisories.isEmpty

theorem isClean_iff (f : FileReport) : f.isClean = true ↔ f.findings = [] := by
  simp [isClean, findings, Report.isClean, Report.findings, and_assoc]

end FileReport

structure Run where
  files : List FileReport := []
  /-- How many files could not be read. -/
  failed : Nat := 0
  deriving DecidableEq

namespace Run

def hasErrors (r : Run) : Bool := r.files.any fun f => f.report.hasErrors

def hasAdvisoriesAt (r : Run) (threshold : Severity) : Bool :=
  r.files.any fun f => f.advisories.any fun a => a.severity.reaches threshold

/-- A run fails over an error, a file that could not be read, or an advisory at the threshold. -/
def isFailure (r : Run) (threshold : Option Severity) : Bool :=
  r.hasErrors || 0 < r.failed || threshold.any r.hasAdvisoriesAt

def errorCount (r : Run) : Nat := r.files.foldl (fun n f => n + f.report.errors.length) 0

def warningCount (r : Run) : Nat := r.files.foldl (fun n f => n + f.report.warnings.length) 0

def advisoryCount (r : Run) : Nat := r.files.foldl (fun n f => n + f.advisories.length) 0

end Run
end ProcessLint
