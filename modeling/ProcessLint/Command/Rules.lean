import ProcessLint.Heuristic.Banking
import ProcessLint.Rule

/-! The listing of all rules and heuristics. -/
namespace ProcessLint
namespace Command

def column (width : Nat) (s : String) : String :=
  s ++ String.ofList (List.replicate (width - s.length) ' ')

def ruleLine (r : Rule) : String :=
  column 8 r.code ++ " " ++ column 30 r.name ++ " " ++ r.severity.name ++ " " ++ r.description ++
    if r.isOptIn then " (opt-in)" else ""

def heuristicLine (h : Heuristic.Banking) : String :=
  column 22 h.name ++ " " ++ column 38 (", ".intercalate h.codes) ++ " " ++ h.description

def dashes : String := .ofList (List.replicate 100 '-')

def ruleListing : List String :=
  ["Validator rules:", "",
   column 8 "Code" ++ " " ++ column 30 "Name" ++ " " ++ column 8 "Bucket" ++ " Description",
   dashes] ++
  Rule.all.map ruleLine ++
  ["", "Heuristics (advisories):", "",
   column 22 "Name" ++ " " ++ column 38 "Codes" ++ " Description",
   dashes] ++
  Heuristic.Banking.all.map heuristicLine ++
  ["", "Heuristic presets:",
   "  none     - No heuristics (default)",
   "  banking  - PCI-DSS, wire transfer, fraud, SOX, data, transaction and audit checks",
   "  all      - Every heuristic",
   "", "Disable any rule by name or code in ebl-lint.toml, e.g.:",
   "  [rules.reserved-keyword]",
   "  enabled = false",
   "", "Enable dictionary coverage with:",
   "  [validator]",
   "  dictionary_coverage = true"]

end Command
end ProcessLint
