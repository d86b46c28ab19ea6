/-! Case mappings given by runs: every so many code points, a fixed distance. -/
namespace ProcessLint
namespace Text

/-- The code points `first, first + step, …, last`, each moved by `shift`. -/
structure CaseRun where
  first : Nat
  last : Nat
  step : Nat
  shift : Int

namespace CaseRun

def holds (r : CaseRun) (n : Nat) : Bool :=
  r.first ≤ n && n ≤ r.last && (n - r.first) % r.step == 0

def move (r : CaseRun) (c : Char) : Char := Char.ofNat (c.toNat + r.shift).toNat

/-- The image of a character under the first run that holds it, itself if none does. -/
def apply (rs : List CaseRun) (c : Char) : Char :=
  match rs.find? fun r => r.holds c.toNat with
  | some r => r.move c
  | none => c

theorem apply_of_not_held {rs : List CaseRun} {c : Char}
    (h : ∀ r ∈ rs, r.holds c.toNat = false) : apply rs c = c := by
  have : rs.find? (fun r => r.holds c.toNat) = none := by
    simpa [List.find?_eq_none] using h
  simp [apply, this]

end CaseRun
end Text
end ProcessLint
