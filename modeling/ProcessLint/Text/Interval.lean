/-! Sets of characters given by intervals of code points. -/
namespace ProcessLint
namespace Text

/-- The code points from the first number to the second, both included. -/
abbrev Interval := Nat × Nat

namespace Interval

def holds (i : Interval) (n : Nat) : Bool := i.1 ≤ n && n ≤ i.2

def covers (is : List Interval) (c : Char) : Bool := is.any fun i => i.holds c.toNat

theorem covers_iff {is : List Interval} {c : Char} :
    covers is c = true ↔ ∃ i ∈ is, i.1 ≤ c.toNat ∧ c.toNat ≤ i.2 := by
  simp [covers, holds]

def areApart (is js : List Interval) : Bool :=
  is.all fun i => js.all fun j => Nat.blt i.2 j.1 || Nat.blt j.2 i.1

theorem covers_eq_false_of_areApart {is js : List Interval} (h : areApart is js = true) {c : Char}
    (hc : covers is c = true) : covers js c = false := by
  rw [← Bool.not_eq_true]
  intro hjs
  obtain ⟨i, hi, hlow, hhigh⟩ := covers_iff.mp hc
  obtain ⟨j, hj, hlow', hhigh'⟩ := covers_iff.mp hjs
  have hapart := List.all_eq_true.mp (List.all_eq_true.mp h i hi) j hj
  simp only [Nat.blt_eq, Bool.or_eq_true] at hapart
  omega

end Interval
end Text
end ProcessLint
