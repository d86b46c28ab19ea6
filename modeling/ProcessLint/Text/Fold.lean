import ProcessLint.Text.FoldRuns

/-! Characters compared without regard to case. -/
namespace ProcessLint
namespace Text

/-- The simple case folding of a character; in ASCII it is the small letter. -/
def fold (c : Char) : Char :=
  if c.toNat < 0x80 then c.toLower else CaseRun.apply foldRuns c

/-- Two characters that differ at most in case. -/
def sameFold (a b : Char) : Bool := fold a == fold b

@[simp] theorem sameFold_refl (a : Char) : sameFold a a = true := by simp [sameFold]

def sameAscii (s t : String) : Bool := s.toList.map Char.toLower == t.toList.map Char.toLower

@[simp] theorem sameAscii_refl (s : String) : sameAscii s s = true := by simp [sameAscii]

theorem sameAscii_comm (s t : String) : sameAscii s t = sameAscii t s := by
  simp [sameAscii, Bool.beq_comm]

end Text
end ProcessLint
