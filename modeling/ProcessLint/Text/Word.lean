import ProcessLint.Text.Alphabetic
import ProcessLint.Text.Blank
import ProcessLint.Text.Mark
import ProcessLint.Text.Number

/-! Word characters and the boundaries between words. -/
namespace ProcessLint
namespace Text

def connectorIntervals : List Interval :=
  [(0x5F, 0x5F), (0x203F, 0x2040), (0x2054, 0x2054), (0xFE33, 0xFE34), (0xFE4D, 0xFE4F),
   (0xFF3F, 0xFF3F)]

def joinControlIntervals : List Interval := [(0x200C, 0x200D)]

/-- A character that continues a word: a letter, a mark, a decimal digit, a connecting
punctuation character or a join control. -/
def isWord (c : Char) : Bool :=
  isAlphabetic c || isMark c || isDecimal c || Interval.covers connectorIntervals c ||
    Interval.covers joinControlIntervals c

def isAlphanumeric (c : Char) : Bool := isAlphabetic c || isNumber c

def touchesWord (c : Option Char) : Bool := c.any isWord

@[simp] theorem touchesWord_none : touchesWord none = false := rfl

@[simp] theorem touchesWord_some (c : Char) : touchesWord (some c) = isWord c := rfl

/-- A word begins or ends between two neighbours when just one of them is a word character. -/
def isBoundary (before after : Option Char) : Bool := touchesWord before != touchesWord after

/-- A character of a name: an ASCII letter, an ASCII digit or an underscore. -/
def isNameChar (c : Char) : Bool := c.isAlphanum || c == '_'

def isNameStart (c : Char) : Bool := c.isAlpha || c == '_'

theorem isWord_of_isNameChar {c : Char} (h : isNameChar c = true) : isWord c = true := by
  have hval : c.toNat = c.val.toNat := rfl
  delta isNameChar Char.isAlphanum Char.isAlpha Char.isUpper Char.isLower Char.isDigit at h
  simp only [Bool.or_eq_true, Bool.and_eq_true, decide_eq_true_eq, beq_iff_eq,
    UInt32.le_iff_toNat_le, ge_iff_le] at h
  rcases h with ((h | h) | h) | rfl
  · have hupper : isAlphabetic c = true :=
      Interval.covers_iff.mpr ⟨(0x41, 0x5A), List.mem_of_getElem? (i := 0) rfl, h⟩
    simp [isWord, hupper]
  · have hlower : isAlphabetic c = true :=
      Interval.covers_iff.mpr ⟨(0x61, 0x7A), List.mem_of_getElem? (i := 1) rfl, h⟩
    simp [isWord, hlower]
  · have hdigit : isDecimal c = true :=
      Interval.covers_iff.mpr ⟨(0x30, 0x39), List.mem_of_getElem? (i := 0) rfl, h⟩
    simp [isWord, hdigit]
  · decide +kernel

theorem any_isNameChar_of_touchesWord {c : Option Char} (h : touchesWord c = false) :
    c.any isNameChar = false := by
  cases c with
  | none => rfl
  | some c =>
    cases hc : isNameChar c with
    | true => exact absurd (isWord_of_isNameChar hc) (by simpa using h)
    | false => exact hc

theorem isWord_of_isBlank {c : Char} (h : isBlank c = true) : isWord c = false := by
  have halphabetic : isAlphabetic c = false :=
    Interval.covers_eq_false_of_areApart (by decide +kernel) h
  have hmark : isMark c = false := Interval.covers_eq_false_of_areApart (by decide +kernel) h
  have hdecimal : isDecimal c = false := Interval.covers_eq_false_of_areApart (by decide +kernel) h
  have hconnector : Interval.covers connectorIntervals c = false :=
    Interval.covers_eq_false_of_areApart (by decide) h
  have hjoin : Interval.covers joinControlIntervals c = false :=
    Interval.covers_eq_false_of_areApart (by decide) h
  simp [isWord, halphabetic, hmark, hdecimal, hconnector, hjoin]

theorem isBlank_of_isWord {c : Char} (h : isWord c = true) : isBlank c = false := by
  rw [← Bool.not_eq_true]
  intro hblank
  rw [isWord_of_isBlank hblank] at h
  cases h

end Text
end ProcessLint
