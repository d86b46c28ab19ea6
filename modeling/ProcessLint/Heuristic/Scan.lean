import ProcessLint.Text.Lower
import ProcessLint.Text.Search

/-! The text that heuristics look at, as it stands and in lower case. -/
namespace ProcessLint
namespace Heuristic

structure Scan where
  text : List Char
  lowered : List Char

namespace Scan

def ofText (text : String) : Scan := ⟨text.toList, Text.lower text.toList⟩

def has (s : Scan) (needle : String) : Bool := Text.occurs needle.toList s.text

def hasAny (s : Scan) (needles : List String) : Bool := needles.any s.has

/-- Compares the lower-case forms of text and needle. -/
def hasInAnyCase (s : Scan) (needle : String) : Bool :=
  Text.occurs (Text.lower needle.toList) s.lowered

theorem has_iff {text needle : String} :
    (ofText text).has needle = true ↔ needle.toList <:+: text.toList := Text.occurs_iff

theorem hasInAnyCase_iff {text needle : String} :
    (ofText text).hasInAnyCase needle = true ↔
      Text.lower needle.toList <:+: Text.lower text.toList := Text.occurs_iff

end Scan
end Heuristic
end ProcessLint
