import ProcessLint.Text.CasedIntervals
import ProcessLint.Text.LowerRuns

/-! The full lower-case form of a text. -/
namespace ProcessLint
namespace Text

/-- Past the characters that case ignores, the next one is a cased letter. -/
def meetsCased (cs : List Char) : Bool :=
  match cs.dropWhile isCaseIgnorable with
  | c :: _ => isCased c
  | [] => false

/-- The lower-case form of one character, given what stands before it (nearest first) and after
it. A capital sigma that ends a word becomes a final sigma; a dotted capital I keeps its dot as
a mark. -/
def lowerChar (before : List Char) (c : Char) (after : List Char) : List Char :=
  if c = 'Σ' then [if meetsCased before && !meetsCased after then 'ς' else 'σ']
  else if c = 'İ' then ['i', '\u0307']
  else [CaseRun.apply lowerRuns c]

def lowerFrom (before : List Char) : List Char → List Char
  | [] => []
  | c :: r => lowerChar before c r ++ lowerFrom (c :: before) r

def lower (cs : List Char) : List Char := lowerFrom [] cs

@[simp] theorem lower_nil : lower [] = [] := rfl

end Text
end ProcessLint
