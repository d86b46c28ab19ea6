import ProcessLint.Text.Word

/-! Action lines: who does what. -/
namespace ProcessLint

/-- The actor and the verb that an action line starts with, as they are written. -/
structure Action where
  actor : String
  verb : String
  deriving DecidableEq

namespace Action

/-- What follows the dash that a line may start with, blanks skipped. -/
def body (line : List Char) : List Char :=
  match Text.trimStart line with
  | '-' :: r => Text.trimStart r
  | cs => cs

def word? (starts : Char → Bool) (cs : List Char) : Option (List Char × List Char) :=
  match cs with
  | c :: _ =>
    if starts c then some (cs.takeWhile Text.isNameChar, cs.dropWhile Text.isNameChar) else none
  | [] => none

/-- A line is a dash or none, an actor, blanks, and a verb behind which no word goes on. -/
def ofLine? (line : String) : Option Action := do
  let (actor, r) ← word? Text.isNameStart (body line.toList)
  if !r.head?.any Text.isBlank then none
  let (verb, rest) ← word? Char.isAlpha (Text.trimStart r)
  if Text.touchesWord rest.head? then none
  some ⟨.ofList actor, .ofList verb⟩

def remark (line : String) : String :=
  .ofList (Text.trim ((Text.trim line.toList).dropWhile (· == '-')))

end Action
end ProcessLint
