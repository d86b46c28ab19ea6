/-! Finding and removing a needle in a text. -/
namespace ProcessLint
namespace Text

def occurs (needle : List Char) : List Char → Bool
  | [] => needle.isEmpty
  | c :: r => needle.isPrefixOf (c :: r) || occurs needle r

theorem occurs_iff {needle text : List Char} : occurs needle text = true ↔ needle <:+: text := by
  induction text with
  | nil => simp [occurs]
  | cons c r ih => simp [occurs, ih, List.infix_cons_iff, List.isPrefixOf_iff_prefix]

/-- Drops a number of characters, then every occurrence of the needle, from left to right. -/
def removeFrom (needle : List Char) : Nat → List Char → List Char
  | _, [] => []
  | n + 1, _ :: r => removeFrom needle n r
  | 0, c :: r =>
    if needle.isPrefixOf (c :: r) then removeFrom needle (needle.length - 1) r
    else c :: removeFrom needle 0 r

/-- The text without the occurrences of a needle that is not empty. -/
def remove (needle text : List Char) : List Char := removeFrom needle 0 text

end Text
end ProcessLint
