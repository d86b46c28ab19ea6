import ProcessLint.Text.Fold
import ProcessLint.Text.Lower
import ProcessLint.Text.Word

/-! Reserved keywords, and where they stand in free text. -/
namespace ProcessLint

/-- A reserved keyword: its words, of which there is at least one. -/
structure Keyword where
  words : List (List Char)
  nonempty : words ≠ []
  deriving DecidableEq

namespace Keyword

/-- The keyword of a configured entry; a blank entry is none. No entry is too long: that a pattern
has a greatest size, and that an entry whose pattern exceeds it is an error, is left out. -/
def ofText? (entry : String) : Option Keyword :=
  if h : Text.words entry.toList = [] then none else some ⟨Text.words entry.toList, h⟩

theorem words_of_ofText? {entry : String} {k : Keyword} (h : ofText? entry = some k) :
    k.words = Text.words entry.toList := by
  simp only [ofText?] at h
  split at h
  · cases h
  · cases h; rfl

def spelling (k : Keyword) : String := .ofList ([' '].intercalate k.words)

/-- Keywords are the same when their lower-case spellings are. -/
def key (k : Keyword) : String := .ofList (Text.lower k.spelling.toList)

/-- Next to a letter, a number or an underscore a keyword ends only where the word does. -/
def isWhole (edge : Option Char) : Bool := edge.any fun c => Text.isAlphanumeric c || c == '_'

def leads (k : Keyword) : Bool := isWhole (k.words.head?.bind (·.head?))

def trails (k : Keyword) : Bool := isWhole (k.words.getLast?.bind (·.getLast?))

/-- What follows a word that the text starts with, case aside. -/
def dropWord : List Char → List Char → Option (List Char)
  | [], t => some t
  | w :: ws, c :: t => if Text.sameFold w c then dropWord ws t else none
  | _ :: _, [] => none

/-- What follows words that the text starts with, blanks between them. -/
def dropWords : List (List Char) → List Char → Option (List Char)
  | [], t => some t
  | [w], t => dropWord w t
  | w :: ws, t =>
    match dropWord w t with
    | some (c :: r) => if Text.isBlank c then dropWords ws (r.dropWhile Text.isBlank) else none
    | _ => none

/-- Whether the keyword stands at the start of a text that follows the given character. -/
def standsAt (k : Keyword) (before : Option Char) (text : List Char) : Bool :=
  match dropWords k.words text with
  | some rest =>
    let last := (text.take (text.length - rest.length)).getLast?
    (!k.leads || Text.isBoundary before text.head?) &&
      (!k.trails || Text.isBoundary last rest.head?)
  | none => false

def standsFrom (k : Keyword) (before : Option Char) : List Char → Bool
  | [] => k.standsAt before []
  | c :: r => k.standsAt before (c :: r) || k.standsFrom (some c) r

def standsIn (k : Keyword) (text : String) : Bool := k.standsFrom none text.toList

end Keyword
end ProcessLint
