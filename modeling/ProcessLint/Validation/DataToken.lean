import ProcessLint.Dictionary.Basic
import ProcessLint.Text.Word

/-! The data objects that an action line names, each with a tag that says how it is used. -/
namespace ProcessLint

structure DataToken where
  name : String
  /-- The access that a tag behind the name asks for. -/
  tag : Option Access
  deriving DecidableEq

namespace DataToken

/-- A tag that a text starts with, when the word ends with it: what goes in is written and what
comes out is read. -/
def tagHere? (cs : List Char) : Option Access :=
  if "Input".toList.isPrefixOf cs && !Text.touchesWord cs[5]? then some .write
  else if "Output".toList.isPrefixOf cs && !Text.touchesWord cs[6]? then some .read
  else none

def tagLength : Access → Nat
  | .write => 5
  | .read => 6

/-- The data object that a text starts with, and how many characters it takes. Its name is the
mark and at least one name character; it starts where a word starts or ends, and blanks and a tag
may follow. -/
def here? (mark : List Char) (before : Option Char) (cs : List Char) : Option (DataToken × Nat) :=
  if mark.isPrefixOf cs && Text.isBoundary before cs.head? then
    let run := (cs.drop mark.length).takeWhile Text.isNameChar
    let length := mark.length + run.length
    let behind := cs.drop length
    let gap := (behind.takeWhile Text.isBlank).length
    let name := String.ofList (cs.take length)
    if run.isEmpty then none
    else if gap = 0 then
      if Text.touchesWord behind.head? then none else some (⟨name, none⟩, length)
    else
      match tagHere? (behind.drop gap) with
      | some a => some (⟨name, some a⟩, length + gap + tagLength a)
      | none =>
        if Text.touchesWord (behind.drop gap).head? then some (⟨name, none⟩, length + gap)
        else some (⟨name, none⟩, length)
  else none

/-- The data objects behind a number of characters to skip, from left to right. -/
def scanFrom (mark : List Char) : Nat → Option Char → List Char → List DataToken
  | _, _, [] => []
  | n + 1, _, c :: r => scanFrom mark n (some c) r
  | 0, before, c :: r =>
    match here? mark before (c :: r) with
    | some (t, length) => t :: scanFrom mark (length - 1) (some c) r
    | none => scanFrom mark 0 (some c) r

def scan (mark line : String) : List DataToken := scanFrom mark.toList 0 none line.toList

end DataToken
end ProcessLint
