import ProcessLint.Files.Path
import ProcessLint.Text.Search

/-! Patterns of paths that are left out. -/
namespace ProcessLint
namespace Exclusion

inductive Wildcard
  | char (c : Char)
  /-- One character, whichever. -/
  | any
  /-- One character in the ranges, or one outside of them. -/
  | oneOf (negated : Bool) (ranges : List (Char × Char))
  /-- Any text. -/
  | run
  /-- Any number of directories. -/
  | directories
  deriving DecidableEq

def rangesOf : List Char → List (Char × Char)
  | a :: '-' :: b :: r => (a, b) :: rangesOf r
  | c :: r => (c, c) :: rangesOf r
  | [] => []

def untilBracket? (cs : List Char) : Option (List Char × List Char) :=
  let inside := cs.takeWhile (· != ']')
  match cs.drop inside.length with
  | _ :: r => some (inside, r)
  | [] => none

/-- Reads ranges behind their opening bracket. The first character after the bracket, or after
the exclamation mark that negates, closes nothing. -/
def ranges? : List Char → Option (Wildcard × List Char)
  | '!' :: c :: r =>
    (untilBracket? r).map fun (inside, rest) => (.oneOf true (rangesOf (c :: inside)), rest)
  | c :: r =>
    if c = '!' then none
    else (untilBracket? r).map fun (inside, rest) => (.oneOf false (rangesOf (c :: inside)), rest)
  | [] => none

/-- Reads a pattern behind a character. Each part takes at least one character. -/
def wildcards? : Nat → Option Char → List Char → Option (List Wildcard)
  | _, _, [] => some []
  | 0, _, _ :: _ => none
  | fuel + 1, before, c :: r =>
    if c = '?' then (wildcards? fuel (some c) r).map (.any :: ·)
    else if c = '[' then
      match ranges? r with
      | some (w, r) => (wildcards? fuel (some ']') r).map (w :: ·)
      | none => none
    else if c = '*' then
      match r with
      | '*' :: '*' :: _ => none
      | '*' :: r =>
        -- two stars are a whole part of the path
        if before = none ∨ before = some '/' then
          match r with
          | [] => some [.directories]
          | '/' :: r => (wildcards? fuel (some '/') r).map (.directories :: ·)
          | _ => none
        else none
      | _ => (wildcards? fuel (some c) r).map (.run :: ·)
    else (wildcards? fuel (some c) r).map (.char c :: ·)

/-- The remainders of a text, the text itself first. -/
def remainders : List Char → List (List Char)
  | [] => [[]]
  | c :: r => (c :: r) :: remainders r

def behindSlashes : List Char → List (List Char)
  | [] => []
  | c :: r => if c = '/' then r :: behindSlashes r else behindSlashes r

def Wildcard.admits : Wildcard → Char → Bool
  | .char d, c => c == d
  | .any, _ => true
  | .oneOf negated ranges, c => (ranges.any fun r => r.1 ≤ c && c ≤ r.2) != negated
  | .run, _ | .directories, _ => false

/-- Whether the whole text fits the pattern. Directories stand for nothing, for a beginning up to
a slash, or for all the rest. -/
def fits : List Wildcard → List Char → Bool
  | [], cs => cs.isEmpty
  | .run :: ws, cs => (remainders cs).any (fits ws)
  | .directories :: ws, cs => fits ws cs || (behindSlashes cs).any (fits ws) || fits ws []
  | w :: ws, c :: cs => w.admits c && fits ws cs
  | _ :: _, [] => false

end Exclusion

/-- A pattern of paths that are left out. -/
structure Exclusion where
  text : String
  wildcards : List Exclusion.Wildcard
  deriving DecidableEq

namespace Exclusion

def ofText? (s : String) : Option Exclusion :=
  (wildcards? s.length none s.toList).map fun ws => ⟨s, ws⟩

/-- The pattern without the marks of any number of directories. -/
def plain (e : Exclusion) : String :=
  .ofList (Text.remove "/**".toList (Text.remove "**/".toList e.text.toList))

/-- A relative path is left out if it fits the pattern, or if the plain pattern names a file or
directory that the path leads through. -/
def excludes (e : Exclusion) (path : List String) : Bool :=
  fits e.wildcards ("/".intercalate path).toList ||
    (!e.plain.isEmpty && (Path.parts e.plain).isPrefixOf (path.map Path.Part.name))

end Exclusion
end ProcessLint
