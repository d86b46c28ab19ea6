import ProcessLint.Files.IgnorePattern
import ProcessLint.Files.Tree

/-! Ignore files: lines of patterns, of which the last that fits decides. -/
namespace ProcessLint

structure IgnoreLine where
  parts : List IgnorePart
  /-- What fits is kept after all. -/
  keeps : Bool
  /-- Only directories fit. -/
  onlyDirectories : Bool

namespace IgnoreLine

/-- A line that says nothing, one that cannot be read, and one that can. -/
inductive Reading
  | blank
  | faulty
  | line (l : IgnoreLine)

def dropSlash (cs : List Char) : Bool × List Char :=
  match cs.reverse with
  | '/' :: '\\' :: r => (true, r.reverse)
  | '/' :: r => (true, r.reverse)
  | _ => (false, cs)

/-- A pattern without a slash fits at any depth, and one that ends in two stars does not fit the
directory itself. -/
def completed (anchored : Bool) (cs : List Char) : List Char :=
  let cs :=
    if anchored || cs.contains '/' || cs = ['*', '*'] then cs else '*' :: '*' :: '/' :: cs
  if ['/', '*', '*'].isSuffixOf cs then cs ++ ['/', '*'] else cs

def ofPattern (keeps anchored : Bool) (cs : List Char) : Reading :=
  let (onlyDirectories, cs) := dropSlash cs
  match IgnorePart.ofText? (completed anchored cs) with
  | some parts => .line ⟨parts, keeps, onlyDirectories⟩
  | none => .faulty

/-- Reads a line. A hash begins a comment, an exclamation mark keeps what fits, and a slash in front
ties the pattern to the directory of the file; a backslash takes their meaning from the first
two. -/
def read (line : List Char) : Reading :=
  let cs := if ['\\', ' '].isSuffixOf line then line else Text.trimEnd line
  match line, cs with
  | '#' :: _, _ => .blank
  | _, [] => .blank
  | _, '\\' :: '!' :: r => ofPattern false false ('!' :: r)
  | _, '\\' :: '#' :: r => ofPattern false false ('#' :: r)
  | _, '!' :: '/' :: r => ofPattern true true r
  | _, '!' :: r => ofPattern true false r
  | _, '/' :: r => ofPattern false true r
  | _, cs => ofPattern false false cs

def fits (l : IgnoreLine) (path : Location) (isDirectory : Bool) : Bool :=
  (isDirectory || !l.onlyDirectories) &&
    IgnorePart.fits l.parts ("/".intercalate path).toUTF8.toList

end IgnoreLine

structure IgnoreFile where
  lines : List IgnoreLine := []
  /-- Some line could not be read. -/
  faulty : Bool := false

namespace IgnoreFile

def byteLines : List UInt8 → List (List UInt8)
  | [] => [[]]
  | b :: bs =>
    if b = 10 then [] :: byteLines bs
    else
      match byteLines bs with
      | [] => [[b]]
      | l :: ls => (b :: l) :: ls

/-- A line that a line feed ends, without a carriage return before that. -/
def unended (l : List UInt8) : List UInt8 := if l.getLast? = some 13 then l.dropLast else l

/-- The texts of the lines, up to the first that is no text. -/
def textLines (bytes : ByteArray) : List (List Char) :=
  let ls := byteLines bytes.toList
  let ls := ls.dropLast.map unended ++ ls.getLast?.toList
  ((ls.map fun l => String.fromUTF8? ⟨l.toArray⟩).takeWhile Option.isSome).filterMap
    fun s => s.map String.toList

/-- Byte order marks in front of the first line do not count. -/
def unmarked : List (List Char) → List (List Char)
  | l :: ls => l.dropWhile (· == '\ufeff') :: ls
  | [] => []

def ofBytes (bytes : ByteArray) : IgnoreFile :=
  let readings := (unmarked (textLines bytes)).map IgnoreLine.read
  { lines := readings.filterMap fun | .line l => some l | _ => none
    faulty := readings.any fun | .faulty => true | _ => false }

/-- Whether a path is to be kept or left out, if the file says anything about it. -/
def keeps? (f : IgnoreFile) (path : Location) (isDirectory : Bool) : Option Bool :=
  (f.lines.reverse.find? fun l => l.fits path isDirectory).map IgnoreLine.keeps

end IgnoreFile
end ProcessLint
