import ProcessLint.Files.Exclusion
import ProcessLint.Files.IgnoreFile
import ProcessLint.Settings.Basic

/-! Which files of a tree are looked at. -/
namespace ProcessLint
namespace Discovery

/-- The kinds of ignore files, as paths below a directory; what an earlier kind says of a path
outweighs a later one. -/
def ignoreFiles (s : Selection) : List Location :=
  [[".ignore"]] ++ (if s.respectGitignore then [[".gitignore"]] else []) ++
    [[".git", "info", "exclude"]]

/-- The ignore file of a kind for a directory; a missing one is empty. -/
def ignoreFileAt (t : Tree) (kind directory : Location) : IgnoreFile :=
  match t.content? (directory ++ kind) with
  | some bytes => .ofBytes bytes
  | none => {}

/-- The places that begin a place, the longest first, from its own directory to the top. -/
def above (l : Location) : List Location :=
  (List.range l.length).reverse.map fun n => l.take n

/-- What the ignore files of a kind say of a place: the nearest that says anything decides. -/
def keepsBy? (t : Tree) (kind l : Location) (isDirectory : Bool) : Option Bool :=
  (above l).findSome? fun d => (ignoreFileAt t kind d).keeps? (l.drop d.length) isDirectory

def isIgnored (t : Tree) (s : Selection) (l : Location) (isDirectory : Bool) : Bool :=
  ((ignoreFiles s).findSome? fun kind => keepsBy? t kind l isDirectory) = some false

/-- Whether a file below a directory is reached: neither it nor a directory on the way is
ignored. -/
def isReached (t : Tree) (s : Selection) (root path : Location) : Bool :=
  !isIgnored t s (root ++ path) false &&
    (List.range path.length).all fun n =>
      n = 0 || !isIgnored t s (root ++ path.take n) true

inductive Fault
  | invalidPattern (pattern : String)
  | unwalkable (root : String)
  deriving DecidableEq

def Fault.message : Fault → String
  | invalidPattern pattern => "Invalid exclude pattern: " ++ pattern
  | unwalkable root => "Failed to walk " ++ root

def exclusions : List String → Except Fault (List Exclusion)
  | [] => .ok []
  | p :: ps =>
    match Exclusion.ofText? p with
    | some e => (exclusions ps).map (e :: ·)
    | none => .error (.invalidPattern p)

/-- Whether a file has the name of one to be looked at and no pattern leaves it out. -/
def isWanted (s : Selection) (es : List Exclusion) (path : Location) : Bool :=
  (path.getLast?.any fun name => s.suffix.toList.isSuffixOf name.toList) &&
    !es.any fun e => e.excludes path

/-- The files below a directory that are reached and wanted, in the order of their names. -/
def below (t : Tree) (s : Selection) (es : List Exclusion) (root : Location) : List Location :=
  ((t.files.filterMap fun f =>
      if root.isPrefixOf f.1 && root != f.1 then some (f.1.drop root.length) else none).filter
    fun path => isReached t s root path && isWanted s es path).mergeSort Location.isUpTo

/-- An ignore file above a directory has a line that cannot be read. -/
def isSpoiled (t : Tree) (s : Selection) (root : Location) : Bool :=
  (above root).any fun d => (ignoreFiles s).any fun kind => (ignoreFileAt t kind d).faulty

/-- The files to look at: the one that the path names, or those below the directory. A lone dash
stands for an input that holds no files. -/
def collect (t : Tree) (root : String) (s : Selection) : Except Fault (List String) :=
  if t.isFile root then .ok [root]
  else do
    let es ← exclusions s.exclude
    if Path.parts root = [.name "-"] then return []
    match t.locate? root with
    | some l =>
      if isSpoiled t s l then throw (.unwalkable root)
      return (below t s es l).map fun path => path.foldl Path.join root
    | none => throw (.unwalkable root)

end Discovery
end ProcessLint
