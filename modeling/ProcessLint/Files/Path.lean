import ProcessLint.Text.Blank

/-! Paths as they are written: parts between slashes. -/
namespace ProcessLint
namespace Path

/-- What a part of a path stands for. -/
inductive Part
  | root | here | up | name (s : String)
  deriving DecidableEq

def pieces (path : String) : List String :=
  (Text.pieces (· == '/') path.toList).map String.ofList

def isAbsolute (path : String) : Bool := path.toList.head? == some '/'

/-- A piece that counts: not empty, and a dot only in front. -/
def counts (piece : String × Nat) : Bool := piece.1 != "" && (piece.1 != "." || piece.2 == 0)

def Part.ofPiece (piece : String) : Part :=
  if piece = "." then .here else if piece = ".." then .up else .name piece

/-- The parts of a path. Doubled slashes, slashes at the end and inner dots are no parts. -/
def parts (path : String) : List Part :=
  (if isAbsolute path then [.root] else []) ++
    ((pieces path).zipIdx.filter counts).map fun p => .ofPiece p.1

def join (base path : String) : String :=
  if isAbsolute path then path
  else if base.isEmpty || base.toList.getLast? == some '/' then base ++ path
  else base ++ "/" ++ path

def parent? (path : String) : Option String :=
  let ps := pieces path
  match (ps.zipIdx.filter counts).reverse with
  | [] => none
  | [_] => some (if isAbsolute path then "/" else "")
  | _ :: (_, n) :: _ => some ("/".intercalate (ps.take (n + 1)))

/-- The path itself and the paths above it. Each is shorter than the one before, so that the
length of the path is fuel enough. -/
def ancestorsFrom : Nat → String → List String
  | 0, path => [path]
  | fuel + 1, path =>
    path :: match parent? path with
      | some p => ancestorsFrom fuel p
      | none => []

def ancestors (path : String) : List String := ancestorsFrom path.length path

end Path
end ProcessLint
