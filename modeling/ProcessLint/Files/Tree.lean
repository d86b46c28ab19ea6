import ProcessLint.Files.Path

/-! Trees of files and directories, and how paths are found in them. -/
namespace ProcessLint

/-- A place in a tree: the names from the top down. -/
abbrev Location := List String

/-- The order of places: name by name, and what is above comes first. -/
def Location.isUpTo : Location → Location → Bool
  | [], _ => true
  | _ :: _, [] => false
  | a :: as, b :: bs => a < b || (a == b && isUpTo as bs)

namespace Location

theorem isUpTo_cons (a b : String) (l m : Location) :
    isUpTo (a :: l) (b :: m) = true ↔ a < b ∨ a = b ∧ l.isUpTo m = true := by
  simp [isUpTo]

@[simp] theorem isUpTo_refl (l : Location) : l.isUpTo l = true := by
  induction l with
  | nil => rfl
  | cons a l ih => exact (isUpTo_cons ..).mpr (Or.inr ⟨rfl, ih⟩)

theorem isUpTo_total (l m : Location) : l.isUpTo m = true ∨ m.isUpTo l = true := by
  induction l generalizing m with
  | nil => exact Or.inl rfl
  | cons a l ih =>
    cases m with
    | nil => exact Or.inr rfl
    | cons b m =>
      simp only [isUpTo_cons]
      by_cases hab : a < b
      · exact Or.inl (Or.inl hab)
      · by_cases hba : b < a
        · exact Or.inr (Or.inl hba)
        · have h : a = b := String.le_antisymm (String.not_lt.mp hba) (String.not_lt.mp hab)
          exact (ih m).imp (fun k => Or.inr ⟨h, k⟩) (fun k => Or.inr ⟨h.symm, k⟩)

theorem isUpTo_trans {l m n : Location} (h : l.isUpTo m = true) (k : m.isUpTo n = true) :
    l.isUpTo n = true := by
  induction l generalizing m n with
  | nil => rfl
  | cons a l ih =>
    cases m with
    | nil => simp [isUpTo] at h
    | cons b m =>
      cases n with
      | nil => simp [isUpTo] at k
      | cons c n =>
        rw [isUpTo_cons] at *
        rcases h with h | ⟨rfl, h⟩ <;> rcases k with k | ⟨rfl, k⟩
        · exact Or.inl (String.lt_trans h k)
        · exact Or.inl h
        · exact Or.inl k
        · exact Or.inr ⟨rfl, ih h k⟩

theorem isUpTo_antisymm {l m : Location} (h : l.isUpTo m = true) (k : m.isUpTo l = true) :
    l = m := by
  induction l generalizing m with
  | nil =>
    cases m with
    | nil => rfl
    | cons b m => simp [isUpTo] at k
  | cons a l ih =>
    cases m with
    | nil => simp [isUpTo] at h
    | cons b m =>
      rw [isUpTo_cons] at *
      rcases h with h | ⟨rfl, h⟩
      · rcases k with k | ⟨rfl, -⟩
        · exact absurd k (String.lt_asymm h)
        · exact absurd h (String.lt_irrefl _)
      · rcases k with k | ⟨-, k⟩
        · exact absurd k (String.lt_irrefl _)
        · rw [ih h k]

end Location

/-- Files with their content, further directories, and the place where relative paths start. -/
structure Tree where
  files : List (Location × ByteArray) := []
  directories : List Location := []
  start : Location := []

namespace Tree

def content? (t : Tree) (l : Location) : Option ByteArray := t.files.lookup l

def isFileAt (t : Tree) (l : Location) : Bool := (t.content? l).isSome

/-- A directory is the top, what is said to be one, and whatever holds something. -/
def isDirectoryAt (t : Tree) (l : Location) : Bool :=
  l.isEmpty || t.directories.any (l.isPrefixOf ·) ||
    t.files.any fun f => l.isPrefixOf f.1 && l != f.1

/-- Follows names from a place; two dots lead up, and only directories can be left. -/
def follow? (t : Tree) : Location → List String → Option Location
  | l, [] => some l
  | l, p :: ps =>
    if !t.isDirectoryAt l then none
    else if p = "" ∨ p = "." then t.follow? l ps
    else if p = ".." then t.follow? l.dropLast ps
    else
      let m := l ++ [p]
      if t.isFileAt m || t.isDirectoryAt m then t.follow? m ps else none

/-- The place that a path leads to, if there is something. -/
def locate? (t : Tree) (path : String) : Option Location :=
  if path.isEmpty then none
  else t.follow? (if Path.isAbsolute path then [] else t.start) (Path.pieces path)

def isFile (t : Tree) (path : String) : Bool := (t.locate? path).any t.isFileAt

def isDirectory (t : Tree) (path : String) : Bool := (t.locate? path).any t.isDirectoryAt

def exists? (t : Tree) (path : String) : Bool := (t.locate? path).isSome

/-- The text of a file; other bytes than those of text are none. -/
def read? (t : Tree) (path : String) : Option String := do
  let l ← t.locate? path
  let bytes ← t.content? l
  String.fromUTF8? bytes

def pathOf (l : Location) : String := "/" ++ "/".intercalate l

def put (t : Tree) (l : Location) (bytes : ByteArray) : Tree :=
  { t with files := (l, bytes) :: t.files.filter (·.1 != l) }

theorem lookup_filter_ne {l m : Location} (h : m ≠ l) (fs : List (Location × ByteArray)) :
    (fs.filter (·.1 != l)).lookup m = fs.lookup m := by
  induction fs with
  | nil => rfl
  | cons f fs ih =>
    obtain ⟨n, bytes⟩ := f
    by_cases hn : n = l
    · subst hn
      have hm : (m == n) = false := by simpa using h
      simp [List.lookup_cons, hm, ih]
    · cases hm : m == n <;> simp [hn, List.lookup_cons, hm, ih]

theorem content?_put (t : Tree) (l m : Location) (bytes : ByteArray) :
    (t.put l bytes).content? m = if m = l then some bytes else t.content? m := by
  by_cases h : m = l
  · simp [put, content?, h]
  · have hm : (m == l) = false := by simpa using h
    simp [put, content?, h, List.lookup_cons, hm, lookup_filter_ne h]

/-- Writes a text to a file whose directory is there, unless a directory is in its place. -/
def write? (t : Tree) (path : String) (text : String) : Option Tree :=
  match t.locate? path with
  | some l => if t.isDirectoryAt l then none else some (t.put l text.toUTF8)
  | none => do
    let parent ← Path.parent? path
    let l ← if parent.isEmpty then some t.start else t.locate? parent
    let name ← (Path.pieces path).getLast?
    if t.isDirectoryAt l && name != "" && name != "." && name != ".." then
      some (t.put (l ++ [name]) text.toUTF8)
    else none

end Tree
end ProcessLint
