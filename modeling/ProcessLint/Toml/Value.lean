/-! TOML values, and tables that grow by headers and dotted keys. -/
namespace ProcessLint
namespace Toml

inductive Value
  | text (s : String)
  | bool (b : Bool)
  | integer (n : Int)
  | real
  /-- A date, a time or both. -/
  | moment
  | array (items : List Value)
  | table (members : List (String × Value))

mutual

/-- A table while a document is read. It is implicit until a header or a value defines it, and
dotted if a dotted key brought it about. -/
inductive Table
  | mk (implicit dotted : Bool) (members : List (String × Entry))

inductive Entry
  | value (v : Value)
  | table (t : Table)
  /-- An array of tables, each added by a header. -/
  | tables (ts : List Table)

end

namespace Table

def members : Table → List (String × Entry)
  | mk _ _ ms => ms

def isImplicit : Table → Bool
  | mk implicit _ _ => implicit

def isDotted : Table → Bool
  | mk _ dotted _ => dotted

def empty : Table := mk false false []

def find? (t : Table) (key : String) : Option Entry := t.members.lookup key

def put (t : Table) (key : String) (e : Entry) : Table :=
  match t with
  | mk implicit dotted ms =>
    mk implicit dotted <|
      if ms.any fun m => m.1 == key then ms.map fun m => if m.1 == key then (key, e) else m
      else ms ++ [(key, e)]

/-- Changes the table at a path, in the last of the tables where there are several. Missing tables
are made on the way. A dotted path may not enter a table that has been defined. -/
def within? (dotted : Bool) (f : Table → Option Table) : List String → Table → Option Table
  | [], t => f t
  | k :: ks, t =>
    match t.find? k with
    | none => (within? dotted f ks (mk true dotted [])).map fun u => t.put k (.table u)
    | some (.value _) => none
    | some (.table u) =>
      if dotted && !u.isImplicit then none
      else (within? dotted f ks u).map fun u => t.put k (.table u)
    | some (.tables us) =>
      match us.getLast? with
      | some u => (within? dotted f ks u).map fun u => t.put k (.tables (us.dropLast ++ [u]))
      | none => none

/-- Adds a value under a dotted key. A table that no dotted key brought about is closed to longer
keys, and a name can be given once. -/
def add? (path : List String) (key : String) (v : Value) (t : Table) : Option Table :=
  t.within? true (fun u =>
    if u.isDotted == path.isEmpty then none
    else if (u.find? key).isSome then none
    else some (u.put key (.value v))) path

/-- Opens a table by its header: a new one, or one that is only implied by longer headers. -/
def openTable? (path : List String) (key : String) (t : Table) : Option Table :=
  t.within? false (fun u =>
    match u.find? key with
    | none => some (u.put key (.table empty))
    | some (.table w) =>
      if w.isImplicit && !w.isDotted then some (u.put key (.table (mk false false w.members)))
      else none
    | some _ => none) path

def openItem? (path : List String) (key : String) (t : Table) : Option Table :=
  t.within? false (fun u =>
    match u.find? key with
    | none => some (u.put key (.tables [empty]))
    | some (.tables ws) => some (u.put key (.tables (ws ++ [empty])))
    | some _ => none) path

end Table

mutual

def Table.values : Table → List (String × Value)
  | .mk _ _ ms => memberValues ms

def memberValues : List (String × Entry) → List (String × Value)
  | [] => []
  | (k, e) :: ms => (k, e.toValue) :: memberValues ms

def Entry.toValue : Entry → Value
  | .value v => v
  | .table t => .table t.values
  | .tables ts => .array (tableValues ts)

def tableValues : List Table → List Value
  | [] => []
  | t :: ts => .table t.values :: tableValues ts

end

end Toml
end ProcessLint
