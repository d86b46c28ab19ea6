import ProcessLint.Toml.Scan

/-! Reading TOML documents. -/
namespace ProcessLint
namespace Toml

def inlineTable? (pairs : List (List String × String × Value)) : Option Value :=
  (pairs.foldlM (fun t p => Table.add? p.1 p.2.1 p.2.2 t) .empty).map
    fun t => .table (Table.values t)

mutual

/-- Reads the value that a text starts with; `room` says how deep more values may be nested. Of two
steps one at least takes a character. -/
def value? : Nat → Nat → List Char → Option (Value × List Char)
  | 0, _, _ => none
  | fuel + 1, room, cs =>
    match cs, room with
    | '"' :: _, _ | '\'' :: _, _ => (string? cs).map fun (s, r) => (.text s, r)
    | '[' :: r, room + 1 => (items? fuel room r).map fun (vs, r) => (.array vs, r)
    | '\x7b' :: r, room + 1 => do
      let (pairs, r) ← match skipBlanks r with
        | '\x7d' :: r => some ([], r)
        | r => pairs? fuel room r
      let t ← inlineTable? pairs
      some (t, r)
    | _, _ => scalarValue? cs

def items? : Nat → Nat → List Char → Option (List Value × List Char)
  | 0, _, _ => none
  | fuel + 1, room, cs => do
    match ← skipLines? false cs with
    | ']' :: r => some ([], r)
    | cs =>
      let (v, r) ← value? fuel room cs
      match ← skipLines? false r with
      | ']' :: r => some ([v], r)
      | ',' :: r => (items? fuel room r).map fun (vs, r) => (v :: vs, r)
      | _ => none

def pairs? : Nat → Nat → List Char → Option (List (List String × String × Value) × List Char)
  | 0, _, _ => none
  | fuel + 1, room, cs => do
    let (path, key, r) ← path? cs
    match r with
    | '=' :: r =>
      let (v, r) ← value? fuel room (skipBlanks r)
      match skipBlanks r with
      | '\x7d' :: r => some ([(path, key, v)], r)
      | ',' :: r => (pairs? fuel room r).map fun (ps, r) => ((path, key, v) :: ps, r)
      | _ => none
    | _ => none

end

/-- A document while it is read: its tables, and the path of the one opened last. -/
structure Reader where
  root : Table := .empty
  current : List String := []

namespace Reader

def openTable? (d : Reader) (path : List String) (key : String) : Option Reader :=
  (d.root.openTable? path key).map fun root => ⟨root, path ++ [key]⟩

def openItem? (d : Reader) (path : List String) (key : String) : Option Reader :=
  (d.root.openItem? path key).map fun root => ⟨root, path ++ [key]⟩

def add? (d : Reader) (path : List String) (key : String) (v : Value) : Option Reader :=
  (d.root.within? false (Table.add? path key v) d.current).map fun root => { d with root }

/-- Reads one header or one pair with the rest of its line. -/
def statement? (d : Reader) (cs : List Char) : Option (Reader × List Char) := do
  match cs with
  | '[' :: '[' :: r =>
    let (path, key, r) ← path? r
    match r with
    | ']' :: ']' :: r =>
      let d ← d.openItem? path key
      let r ← afterLine? r
      some (d, r)
    | _ => none
  | '[' :: r =>
    let (path, key, r) ← path? r
    match r with
    | ']' :: r =>
      let d ← d.openTable? path key
      let r ← afterLine? r
      some (d, r)
    | _ => none
  | _ =>
    let (path, key, r) ← path? cs
    match r with
    | '=' :: r =>
      let (v, r) ← value? (2 * cs.length) nestingLimit (skipBlanks r)
      let d ← d.add? path key v
      let r ← afterLine? r
      some (d, r)
    | _ => none

/-- Reads statements to the end. Each takes a character at least. -/
def statements? : Nat → Reader → List Char → Option Reader
  | 0, d, cs => if cs.isEmpty then some d else none
  | fuel + 1, d, cs => do
    match ← skipLines? false cs with
    | [] => some d
    | cs =>
      let (d, r) ← d.statement? cs
      statements? fuel d r

end Reader

/-- The members of a TOML document. A byte order mark may stand in front. -/
def ofText? (s : String) : Option (List (String × Value)) :=
  let cs := match s.toList with
    | '\ufeff' :: r => r
    | cs => cs
  (Reader.statements? cs.length {} cs).map fun d => d.root.values

end Toml
end ProcessLint
