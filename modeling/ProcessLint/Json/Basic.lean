import ProcessLint.Number.Numeral

/-! JSON values. A text whose escapes pair wrongly has no characters; a number is kept as it is
written. -/
namespace ProcessLint

inductive Json
  | null
  | bool (b : Bool)
  | number (n : Numeral)
  | string (text : Option String)
  | array (items : List Json)
  | object (members : List (Option String × Json))

namespace Json

def text (s : String) : Json := .string (some s)

def nat (n : Nat) : Json := .number (.ofNat n)

def record (members : List (String × Json)) : Json := .object (members.map fun m => (some m.1, m.2))

def texts (ss : List String) : Json := .array (ss.map text)

mutual

/-- How deep arrays and objects are nested. -/
def depth : Json → Nat
  | .array items => depthItems items + 1
  | .object members => depthMembers members + 1
  | _ => 0

def depthItems : List Json → Nat
  | [] => 0
  | v :: vs => max (depth v) (depthItems vs)

def depthMembers : List (Option String × Json) → Nat
  | [] => 0
  | (_, v) :: ms => max (depth v) (depthMembers ms)

end

variable (number : Numeral → Option Binary64)

mutual

/-- All texts have characters and all numbers can be read. -/
def isSound : Json → Bool
  | .null | .bool _ => true
  | .number n => (number n).isSome
  | .string t => t.isSome
  | .array items => areSound items
  | .object members => membersSound members

def areSound : List Json → Bool
  | [] => true
  | v :: vs => isSound v && areSound vs

def membersSound : List (Option String × Json) → Bool
  | [] => true
  | (k, v) :: ms => k.isSome && isSound v && membersSound ms

end

end Json
end ProcessLint
