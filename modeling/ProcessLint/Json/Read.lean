import ProcessLint.Json.Basic
import ProcessLint.Json.Token

/-! Reading JSON text: a machine with a stack of open arrays and objects takes the tokens one
by one. -/
namespace ProcessLint
namespace Json

/-- An array or object that waits for a value; what it holds so far is in reverse. -/
inductive Frame
  | array (held : List Json)
  | object (held : List (Option String × Json)) (key : Option String)

inductive Reader
  /-- A value has to follow. -/
  | value (stack : List Frame)
  /-- Just after an opening bracket. -/
  | firstItem (stack : List Frame)
  | afterItem (held : List Json) (stack : List Frame)
  /-- Just after an opening brace. -/
  | firstKey (stack : List Frame)
  | key (held : List (Option String × Json)) (stack : List Frame)
  | afterKey (held : List (Option String × Json)) (key : Option String) (stack : List Frame)
  | afterMember (held : List (Option String × Json)) (stack : List Frame)
  | complete (v : Json)

namespace Reader

/-- Hands a finished value to the innermost open array or object. -/
def close (v : Json) : List Frame → Reader
  | [] => complete v
  | .array held :: stack => afterItem (v :: held) stack
  | .object held k :: stack => afterMember ((k, v) :: held) stack

def startValue? (stack : List Frame) : Token → Option Reader
  | .beginArray => some (firstItem stack)
  | .beginObject => some (firstKey stack)
  | .null => some (close .null stack)
  | .bool b => some (close (.bool b) stack)
  | .number n => some (close (.number n) stack)
  | .string t => some (close (.string t) stack)
  | _ => none

def step? : Reader → Token → Option Reader
  | value stack, t => startValue? stack t
  | firstItem stack, .endArray => some (close (.array []) stack)
  | firstItem stack, t => startValue? (.array [] :: stack) t
  | afterItem held stack, .comma => some (value (.array held :: stack))
  | afterItem held stack, .endArray => some (close (.array held.reverse) stack)
  | firstKey stack, .endObject => some (close (.object []) stack)
  | firstKey stack, .string k => some (afterKey [] k stack)
  | key held stack, .string k => some (afterKey held k stack)
  | afterKey held k stack, .colon => some (value (.object held k :: stack))
  | afterMember held stack, .comma => some (key held stack)
  | afterMember held stack, .endObject => some (close (.object held.reverse) stack)
  | _, _ => none

def run? : Reader → List Token → Option Json
  | complete v, [] => some v
  | _, [] => none
  | r, t :: ts =>
    match r.step? t with
    | some r => r.run? ts
    | none => none

end Reader

/-- The value that a text is, blanks around its tokens aside. -/
def ofText? (s : String) : Option Json := (Token.ofText? s.toList).bind (Reader.value []).run?

end Json
end ProcessLint
