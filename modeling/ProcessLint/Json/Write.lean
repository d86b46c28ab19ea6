import ProcessLint.Json.Basic
import ProcessLint.Json.Token

/-! Writing JSON text. A layout says which blanks stand before the tokens. -/
namespace ProcessLint
namespace Json

structure Layout where
  /-- The blanks that start an item at a nesting depth. -/
  line : Nat → List Char
  /-- The blanks between a colon and the value. -/
  gap : List Char

namespace Layout

def compact : Layout := ⟨fun _ => [], []⟩

/-- One item a line, two spaces for each level. -/
def indented : Layout := ⟨fun depth => '\n' :: List.replicate (2 * depth) ' ', [' ']⟩

end Layout

abbrev Lexeme := List Char × Token

mutual

/-- The tokens of a value at a nesting depth, the first one behind the given blanks. -/
def lexemes (l : Layout) (depth : Nat) (lead : List Char) : Json → List Lexeme
  | .null => [(lead, .null)]
  | .bool b => [(lead, .bool b)]
  | .number n => [(lead, .number n)]
  | .string t => [(lead, .string t)]
  | .array [] => [(lead, .beginArray), ([], .endArray)]
  | .array (v :: vs) =>
    (lead, .beginArray) :: lexemes l (depth + 1) (l.line (depth + 1)) v ++
      itemLexemes l (depth + 1) vs ++ [(l.line depth, .endArray)]
  | .object [] => [(lead, .beginObject), ([], .endObject)]
  | .object ((k, v) :: ms) =>
    (lead, .beginObject) :: (l.line (depth + 1), .string k) :: ([], .colon) ::
      lexemes l (depth + 1) l.gap v ++ memberLexemes l (depth + 1) ms ++
      [(l.line depth, .endObject)]

def itemLexemes (l : Layout) (depth : Nat) : List Json → List Lexeme
  | [] => []
  | v :: vs => ([], .comma) :: lexemes l depth (l.line depth) v ++ itemLexemes l depth vs

def memberLexemes (l : Layout) (depth : Nat) : List (Option String × Json) → List Lexeme
  | [] => []
  | (k, v) :: ms =>
    ([], .comma) :: (l.line depth, .string k) :: ([], .colon) ::
      lexemes l depth l.gap v ++ memberLexemes l depth ms

end

def write (l : Layout) (v : Json) : String :=
  .ofList ((lexemes l 0 [] v).flatMap fun (blanks, t) => blanks ++ t.text)

end Json
end ProcessLint
