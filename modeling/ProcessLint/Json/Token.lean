import ProcessLint.Number.Numeral
import ProcessLint.Text.Hex

/-! The tokens of JSON text: how each is written and how it is read. -/
namespace ProcessLint
namespace Json

inductive Token
  | beginArray | endArray | beginObject | endObject | comma | colon
  | null
  | bool (b : Bool)
  | number (n : Numeral)
  | string (text : Option String)
  deriving DecidableEq

namespace Token

/-! ### Texts -/

/-- A character between quotes: controls, quotes and backslashes are escaped. -/
def escape (c : Char) : List Char :=
  if c = '"' then ['\\', '"']
  else if c = '\\' then ['\\', '\\']
  else if c = '\n' then ['\\', 'n']
  else if c = '\r' then ['\\', 'r']
  else if c = '\t' then ['\\', 't']
  else if c.toNat = 8 then ['\\', 'b']
  else if c.toNat = 12 then ['\\', 'f']
  else if c.toNat < 32 then ['\\', 'u', '0', '0', Text.hexDigit (c.toNat / 16),
    Text.hexDigit (c.toNat % 16)]
  else [c]

/-- A text between quotes; one without characters is written as half a pair of escapes. -/
def quoted : Option String → List Char
  | some s => '"' :: s.toList.flatMap escape ++ ['"']
  | none => ['"', '\\', 'u', 'd', '8', '0', '0', '"']

/-- What stands between quotes: a character, or a code unit that is half a pair. -/
inductive Piece
  | char (c : Char)
  | half (unit : Nat)

def Piece.ofUnit (u : Nat) : Piece :=
  if 0xD800 ≤ u ∧ u < 0xE000 then .half u else .char (Char.ofNat u)

/-- The characters of the pieces, when halves come in pairs, the higher one first. -/
def joinPieces : List Piece → Option (List Char)
  | [] => some []
  | .char c :: ps => (joinPieces ps).map (c :: ·)
  | .half h :: .half l :: ps =>
    if h < 0xDC00 ∧ 0xDC00 ≤ l then
      (joinPieces ps).map (Char.ofNat (0x10000 + (h - 0xD800) * 0x400 + (l - 0xDC00)) :: ·)
    else none
  | .half _ :: _ => none

def unescape? (c : Char) : Option Char :=
  if c = '"' ∨ c = '\\' ∨ c = '/' then some c
  else if c = 'n' then some '\n'
  else if c = 'r' then some '\r'
  else if c = 't' then some '\t'
  else if c = 'b' then some '\x08'
  else if c = 'f' then some '\x0c'
  else none

/-- Reads up to the closing quote; gives the pieces and what follows the quote. -/
def scanPieces : List Char → Option (List Piece × List Char)
  | [] => none
  | '"' :: r => some ([], r)
  | '\\' :: 'u' :: a :: b :: c :: d :: r =>
    match Text.hexNumber? [a, b, c, d], scanPieces r with
    | some u, some (ps, rest) => some (.ofUnit u :: ps, rest)
    | _, _ => none
  | '\\' :: c :: r =>
    match unescape? c, scanPieces r with
    | some e, some (ps, rest) => some (.char e :: ps, rest)
    | _, _ => none
  | c :: r =>
    if c.toNat < 32 ∨ c = '\\' then none
    else
      match scanPieces r with
      | some (ps, rest) => some (.char c :: ps, rest)
      | none => none

/-! ### Numbers -/

def spanDigits (cs : List Char) : List Char × List Char :=
  (cs.takeWhile Char.isDigit, cs.dropWhile Char.isDigit)

/-- A whole part: a zero, or digits that do not start with zero. -/
def scanWhole? (cs : List Char) : Option (Nat × List Char) :=
  match cs with
  | '0' :: r => some (0, r)
  | _ =>
    match spanDigits cs with
    | ([], _) => none
    | (ds, r) => some (Nat.ofDigitChars 10 ds 0, r)

def scanFraction? (cs : List Char) : Option (List Char × List Char) :=
  match cs with
  | '.' :: r =>
    match spanDigits r with
    | ([], _) => none
    | (ds, r) => some (ds, r)
  | _ => some ([], cs)

def scanSign (cs : List Char) : Bool × List Char :=
  match cs with
  | '-' :: r => (true, r)
  | '+' :: r => (false, r)
  | _ => (false, cs)

def scanExponent? (cs : List Char) : Option (Option Int × List Char) :=
  match cs with
  | c :: r =>
    if c = 'e' ∨ c = 'E' then
      let (negative, r) := scanSign r
      match spanDigits r with
      | ([], _) => none
      | (ds, r) =>
        let e : Int := Nat.ofDigitChars 10 ds 0
        some (some (if negative then -e else e), r)
    else some (none, cs)
  | [] => some (none, cs)

def scanNumber? (cs : List Char) : Option (Numeral × List Char) := do
  let (negative, cs) := match cs with
    | '-' :: r => (true, r)
    | _ => (false, cs)
  let (whole, cs) ← scanWhole? cs
  let (fraction, cs) ← scanFraction? cs
  let (exponent, cs) ← scanExponent? cs
  some (⟨negative, whole, fraction, exponent⟩, cs)

/-! ### Tokens -/

def text : Token → List Char
  | beginArray => ['[']
  | endArray => [']']
  | beginObject => ['\x7b']
  | endObject => ['\x7d']
  | comma => [',']
  | colon => [':']
  | null => ['n', 'u', 'l', 'l']
  | bool true => ['t', 'r', 'u', 'e']
  | bool false => ['f', 'a', 'l', 's', 'e']
  | number n => n.text
  | string t => quoted t

def scan? : List Char → Option (Token × List Char)
  | '[' :: r => some (beginArray, r)
  | ']' :: r => some (endArray, r)
  | '\x7b' :: r => some (beginObject, r)
  | '\x7d' :: r => some (endObject, r)
  | ',' :: r => some (comma, r)
  | ':' :: r => some (colon, r)
  | 'n' :: 'u' :: 'l' :: 'l' :: r => some (null, r)
  | 't' :: 'r' :: 'u' :: 'e' :: r => some (bool true, r)
  | 'f' :: 'a' :: 'l' :: 's' :: 'e' :: r => some (bool false, r)
  | '"' :: r => (scanPieces r).map fun (ps, r) => (string ((joinPieces ps).map .ofList), r)
  | cs => (scanNumber? cs).map fun (n, r) => (number n, r)

def isBlank (c : Char) : Bool := c == ' ' || c == '\t' || c == '\n' || c == '\r'

/-- The tokens of a text. Each takes at least one character, so that the length of the text is
fuel enough. -/
def scanAll? : Nat → List Char → Option (List Token)
  | 0, cs => if cs.all isBlank then some [] else none
  | fuel + 1, cs =>
    match cs.dropWhile isBlank with
    | [] => some []
    | cs =>
      match scan? cs with
      | some (t, r) => (scanAll? fuel r).map (t :: ·)
      | none => none

def ofText? (cs : List Char) : Option (List Token) := scanAll? cs.length cs

end Token
end Json
end ProcessLint
