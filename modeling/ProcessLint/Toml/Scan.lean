import ProcessLint.Number.Numeral
import ProcessLint.Text.Hex
import ProcessLint.Toml.Value

/-! The parts of TOML text that hold no other values: blanks, comments, strings, numbers, dates
and keys. -/
namespace ProcessLint
namespace Toml

/-! ### Blanks and lines -/

def isBlank (c : Char) : Bool := c == ' ' || c == '\t'

/-- A character that may stand in comments and strings: no control but the tab. -/
def isPlain (c : Char) : Bool := c == '\t' || (32 ≤ c.toNat && c.toNat != 127)

def skipBlanks (cs : List Char) : List Char := cs.dropWhile isBlank

def afterNewline? : List Char → Option (List Char)
  | '\n' :: r => some r
  | '\r' :: '\n' :: r => some r
  | _ => none

def afterLine? (cs : List Char) : Option (List Char) :=
  let cs := match skipBlanks cs with
    | '#' :: r => r.dropWhile isPlain
    | cs => cs
  match cs with
  | [] => some []
  | cs => afterNewline? cs

def skipLines? : Bool → List Char → Option (List Char)
  | _, [] => some []
  | _, '\n' :: r => skipLines? false r
  | _, '\r' :: '\n' :: r => skipLines? false r
  | true, c :: r => if isPlain c then skipLines? true r else none
  | false, c :: r =>
    if isBlank c then skipLines? false r
    else if c = '#' then skipLines? true r
    else some (c :: r)

/-! ### Strings -/

def unescape? (c : Char) : Option Char :=
  if c = '"' ∨ c = '\\' then some c
  else if c = 'n' then some '\n'
  else if c = 'r' then some '\r'
  else if c = 't' then some '\t'
  else if c = 'b' then some '\x08'
  else if c = 'f' then some '\x0c'
  else none

def scalar? (digits : List Char) : Option Char := do
  let n ← Text.hexNumber? digits
  if n.isValidChar then some (Char.ofNat n) else none

def push (c : Option Char) (found : Option (List Char × List Char)) :
    Option (List Char × List Char) :=
  match c, found with
  | some c, some (cs, r) => some (c :: cs, r)
  | _, _ => none

def scanBasic : List Char → Option (List Char × List Char)
  | [] => none
  | '"' :: r => some ([], r)
  | '\\' :: 'u' :: a :: b :: c :: d :: r => push (scalar? [a, b, c, d]) (scanBasic r)
  | '\\' :: 'U' :: a :: b :: c :: d :: e :: f :: g :: h :: r =>
    push (scalar? [a, b, c, d, e, f, g, h]) (scanBasic r)
  | '\\' :: c :: r => push (unescape? c) (scanBasic r)
  | c :: r => if isPlain c && c != '\\' then push (some c) (scanBasic r) else none

/-- A backslash before this text hides the end of its line. -/
def hidesLine (cs : List Char) : Bool := (afterNewline? (skipBlanks cs)).isSome

/-- The characters up to three closing quotes, before which up to two more may stand; `hidden`
says that blanks and line ends are being skipped. -/
def scanBasicLines : Bool → List Char → Option (List Char × List Char)
  | _, [] => none
  | _, '"' :: '"' :: '"' :: '"' :: '"' :: r => some (['"', '"'], r)
  | _, '"' :: '"' :: '"' :: '"' :: r => some (['"'], r)
  | _, '"' :: '"' :: '"' :: r => some ([], r)
  | hidden, '\r' :: '\n' :: r =>
    if hidden then scanBasicLines true r else push (some '\n') (scanBasicLines false r)
  | hidden, '\n' :: r =>
    if hidden then scanBasicLines true r else push (some '\n') (scanBasicLines false r)
  | _, '\\' :: 'u' :: a :: b :: c :: d :: r => push (scalar? [a, b, c, d]) (scanBasicLines false r)
  | _, '\\' :: 'U' :: a :: b :: c :: d :: e :: f :: g :: h :: r =>
    push (scalar? [a, b, c, d, e, f, g, h]) (scanBasicLines false r)
  | _, '\\' :: c :: r =>
    if hidesLine (c :: r) then scanBasicLines true (c :: r)
    else push (unescape? c) (scanBasicLines false r)
  | hidden, c :: r =>
    if hidden && isBlank c then scanBasicLines true r
    else if isPlain c && c != '\\' then push (some c) (scanBasicLines false r)
    else none

def scanLiteral (cs : List Char) : Option (List Char × List Char) :=
  let inside := cs.takeWhile fun c => isPlain c && c != '\''
  match cs.drop inside.length with
  | '\'' :: r => some (inside, r)
  | _ => none

def scanLiteralLines : List Char → Option (List Char × List Char)
  | [] => none
  | '\'' :: '\'' :: '\'' :: '\'' :: '\'' :: r => some (['\'', '\''], r)
  | '\'' :: '\'' :: '\'' :: '\'' :: r => some (['\''], r)
  | '\'' :: '\'' :: '\'' :: r => some ([], r)
  | '\r' :: '\n' :: r => push (some '\n') (scanLiteralLines r)
  | '\n' :: r => push (some '\n') (scanLiteralLines r)
  | c :: r => if isPlain c then push (some c) (scanLiteralLines r) else none

/-- The line end behind opening quotes does not count. -/
def dropNewline (cs : List Char) : List Char := (afterNewline? cs).getD cs

def string? : List Char → Option (String × List Char)
  | '"' :: '"' :: '"' :: r =>
    (scanBasicLines false (dropNewline r)).map fun (s, r) => (.ofList s, r)
  | '"' :: r => (scanBasic r).map fun (s, r) => (.ofList s, r)
  | '\'' :: '\'' :: '\'' :: r => (scanLiteralLines (dropNewline r)).map fun (s, r) => (.ofList s, r)
  | '\'' :: r => (scanLiteral r).map fun (s, r) => (.ofList s, r)
  | _ => none

/-! ### Numbers -/

/-- Digits with underscores between them, without the underscores. -/
def digits? (isDigit : Char → Bool) : List Char → Option (List Char)
  | [] => none
  | [c] => if isDigit c then some [c] else none
  | c :: '_' :: r => if isDigit c then (digits? isDigit r).map (c :: ·) else none
  | c :: r => if isDigit c then (digits? isDigit r).map (c :: ·) else none

def sign : List Char → Bool × List Char
  | '-' :: r => (true, r)
  | '+' :: r => (false, r)
  | cs => (false, cs)

def whole? (cs : List Char) : Option Nat :=
  match cs with
  | ['0'] => some 0
  | '0' :: _ => none
  | _ => (digits? Char.isDigit cs).map fun ds => Nat.ofDigitChars 10 ds 0

def based? (base : Nat) (cs : List Char) : Option Nat :=
  let isDigit (c : Char) := (Text.hexValue? c).any (· < base)
  (digits? isDigit cs).map fun ds => ds.foldl (fun n c => n * base + (Text.hexValue? c).getD 0) 0

/-- An integer of 64 bits. -/
def integer? (cs : List Char) : Option Int := do
  let n : Int ← match cs with
    | '0' :: 'x' :: r => (based? 16 r).map Int.ofNat
    | '0' :: 'o' :: r => (based? 8 r).map Int.ofNat
    | '0' :: 'b' :: r => (based? 2 r).map Int.ofNat
    | _ =>
      let (negative, r) := sign cs
      (whole? r).map fun n => if negative then -(n : Int) else n
  let bound := Int.ofNat (Nat.pow 2 63)
  if -bound ≤ n ∧ n < bound then some n else none

/-- The text before the first character of a kind, and what follows that character. -/
def cut (isMark : Char → Bool) (cs : List Char) : List Char × Option (List Char) :=
  (cs.takeWhile fun c => !isMark c, (cs.dropWhile fun c => !isMark c).tail?)

/-- Whether a text is a number with a fraction or an exponent. One that is too large counts only
below zero. -/
def isReal (cs : List Char) : Bool :=
  let (negative, r) := sign cs
  if r = "inf".toList ∨ r = "nan".toList then true
  else
    let (mantissa, exponent) := cut (fun c => c == 'e' || c == 'E') r
    let (before, behind) := cut (· == '.') mantissa
    let exponentDigits := match exponent with
      | some e =>
        let (negative, ds) := sign e
        (digits? Char.isDigit ds).map fun ds =>
          let n : Int := Nat.ofDigitChars 10 ds 0
          some (if negative then -n else n)
      | none => some none
    let fractionDigits := match behind with
      | some f => digits? Char.isDigit f
      | none => some []
    match whole? before, fractionDigits, exponentDigits with
    | some w, some f, some e =>
      (behind.isSome || exponent.isSome) &&
        (negative || (Numeral.mk false w f e).nearest?.isSome)
    | _, _, _ => false

/-! ### Dates and times -/

def two? (low high : Nat) (a b : Char) : Option Nat :=
  if a.isDigit && b.isDigit then
    let n := Nat.ofDigitChars 10 [a, b] 0
    if low ≤ n ∧ n ≤ high then some n else none
  else none

def daysIn (year month : Nat) : Nat :=
  if month = 2 then
    if year % 4 = 0 ∧ (year % 100 ≠ 0 ∨ year % 400 = 0) then 29 else 28
  else if month = 4 ∨ month = 6 ∨ month = 9 ∨ month = 11 then 30
  else 31

def afterDate? : List Char → Option (List Char)
  | y₁ :: y₂ :: y₃ :: y₄ :: '-' :: m₁ :: m₂ :: '-' :: d₁ :: d₂ :: r => do
    if [y₁, y₂, y₃, y₄].any fun c => !c.isDigit then none
    let month ← two? 1 12 m₁ m₂
    let _ ← two? 1 (daysIn (Nat.ofDigitChars 10 [y₁, y₂, y₃, y₄] 0) month) d₁ d₂
    some r
  | _ => none

def afterTime? : List Char → Option (List Char)
  | h₁ :: h₂ :: ':' :: m₁ :: m₂ :: ':' :: s₁ :: s₂ :: r => do
    let _ ← two? 0 23 h₁ h₂
    let _ ← two? 0 59 m₁ m₂
    let _ ← two? 0 60 s₁ s₂
    match r with
    | '.' :: f =>
      match f.takeWhile Char.isDigit with
      | [] => none
      | ds => some (f.drop ds.length)
    | _ => some r
  | _ => none

def isOffset : List Char → Bool
  | [] | ['Z'] | ['z'] => true
  | [s, h₁, h₂, ':', m₁, m₂] =>
    (s == '+' || s == '-') && (two? 0 23 h₁ h₂).isSome && (two? 0 59 m₁ m₂).isSome
  | _ => false

def isTimeOfDate (cs : List Char) : Bool := (afterTime? cs).any isOffset

/-- A date that a time of day may follow, or a time of day. -/
def isMoment (cs : List Char) : Bool :=
  match afterDate? cs with
  | some [] => true
  | some (c :: r) => (c == 'T' || c == 't') && isTimeOfDate r
  | none => afterTime? cs == some []

/-! ### Words -/

/-- A character of a number, a date or a truth value. -/
def isWordChar (c : Char) : Bool :=
  c.isAlphanum || c == '+' || c == '-' || c == '.' || c == '_' || c == ':'

def word? (w : List Char) : Option Value :=
  if w = "true".toList then some (.bool true)
  else if w = "false".toList then some (.bool false)
  else if isMoment w then some .moment
  else if isReal w then some .real
  else (integer? w).map .integer

def startsTime : List Char → Bool
  | h₁ :: h₂ :: ':' :: _ => h₁.isDigit && h₂.isDigit
  | _ => false

/-- Reads the number, date or truth value that a text starts with. A space may stand between a
date and its time. -/
def scalarValue? (cs : List Char) : Option (Value × List Char) :=
  let w := cs.takeWhile isWordChar
  let r := cs.dropWhile isWordChar
  match r with
  | ' ' :: t =>
    if afterDate? w == some [] && startsTime t then
      if isTimeOfDate (t.takeWhile isWordChar) then some (.moment, t.dropWhile isWordChar) else none
    else (word? w).map (·, r)
  | _ => (word? w).map (·, r)

/-! ### Keys -/

def isBareKeyChar (c : Char) : Bool := c.isAlphanum || c == '_' || c == '-'

def simpleKey? : List Char → Option (String × List Char)
  | '"' :: r => (scanBasic r).map fun (s, r) => (.ofList s, r)
  | '\'' :: r => (scanLiteral r).map fun (s, r) => (.ofList s, r)
  | cs =>
    match cs.takeWhile isBareKeyChar with
    | [] => none
    | w => some (.ofList w, cs.drop w.length)

/-- Reads keys with dots between them. Each takes a character at least. -/
def keys? : Nat → List Char → Option (List String × List Char)
  | 0, _ => none
  | fuel + 1, cs => do
    let (k, r) ← simpleKey? (skipBlanks cs)
    match skipBlanks r with
    | '.' :: r => (keys? fuel r).map fun (ks, r) => (k :: ks, r)
    | r => some ([k], r)

/-- How many parts a key may have, and how deep values may be nested. -/
def nestingLimit : Nat := 79

def path? (cs : List Char) : Option (List String × String × List Char) := do
  let (ks, r) ← keys? cs.length cs
  let key ← ks.getLast?
  if ks.length ≤ nestingLimit then some (ks.dropLast, key, r) else none

end Toml
end ProcessLint
