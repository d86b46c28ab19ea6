import ProcessLint.Files.Path

/-! Patterns of ignore files, matched against the bytes of a relative path. -/
namespace ProcessLint

inductive IgnorePart
  | char (c : Char)
  /-- One byte that is no slash. -/
  | any
  /-- Any bytes that are no slashes. -/
  | run
  /-- Any directories in front, or none. -/
  | leading
  /-- A slash and whatever follows. -/
  | trailing
  /-- A slash, or directories between slashes. -/
  | between
  /-- One byte of the characters in the ranges, or one that is none of them. -/
  | oneOf (negated : Bool) (ranges : List (Char × Char))
  /-- One of several patterns; an empty one does not count. -/
  | choice (branches : List (List IgnorePart))

namespace IgnorePart

/-! ### Reading -/

/-- What is read behind an opening bracket. -/
inductive Brackets
  | closed (part : IgnorePart) (rest : List Char)
  | unclosed
  /-- A range that runs backwards. -/
  | backwards

/-- Reads ranges up to the closing bracket; `dash` says that a dash waits for the end of a range.
The ranges are in reverse. -/
def brackets (negated : Bool) : Bool → Bool → List (Char × Char) → List Char → Brackets
  | _, _, _, [] => .unclosed
  | true, dash, rs, c :: r => brackets negated false dash ((c, c) :: rs) r
  | false, dash, rs, c :: r =>
    if c = ']' then
      .closed (.oneOf negated ((if dash then ('-', '-') :: rs else rs).reverse)) r
    else if dash then
      match rs with
      | (a, _) :: rs => if c < a then .backwards else brackets negated false false ((a, c) :: rs) r
      | [] => .backwards
    else if c = '-' then brackets negated false true rs r
    else brackets negated false false ((c, c) :: rs) r

/-- Reads behind an opening bracket. The first character closes nothing. -/
def readBrackets : List Char → Brackets
  | c :: r => if c = '!' ∨ c = '^' then brackets true true false [] r
    else brackets false true false [] (c :: r)
  | [] => .unclosed

/-- A pattern while it is read. Parts are in reverse. -/
structure Reader where
  /-- The branch being read. -/
  current : List IgnorePart := []
  /-- The earlier branches of the innermost open choice. -/
  branches : List (List IgnorePart) := []
  /-- What was being read where the open choices begin, the innermost first. -/
  outer : List (List IgnorePart × List (List IgnorePart)) := []
  /-- A bracket was found that nothing closes; brackets are plain from then on. -/
  plainBrackets : Bool := false

namespace Reader

def push (d : Reader) (p : IgnorePart) : Reader := { d with current := p :: d.current }

/-- Two stars that are no whole part of the path are two runs. -/
def pushRuns (d : Reader) : Reader := (d.push .run).push .run

/-- Two stars after a slash, which they replace. -/
def pushDirectories (d : Reader) (p : IgnorePart) : Reader :=
  match d.current with
  | .leading :: _ | .trailing :: _ => d
  | _ :: ps => { d with current := p :: ps }
  | [] => d.push p

/-- Takes two stars behind a character and before a text; gives what follows. -/
def stars (d : Reader) (before : Option Char) (r : List Char) : Reader × List Char × Option Char :=
  if d.current.isEmpty then
    match r with
    | [] => (d.push .leading, [], some '*')
    | '/' :: r => (d.push .leading, r, some '/')
    | _ => (d.pushRuns, r, some '*')
  else if before = some '/' ∨ (!d.outer.isEmpty ∧ (before = some ',' ∨ before = some '\x7b')) then
    match r with
    | [] => (d.pushDirectories .trailing, [], some '*')
    | '/' :: r => (d.pushDirectories .between, r, some '/')
    | c :: _ =>
      if !d.outer.isEmpty ∧ (c = ',' ∨ c = '\x7d') then (d.pushDirectories .trailing, r, some '*')
      else (d.pushRuns, r, some '*')
  else (d.pushRuns, r, some '*')

/-- Reads a pattern behind a character. Each step takes at least one character. -/
def read? : Nat → Reader → Option Char → List Char → Option Reader
  | _, d, _, [] => some d
  | 0, _, _, _ :: _ => none
  | fuel + 1, d, before, c :: r =>
    if c = '?' then read? fuel (d.push .any) (some c) r
    else if c = '*' then
      match r with
      | '*' :: r =>
        let (d, r, last) := d.stars before r
        read? fuel d last r
      | _ => read? fuel (d.push .run) (some c) r
    else if c = '[' ∧ !d.plainBrackets then
      match readBrackets r with
      | .closed p r => read? fuel (d.push p) (some ']') r
      | .unclosed => read? fuel ({ d with plainBrackets := true }.push (.char c)) (some c) r
      | .backwards => none
    else if c = '\x7b' then
      read? fuel { d with
        current := [], branches := [], outer := (d.current, d.branches) :: d.outer } (some c) r
    else if c = '\x7d' then
      match d.outer with
      | (ps, bs) :: outer =>
        let choice := IgnorePart.choice (d.branches ++ [d.current.reverse])
        read? fuel { d with current := choice :: ps, branches := bs, outer } (some c) r
      | [] => none
    else if c = ',' ∧ !d.outer.isEmpty then
      read? fuel { d with current := [], branches := d.branches ++ [d.current.reverse] } (some c) r
    else if c = '\\' then
      match r with
      | e :: r => read? fuel (d.push (.char e)) (some e) r
      | [] => none
    else read? fuel (d.push (.char c)) (some c) r

end Reader

/-- Reads a pattern. Choices have to be closed, ranges have to run forwards, and nothing may end in
a backslash. -/
def ofText? (cs : List Char) : Option (List IgnorePart) := do
  let d ← Reader.read? cs.length {} none cs
  if d.outer.isEmpty then some d.current.reverse else none

/-! ### Matching -/

def slash : UInt8 := 47

def bytesOf (c : Char) : List UInt8 := (String.singleton c).toUTF8.toList

def dropBytes? : List UInt8 → List UInt8 → Option (List UInt8)
  | [], bs => some bs
  | a :: as, b :: bs => if a = b then dropBytes? as bs else none
  | _ :: _, [] => none

/-- Whether a byte lies in a range of characters. A range runs from the last byte of its first
character to the first byte of its last one, and the other bytes of both are single. -/
def rangeHolds (range : Char × Char) (b : UInt8) : Bool :=
  let low := bytesOf range.1
  if range.1 = range.2 then low.contains b
  else
    let high := bytesOf range.2
    low.dropLast.contains b || high.tail.contains b ||
      (match low.getLast?, high.head? with
        | some l, some h => l ≤ b && b ≤ h
        | _, _ => false)

/-- Some remainder passes the test after bytes that are no slashes. -/
def afterRun (test : List UInt8 → Bool) : List UInt8 → Bool
  | [] => test []
  | b :: bs => test (b :: bs) || (b != slash && afterRun test bs)

def anywhere (test : List UInt8 → Bool) : List UInt8 → Bool
  | [] => test []
  | b :: bs => test (b :: bs) || anywhere test bs

def behindSlash (test : List UInt8 → Bool) : List UInt8 → Bool
  | [] => false
  | b :: bs => (b = slash && test bs) || behindSlash test bs

def one (admits : UInt8 → Bool) (test : List UInt8 → Bool) : List UInt8 → Bool
  | b :: bs => admits b && test bs
  | [] => false

mutual

/-- The pattern stands for nothing that is ever matched: it has only empty choices. -/
def isVoid : List IgnorePart → Bool
  | [] => true
  | p :: ps => partIsVoid p && isVoid ps

def partIsVoid : IgnorePart → Bool
  | .choice bs => areVoid bs
  | _ => false

def areVoid : List (List IgnorePart) → Bool
  | [] => true
  | b :: bs => isVoid b && areVoid bs

end

mutual

/-- Whether a text starts with something that fits the parts and goes on as the test says. -/
def fitsThen (test : List UInt8 → Bool) : List IgnorePart → List UInt8 → Bool
  | [], bs => test bs
  | p :: ps, bs => partFitsThen (fun bs => fitsThen test ps bs) p bs

def partFitsThen (test : List UInt8 → Bool) : IgnorePart → List UInt8 → Bool
  | .char c, bs => (dropBytes? (bytesOf c) bs).any test
  | .any, bs => one (· != slash) test bs
  | .run, bs => afterRun test bs
  | .leading, bs => test bs || behindSlash test bs
  | .trailing, bs => one (· = slash) (anywhere test) bs
  | .between, bs => one (· = slash) (fun bs => test bs || behindSlash test bs) bs
  | .oneOf negated ranges, bs => one (fun b => (ranges.any (rangeHolds · b)) != negated) test bs
  | .choice branches, bs => if areVoid branches then test bs else someFitsThen test branches bs

def someFitsThen (test : List UInt8 → Bool) : List (List IgnorePart) → List UInt8 → Bool
  | [], _ => false
  | b :: bs, text => (!isVoid b && fitsThen test b text) || someFitsThen test bs text

end

/-- Whether a whole path fits the pattern. Two stars alone fit every path. -/
def fits (ps : List IgnorePart) (path : List UInt8) : Bool :=
  match ps with
  | [.leading] => true
  | _ => fitsThen List.isEmpty ps path

end IgnorePart
end ProcessLint
