/-! Finite binary64 numbers in exact arithmetic: rounding of decimals, order, and the fewest
decimal digits that read back. -/
namespace ProcessLint

/-- The number `mantissa * 2 ^ exponent`, with its sign. The mantissa has 53 bits, or fewer at
the least exponent. -/
structure Binary64 where
  negative : Bool
  mantissa : Nat
  exponent : Int
  inRange : mantissa < Nat.pow 2 53 ∧ -1074 ≤ exponent ∧ exponent ≤ 971 ∧
    (mantissa < Nat.pow 2 52 → exponent = -1074)
  deriving DecidableEq

namespace Binary64

def zero (negative : Bool) : Binary64 := ⟨negative, 0, -1074, by decide⟩

def isZero (x : Binary64) : Bool := x.mantissa == 0

/-- The quotient rounded to a whole number; halfway between two it is the even one. -/
def roundHalfEven (num den : Nat) : Nat :=
  let q := num / den
  let r := 2 * (num % den)
  if r < den ∨ (r = den ∧ q % 2 = 0) then q else q + 1

/-- The fraction `num / den` counted in units of `2 ^ e`, as a fraction. -/
def inUnits (num den : Nat) (e : Int) : Nat × Nat :=
  if 0 ≤ e then (num, den * Nat.pow 2 e.toNat) else (num * Nat.pow 2 (-e).toNat, den)

/-- The exponent of the unit in which `num / den` has 53 bits before the point, or the least
exponent if the fraction is smaller. -/
def unitExponent (num den : Nat) : Int :=
  let e : Int := max (-1074) ((num.log2 : Int) - den.log2 - 53)
  let s := inUnits num den e
  if s.1 < Nat.pow 2 53 * s.2 then e else e + 1

/-- Assembles a number from a mantissa of at most 2 ^ 53; none is as large as `2 ^ 1024`. -/
def assemble? (negative : Bool) (m : Nat) (e : Int) : Option Binary64 :=
  let (m, e) := if m = Nat.pow 2 53 then (Nat.pow 2 52, e + 1) else (m, e)
  if h : m < Nat.pow 2 53 ∧ -1074 ≤ e ∧ e ≤ 971 ∧ (m < Nat.pow 2 52 → e = -1074) then
    some ⟨negative, m, e, h⟩
  else none

/-- The number nearest to `num / den`, the even one of two; none if that is out of range. -/
def ofFraction? (negative : Bool) (num den : Nat) : Option Binary64 :=
  if num = 0 then some (zero negative)
  else
    let e := unitExponent num den
    let s := inUnits num den e
    assemble? negative (roundHalfEven s.1 s.2) e

def digitCount (n : Nat) : Nat := (Nat.toDigits 10 n).length

/-- The number nearest to `n * 10 ^ e`. Beyond `10 ^ 310` none is near, and below `10 ^ -330`
zero is. -/
def ofDecimal? (negative : Bool) (n : Nat) (e : Int) : Option Binary64 :=
  if n = 0 then some (zero negative)
  else
    let magnitude := e + digitCount n
    if 310 < magnitude then none
    else if magnitude < -330 then some (zero negative)
    else if 0 ≤ e then ofFraction? negative (n * Nat.pow 10 e.toNat) 1
    else ofFraction? negative n (Nat.pow 10 (-e).toNat)

/-- The size of a number counted in units of `2 ^ -1074`: every number is a whole count. -/
def steps (x : Binary64) : Nat := x.mantissa * Nat.pow 2 (x.exponent + 1074).toNat

def signedSteps (x : Binary64) : Int := if x.negative then -(x.steps : Int) else x.steps

/-- The order of the numbers; both zeros are equal in it. -/
def lt (x y : Binary64) : Bool := x.signedSteps < y.signedSteps

theorem lt_irrefl (x : Binary64) : x.lt x = false := by simp [lt]

theorem lt_trans {x y z : Binary64} (h : x.lt y = true) (k : y.lt z = true) :
    x.lt z = true := by
  simp only [lt, decide_eq_true_eq] at *
  omega

/-! ### Products and quotients -/

/-- The numerator of a number without its sign. -/
def num (x : Binary64) : Nat := x.mantissa * Nat.pow 2 x.exponent.toNat

/-- The denominator of a number. -/
def den (x : Binary64) : Nat := Nat.pow 2 (-x.exponent).toNat

def mul? (x y : Binary64) : Option Binary64 :=
  ofFraction? (x.negative != y.negative) (x.num * y.num) (x.den * y.den)

def div? (x y : Binary64) : Option Binary64 :=
  ofFraction? (x.negative != y.negative) (x.num * y.den) (x.den * y.num)

/-- The number nearest to a power of ten; there is one up to `10 ^ 308`. -/
def tenTo? (n : Nat) : Option Binary64 := ofFraction? false (Nat.pow 10 n) 1

/-- Divides by `10 ^ n`, and by `10 ^ 308` as often as the power is no number. -/
def overTenTo? (x : Binary64) (n : Nat) : Option Binary64 :=
  if n ≤ 308 then (tenTo? n).bind x.div?
  else if x.isZero then some x
  else (tenTo? 308).bind fun y => (x.div? y).bind fun z => z.overTenTo? (n - 308)
termination_by n
decreasing_by omega

/-- The number times `10 ^ e`. The power is rounded, and the product or quotient once more. -/
def timesTenTo? (x : Binary64) (e : Int) : Option Binary64 :=
  if e < 0 then x.overTenTo? (-e).toNat
  else if e ≤ 308 then (tenTo? e.toNat).bind x.mul?
  else if x.isZero then some x
  else none

/-! ### Fewest digits -/

/-- A decimal `digits * 10 ^ exponent`. -/
structure Decimal where
  digits : Nat
  exponent : Int
  deriving DecidableEq

def compareDecimal (a : Nat) (p : Int) (n : Nat) (e : Int) : Ordering :=
  compare (a * Nat.pow 2 p.toNat * Nat.pow 10 (-e).toNat)
    (n * Nat.pow 10 e.toNat * Nat.pow 2 (-p).toNat)

/-- Whether a decimal lies between the midpoints to the neighbours of a number that is not zero,
and so rounds to it. A midpoint itself rounds to the even mantissa. -/
def roundsTo (x : Binary64) (d : Decimal) : Bool :=
  let below :=
    if x.mantissa = Nat.pow 2 52 ∧ x.exponent ≠ -1074 then
      compareDecimal (4 * x.mantissa - 1) (x.exponent - 2) d.digits d.exponent
    else compareDecimal (2 * x.mantissa - 1) (x.exponent - 1) d.digits d.exponent
  let above := compareDecimal (2 * x.mantissa + 1) (x.exponent - 1) d.digits d.exponent
  match below, above with
  | .lt, .gt => true
  | .eq, _ | _, .eq => x.mantissa % 2 == 0
  | _, _ => false

/-- Which way a value halfway between two decimals goes. -/
inductive Tie
  | up | even
  deriving DecidableEq

/-- The nearest decimal that rounds to the number, among the multiples of `10 ^ e`. -/
def onGrid? (tie : Tie) (x : Binary64) (e : Int) : Option Decimal :=
  let num := x.mantissa * Nat.pow 2 x.exponent.toNat * Nat.pow 10 (-e).toNat
  let den := Nat.pow 10 e.toNat * Nat.pow 2 (-x.exponent).toNat
  let q := num / den
  let r := 2 * (num % den)
  let low : Decimal := ⟨q, e⟩
  let high : Decimal := ⟨q + 1, e⟩
  match x.roundsTo low, x.roundsTo high with
  | true, false => some low
  | false, true => some high
  | false, false => none
  | true, true =>
    let lowNearer := r < den || r == den && (tie == .even && q % 2 == 0)
    some (if lowNearer then low else high)

/-- Tries the grids from `10 ^ e` down to finer ones; on the last one the number itself lies. -/
def shortestFrom (tie : Tie) (x : Binary64) (e : Int) : Nat → Decimal
  | 0 =>
    ⟨x.mantissa * Nat.pow 2 x.exponent.toNat * Nat.pow 5 (-x.exponent).toNat, min x.exponent 0⟩
  | n + 1 =>
    match onGrid? tie x e with
    | some d => d
    | none => shortestFrom tie x (e - 1) n

/-- The decimal with the fewest digits that rounds to the number, and the nearest of those. -/
def shortest (tie : Tie) (x : Binary64) : Decimal :=
  if x.mantissa = 0 then ⟨0, 0⟩
  else
    let top : Int := ((x.mantissa.log2 : Int) + 1 + x.exponent) * 30103 / 100000 + 1
    shortestFrom tie x top (top - min x.exponent 0).toNat

end Binary64
end ProcessLint
