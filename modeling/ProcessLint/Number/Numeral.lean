import ProcessLint.Number.Binary64

/-! Decimal numerals as they are written: sign, whole part, fraction and exponent. -/
namespace ProcessLint

structure Numeral where
  negative : Bool
  whole : Nat
  /-- The digits behind the point; there is no point if there are none. -/
  fraction : List Char := []
  exponent : Option Int := none
  deriving DecidableEq

namespace Numeral

def ofNat (n : Nat) : Numeral := { negative := false, whole := n }

/-- A whole number, written without a sign, a point or an exponent. -/
def toNat? (n : Numeral) : Option Nat :=
  if !n.negative && n.fraction.isEmpty && n.exponent.isNone then some n.whole else none

@[simp] theorem toNat?_ofNat (n : Nat) : (ofNat n).toNat? = some n := rfl

def nearest? (n : Numeral) : Option Binary64 :=
  Binary64.ofDecimal? n.negative (Nat.ofDigitChars 10 n.fraction n.whole)
    (n.exponent.getD 0 - n.fraction.length)

/-- Puts digits behind a number as long as it has 64 bits. The digits that are left stand beside
it. -/
def takeDigits (n : Nat) : List Char → Nat × List Char
  | [] => (n, [])
  | c :: cs =>
    let m := 10 * n + (c.toNat - '0'.toNat)
    if m < Nat.pow 2 64 then takeDigits m cs else (n, c :: cs)

/-- The first digits, as many as 64 bits hold. What is left in front of the point counts as zeros,
and what is left behind it not at all. -/
def leading (n : Numeral) : Binary64.Decimal :=
  let whole := takeDigits 0 (Nat.toDigits 10 n.whole)
  let all := takeDigits whole.1 n.fraction
  ⟨all.1, n.exponent.getD 0 + whole.2.length + all.2.length - n.fraction.length⟩

/-- The number that is read: the leading digits are rounded, and rounded again when they are
multiplied by their power of ten or divided by it. -/
def toBinary64? (n : Numeral) : Option Binary64 :=
  (Binary64.ofFraction? n.negative n.leading.digits 1).bind fun x =>
    x.timesTenTo? n.leading.exponent

def exponentText (e : Int) : List Char :=
  'e' :: (if e < 0 then '-' else '+') :: Nat.toDigits 10 e.natAbs

def text (n : Numeral) : List Char :=
  (if n.negative then ['-'] else []) ++ Nat.toDigits 10 n.whole ++
    (if n.fraction.isEmpty then [] else '.' :: n.fraction) ++
    (match n.exponent with | some e => exponentText e | none => [])

/-- The numeral with the fewest digits that reads back, with at least one digit behind the point
unless there is an exponent. The exponent stands when it is below -5 or above 15. -/
def ofBinary64 (x : Binary64) : Numeral :=
  if x.isZero then { negative := x.negative, whole := 0, fraction := ['0'] }
  else
    let d := x.shortest .even
    let digits := Nat.toDigits 10 d.digits
    let point : Int := d.exponent + digits.length
    if 16 < point ∨ point < -4 then
      { negative := x.negative, whole := Nat.ofDigitChars 10 (digits.take 1) 0,
        fraction := digits.drop 1, exponent := some (point - 1) }
    else if point ≤ 0 then
      { negative := x.negative, whole := 0,
        fraction := List.replicate (-point).toNat '0' ++ digits }
    else if d.exponent < 0 then
      { negative := x.negative, whole := Nat.ofDigitChars 10 (digits.take point.toNat) 0,
        fraction := digits.drop point.toNat }
    else
      { negative := x.negative, whole := d.digits * Nat.pow 10 d.exponent.toNat,
        fraction := ['0'] }

end Numeral

namespace Binary64

/-- The number in plain digits, the fewest that read back, without an exponent and with a point
only before digits. -/
def plainText (x : Binary64) : String :=
  let sign := if x.negative then ['-'] else []
  let d := x.shortest .up
  let digits := Nat.toDigits 10 d.digits
  let places := (-d.exponent).toNat
  .ofList <| sign ++
    if d.exponent ≥ 0 then
      digits ++ (if d.digits = 0 then [] else List.replicate d.exponent.toNat '0')
    else if places < digits.length then
      digits.take (digits.length - places) ++ '.' :: digits.drop (digits.length - places)
    else '0' :: '.' :: List.replicate (places - digits.length) '0' ++ digits

end Binary64
end ProcessLint
