import TileMachine.Text.Decimal

/-! Number literals of JSON. Integers are kept exactly; of all other numbers only
one thing matters, whether a double-precision number can hold them. -/
namespace TileMachine.Json

inductive Number where
  | int (n : Int)
  /-- A fraction, an exponent, or negative zero. -/
  | real
  /-- Beyond the largest double. -/
  | huge
deriving DecidableEq, Repr

structure Literal where
  negative : Bool
  whole : List Char
  fraction : List Char := []
  exponent : Int := 0
  /-- Written with neither fraction nor exponent. -/
  plain : Bool := true
deriving DecidableEq, Repr

namespace Number

def digitValue (c : Char) : Nat :=
  c.toNat - '0'.toNat

structure Taken where
  significand : Nat
  kept : Nat := 0
  dropped : Nat := 0

/-- The significand has 64 bits; from the first digit that does not fit, all are
left out. -/
def Taken.push (t : Taken) (c : Char) : Taken :=
  let next := t.significand * 10 + digitValue c
  if t.dropped = 0 ∧ next < Nat.pow 2 64 then { t with significand := next, kept := t.kept + 1 }
  else { t with dropped := t.dropped + 1 }

/-- The significand and the power of ten that scales it. Digits left out of the
whole part raise the power, digits taken from the fraction lower it. -/
def scaled (l : Literal) : Nat × Int :=
  let whole := l.whole.foldl Taken.push ⟨0, 0, 0⟩
  let fraction := l.fraction.foldl Taken.push ⟨whole.significand, 0, 0⟩
  (fraction.significand, (whole.dropped : Int) - fraction.kept + l.exponent)

/-- The nearest number with a significand of 53 bits, a tie going to the even one. -/
def roundToDouble (n : Nat) : Nat :=
  let unit := Nat.pow 2 (n.log2 + 1 - 53)
  let quotient := n / unit
  let twice := 2 * (n % unit)
  let up := twice > unit ∨ (twice = unit ∧ quotient % 2 = 1)
  (if up then quotient + 1 else quotient) * unit

/-- The least number that rounds to infinity: half a unit above the largest double. -/
def infinityThreshold : Nat := Nat.pow 2 1024 - Nat.pow 2 970

def maxPowerOfTen : Nat := 308

/-- The significand and the power of ten are rounded before they are multiplied. -/
def overflows (significand : Nat) (exponent : Int) : Bool :=
  significand != 0 && 0 ≤ exponent &&
    (maxPowerOfTen < exponent ||
      infinityThreshold ≤ roundToDouble significand * roundToDouble (Nat.pow 10 exponent.toNat))

def ofLiteral (l : Literal) : Number :=
  let (significand, exponent) := scaled l
  let magnitude := Nat.ofDigitChars 10 l.whole 0
  if overflows significand exponent then huge
  else if !l.plain || (l.negative && magnitude == 0) then real
  else int (if l.negative then -(Int.ofNat magnitude) else Int.ofNat magnitude)

end Number
end TileMachine.Json
