/-!
# Shortest decimal text of a number

`shortest` finds the decimal number with the fewest digits among those that a binary floating point
number is nearest to, and of two such the one nearer to it. It works on the mantissa and the
exponent in exact arithmetic. `floatText` writes the result without an exponent and with at least
one digit behind the point.
-/

namespace Ambient.Text

/-- A positive fraction. -/
structure Ratio where
  num : Nat
  den : Nat

namespace Ratio

/-- The fraction `n · 10 ^ e`. -/
def ofDecimal (n : Nat) (e : Int) : Ratio :=
  ⟨n * Nat.pow 10 e.toNat, Nat.pow 10 (-e).toNat⟩

/-- The fraction `n · 2 ^ e`. -/
def ofBinary (n : Nat) (e : Int) : Ratio :=
  ⟨n * Nat.pow 2 e.toNat, Nat.pow 2 (-e).toNat⟩

/-- The order of fractions, by multiplying crosswise. -/
def le (a b : Ratio) : Bool := a.num * b.den ≤ b.num * a.den

/-- The strict order of fractions. -/
def lt (a b : Ratio) : Bool := a.num * b.den < b.num * a.den

/-- The distance of two fractions. -/
def dist (a b : Ratio) : Ratio :=
  let x := a.num * b.den
  let y := b.num * a.den
  ⟨(x - y) + (y - x), a.den * b.den⟩

/-- The greatest power of ten that is at most a fraction, given by its exponent. -/
def log10 (a : Ratio) : Int :=
  let guess : Int :=
    ((Nat.toDigits 10 a.num).length : Int) - ((Nat.toDigits 10 a.den).length : Int)
  if (ofDecimal 1 guess).le a then guess else guess - 1

end Ratio

/-- A decimal number `digits · 10 ^ exponent`. -/
structure Decimal where
  digits : Nat
  exponent : Int
  deriving DecidableEq, Repr

/-- The numbers with the same nearest floating point number: they lie between two fractions, which
belong to them if the mantissa is even. -/
structure Rounding where
  value : Ratio
  low : Ratio
  high : Ratio
  closed : Bool

namespace Rounding

/-- The rounding interval of `mantissa · 2 ^ exponent`. Below a power of two the numbers stand
twice as close, except at the least exponent. -/
def ofBinary (mantissa : Nat) (exponent : Int) : Rounding :=
  let edge := mantissa = Nat.pow 2 52 ∧ exponent ≠ -1074
  { value := .ofBinary mantissa exponent
    low :=
      if edge then .ofBinary (4 * mantissa - 1) (exponent - 2)
      else .ofBinary (2 * mantissa - 1) (exponent - 1)
    high := .ofBinary (2 * mantissa + 1) (exponent - 1)
    closed := mantissa % 2 = 0 }

/-- Whether a decimal number lies in the interval. -/
def holds (r : Rounding) (d : Decimal) : Bool :=
  let q := Ratio.ofDecimal d.digits d.exponent
  if r.closed then r.low.le q && q.le r.high else r.low.lt q && q.lt r.high

/-- The number of the given count of digits that lies in the interval, the nearer one of two. -/
def onGrid? (r : Rounding) (count : Nat) : Option Decimal :=
  let e := r.value.log10 - count + 1
  let unit := Ratio.ofDecimal 1 e
  let n := r.value.num * unit.den / (r.value.den * unit.num)
  let below : Decimal := ⟨n, e⟩
  let above : Decimal := ⟨n + 1, e⟩
  match r.holds below, r.holds above with
  | true, true =>
    let distance (d : Decimal) := r.value.dist (.ofDecimal d.digits d.exponent)
    if (distance above).lt (distance below) then some above else some below
  | true, false => some below
  | false, true => some above
  | false, false => none

end Rounding

/-- The shortest decimal number that rounds to `mantissa · 2 ^ exponent`. -/
def shortest (mantissa : Nat) (exponent : Int) : Decimal :=
  ((List.range' 1 17).findSome? (Rounding.ofBinary mantissa exponent).onGrid?).getD ⟨0, 0⟩

/-- A decimal number in positions, with at least one digit on both sides of the point. -/
def Decimal.positional (d : Decimal) : String :=
  let ds := Nat.toDigits 10 d.digits
  let zeros (n : Nat) : List Char := List.replicate n '0'
  let point : Int := ds.length + d.exponent
  String.ofList <|
    if 0 ≤ d.exponent then ds ++ zeros d.exponent.toNat ++ ['.', '0']
    else if 0 < point then ds.take point.toNat ++ '.' :: ds.drop point.toNat
    else '0' :: '.' :: zeros (-point).toNat ++ ds

/-- A floating point number as text. -/
def floatText (x : Float) : String :=
  if x.isNaN then "NaN"
  else
    let bits := x.toBits.toNat
    let sign := if Nat.pow 2 63 ≤ bits then "-" else ""
    let biased : Nat := bits / Nat.pow 2 52 % Nat.pow 2 11
    let fraction : Nat := bits % Nat.pow 2 52
    sign ++
      if biased = 2047 then "inf"
      else if biased = 0 then
        if fraction = 0 then "0.0" else (shortest fraction (-1074)).positional
      else (shortest (Nat.pow 2 52 + fraction) ((biased : Int) - 1075)).positional

end Ambient.Text
