/-
# The shortest decimal text of a floating-point number

A finite number is printed with the fewest significant digits that read back
to it, and among those with the digits nearest to it. The reals that read back
to a number are an interval around it, whose ends belong to it exactly if the
mantissa is even. For each count of digits there are two candidates, the
neighbours of the number on the decimal grid with that many digits: if any
point of the grid is in the interval, one of the two is.

Numbers from `0.0001` up to `10 ^ 16` are written positionally with at least
one decimal, all others with an exponent of at least two digits and a sign.

Key definitions: `Binary64.shortest`, `Binary64.text`.
-/
import ContentDecl.Binary64.Basic

namespace ContentDecl
namespace Binary64

/-- The interval of the reals that read back to `m * 2 ^ q`, in quarters of
the last place: its lower end, the number itself and its upper end. Below a
power of two the neighbour is at half the distance. -/
def interval (m : Nat) (q : Int) : Nat × Nat × Nat :=
  let lower := if m = mantissaBound / 2 && minExponent < q then 4 * m - 1 else 4 * m - 2
  (lower, 4 * m, 4 * m + 2)

/-- The position of the decimal point: the least `p` with
`m * 2 ^ q < 10 ^ p`. The factor `10 ^ 400` makes every number an integer
with at least one digit. -/
def pointOf (m : Nat) (q : Int) : Int :=
  (digitCount (m * pow2 q.toNat * pow10 400 / pow2 (-q).toNat) : Int) - 400

/-- The nearer of the two neighbours of `m * 2 ^ q` on the grid of the
multiples of `10 ^ e`, of those that read back to it. A tie goes to the even
digit. -/
def onGrid (m : Nat) (q e : Int) : Option Nat :=
  let (lower, middle, upper) := interval m q
  -- one step of the grid and one quarter of the last place, in a common unit
  let step := pow10 e.toNat * pow2 (2 - q).toNat
  let quarter := pow10 (-e).toNat * pow2 (q - 2).toNat
  let below := middle * quarter / step
  let above := below + 1
  let reads (c : Nat) : Bool :=
    if m % 2 = 0 then lower * quarter ≤ c * step && c * step ≤ upper * quarter
    else lower * quarter < c * step && c * step < upper * quarter
  let downward := middle * quarter - below * step
  let upward := above * step - middle * quarter
  match reads below, reads above with
  | true, true =>
    if downward < upward || (downward == upward && below % 2 == 0) then some below else some above
  | true, false => some below
  | false, true => some above
  | false, false => none

/-- The digits of the shortest decimal that reads back to `m * 2 ^ q`, without
trailing zeros, and the position of the point before the first digit.
Seventeen digits always suffice. -/
def shortest (m : Nat) (q : Int) : List Char × Int :=
  let p := pointOf m q
  let counts := (List.range 17).map (· + 1)
  let found : Option (Nat × Int) := counts.findSome? fun (n : Nat) =>
    (onGrid m q (p - (n : Int))).map fun c => (c, p - (n : Int))
  let (c, e) := found.getD (m, q)
  let digits := Nat.toDigits 10 c
  ((digits.reverse.dropWhile (· == '0')).reverse, (digits.length : Int) + e)

def zeros (n : Int) : List Char := List.replicate n.toNat '0'

/-- Digits with a point and at least one digit on either side of it. -/
def positional (digits : List Char) (point : Int) : List Char :=
  if point ≤ 0 then '0' :: '.' :: (zeros (-point) ++ digits)
  else
    let whole := digits.take point.toNat ++ zeros (point - digits.length)
    let rest := digits.drop point.toNat
    whole ++ '.' :: (if rest.isEmpty then ['0'] else rest)

/-- One digit, the others after a point, and the exponent with a sign and at
least two digits. -/
def scientific (digits : List Char) (point : Int) : List Char :=
  let exponent := point - 1
  let size := Nat.toDigits 10 exponent.natAbs
  let fraction := if digits.length ≤ 1 then [] else '.' :: digits.drop 1
  digits.take 1 ++ fraction ++ 'e' :: (if exponent < 0 then '-' else '+')
    :: (zeros (2 - size.length) ++ size)

/-- The text of a number. -/
def text : Binary64 → String
  | nan => "nan"
  | infinite negative => if negative then "-inf" else "inf"
  | finite negative m q =>
    let body :=
      if m = 0 then ['0', '.', '0']
      else
        let (digits, point) := shortest m q
        if -4 < point && point ≤ 16 then positional digits point else scientific digits point
    String.ofList (if negative then '-' :: body else body)

end Binary64
end ContentDecl
