/-
# Binary floating-point numbers of 64 bits

A number of a schema dump that is written with a point or an exponent is a
binary floating-point number: an integer below `2 ^ 53` times a power of two
that is at least `2 ^ -1074`. It is kept as that pair of numbers, so that
reading, comparing and printing are exact arithmetic on naturals. The pair is
made unique by keeping the integer at or above `2 ^ 52` wherever the power of
two is not the least one.

`nearest` rounds a quotient of naturals to the format, a tie to the even
integer; `ofDecimal` reads a decimal numeral with it. `value?` is the exact
number, a dyadic fraction.

Key definitions: `Binary64`, `Binary64.nearest`, `Binary64.ofDecimal`,
`Binary64.value?`.
-/

namespace ContentDecl

/-- A floating-point number; `finite s m q` is `m * 2 ^ q`, negated if `s`
holds. Zero has a sign too. -/
inductive Binary64 where
  | nan
  | infinite (negative : Bool)
  | finite (negative : Bool) (mantissa : Nat) (exponent : Int)
  deriving DecidableEq, Repr, Inhabited

namespace Binary64

def pow2 (n : Nat) : Nat := Nat.pow 2 n

def pow10 (n : Nat) : Nat := Nat.pow 10 n

/-- The exponent of the smallest positive number, `2 ^ -1074`. -/
def minExponent : Int := -1074

/-- The largest exponent of a finite number. -/
def maxExponent : Int := 971

/-- Mantissas are below this bound. -/
def mantissaBound : Nat := pow2 53

def zero (negative : Bool) : Binary64 := finite negative 0 minExponent

/-- The quotient rounded to the nearest natural, a tie to the even one. -/
def divNearest (num den : Nat) : Nat :=
  let quotient := num / den
  let rest := 2 * (num % den)
  if den < rest || (den == rest && quotient % 2 == 1) then quotient + 1 else quotient

/-- The fraction `num / den / 2 ^ q`, again as a fraction of naturals. -/
def rescale (num den : Nat) (q : Int) : Nat × Nat :=
  (num * pow2 (-q).toNat, den * pow2 q.toNat)

/-- The exponent at which `num / den` has a mantissa of 53 bits, or the least
exponent if that is larger. -/
def exponentOf (num den : Nat) : Int :=
  let low : Int := (num.log2 : Int) - (den.log2 : Int) - 53
  let (scaledNum, scaledDen) := rescale num den low
  max minExponent (if mantissaBound * scaledDen ≤ scaledNum then low + 1 else low)

/-- The number of the format nearest to `num / den`. A quotient too large for
a finite number becomes infinite. -/
def nearest (negative : Bool) (num den : Nat) : Binary64 :=
  let q := exponentOf num den
  let (scaledNum, scaledDen) := rescale num den q
  let m := divNearest scaledNum scaledDen
  let (m, q) := if m = mantissaBound then (m / 2, q + 1) else (m, q)
  if maxExponent < q then infinite negative else finite negative m q

/-- How many decimal digits a natural has. -/
def digitCount (n : Nat) : Nat := (Nat.toDigits 10 n).length

/-- The number nearest to `digits * 10 ^ exponent`. Numerals far outside the
range are settled by their number of digits alone. -/
def ofDecimal (negative : Bool) (digits : Nat) (exponent : Int) : Binary64 :=
  let magnitude : Int := digitCount digits + exponent
  if digits = 0 || magnitude < -330 then zero negative
  else if 310 < magnitude then infinite negative
  else nearest negative (digits * pow10 exponent.toNat) (pow10 (-exponent).toNat)

/-- The exact value of a finite number. -/
def value? : Binary64 → Option Dyadic
  | finite negative m q =>
    some (.ofIntWithPrec (if negative then -(m : Int) else m) (-q))
  | _ => none

def isNaN : Binary64 → Bool
  | nan => true
  | _ => false

/-- Both zeros are zero. -/
def isZero : Binary64 → Bool
  | finite _ m _ => m == 0
  | _ => false

end Binary64
end ContentDecl
