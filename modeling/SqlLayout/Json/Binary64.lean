import SqlLayout.Text.Decimal

/-!
# Binary floating-point numbers

A number with a fraction or an exponent is rounded to the nearest number of 53 significant bits
(a tie goes to the even one), and is shown in the fewest decimal digits that read back as the same
number; of those, the nearest. All arithmetic is exact, on natural numbers.
-/

namespace SqlLayout

/-- A number of 53 significant bits: `significand * 2 ^ exponent`, with a sign. -/
inductive Binary64 where
  | finite (negative : Bool) (significand : Nat) (exponent : Int)
  | infinite (negative : Bool)
  | nan
deriving DecidableEq, Repr

namespace Binary64

/-- A power of two. -/
def pow2 (n : Nat) : Nat := Nat.pow 2 n

/-- A power of ten. -/
def pow10 (n : Nat) : Nat := Nat.pow 10 n

/-- The quotient rounded to the nearest natural number, a tie to the even one. -/
def roundDiv (num den : Nat) : Nat :=
  let q := num / den
  let r := 2 * (num % den)
  if den < r || (r == den && q % 2 == 1) then q + 1 else q

/-- The least exponent of a significand. -/
def leastExponent : Int := -1074

/-- The greatest exponent of a significand. -/
def greatestExponent : Int := 971

/-- The quotient `num / (den * 2 ^ e)` as a numerator and a denominator. -/
def scaled (num den : Nat) (e : Int) : Nat × Nat :=
  if 0 ≤ e then (num, den * pow2 e.toNat) else (num * pow2 (-e).toNat, den)

/-- The nearest number to a quotient of positive numbers. -/
def ofRatio (negative : Bool) (num den : Nat) : Binary64 :=
  let guess : Int := num.log2 - den.log2 - 52
  let (n, d) := scaled num den guess
  let fitted := max leastExponent (if n < d * pow2 52 then guess - 1 else guess)
  let (n, d) := scaled num den fitted
  let m := roundDiv n d
  let (m, e) := if m = pow2 53 then (pow2 52, fitted + 1) else (m, fitted)
  if greatestExponent < e then .infinite negative else .finite negative m e

/-- The nearest number to `digits * 10 ^ exponent`. Numbers beyond the range of exponents are
settled by their size alone. -/
def ofDecimal (negative : Bool) (digits : Nat) (exponent : Int) : Binary64 :=
  let size : Int := (Text.ofNat digits).length + exponent
  if digits = 0 ∨ size < -330 then .finite negative 0 leastExponent
  else if 330 < size then .infinite negative
  else if 0 ≤ exponent then ofRatio negative (digits * pow10 exponent.toNat) 1
  else ofRatio negative digits (pow10 (-exponent).toNat)

/-! ## The shortest digits -/

/-- The numbers that round to `m * 2 ^ e`, in quarters of its last bit. The ends belong to it when
`m` is even. -/
def nearby (m : Nat) (e : Int) : Nat × Nat :=
  (if m = pow2 52 ∧ leastExponent < e then 4 * m - 1 else 4 * m - 2, 4 * m + 2)

/-- A decimal point of the grid `10 ^ k` that rounds to `m * 2 ^ e`, if one does: the nearer of the
two neighbours of the number, and the even one of two that are equally near. -/
def onGrid? (m : Nat) (e k : Int) : Option Nat :=
  -- quarters of the last bit and steps of the grid, as multiples of one unit
  let bit := pow2 (e - 2).toNat * pow10 (-k).toNat
  let step := pow10 k.toNat * pow2 (2 - e).toNat
  let (low, high) := nearby m e
  let fits (n : Nat) : Bool :=
    if m % 2 = 0 then low * bit ≤ n * step && n * step ≤ high * bit
    else low * bit < n * step && n * step < high * bit
  let n := 4 * m * bit / step
  let below := 4 * m * bit - n * step
  let above := (n + 1) * step - 4 * m * bit
  let nearer := if above < below || (above == below && n % 2 == 1) then n + 1 else n
  let farther := if nearer = n then n + 1 else n
  if fits nearer then some nearer else if fits farther then some farther else none

/-- The place of the first decimal digit of `m * 2 ^ e`: the number lies between `10 ^ place` and
ten times that. -/
def firstPlace (m : Nat) (e : Int) : Int :=
  let (n, d) := scaled m 1 (-e)
  if d ≤ n then (Text.ofNat (n / d)).length - 1 else -(Text.ofNat ((d - 1) / n)).length

/-- The fewest digits that read back as `m * 2 ^ e`, and the place of the last of them. -/
def shortest (m : Nat) (e : Int) : Nat × Int :=
  let first := firstPlace m e
  let found := (List.range 17).findSome? fun (n : Nat) =>
    let place : Int := first - n
    (onGrid? m e place).map (·, place)
  found.getD (0, 0)

/-! ## Text -/

/-- The digits of a number without the zeros at its end, and their number with the zeros. -/
def significantDigits (digits : Nat) : Text × Nat :=
  let all := Text.ofNat digits
  ((all.reverse.dropWhile (· == '0')).reverse, all.length)

/-- Digits with a decimal point where the number lies between `10 ^ -4` and `10 ^ 16`, and one digit
before the point with an exponent elsewhere. `point` is the number of digits before the point. -/
def layout (digits : Text) (point : Int) : Text :=
  if -4 < point ∧ point ≤ 16 then
    if point ≤ 0 then "0.".toList ++ List.replicate (-point).toNat '0' ++ digits
    else if digits.length ≤ point.toNat then
      digits ++ List.replicate (point.toNat - digits.length) '0' ++ ".0".toList
    else digits.take point.toNat ++ '.' :: digits.drop point.toNat
  else
    let exponent := point - 1
    let places := Text.ofNat exponent.natAbs
    digits.take 1 ++ (if digits.length = 1 then [] else '.' :: digits.drop 1) ++
      'e' :: (if exponent < 0 then '-' else '+') ::
        (List.replicate (2 - places.length) '0' ++ places)

/-- The text of a number. -/
def toText : Binary64 → Text
  | .nan => "nan".toList
  | .infinite negative => (if negative then ['-'] else []) ++ "inf".toList
  | .finite negative m e =>
    let sign := if negative then ['-'] else []
    if m = 0 then sign ++ "0.0".toList
    else
      let (n, place) := shortest m e
      let (digits, count) := significantDigits n
      sign ++ layout digits (count + place)

end Binary64

end SqlLayout
