/-
Binary64 numbers as decimal text.

`Binary64.ofDecimal?` reads a decimal and takes the nearest number of the format.
`Binary64.toDecimal` writes the fewest digits that read back as the same number,
and among texts of that length the nearest one.

The search for the digits works in exact natural-number arithmetic. A number
`m * 2 ^ q` owns the reals that round to it, an interval that reaches half-way to
both neighbours and holds its ends when `m` is even. On the decimal grid with `p`
significant digits only the two points next to the number can be the nearest ones
in that interval, so it is enough to try those two, for `p = 1, 2, …, 17`.
-/
import SymbolMachine.Binary64.Basic

set_option autoImplicit false

namespace SymbolMachine.Binary64

/-! ## The fewest digits that read back -/

/-- The number of decimal digits of a natural number. -/
def digitCount (n : Nat) : Nat := (Nat.toDigits 10 n).length

/-- The fraction `n / d` times `10 ^ g`. -/
def scaleTen (n d : Nat) (g : Int) : Nat × Nat :=
  if 0 ≤ g then (n * Nat.pow 10 g.toNat, d) else (n, d * Nat.pow 10 (-g).toNat)

/-- The decimal exponent of a positive fraction: the greatest `e` with
`10 ^ e ≤ n / d`. Digit counts leave two candidates, one comparison decides. -/
def decimalExponent (n d : Nat) : Int :=
  let guess : Int := (digitCount n : Int) - digitCount d
  let (a, b) := scaleTen n d (-guess)
  if b ≤ a then guess else guess - 1

/-- Positive reals between two fractions over one denominator, with or without the
ends. -/
structure Interval where
  low : Nat
  high : Nat
  den : Nat
  closed : Bool

/-- Whether the fraction `n / d` lies in the interval. -/
def Interval.holds (i : Interval) (n d : Nat) : Bool :=
  if i.closed then
    decide (i.low * d ≤ n * i.den) && decide (n * i.den ≤ i.high * d)
  else
    decide (i.low * d < n * i.den) && decide (n * i.den < i.high * d)

/-- The mantissa and exponent of the positive fraction `n / d`, which is a number of
the format. -/
def split (n d : Nat) : Nat × Int :=
  let q := exponentOf n d
  let (a, b) := unscale n d q
  (a / b, q)

/-- The reals that round to `m * 2 ^ q`, in quarters of `2 ^ q`. Below a power of two
the neighbour is only half as far. -/
def roundingInterval (m : Nat) (q : Int) : Interval :=
  let lower :=
    if m = Nat.pow 2 (mantissaBits - 1) ∧ leastExponent < q then 4 * m - 1 else 4 * m - 2
  let (a, d) := if 0 ≤ q then (Nat.pow 2 q.toNat, 4) else (1, 4 * Nat.pow 2 (-q).toNat)
  ⟨lower * a, (4 * m + 2) * a, d, m % 2 = 0⟩

/-- Searches the grids of `p`, `p + 1`, … digits, `tries` of them; answers digits `c`
and a grid `g` with `c * 10 ^ g` in the interval. -/
def shortestFrom (i : Interval) (n d : Nat) (e : Int) : Nat → Nat → Nat × Int
  | 0, p => (0, e - p)
  | tries + 1, p =>
    let g : Int := e - (p : Int) + 1
    let (a, b) := scaleTen n d (-g)
    let below := a / b
    let inside (c : Nat) : Bool := let (x, y) := scaleTen c 1 g; i.holds x y
    let lowFits := decide (0 < below) && inside below
    let highFits := inside (below + 1)
    -- With both points in the interval the nearer one is the rounded quotient.
    if lowFits && highFits then (roundHalfEven a b, g)
    else if lowFits then (below, g)
    else if highFits then (below + 1, g)
    else shortestFrom i n d e tries (p + 1)

/-- The shortest digits of a positive number of the format, as `c * 10 ^ g`. -/
def shortest (n d : Nat) : Nat × Int :=
  let (m, q) := split n d
  shortestFrom (roundingInterval m q) n d (decimalExponent n d) 17 1

/-! ## The written form -/

/-- A text of zeros. -/
def zeros (n : Nat) : List Char := List.replicate n '0'

/-- The digits without the zeros at their end. -/
def stripZeros (cs : List Char) : List Char :=
  (cs.reverse.dropWhile (· = '0')).reverse

/-- An exponent is written with its sign and at least two digits. -/
def exponentText (e : Int) : List Char :=
  let digits := Nat.toDigits 10 e.natAbs
  (if e < 0 then '-' else '+') :: (zeros (2 - digits.length) ++ digits)

/-- The digits `ds`, which stand for `0.ds * 10 ^ point`, as text: positional from
`10 ^ (-4)` up to but not including `10 ^ 16`, and with an exponent otherwise. A
positional text always has a point. -/
def layout (ds : List Char) (point : Int) : List Char :=
  if -4 < point ∧ point ≤ 0 then ['0', '.'] ++ zeros (-point).toNat ++ ds
  else if 0 < point ∧ point ≤ 16 then
    let whole := point.toNat
    if ds.length ≤ whole then ds ++ zeros (whole - ds.length) ++ ['.', '0']
    else ds.take whole ++ '.' :: ds.drop whole
  else
    let tail := ds.drop 1
    ds.take 1 ++ (if tail.isEmpty then [] else '.' :: tail) ++ 'e' :: exponentText (point - 1)

/-- The text of a positive fraction of the format. -/
def positiveText (n d : Nat) : List Char :=
  let (c, g) := shortest n d
  let all := Nat.toDigits 10 c
  layout (stripZeros all) (all.length + g)

/-- The text of a number: the fewest digits that read back. -/
def toDecimal : Binary64 → String
  | infinite true => "-inf"
  | infinite false => "inf"
  | negativeZero => "-0.0"
  | finite x =>
    let r := x.toRat
    if r.num = 0 then "0.0"
    else String.ofList ((if r.num < 0 then ['-'] else []) ++ positiveText r.num.natAbs r.den)

/-! ## Reading -/

/-- The value of a run of digits; nothing if a character is no digit. -/
def digitsValue? (cs : List Char) : Option Nat :=
  cs.foldl (fun acc c => acc.bind fun n =>
    if c.isDigit then some (10 * n + (c.toNat - '0'.toNat)) else none) (some 0)

/-- Reads an unsigned or signed whole number. -/
def signedValue? : List Char → Option Int
  | '-' :: cs => (digitsValue? cs).map fun n => -(n : Int)
  | '+' :: cs => (digitsValue? cs).map (Int.ofNat ·)
  | cs => (digitsValue? cs).map (Int.ofNat ·)

/-- Reads digits, a fraction and an exponent, each but the first optional. -/
def ofUnsigned? (negative : Bool) (cs : List Char) : Option Binary64 := do
  let mantissa := cs.takeWhile (· ≠ 'e')
  let exponent ← match cs.dropWhile (· ≠ 'e') with
    | [] => some 0
    | _ :: es => signedValue? es
  let whole := mantissa.takeWhile (· ≠ '.')
  let fraction := (mantissa.dropWhile (· ≠ '.')).drop 1
  let digits ← digitsValue? (whole ++ fraction)
  let (n, d) := scaleTen digits 1 (exponent - (fraction.length : Int))
  pure (nearest negative n d)

/-- Reads a decimal, with the two infinities spelled out. -/
def ofDecimal? (text : String) : Option Binary64 :=
  match text.toList with
  | ['i', 'n', 'f'] => some (infinite false)
  | ['-', 'i', 'n', 'f'] => some (infinite true)
  | '-' :: cs => ofUnsigned? true cs
  | cs => ofUnsigned? false cs

end SymbolMachine.Binary64
