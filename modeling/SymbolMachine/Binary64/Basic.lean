/-
Binary floating-point numbers of 64 bits, by their exact values.

A finite number is kept as the dyadic rational that it is, so comparison with
integers of any size is comparison of exact numbers and needs no rounding. Only
two operations round: reading a decimal, and addition. Both go through
`Binary64.nearest`, which takes a quotient of natural numbers to the nearest
number of the format, a tie going to the even mantissa.

The value that is not a number has no place here: it is told apart from others of
its kind by identity, which is a matter of the values of a program
(`SymbolMachine.Value`).
-/
set_option autoImplicit false

namespace SymbolMachine

/-- A number of the binary64 format: finite, the zero with a minus sign, or one of
the two infinities. The other zero is `finite 0`. -/
inductive Binary64
  | finite (value : Dyadic)
  | negativeZero
  | infinite (negative : Bool)
deriving DecidableEq

namespace Binary64

/-- Bits of a full mantissa. -/
def mantissaBits : Nat := 53

/-- The exponent of the least positive number, `2 ^ (-1074)`. -/
def leastExponent : Int := -1074

/-- The quotient rounded to the nearest natural number, a half to the even one. -/
def roundHalfEven (n d : Nat) : Nat :=
  let q := n / d
  let r := n % d
  if 2 * r < d then q
  else if d < 2 * r then q + 1
  else if q % 2 = 0 then q else q + 1

/-- The quotient `n / (d * 2 ^ q)` as a fraction. -/
def unscale (n d : Nat) (q : Int) : Nat × Nat :=
  if 0 ≤ q then (n, d * Nat.pow 2 q.toNat) else (n * Nat.pow 2 (-q).toNat, d)

/-- The exponent at which `n / d` is written with a full mantissa, or the least
exponent of the format where the number is too small for that. -/
def exponentOf (n d : Nat) : Int :=
  -- Off by one at most, since the logarithms are rounded down.
  let guess : Int := (n.log2 : Int) - (d.log2 : Int) - (mantissaBits - 1 : Nat)
  let (a, b) := unscale n d guess
  let exact := if a < b * Nat.pow 2 (mantissaBits - 1) then guess - 1 else guess
  max exact leastExponent

/-- The number of the format nearest to `n / d`, with the given sign. From
`2 ^ 1024` on there is none but infinity. -/
def nearest (negative : Bool) (n d : Nat) : Binary64 :=
  let q := exponentOf n d
  let (a, b) := unscale n d q
  let m := roundHalfEven a b
  let value := Dyadic.ofIntWithPrec (if negative then -(m : Int) else m) (-q)
  if m = 0 then (if negative then negativeZero else finite 0)
  else if (Dyadic.ofIntWithPrec 1 (-1024)) ≤ Dyadic.ofIntWithPrec m (-q) then infinite negative
  else finite value

/-- The number of the format nearest to an exact value. -/
def ofDyadic (x : Dyadic) : Binary64 :=
  let r := x.toRat
  nearest (r.num < 0) r.num.natAbs r.den

/-- The exact value of a finite number. -/
def toDyadic? : Binary64 → Option Dyadic
  | finite x => some x
  | negativeZero => some 0
  | infinite _ => none

/-- The sum, rounded; nothing where infinities of both signs meet. The sign of a
zero sum is not kept apart: nothing that follows here can see it. -/
def add (x y : Binary64) : Option Binary64 :=
  match x.toDyadic?, y.toDyadic?, x, y with
  | some a, some b, _, _ => some (ofDyadic (a + b))
  | none, _, x, infinite s => if x = infinite s then some x else none
  | none, _, x, _ => some x
  | _, none, _, y => some y

end Binary64

end SymbolMachine
