/-
Values as numbers.

Booleans, integers, floats and members of integer enumerations are numbers. They are
compared by exact value whatever their kinds, so a quantity is a dyadic rational, an
infinity, or the undefined quantity of a NaN, which compares with nothing. Whole
numbers keep their own kind beside the quantity, because only they can count or index.
-/
import SymbolMachine.Value.Basic

set_option autoImplicit false

namespace SymbolMachine

/-- The exact size of a number. -/
inductive Quantity
  | exact (x : Dyadic)
  | infinite (negative : Bool)
  | undefined
deriving DecidableEq

namespace Quantity

/-- Numeric equality. -/
def eq : Quantity → Quantity → Bool
  | exact x, exact y => x = y
  | infinite s, infinite t => s = t
  | _, _ => false

/-- Numeric order. -/
def lt : Quantity → Quantity → Bool
  | exact x, exact y => x < y
  | exact _, infinite s => !s
  | infinite s, exact _ => s
  | infinite s, infinite t => s && !t
  | _, _ => false

/-- At most, which fails where a side is undefined. -/
def le (x y : Quantity) : Bool := x.lt y || x.eq y

/-- The quantity of a whole number. -/
def ofInt (n : Int) : Quantity := exact (Dyadic.ofInt n)

end Quantity

/-- The quantity of a binary64 number. -/
def Binary64.quantity : Binary64 → Quantity
  | finite x => .exact x
  | negativeZero => .exact 0
  | infinite s => .infinite s

/-- A number as arithmetic sees it. -/
inductive Number
  | whole (n : Int)
  | real (x : Binary64)
  | undefined
deriving DecidableEq

namespace Number

/-- The exact size of a number. -/
def quantity : Number → Quantity
  | whole n => .ofInt n
  | real x => x.quantity
  | undefined => .undefined

/-- A number as one of the binary64 format, `undefined` for itself; nothing if it is
whole and too large for the format. -/
def toReal? : Number → Option Number
  | whole n =>
    match Binary64.nearest (n < 0) n.natAbs 1 with
    | .infinite _ => none
    | x => some (real x)
  | x => some x

/-- The sum: whole if both are, otherwise of the binary64 format. Nothing where a whole
number is too large for the format. -/
def add? : Number → Number → Option Number
  | whole m, whole n => some (whole (m + n))
  | x, y => do
    match ← x.toReal?, ← y.toReal? with
    | real a, real b => pure (match a.add b with | some c => real c | none => undefined)
    | _, _ => pure undefined

end Number

/-- A value as a number. -/
def Value.number? : Value → Option Number
  | bool b => some (.whole (if b then 1 else 0))
  | int n => some (.whole n)
  | float x => some (.real x)
  | nan _ => some .undefined
  | intMember m => some (.whole m.number)
  | _ => none

/-- The exact size of a value that is a number. -/
def Value.quantity? (v : Value) : Option Quantity := v.number?.map Number.quantity

@[simp] theorem Value.quantity?_bool (b : Bool) :
    (bool b).quantity? = some (.ofInt (if b then 1 else 0)) := rfl

@[simp] theorem Value.quantity?_int (n : Int) : (int n).quantity? = some (.ofInt n) := rfl

@[simp] theorem Value.quantity?_float (x : Binary64) : (float x).quantity? = some x.quantity := rfl

@[simp] theorem Value.quantity?_intMember (m : Member) :
    (intMember m).quantity? = some (.ofInt m.number) := rfl

/-- A whole number has one size. -/
@[simp] theorem Quantity.eq_ofInt_self (n : Int) : (ofInt n).eq (ofInt n) = true := by
  simp [ofInt, eq]

/-- A number of the binary64 format has one size. -/
@[simp] theorem Binary64.eq_quantity_self (x : Binary64) : x.quantity.eq x.quantity = true := by
  cases x <;> simp [quantity, Quantity.eq]

end SymbolMachine
