/-
Windows: which part of a sequence two values describe.

Searching takes a start and a count, cutting takes a first and a last place. All four are
values, so they may be numbers of any kind or no numbers at all. They are judged in a
fixed order: each value is first compared with zero, which only numbers can be, then they
are added, and only a bound that is really used has to be whole.
-/
import SymbolMachine.Fault
import SymbolMachine.Value.Number

set_option autoImplicit false

namespace SymbolMachine.Window

/-- Places `first`, `first + 1`, … before `stop`. -/
structure Range where
  first : Nat
  stop : Nat
deriving DecidableEq

/-- The items of a sequence at the places of a range. -/
def Range.cut {ι : Type} (r : Range) (xs : List ι) : List ι := (xs.take r.stop).drop r.first

/-- The item at a place of the cut is the item that many places behind the first. -/
theorem Range.getElem?_cut {ι : Type} (r : Range) (xs : List ι) (i : Nat) :
    (r.cut xs)[i]? = if r.first + i < r.stop then xs[r.first + i]? else none := by
  simp only [cut, List.getElem?_drop, List.getElem?_take]

/-- A value compared with zero by an operator that only numbers have. -/
def comparable (operator : String) (v : Value) : Except Fault Number :=
  match v.number? with
  | some n => .ok n
  | none => .error (.unordered operator v.typeName "int")

/-- The number, or zero if it is not above zero. -/
def atLeastZero (n : Number) : Number :=
  if (Quantity.ofInt 0).lt n.quantity then n else .whole 0

/-- The length, or the number if it is below. -/
def atMost (length : Nat) (n : Number) : Number :=
  if n.quantity.lt (.ofInt length) then n else .whole length

/-- The sum of two numbers. -/
def sum (x y : Number) : Except Fault Number :=
  match x.add? y with
  | some z => .ok z
  | none => .error .tooLarge

/-- A bound as a place, which it is only if it is whole. -/
def place (fault : Fault) : Number → Except Fault Nat
  | .whole n => .ok n.toNat
  | _ => .error fault

/-- The window of a search: `count` places from `start` on, or all of them without a
count, as far as the sequence goes. -/
def ofCount (length : Nat) (start : Value) (count : Option Value) : Except Fault Range := do
  -- The start is judged before the count is looked at.
  let s ← comparable "<" start
  if s.quantity.lt (.ofInt 0) then throw (.negativeStart start)
  let stop ← match count with
    | none => pure (.whole length)
    | some c => atMost length <$> (do sum s (atLeastZero (← comparable ">" c)))
  pure ⟨← place .fractionalRange s, ← place .fractionalRange stop⟩

/-- A value plus one. What is no number fails in a way of its own. -/
def successor (v : Value) : Except Fault Number :=
  match v with
  | .str _ => .error (.cannotJoin "str" "int")
  | .list _ | .collection _ => .error (.cannotJoin "list" "int")
  | .tuple _ => .error (.cannotJoin "tuple" "int")
  | .bytes _ => .error (.cannotJoinBytes "int")
  | v =>
    match v.number? with
    | some n => sum n (.whole 1)
    | none => .error (.badOperands "+" v.typeName "int")

/-- The window of a cut: the places from `first` to `last`, both included, without those
before the sequence. -/
def ofBounds (first last : Value) : Except Fault Range := do
  -- A bound that is replaced by zero need not be whole.
  let a := atLeastZero (← comparable ">" first)
  let b := atLeastZero (← successor last)
  pure ⟨← place .fractionalBound a, ← place .fractionalBound b⟩

end SymbolMachine.Window
