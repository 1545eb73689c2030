/-
The wording of faults.

A wording may use the plain text of a value, which may itself fail. Then the fault that is
seen is the one that its wording ran into: `Fault.shown` puts it in place of the first.
-/
import SymbolMachine.Value.Text

set_option autoImplicit false

namespace SymbolMachine.Fault

/-- A symbol with its type, as the text of a failed run shows it. -/
def describe (symbol : Value) : Except Fault String := do
  pure (symbol.typeName ++ " \"" ++ (← symbol.text) ++ "\"")

/-- The wording of a fault. -/
def text : Fault → Except Fault String
  | unmatched symbol position state => do
    let symbol ← describe symbol
    let state ← state.text
    let position ← position.text
    pure ("Unexpected " ++ symbol ++ " at state " ++ state ++ ", position " ++ position ++ ".")
  | invalidTarget state index target position count => do
    let index ← index.text
    let state ← state.text
    let target ← target.text
    let count ← count.text
    let position ← position.text
    pure ("Transition " ++ index ++ " of state " ++ state ++ " targets unknown state " ++ target ++
      " (machine has " ++ count ++ " states) at position " ++ position)
  | noStates => pure "Cannot run a machine with no states"
  | noSuchState id count => do
    let id ← id.text
    pure ("State " ++ id ++ " does not exist (machine has " ++ toString count ++ " states)")
  | outOfRange => pure "list index out of range"
  | emptyCollection => pure "TokenCollection is empty"
  | popFromEmpty => pure "pop from empty list"
  | badTarget typeName => pure ("target must be an int, got " ++ typeName)
  | uncallablePredicate => pure "predicate must be callable"
  | uncallableAction => pure "action must be callable or None"
  | notTransition typeName => pure ("expected Transition, got " ++ typeName)
  | notCallable typeName => pure ("'" ++ typeName ++ "' object is not callable")
  | notIterable typeName => pure ("'" ++ typeName ++ "' object is not iterable")
  | negativeStart start => do
    let start ← start.text
    pure ("start must be >= 0, got " ++ start)
  | noAttribute typeName field =>
    pure ("'" ++ typeName ++ "' object has no attribute '" ++ field ++ "'")
  | noSetter field owner =>
    pure ("property '" ++ field ++ "' of '" ++ owner ++ "' object has no setter")
  | frozenField field => pure ("cannot assign to field '" ++ field ++ "'")
  | unhashable typeName => pure ("unhashable type: '" ++ typeName ++ "'")
  | notText test typeName =>
    pure ("descriptor '" ++ test ++ "' for 'str' objects doesn't apply to a '" ++ typeName ++
      "' object")
  | unordered operator left right =>
    pure ("'" ++ operator ++ "' not supported between instances of '" ++ left ++ "' and '" ++
      right ++ "'")
  | badOperands operator left right =>
    pure ("unsupported operand type(s) for " ++ operator ++ ": '" ++ left ++ "' and '" ++ right ++
      "'")
  | cannotJoin sequence other =>
    pure ("can only concatenate " ++ sequence ++ " (not \"" ++ other ++ "\") to " ++ sequence)
  | cannotJoinBytes other => pure ("can't concat " ++ other ++ " to bytes")
  | fractionalIndex => pure "list indices must be integers or slices, not float"
  | fractionalBound =>
    pure "slice indices must be integers or None or have an __index__ method"
  | fractionalRange => pure "'float' object cannot be interpreted as an integer"
  | tooLarge => pure "int too large to convert to float"
  | unknownName name => pure (Text.quoted name)
  | sourceStopped => pure "generator raised StopIteration"
  | raised kind argument => if kind = keyErrorKind then pure argument.quoted else argument.text

/-- The fault that is seen where a fault is reported: itself if it can be worded. -/
def shown (f : Fault) : Fault :=
  match f.text with
  | .ok _ => f
  | .error g => g

/-- The text of a fault that is reported. -/
def message (f : Fault) : String :=
  match f.shown.text with
  | .ok s => s
  | .error _ => ""

/-- The fault with its class, as a quoted text. -/
def quoted (f : Fault) : String := f.shown.kind ++ "(" ++ Text.quoted f.message ++ ")"

end SymbolMachine.Fault
