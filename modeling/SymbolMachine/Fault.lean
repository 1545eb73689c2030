/-
What can go wrong, one constructor per cause.

A fault keeps the values that it is about, closed. The name of its class is a function of
it, `Fault.kind`; so is its wording, which is in `SymbolMachine.Fault.Message`. Callers' own
errors are faults too: they have a class and a value, and pass through a machine unchanged.
-/
import SymbolMachine.Value.Basic

set_option autoImplicit false

namespace SymbolMachine

/-- The cause of an error. Type names stand where the offending value itself is not
reported. -/
inductive Fault
  /-- A run stopped at a symbol that no transition accepts. -/
  | unmatched (symbol position state : Value)
  /-- A transition was taken whose target is not among the machine's states. -/
  | invalidTarget (state index target position count : Value)
  /-- A machine without states was given a symbol. -/
  | noStates
  /-- A state was asked for whose number the machine does not have. -/
  | noSuchState (id : Value) (count : Nat)
  /-- A list was indexed beyond its end. -/
  | outOfRange
  /-- The last token of an empty collection was asked for. -/
  | emptyCollection
  /-- A token was to be removed from an empty collection. -/
  | popFromEmpty
  /-- A target that is no whole number. -/
  | badTarget (typeName : String)
  | uncallablePredicate
  | uncallableAction
  /-- Something that is no transition was added to a state. -/
  | notTransition (typeName : String)
  /-- Something that cannot be called was called. -/
  | notCallable (typeName : String)
  | notIterable (typeName : String)
  /-- A search from before the start of a collection. -/
  | negativeStart (start : Value)
  | noAttribute (typeName field : String)
  | noSetter (field owner : String)
  /-- A field of an immutable record was assigned. -/
  | frozenField (field : String)
  | unhashable (typeName : String)
  /-- A test of text was given something else. -/
  | notText (test typeName : String)
  /-- Two values that have no order were compared. -/
  | unordered (operator left right : String)
  | badOperands (operator left right : String)
  /-- A sequence was joined with something that is no such sequence. -/
  | cannotJoin (sequence other : String)
  /-- Bytes were joined with something that is not bytes. -/
  | cannotJoinBytes (other : String)
  /-- A list was indexed with a number that is not whole. -/
  | fractionalIndex
  /-- A slice bound that is not whole. -/
  | fractionalBound
  /-- A range bound that is not whole. -/
  | fractionalRange
  /-- A whole number too large for the binary64 format. -/
  | tooLarge
  /-- A name that stands for nothing. -/
  | unknownName (name : String)
  /-- A symbol source raised the error that says that it is used up. -/
  | sourceStopped
  /-- A caller's own error, made of one value. -/
  | raised (kind : String) (argument : Value)

namespace Fault

/-- The class that reports a lookup by an unknown key. It shows the key quoted. -/
def keyErrorKind : String := "KeyError"

/-- The class by which a source says that it is used up. -/
def stopKind : String := "StopIteration"

/-- The class of a fault. -/
def kind : Fault → String
  | unmatched .. => "UnmatchedSymbolError"
  | invalidTarget .. => "InvalidTargetError"
  | noStates | noSuchState .. | outOfRange | emptyCollection | popFromEmpty => "IndexError"
  | badTarget _ | uncallablePredicate | uncallableAction | notTransition _ | notCallable _
  | notIterable _ | unhashable _ | notText .. | unordered .. | badOperands .. | cannotJoin ..
  | cannotJoinBytes _ | fractionalIndex | fractionalBound | fractionalRange => "TypeError"
  | negativeStart _ => "ValueError"
  | noAttribute .. | noSetter .. => "AttributeError"
  | frozenField _ => "FrozenInstanceError"
  | tooLarge => "OverflowError"
  | unknownName _ => keyErrorKind
  | sourceStopped => "RuntimeError"
  | raised kind _ => kind

/-- Whether the class of a fault is one of those that report a bad index. -/
def isIndexFault : Fault → Bool
  | invalidTarget .. | noStates | noSuchState .. | outOfRange | emptyCollection
  | popFromEmpty => true
  | raised kind _ => kind = "IndexError"
  | _ => false

end Fault

end SymbolMachine
