/-
Values: what symbols, token kinds, lexemes and labels are made of.

A value is immutable data, with one exception: it may refer to a token or a collection of
a token store (`SymbolMachine.Tokens.Store`), which change. A value without references is
closed, and what can be asked of a value (whether it equals another, counts as true, how it
reads as text) is asked of closed values. The store reads a value by putting for each
reference what it stands for at that time.

Two kinds of value are not equal to themselves, so for them it can be seen whether two
occurrences are one object: a NaN, and a rule that compares with a single value. These
carry an `Identity`, and so does a source of symbols, which equals nothing but itself. For
every other kind, being the same object implies being equal, and no identity needs to be
kept.
-/
import SymbolMachine.Binary64.Decimal

set_option autoImplicit false

namespace SymbolMachine

/-- What tells two objects apart whose contents agree: either a label that the users of
one object share, or the number under which an object was made. -/
inductive Identity
  | label (name : String)
  | made (serial : Nat)
deriving DecidableEq

/-- A member of a named enumeration. -/
structure Member where
  enumeration : String
  name : String
  number : Int
deriving DecidableEq

/-- A place in a token store. -/
inductive Reference
  | token (cell : Nat)
  | collection (place : Nat)
deriving DecidableEq

/-- A value of a program that uses machines. -/
inductive Value
  | null
  | bool (b : Bool)
  | int (n : Int)
  | float (x : Binary64)
  | nan (identity : Identity)
  | str (s : String)
  | bytes (bytes : List UInt8)
  /-- A member of an enumeration that is only a name. -/
  | member (m : Member)
  /-- A member of an enumeration whose members are integers. -/
  | intMember (m : Member)
  | list (items : List Value)
  | tuple (items : List Value)
  /-- A record with the one field `name`. -/
  | named (name : Value)
  /-- A token that nobody shares, or one as it was when it was read. -/
  | token (kind lexeme : Value)
  /-- The rule that accepts what equals its value. -/
  | equals (identity : Identity) (value : Value)
  /-- The rule that accepts the members of a list. -/
  | oneOf (values : List Value)
  /-- The rule that accepts all but the members of a list. -/
  | noneOf (values : List Value)
  /-- A source of symbols that stands where a value is expected. It is an object of its own,
  and nobody asks it for symbols there. -/
  | source (identity : Identity)
  /-- A collection of tokens as it was when it was read. -/
  | collection (items : List Value)
  /-- A token or collection of a store, as it will be when it is read. -/
  | shared (r : Reference)

namespace Value

/-- The name of a value's type. -/
def typeName : Value → String
  | null => "NoneType"
  | bool _ => "bool"
  | int _ => "int"
  | float _ | nan _ => "float"
  | str _ => "str"
  | bytes _ => "bytes"
  | member m | intMember m => m.enumeration
  | list _ => "list"
  | tuple _ => "tuple"
  | named _ => "Named"
  | token _ _ | shared (.token _) => "Token"
  | equals _ _ => "Equals"
  | oneOf _ => "OneOf"
  | noneOf _ => "NoneOf"
  | source _ => "generator"
  | collection _ | shared (.collection _) => "TokenCollection"

/-- Whether a value counts as true: all do but null, zeros and what is empty. -/
def truthy : Value → Bool
  | null => false
  | bool b => b
  | int n => n ≠ 0
  | float x => x.toDyadic? ≠ some 0
  | str s => !s.isEmpty
  | bytes bs => !bs.isEmpty
  | intMember m => m.number ≠ 0
  | list xs | tuple xs | collection xs => !xs.isEmpty
  | nan _ | member _ | named _ | token _ _ | equals _ _ | oneOf _ | noneOf _ | source _
  | shared _ => true

/-- The value of a character. -/
def ofChar (c : Char) : Value := str (String.singleton c)

/-- The elements that iterating a value gives; nothing if it cannot be iterated. What a
reference gives is the store's to say. -/
def elements? : Value → Option (List Value)
  | str s => some (s.toList.map ofChar)
  | bytes bs => some (bs.map fun b => int b.toNat)
  | list xs | tuple xs | collection xs => some xs
  | _ => none

/-- Whether a value can be called with a symbol: rules can. -/
def isCallable : Value → Bool
  | equals _ _ | oneOf _ | noneOf _ => true
  | _ => false

mutual

/-- The type of the first part that keeps a value from being a key: lists, tokens and
collections do, also inside tuples and records. A rule is always a key. -/
def unhashable? : Value → Option String
  | list _ => some "list"
  | token _ _ => some "Token"
  | collection _ => some "TokenCollection"
  | tuple xs => firstUnhashable? xs
  | named v => v.unhashable?
  | _ => none

/-- The first part that keeps a sequence of values from being a key. -/
def firstUnhashable? : List Value → Option String
  | [] => none
  | v :: vs => v.unhashable?.or (firstUnhashable? vs)

end

end Value

end SymbolMachine
