/-
The operations of a token collection.

Each works in place on one collection of the store. An edit that fails leaves the
collection as it was; only trimming at both ends is two edits, of which the first may
succeed and stay when the second fails. Cutting and splitting make new collections, which
share their tokens with the old one.
-/
import SymbolMachine.Tokens.Sequence
import SymbolMachine.Tokens.Store
import SymbolMachine.Tokens.Window
import SymbolMachine.Value.Text

set_option autoImplicit false

namespace SymbolMachine.Collection

variable (c : CollectionId)

/-- The items of the collection. -/
def items : Effect TokenStore (List Value) := do return (← get).items c

/-- A test of items for a kind. -/
def kindTest (kind : Value) : Effect TokenStore (Sequence.Test Value) := do
  return (← get).isOfKind kind

/-- Makes a collection of some items. -/
def new (xs : List Value) : Effect TokenStore CollectionId := do
  let (s, xs) := (← get).enteringAll xs
  let (s, c) := s.newCollection xs
  set s
  pure c

/-! ## Growing -/

/-- Appends an item. -/
def append (x : Value) : Effect TokenStore Unit := do
  let (s, x) := (← get).entering x
  set (s.pushItems c [x])

/-- Appends a new token and answers it. -/
def add (kind : Value) (lexeme : String) : Effect TokenStore Value := do
  let (s, x) := (← get).newCell ⟨kind, .str lexeme⟩
  set (s.pushItems c [x])
  pure x

/-- The last item. -/
def last : Effect TokenStore Value := do
  match (← get).last? c with
  | some x => pure x
  | none => Effect.raise .emptyCollection

/-- Removes the last item and answers it. -/
def pop : Effect TokenStore Value := do
  let xs ← items c
  match xs.getLast? with
  | some x =>
    modify (·.setItems c xs.dropLast)
    pure x
  | none => Effect.raise .popFromEmpty

/-- The plain text of a value as it is now. -/
def textOf (v : Value) : Effect TokenStore String := do
  Effect.ofExcept ((← get).read v).text

/-- The characters of a text as values. -/
def characters (text : String) : List Value := text.toList.map Value.ofChar

/-- A lexeme with a text behind it. A text is joined, a list gets the characters. -/
def grown (lexeme : Value) (text : String) : Except Fault Value :=
  match lexeme with
  | .str s => .ok (.str (s ++ text))
  | .list xs => .ok (.list (xs ++ characters text))
  | .collection xs => .ok (.collection (xs ++ characters text))
  | .tuple _ => .error (.cannotJoin "tuple" "str")
  | .bytes _ => .error (.cannotJoinBytes "str")
  | v => .error (.badOperands "+=" v.typeName "str")

/-- Starts a token of a kind with the text of a symbol. -/
def emit (kind symbol : Value) : Effect TokenStore Unit := do
  let _ ← add c kind (← textOf symbol)

/-- Appends the text of a symbol to the lexeme of the last token. -/
def extend (symbol : Value) : Effect TokenStore Unit := do
  let x ← last c
  -- An item without a lexeme fails before the symbol is turned into text.
  let lexeme ← Effect.ofExcept ((← get).lexemeOf x)
  let text ← textOf symbol
  match lexeme with
  -- A collection gets the characters itself, whoever else refers to it.
  | .shared (.collection d) => modify (·.pushItems d (characters text))
  | lexeme =>
    let lexeme ← Effect.ofExcept (grown lexeme text)
    modify (·.assignLexeme x lexeme)

/-- Assigns the lexeme of the item at a place, counted from the end if negative. -/
def assign (index : Int) (lexeme : Value) : Effect TokenStore Unit := do
  let xs ← items c
  let place := if index < 0 then index + xs.length else index
  match (if 0 ≤ place then xs[place.toNat]? else none) with
  | none => Effect.raise .outOfRange
  | some x =>
    match TokenStore.assignFault? x with
    | some f => Effect.raise f
    | none => modify (·.assignLexeme x lexeme)

/-! ## Editing by kind -/

/-- Replaces the items by what an operation makes of them, unless it fails. -/
def edit (f : List Value → Except Fault (List Value)) : Effect TokenStore Unit := do
  let xs ← Effect.ofExcept (f (← items c))
  modify (·.setItems c xs)

/-- Removes every token of a kind. -/
def removeKind (kind : Value) : Effect TokenStore Unit := do
  edit c (Sequence.without (← kindTest kind))

/-- Cuts each run of tokens of a kind down to its first. -/
def collapseKind (kind : Value) : Effect TokenStore Unit := do
  edit c (Sequence.collapse (← kindTest kind))

/-- Removes the tokens of a kind at the start. -/
def trimStart (kind : Value) : Effect TokenStore Unit := do
  edit c (Sequence.trimStart (← kindTest kind))

/-- Removes the tokens of a kind at the end. -/
def trimEnd (kind : Value) : Effect TokenStore Unit := do
  edit c (Sequence.trimEnd (← kindTest kind))

/-- Removes the tokens of a kind at both ends, the start first. -/
def trim (kind : Value) : Effect TokenStore Unit := do
  trimStart c kind
  trimEnd c kind

/-! ## Looking and cutting -/

/-- Whether the first token is of a kind. -/
def startsWith (kind : Value) : Effect TokenStore Bool := do
  Effect.ofExcept (Sequence.startsWith (← kindTest kind) (← items c))

/-- Whether the last token is of a kind. -/
def endsWith (kind : Value) : Effect TokenStore Bool := do
  Effect.ofExcept (Sequence.endsWith (← kindTest kind) (← items c))

/-- The place of the first token of a kind in a window. -/
def findKind (kind start : Value) (count : Option Value) : Effect TokenStore (Option Nat) := do
  let xs ← items c
  let window ← Effect.ofExcept (Window.ofCount xs.length start count)
  Effect.ofExcept (Sequence.findFrom (← kindTest kind) window.first (window.cut xs))

/-- A new collection of the items from one place to another, both included. -/
def segment (first final : Value) : Effect TokenStore CollectionId := do
  let window ← Effect.ofExcept (Window.ofBounds first final)
  new (window.cut (← items c))

/-- New collections of the items between tokens of a kind, with or without the empty
ones. -/
def split (kind : Value) (withEmpty : Bool) : Effect TokenStore (List CollectionId) := do
  let groups ← Effect.ofExcept (Sequence.groups (← kindTest kind) (← items c))
  (if withEmpty then groups else groups.filter fun g => !g.isEmpty).mapM new

/-! ## As text -/

/-- The collection as it is now. -/
def snapshot : Effect TokenStore Value := do return .collection ((← get).contents c)

/-- The lines of the tokens in order. -/
def lines : Effect TokenStore String := do Effect.ofExcept (← snapshot c).text

end SymbolMachine.Collection
