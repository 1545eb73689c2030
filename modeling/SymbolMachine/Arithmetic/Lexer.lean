/-
A lexer for arithmetic expressions, as a machine whose actions collect tokens.

The machine has six states: between tokens, in an integer, behind its point, in a
fraction, in a name, in a run of white space. Every state but the one behind a point may
end its token there and begin the next one, so all but that one accept. A transition that
begins a token emits it, one that goes on with a token extends it; nothing is ever
dropped.
-/
import SymbolMachine.Machine.Run
import SymbolMachine.Rule
import SymbolMachine.Tokens.Collection

set_option autoImplicit false

namespace SymbolMachine.Arithmetic

/-! ## Kinds and characters -/

/-- The kinds of tokens. -/
inductive Kind
  | number
  | name
  | operator
  | leftParen
  | rightParen
  | space
deriving DecidableEq

namespace Kind

/-- The name under which a kind is shown. -/
def label : Kind → String
  | number => "NUMBER"
  | name => "NAME"
  | operator => "OP"
  | leftParen => "LPAREN"
  | rightParen => "RPAREN"
  | space => "SPACE"

/-- The number of a kind in its enumeration. -/
def ordinal : Kind → Int
  | number => 1
  | name => 2
  | operator => 3
  | leftParen => 4
  | rightParen => 5
  | space => 6

/-- The kind as a value. -/
def toValue (k : Kind) : Value := .member ⟨"Kind", k.label, k.ordinal⟩

end Kind

/-- The decimal digits. -/
def digits : List Char := "0123456789".toList

/-- The letters of the alphabet, small and large, and the underscore. -/
def nameStart : List Char := "abcdefghijklmnopqrstuvwxyzABCDEFGHIJKLMNOPQRSTUVWXYZ_".toList

/-- What may follow in a name. -/
def nameChars : List Char := nameStart ++ digits

/-- The operators. -/
def operators : List Char := "+-*/^%".toList

/-- White space. -/
def whitespace : List Char := " \t\r\n".toList

/-! ## The machine -/

/-- What a transition does with its symbol. -/
inductive TokenAction
  | emit (kind : Kind)
  | extend
deriving DecidableEq

/-- Performs an action on a collection. -/
def TokenAction.perform (c : CollectionId) : TokenAction → Value → Effect TokenStore Unit
  | emit kind => Collection.emit c kind.toValue
  | extend => Collection.extend c

/-- A transition on any of some characters. -/
def onAny (target : Int) (cs : List Char) (action : TokenAction) :
    Transition Rule TokenAction :=
  ⟨.number target, .oneOf (cs.map Value.ofChar), some action⟩

/-- A transition on one character. -/
def on (target : Int) (c : Char) (action : TokenAction) : Transition Rule TokenAction :=
  ⟨.number target, .equals (.made 0) (.ofChar c), some action⟩

/-- The transitions that begin a token. -/
def beginnings : List (Transition Rule TokenAction) :=
  [onAny 1 digits (.emit .number),
   onAny 4 nameStart (.emit .name),
   onAny 5 whitespace (.emit .space),
   onAny 0 operators (.emit .operator),
   on 0 '(' (.emit .leftParen),
   on 0 ')' (.emit .rightParen)]

/-- The transitions that go on with a token, by state. -/
def continuations : Nat → List (Transition Rule TokenAction)
  | 1 => [onAny 1 digits .extend, on 2 '.' .extend]
  | 2 => [onAny 3 digits .extend]
  | 3 => [onAny 3 digits .extend]
  | 4 => [onAny 4 nameChars .extend]
  | 5 => [onAny 5 whitespace .extend]
  | _ => []

/-- A state where a token may end. -/
def endingState (i : Nat) : State Rule TokenAction :=
  ⟨.int i, .bool true, continuations i ++ beginnings⟩

/-- The state behind a point, where a digit has to follow. -/
def pointState : State Rule TokenAction := ⟨.int 2, .bool false, continuations 2⟩

/-- The lexer. -/
def lexer : Machine Rule TokenAction :=
  ⟨[endingState 0, endingState 1, pointState, endingState 3, endingState 4, endingState 5]⟩

/-! ## Running it -/

/-- A line of the log. -/
structure LogLine where
  level : Level
  author : String
  text : String

/-- The world of the lexer: the tokens, and the log with the level from which on it is
kept. -/
structure Desk where
  tokens : TokenStore
  threshold : Level
  log : List LogLine

namespace Desk

/-- A desk with one empty collection. -/
def new (threshold : Level) : Desk := ⟨⟨#[], #[#[]], []⟩, threshold, []⟩

/-- The collection of a new desk. -/
def collection : CollectionId := 0

/-- Writes a line into the log if its level passes. -/
def write (d : Desk) (line : LogLine) : Desk :=
  if d.threshold.passes line.level then { d with log := d.log ++ [line] } else d

end Desk

/-- The lexer in its world, with its tokens going to a collection. -/
def host (c : CollectionId) : Host Desk Rule TokenAction Value where
  machine _ := lexer
  test r x := do return r.accepts (← get).tokens x
  perform a x :=
    (a.perform c x).within Desk.tokens (fun s d => { d with tokens := s }) TokenStore.empty
  record note := modify fun d =>
    d.write ⟨note.level, Note.author, note.text fun x => (d.tokens.read x).quoted⟩
  detailed d := d.threshold.passes .debug

/-- Fuel for a run over some symbols: each takes one unit, and a state has eight
transitions at most. -/
def fuelFor (symbols : List Value) : Nat := symbols.length + 10

/-- Runs the lexer over some symbols. -/
def lex (c : CollectionId) (actions : Bool) (symbols : List Value) :
    Effect Desk (Outcome StateId Value Nat) :=
  (host c).run Source.ofList (fuelFor symbols) (fun _ => actions) symbols

/-- Whether the lexer accepts some symbols. -/
def accepts (c : CollectionId) (symbols : List Value) : Effect Desk Value :=
  (host c).accepts Source.ofList (fuelFor symbols) symbols

end SymbolMachine.Arithmetic
