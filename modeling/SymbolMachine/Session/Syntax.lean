/-
What a session is told to do.

A session is a list of commands that build machines and collections, run them and look at
them. Callbacks are part of the language: a guard, an action or a symbol source may say
what to answer, raise an error, leave a trace, or perform commands of its own, so commands
and callbacks are defined together.

A term stands for a value that is made when the term is evaluated. The same term may be
evaluated many times, and then makes a new NaN or a new rule every time, unless a NaN has
a label.
-/
import SymbolMachine.Machine.Log
import SymbolMachine.Text.Classes

set_option autoImplicit false

namespace SymbolMachine.Session

mutual

/-- An expression for a value. -/
inductive Term
  | literal (v : Value)
  /-- A NaN made anew. -/
  | nan
  | list (items : List Term)
  | tuple (items : List Term)
  | named (name : Term)
  | token (kind lexeme : Term)
  | equals (value : Term)
  | oneOf (values : Feed)
  | noneOf (values : Feed)
  /-- A collection of the session. -/
  | collection (name : String)
  /-- A scripted source where it is not asked for symbols. -/
  | script (items : List FeedItem)

/-- Something that is to be iterated. -/
inductive Feed
  | value (t : Term)
  | script (items : List FeedItem)

/-- A stage of a scripted source. -/
inductive FeedItem
  | give (t : Term)
  | perform (steps : List Command)
  | fail (kind : String) (argument : Term)

/-- A guard as it is written. -/
inductive GuardTerm
  | equals (value : Term)
  | oneOf (values : Feed)
  | noneOf (values : Feed)
  | text (cls : TextClass)
  /-- The symbol counts as true. -/
  | truth
  | constant (value : Term)
  /-- Answers the symbol itself. -/
  | symbol
  | kindIs (kind : Term)
  | fail (kind : String) (argument : Term)
  /-- Leaves a trace of the question, then asks another guard. -/
  | traced (tag : String) (inner : GuardTerm)
  | perform (steps : List Command) (value : Term)
  /-- A value in the place of a guard. -/
  | value (t : Term)

/-- An action as it is written. -/
inductive ActionTerm
  | absent
  | trace (tag : String)
  | emit (kind : Term) (collection : String)
  | extend (collection : String)
  /-- Adds a token without a lexeme. -/
  | add (kind : Term) (collection : String)
  | fail (kind : String) (argument : Term)
  | perform (steps : List Command)
  | sequence (actions : List ActionTerm)
  /-- A value in the place of an action. -/
  | value (t : Term)

/-- A transition as it is written. -/
inductive TransitionTerm
  | guarded (target : Term) (guard : GuardTerm) (action : ActionTerm)
  | equals (target value : Term) (action : ActionTerm)
  | oneOf (target : Term) (values : Feed) (action : ActionTerm)

/-- A state: by its number in a machine, or one that stands alone. -/
inductive StateTerm
  | numbered (machine : String) (id : Term)
  | alone (name : String)

/-- What is done to one collection. -/
inductive TokenCommand
  | add (kind : Term) (lexeme : Option Term)
  | append (value : Term)
  | last
  | pop
  | assign (index : Int) (lexeme : Term)
  | removeKind (kind : Term)
  | collapseKind (kind : Term)
  | trimStart (kind : Term)
  | trimEnd (kind : Term)
  | trim (kind : Term)
  | startsWith (kind : Term)
  | endsWith (kind : Term)
  | findKind (kind : Term) (start count : Option Term)
  | segment (first final : Term) (into : Option String)
  | split (kind : Term) (withEmpty : Option Term) (into : Option String)
  | emit (kind : Term) (symbols : List Term)
  | extend (symbols : List Term)
  | text
  | equals (other : String)

/-- One step of a session. -/
inductive Command
  | newMachine (name : String)
  | newState (name : String) (id : Term) (accepting : Option Term)
  | setThreshold (level : Level)
  | addState (machine : String) (accepting : Option Term)
  | describeState (state : StateTerm)
  | describeMachine (machine : String)
  /-- Appends a transition whose parts are given in the call. -/
  | connect (state : StateTerm) (transition : TransitionTerm)
  /-- Appends a value that is no transition. -/
  | connectValue (state : StateTerm) (value : Term)
  | setAccepting (state : StateTerm) (value : Term)
  | listTransitions (state : StateTerm)
  | find (state : StateTerm) (symbol : Term)
  | run (machine : String) (symbols : Feed) (actions : Option Term) (unwrap : Bool)
  | accepts (machine : String) (symbols : Feed)
  | assignMachine (machine : String) (field : String) (value : Term)
  | assignState (state : StateTerm) (field : String) (value : Term)
  /-- Makes a collection of what a feed gives, and gives it the name. -/
  | newCollection (name : String) (source : Feed)
  | tokens (collection : String) (command : TokenCommand)

end

end SymbolMachine.Session
