/-
The world of a session: its machines, single states, collections and notes, and the trace
of what happened.

Machines, single states and collections are kept by place and never removed. A name stands
for one of them and may be given to another later; whatever was built with the old one
keeps it.
-/
import SymbolMachine.Effect
import SymbolMachine.Machine.Outcome
import SymbolMachine.Rule
import SymbolMachine.Session.Syntax

set_option autoImplicit false

namespace SymbolMachine.Session

/-! ## Callbacks

A rule and an action on a fixed collection are made of values. The other callbacks are
functions: they keep their terms, and evaluate them anew whenever they are called. -/

/-- A guard that is ready to be asked. -/
inductive Guard
  | rule (r : Rule)
  | text (cls : TextClass)
  | truth
  | constant (value : Term)
  | symbol
  | kindIs (kind : Term)
  | fail (kind : String) (argument : Term)
  | traced (tag : String) (inner : Guard)
  | perform (steps : List Command) (value : Term)
  /-- A value that cannot be asked anything. -/
  | inert (v : Value)

/-- An action that is ready to be performed. -/
inductive Action
  | trace (tag : String)
  | emit (kind : Value) (collection : CollectionId)
  | extend (collection : CollectionId)
  /-- Adds a token to whichever collection has the name when the action is performed. -/
  | add (kind : Term) (collection : String)
  | fail (kind : String) (argument : Term)
  | perform (steps : List Command)
  | sequence (actions : List Action)
  /-- A rule is asked about the symbol, and its answer is dropped. -/
  | rule (r : Rule)
  /-- A value that cannot be performed. -/
  | inert (v : Value)

/-- Whether a guard can be asked. -/
def Guard.isCallable : Guard → Bool
  | inert _ => false
  | _ => true

/-- Whether an action can be performed. -/
def Action.isCallable : Action → Bool
  | inert _ => false
  | _ => true

/-- What a guard looks like from outside. A rule shows its text. -/
inductive Appearance
  | rule (text : String)
  | function
  | method
  | type
deriving DecidableEq

/-- The look of a guard. Tests of text are methods and the test for truth is a type;
everything but these and the rules is a function. -/
def Guard.appearance (s : TokenStore) : Guard → Appearance
  | rule r => .rule (s.read r.toValue).quoted
  | text _ => .method
  | truth => .type
  | _ => .function

/-! ## What a session answers

All values of an answer are closed: they are as they were when the answer was made. -/

/-- What a state says about itself. -/
structure StateSummary where
  id : Value
  size : Nat
  accepting : Value
  quoted : String

/-- What a transition says about itself. -/
structure TransitionSummary where
  target : Value
  guard : Appearance
  hasAction : Bool

/-- The answer to a command. -/
inductive Reply
  | done
  | number (n : Int)
  | flag (b : Bool)
  | value (v : Value)
  | state (s : StateSummary)
  | machine (states : List StateSummary)
  /-- A state has a transition more, and has this many now. -/
  | connected (transitions : Nat)
  | transitions (ts : List TransitionSummary)
  | found (place : Option (Nat × Value))
  /-- The end of a run, with the message of a failure. -/
  | outcome (r : Report) (message : Option String)
  | collection (items : List Value)
  | collections (groups : List (List Value))
  /-- An action was performed this many times. -/
  | performed (times : Nat)
  | added (token : Value) (isLast : Bool)
  | text (lines quoted : String) (length : Nat)

/-- Something that happened on the way to an answer. -/
inductive Event
  | asked (tag : String) (symbol : Value)
  | acted (tag : String) (symbol : Value)
  | gave (v : Value)
  | usedUp
  | nested (answer : Except Fault Reply)
  | logged (level : Level) (text : String)

/-! ## The world -/

/-- Where a state is kept. -/
inductive StatePlace
  | inMachine (machine index : Nat)
  | alone (index : Nat)

/-- All that a session has made. Events are kept latest first. -/
structure World where
  tokens : TokenStore
  collectionNames : List (String × CollectionId)
  machines : Array (Machine Guard Action)
  machineNames : List (String × Nat)
  states : Array (State Guard Action)
  stateNames : List (String × Nat)
  threshold : Level
  events : List Event
  made : Nat

namespace World

/-- A world with a machine named `m` and a collection named `t`, both empty. -/
def initial (threshold : Level) : World :=
  { -- The one collection is empty, and so is the one machine.
    tokens := ⟨#[], #[#[]], []⟩
    collectionNames := [("t", 0)]
    machines := #[Machine.empty]
    machineNames := [("m", 0)]
    states := #[]
    stateNames := []
    threshold
    events := []
    made := 0 }

/-- A machine by its place. -/
def machine (w : World) (m : Nat) : Machine Guard Action := w.machines[m]?.getD Machine.empty

/-- A state by its place. -/
def state? (w : World) : StatePlace → Option (State Guard Action)
  | .inMachine m i => (w.machine m).states[i]?
  | .alone i => w.states[i]?

/-- The transitions of a state by its place. -/
def transitionsAt (w : World) (p : StatePlace) : List (Transition Guard Action) :=
  match w.state? p with
  | some s => s.transitions
  | none => []

/-- Changes a state by its place. -/
def modifyState (w : World) (p : StatePlace) (f : State Guard Action → State Guard Action) :
    World :=
  match p with
  | .inMachine m i => { w with machines := w.machines.modify m (·.modify i f) }
  | .alone i => { w with states := w.states.modify i f }

/-- Leaves a trace. -/
def addEvent (w : World) (e : Event) : World := { w with events := e :: w.events }

/-- Keeps a note if its level passes the threshold. -/
def addNote (w : World) (note : Note Value) : World :=
  if w.threshold.passes note.level then
    w.addEvent (.logged note.level (note.text fun x => (w.tokens.read x).quoted))
  else w

end World

/-- Looks a name up. -/
def lookup (names : World → List (String × Nat)) (name : String) : Effect World Nat := do
  match (names (← get)).lookup name with
  | some i => pure i
  | none => Effect.raise (.unknownName name)

/-- Leaves a trace. -/
def event (e : Event) : Effect World Unit := modify (·.addEvent e)

/-- A computation on the tokens of the session. -/
def onTokens {α : Type} (e : Effect TokenStore α) : Effect World α :=
  e.within World.tokens (fun s w => { w with tokens := s }) TokenStore.empty

/-- A value as it is now. -/
def read (v : Value) : Effect World Value := do return (← get).tokens.read v

/-- A number for a new object. -/
def freshIdentity : Effect World Identity := do
  let w ← get
  set { w with made := w.made + 1 }
  pure (.made w.made)

end SymbolMachine.Session
