/-
Whole sessions.

A session performs its commands one after the other in one world and answers each with
what happened on the way.
-/
import SymbolMachine.Session.Perform

set_option autoImplicit false

namespace SymbolMachine.Session

/-- More steps than a session that ends will take. -/
def patience : Nat := 1000000000000

/-- What is shown of a step: its answer, the events in the order in which they happened,
and the collection it was about as it is afterwards. -/
structure StepAnswer where
  answer : Except Stop Reply
  events : List Event
  collection : Option (List Value)

/-- The name of the collection that a command is about. -/
def Command.collectionName? : Command → Option String
  | .tokens name _ => some name
  | .newCollection name _ => some name
  | _ => none

/-- The items of a collection by its name. -/
def World.named? (w : World) (name : String) : Option (List Value) :=
  (w.collectionNames.lookup name).map w.tokens.contents

/-- Performs one step and shows it. -/
def step (c : Command) (w : World) : StepAnswer × World :=
  let (answer, w) := execute patience c { w with events := [] }
  (⟨answer, w.events.reverse, c.collectionName?.bind w.named?⟩, w)

/-- Performs the steps in order. -/
def steps : List Command → World → List StepAnswer
  | [], _ => []
  | c :: cs, w =>
    let (a, w) := step c w
    a :: steps cs w

/-- A session from its start. -/
def transcript (threshold : Level) (cs : List Command) : List StepAnswer :=
  steps cs (World.initial threshold)

end SymbolMachine.Session
