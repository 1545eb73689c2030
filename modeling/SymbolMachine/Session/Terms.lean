/-
Evaluating terms and iterating feeds.

Evaluation goes from left to right and stops at the first fault. A list rule iterates its
values when it is made, so a term may run a script; how commands of a script are performed
is a parameter here.

A collection evaluates to a reference to it, wherever in a value it stands. A name may be
given to another collection later; the reference then still is to the first.

A feed is opened first and iterated later. Opening evaluates its term; iterating may fail
because the value cannot be iterated, looks at a collection anew at each place, and
performs the stages of a script one by one, each only when something is asked for.
-/
import SymbolMachine.Machine.Run
import SymbolMachine.Session.World

set_option autoImplicit false

namespace SymbolMachine.Session

/-- What is left of an opened feed. -/
inductive Supply
  | items (xs : List Value)
  /-- A value that cannot be iterated, which shows when it is asked for a symbol. -/
  | blocked (f : Fault)
  | live (collection : CollectionId) (place : Nat)
  | script (stages : List FeedItem)

/-- An error that a script raises. The error that says that a source is used up may not
leave a source. -/
def scriptFault (kind : String) (argument : Value) : Fault :=
  if kind = Fault.stopKind then .sourceStopped else .raised kind argument

variable (perform : List Command → Effect World Unit)

mutual

/-- The value of a term. -/
def evaluate : Term → Effect World Value
  | .literal v => pure v
  | .nan => .nan <$> freshIdentity
  | .list ts => .list <$> evaluateAll ts
  | .tuple ts => .tuple <$> evaluateAll ts
  | .named t => .named <$> evaluate t
  | .token k l => do
    let kind ← evaluate k
    let lexeme ← evaluate l
    pure (.token kind lexeme)
  | .equals t => do
    let v ← evaluate t
    pure (.equals (← freshIdentity) v)
  | .oneOf f => .oneOf <$> gather f
  | .noneOf f => .noneOf <$> gather f
  | .collection name => do return .shared (.collection (← lookup World.collectionNames name))
  | .script _ => .source <$> freshIdentity

/-- The values of some terms in order. -/
def evaluateAll : List Term → Effect World (List Value)
  | [] => pure []
  | t :: ts => do
    let v ← evaluate t
    let vs ← evaluateAll ts
    pure (v :: vs)

/-- All that a feed gives. -/
def gather : Feed → Effect World (List Value)
  | .value t => do
    let v ← evaluate t
    Effect.ofExcept ((← get).tokens.iterate v)
  | .script items => gatherScript items

/-- All that the stages of a script give. -/
def gatherScript : List FeedItem → Effect World (List Value)
  | [] => do
    event .usedUp
    pure []
  | i :: is => do
    match ← stage i with
    | some x =>
      let xs ← gatherScript is
      pure (x :: xs)
    | none => gatherScript is

/-- Performs a stage of a script; answers what it gives, if anything. -/
def stage : FeedItem → Effect World (Option Value)
  | .give t => do
    let v ← evaluate t
    event (.gave (← read v))
    pure (some v)
  | .perform steps => do
    perform steps
    pure none
  | .fail kind argument => do
    let v ← evaluate argument
    Effect.raise (scriptFault kind (← read v))

end

/-- Opens a feed. -/
def supply : Feed → Effect World Supply
  | .value t => do
    match ← evaluate perform t with
    | .shared (.collection c) => pure (.live c 0)
    | v =>
      match (← get).tokens.iterate v with
      | .ok xs => pure (.items xs)
      | .error f => pure (.blocked f)
  | .script stages => pure (.script stages)

/-- Asks a script for its next symbol. -/
def nextStage : List FeedItem → Effect World (Option (Value × Supply))
  | [] => do
    event .usedUp
    pure none
  | i :: is => do
    match ← stage perform i with
    | some x => pure (some (x, .script is))
    | none => nextStage is

/-- An opened feed as a source of symbols. -/
def Supply.next : Source World Supply Value
  | .items [] => pure none
  | .items (x :: xs) => pure (some (x, .items xs))
  | .blocked f => Effect.raise f
  | .live c i => do
    match (← get).tokens.item? c i with
    | some x => pure (some (x, .live c (i + 1)))
    | none => pure none
  | .script stages => nextStage perform stages

/-- An opened feed as it is when it is iterated again, given what the last time left of it.
A script goes on where it was, everything else starts anew. -/
def Supply.again (start left : Supply) : Supply :=
  match start with
  | .script _ => left
  | _ => start

/-- All that is left of an opened feed. -/
def Supply.drain : Supply → Effect World (List Value)
  | .items xs => pure xs
  | .blocked f => Effect.raise f
  | .live c i => do return ((← get).tokens.items c).drop i
  | .script stages => gatherScript perform stages

end SymbolMachine.Session
