/-
Making guards, actions and transitions from what was written, and calling them.

Making evaluates the parts from left to right; a list rule of a transition iterates its
values only after the other parts are evaluated. A transition is checked when all its
parts are there: first the target, then the guard, then the action.

What a guard or action that is a function works with is evaluated when it is called, and
anew for each call. So an error in it shows in the call, and a collection that it names is
the one that has the name then.
-/
import SymbolMachine.Session.Terms
import SymbolMachine.Tokens.Collection

set_option autoImplicit false

namespace SymbolMachine.Session

variable (perform : List Command → Effect World Unit)

/-! ## Making -/

/-- A value in the place of a guard: a rule can be asked, other values cannot. -/
def Guard.ofValue (v : Value) : Guard :=
  match Rule.ofValue? v with
  | some r => .rule r
  | none => .inert v

/-- A value in the place of an action: null is none. -/
def Action.ofValue? : Value → Option Action
  | .null => none
  | v =>
    match Rule.ofValue? v with
    | some r => some (.rule r)
    | none => some (.inert v)

/-- A rule for one value. -/
def equalsRule (v : Value) : Effect World Guard := do
  return .rule (.equals (← freshIdentity) v)

/-- Makes a guard. -/
def makeGuard : GuardTerm → Effect World Guard
  | .equals t => do equalsRule (← evaluate perform t)
  | .oneOf f => do return .rule (.oneOf (← gather perform f))
  | .noneOf f => do return .rule (.noneOf (← gather perform f))
  | .text cls => pure (.text cls)
  | .truth => pure .truth
  | .constant t => pure (.constant t)
  | .symbol => pure .symbol
  | .kindIs t => pure (.kindIs t)
  | .fail kind t => pure (.fail kind t)
  | .traced tag inner => do return .traced tag (← makeGuard inner)
  | .perform steps t => pure (.perform steps t)
  | .value t => do return Guard.ofValue (← evaluate perform t)

mutual

/-- Makes an action, if one is written. -/
def makeAction : ActionTerm → Effect World (Option Action)
  | .absent => pure none
  | .trace tag => pure (some (.trace tag))
  | .emit t name => do
    let c ← lookup World.collectionNames name
    return some (.emit (← evaluate perform t) c)
  | .extend name => do return some (.extend (← lookup World.collectionNames name))
  | .add t name => pure (some (.add t name))
  | .fail kind t => pure (some (.fail kind t))
  | .perform steps => pure (some (.perform steps))
  | .sequence as => do return some (.sequence (← makeActions as))
  | .value t => do return Action.ofValue? (← evaluate perform t)

/-- Makes the actions of a sequence. Where none is written there is nothing to call. -/
def makeActions : List ActionTerm → Effect World (List Action)
  | [] => pure []
  | a :: as => do
    let first ← makeAction a
    let rest ← makeActions as
    pure (first.getD (.inert .null) :: rest)

end

/-- Checks the parts of a transition and puts them together. -/
def joinTransition (target : Value) (guard : Guard) (action : Option Action) :
    Except Fault (Transition Guard Action) := do
  let target ← StateId.ofValue target
  if !guard.isCallable then throw .uncallablePredicate
  if !(action.all Action.isCallable) then throw .uncallableAction
  pure ⟨target, guard, action⟩

/-- Makes a transition. -/
def makeTransition : TransitionTerm → Effect World (Transition Guard Action)
  | .guarded target guard action => do
    let target ← evaluate perform target
    let guard ← makeGuard perform guard
    let action ← makeAction perform action
    Effect.ofExcept (joinTransition target guard action)
  | .equals target value action => do
    let target ← evaluate perform target
    let value ← evaluate perform value
    let action ← makeAction perform action
    Effect.ofExcept (joinTransition target (← equalsRule value) action)
  | .oneOf target values action => do
    let target ← evaluate perform target
    let values ← supply perform values
    let action ← makeAction perform action
    -- Iterating may perform commands, also ones that add transitions to this very state.
    let values ← values.drain perform
    Effect.ofExcept (joinTransition target (.rule (.oneOf values)) action)

/-! ## Calling -/

/-- A test of text applied to a value. -/
def testText (cls : TextClass) : Value → Except Fault Value
  | .str s => .ok (.bool (cls.holdsOf s.toList))
  | v => .error (.notText cls.name v.typeName)

/-- An error made of the value of a term. -/
def failWith {α : Type} (kind : String) (argument : Term) : Effect World α := do
  let v ← evaluate perform argument
  Effect.raise (.raised kind (← read v))

/-- Asks a guard about a symbol. -/
def ask : Guard → Value → Effect World Value
  | .rule r, x => do return .bool (r.accepts (← get).tokens x)
  | .text cls, x => do Effect.ofExcept (testText cls (← read x))
  | .truth, x => do return .bool (← read x).truthy
  | .constant t, _ => evaluate perform t
  | .symbol, x => pure x
  | .kindIs t, x => do
    -- What has no kind fails before the kind in question is evaluated.
    let kind ← Effect.ofExcept ((← get).tokens.kindOf x)
    let asked ← evaluate perform t
    return .bool ((← get).tokens.eq kind asked)
  | .fail kind argument, _ => failWith perform kind argument
  | .traced tag inner, x => do
    event (.asked tag (← read x))
    ask inner x
  | .perform steps t, _ => do
    perform steps
    evaluate perform t
  | .inert v, _ => Effect.raise (.notCallable v.typeName)

mutual

/-- Performs an action on a symbol. -/
def act : Action → Value → Effect World Unit
  | .trace tag, x => do event (.acted tag (← read x))
  | .emit kind c, x => onTokens (Collection.emit c kind x)
  | .extend c, x => onTokens (Collection.extend c x)
  | .add t name, _ => do
    let c ← lookup World.collectionNames name
    let kind ← evaluate perform t
    let _ ← onTokens (Collection.add c kind "")
  | .fail kind argument, _ => failWith perform kind argument
  | .perform steps, _ => perform steps
  | .sequence as, x => actAll as x
  | .rule _, _ => pure ()
  | .inert v, _ => Effect.raise (.notCallable v.typeName)

/-- Performs some actions in order. -/
def actAll : List Action → Value → Effect World Unit
  | [], _ => pure ()
  | a :: as, x => do
    act a x
    actAll as x

end

/-- Whether a guard accepts a symbol: its answer counts as true. -/
def admits (g : Guard) (x : Value) : Effect World Bool := do
  return (← read (← ask perform g x)).truthy

/-- A machine of the session as the world of a run. -/
def host (m : Nat) : Host World Guard Action Value where
  machine w := w.machine m
  test := admits perform
  perform := act perform
  record note := modify (·.addNote note)
  detailed w := w.threshold.passes .debug

end SymbolMachine.Session
