/-
Performing commands.

A callback may perform commands, and a command may run a machine whose callbacks perform
commands, so performing is a recursion through callbacks. It is cut by fuel: `execute n`
performs callbacks' commands with `execute (n - 1)`, and gives the loops of a run the same
amount. With enough fuel the amount does not matter; with too little the session stalls.

The object that a command works on is looked up before the other parts are evaluated, and
these are evaluated in the order in which they are written.
-/
import SymbolMachine.Session.Callbacks

set_option autoImplicit false

namespace SymbolMachine.Session

/-! ## Summaries -/

/-- What a state says about itself. -/
def summary (tokens : TokenStore) (s : State Guard Action) : Except Fault StateSummary := do
  let s := { s with id := tokens.read s.id, accepting := tokens.read s.accepting }
  pure ⟨s.id, s.transitions.length, s.accepting, ← s.quoted⟩

/-- What a transition says about itself. -/
def transitionSummary (tokens : TokenStore) (t : Transition Guard Action) : TransitionSummary :=
  ⟨t.target.toValue, t.guard.appearance tokens, t.action.isSome⟩

/-- An outcome with its symbol as it is now. -/
def report (tokens : TokenStore) (o : Outcome StateId Value Nat) : Report :=
  o.map StateId.toValue tokens.read fun (p : Nat) => .int p

section

variable (perform : List Command → Effect World Unit)

/-! ## Places -/

/-- Looks a state up. -/
def locateState : StateTerm → Effect World StatePlace
  | .numbered name id => do
    let m ← lookup World.machineNames name
    let id ← evaluate perform id
    let i ← Effect.ofExcept (((← get).machine m).locate id)
    pure (.inMachine m i)
  | .alone name => do return .alone (← lookup World.stateNames name)

/-- The state at a place. -/
def stateAt (p : StatePlace) : Effect World (State Guard Action) := do
  match (← get).state? p with
  | some s => pure s
  | none => Effect.raise .outOfRange

/-- A part that may be left out. -/
def evaluateOr (default : Value) : Option Term → Effect World Value
  | some t => evaluate perform t
  | none => pure default

/-! ## Collections -/

/-- The collection as an answer. -/
def collectionReply (c : CollectionId) : Effect World Reply := do
  return .collection ((← get).tokens.contents c)

/-- Gives a name to a collection. -/
def nameCollection (name : String) (c : CollectionId) : Effect World Unit :=
  modify fun w => { w with collectionNames := (name, c) :: w.collectionNames }

/-- Names collections by a stem and their numbers. -/
def nameCollections (stem : String) (cs : List CollectionId) : Effect World Unit :=
  cs.zipIdx.forM fun (c, i) => nameCollection (stem ++ toString i) c

/-- An edit by kind as a command. -/
def editKind (kind : Term) (edit : Value → Effect TokenStore Unit) : Effect World Reply := do
  let kind ← evaluate perform kind
  onTokens (edit kind)
  pure .done

/-- A question about a kind as a command. -/
def askKind (kind : Term) (question : Value → Effect TokenStore Bool) : Effect World Reply := do
  let kind ← evaluate perform kind
  .flag <$> onTokens (question kind)

/-- Calls an action once for each symbol. -/
def callEach (symbols : List Term) (action : Value → Effect TokenStore Unit) :
    Effect World Reply := do
  symbols.forM fun t => do
    let v ← evaluate perform t
    onTokens (action v)
  pure (.performed symbols.length)

/-- A count that is left out or null is none. -/
def evaluateCount : Option Term → Effect World (Option Value)
  | none => pure none
  | some t => do
    match ← evaluate perform t with
    | .null => pure none
    | v => some <$> read v

/-- Performs a command on a collection. -/
def executeTokens (c : CollectionId) : TokenCommand → Effect World Reply
  | .add kind lexeme => do
    let kind ← evaluate perform kind
    let lexeme ← evaluateOr perform (.str "") lexeme
    let x ← onTokens do Collection.add c kind (← Collection.textOf lexeme)
    return .added (← read x) true
  | .append value => do
    let v ← evaluate perform value
    onTokens (Collection.append c v)
    pure .done
  | .last => do
    let x ← onTokens (Collection.last c)
    .value <$> read x
  | .pop => do
    let x ← onTokens (Collection.pop c)
    .value <$> read x
  | .assign index lexeme => do
    let v ← evaluate perform lexeme
    onTokens (Collection.assign c index v)
    pure .done
  | .removeKind kind => editKind perform kind (Collection.removeKind c)
  | .collapseKind kind => editKind perform kind (Collection.collapseKind c)
  | .trimStart kind => editKind perform kind (Collection.trimStart c)
  | .trimEnd kind => editKind perform kind (Collection.trimEnd c)
  | .trim kind => editKind perform kind (Collection.trim c)
  | .startsWith kind => askKind perform kind (Collection.startsWith c)
  | .endsWith kind => askKind perform kind (Collection.endsWith c)
  | .findKind kind start count => do
    let kind ← evaluate perform kind
    let start ← evaluateOr perform (.int 0) start
    let count ← evaluateCount perform count
    let place ← onTokens (Collection.findKind c kind (← read start) count)
    pure (.number (match place with | some i => i | none => -1))
  | .segment first final into => do
    let first ← evaluate perform first
    let final ← evaluate perform final
    let cut ← onTokens (Collection.segment c (← read first) (← read final))
    if let some name := into then nameCollection name cut
    collectionReply cut
  | .split kind withEmpty into => do
    let kind ← evaluate perform kind
    let withEmpty ← evaluateOr perform (.bool true) withEmpty
    let cs ← onTokens (Collection.split c kind (← read withEmpty).truthy)
    if let some stem := into then nameCollections stem cs
    let w ← get
    pure (.collections (cs.map w.tokens.contents))
  | .emit kind symbols => do
    let kind ← evaluate perform kind
    callEach perform symbols (Collection.emit c kind)
  | .extend symbols => callEach perform symbols (Collection.extend c)
  | .text => do
    let lines ← onTokens (Collection.lines c)
    let all ← onTokens (Collection.snapshot c)
    return .text lines all.quoted ((← get).tokens.items c).length
  | .equals other => do
    let d ← lookup World.collectionNames other
    pure (.flag ((← get).tokens.eq (.shared (.collection c)) (.shared (.collection d))))

/-! ## Machines and states -/

/-- Assigns a field of a state. Its number and transitions cannot be assigned, and fields
that mean nothing take any value. -/
def assignState (p : StatePlace) (field : String) (v : Value) : Effect World Unit :=
  if field = "id" ∨ field = "transitions" then Effect.raise (.noSetter field "State")
  else if field = "accepting" then modify (·.modifyState p fun s => { s with accepting := v })
  else pure ()

/-- Assigns a field of a machine. Its states cannot be assigned. -/
def assignMachine (field : String) : Effect World Unit :=
  if field = "states" then Effect.raise (.noSetter field "Machine") else pure ()

/-- Performs a command, given how commands of callbacks are performed and the fuel for
loops. -/
def executeWith (fuel : Nat) : Command → Effect World Reply
  | .newMachine name => do
    modify fun w =>
      { w with
        machines := w.machines.push Machine.empty
        machineNames := (name, w.machines.size) :: w.machineNames }
    pure .done
  | .newState name id accepting => do
    let id ← evaluate perform id
    let accepting ← evaluateOr perform (.bool false) accepting
    modify fun w =>
      { w with
        states := w.states.push (State.new id accepting)
        stateNames := (name, w.states.size) :: w.stateNames }
    pure .done
  | .setThreshold level => do
    modify ({ · with threshold := level })
    pure .done
  | .addState name accepting => do
    let m ← lookup World.machineNames name
    let accepting ← evaluateOr perform (.bool false) accepting
    let id := ((← get).machine m).size
    modify fun w => { w with machines := w.machines.modify m (·.addState accepting) }
    pure (.number id)
  | .describeState state => do
    let p ← locateState perform state
    let s ← stateAt p
    .state <$> Effect.ofExcept (summary (← get).tokens s)
  | .describeMachine name => do
    let m ← lookup World.machineNames name
    let w ← get
    .machine <$> Effect.ofExcept ((w.machine m).states.mapM (summary w.tokens))
  | .connect state transition => do
    let p ← locateState perform state
    let t ← makeTransition perform transition
    -- The place still stands for the same state, whatever was performed meanwhile.
    modify (·.modifyState p (·.add t))
    return .connected (← stateAt p).transitions.length
  | .connectValue state value => do
    let _ ← locateState perform state
    let v ← evaluate perform value
    Effect.raise (.notTransition v.typeName)
  | .setAccepting state value => do
    let p ← locateState perform state
    let v ← evaluate perform value
    assignState p "accepting" v
    pure .done
  | .listTransitions state => do
    let p ← locateState perform state
    let w ← get
    return .transitions ((← stateAt p).transitions.map (transitionSummary w.tokens))
  | .find state symbol => do
    let p ← locateState perform state
    let x ← evaluate perform symbol
    let found ← firstMatch (·.transitionsAt p) (admits perform) x fuel 0
    pure (.found (found.map fun (i, t) => (i, t.target.toValue)))
  | .run name symbols actions unwrap => do
    let m ← lookup World.machineNames name
    let source ← supply perform symbols
    let actions ← evaluateOr perform (.bool true) actions
    let wanted (w : World) : Bool := (w.tokens.read actions).truthy
    let outcome ← (host perform m).run (Supply.next perform) fuel wanted source
    let r := report (← get).tokens outcome
    if unwrap then return .value (← Effect.ofExcept r.unwrap)
    else return .outcome r (← Effect.ofExcept r.message?)
  | .accepts name symbols => do
    let m ← lookup World.machineNames name
    let source ← supply perform symbols
    let v ← (host perform m).accepts (Supply.next perform) fuel source
    .value <$> read v
  | .assignMachine name field value => do
    let _ ← lookup World.machineNames name
    let _ ← evaluate perform value
    assignMachine field
    pure .done
  | .assignState state field value => do
    let p ← locateState perform state
    let v ← evaluate perform value
    assignState p field v
    pure .done
  | .newCollection name source => do
    let xs ← gather perform source
    nameCollection name (← onTokens (Collection.new xs))
    pure .done
  | .tokens name command => do
    let c ← lookup World.collectionNames name
    executeTokens perform c command

end

/-- Performs commands of a callback. Each answer becomes part of the trace, and a fault
goes no further. -/
def nest (execute : Command → Effect World Reply) : List Command → Effect World Unit
  | [] => pure ()
  | c :: cs => do
    -- Only faults are handled: a stalled command stalls the callback too.
    let answer ← (execute c).attempt
    event (.nested answer)
    nest execute cs

/-- Performs a command. A fault is reported as it is seen, so that it can be worded. -/
def execute : Nat → Command → Effect World Reply
  | 0, _ => Effect.stall
  | fuel + 1, c => (executeWith (nest (execute fuel)) fuel c).mapFault Fault.shown

end SymbolMachine.Session
