/-
What is left of a session without its log.

A level decides which notes are kept, and nothing else. So what a session does is told by its
plain part: the same commands with one level in the place of every level that they set, and
the same world with one threshold, without the notes that were kept, and with plain commands in
the callbacks that it has built. Two sessions whose plain parts are the same differ in levels
and in what they logged only.

Callbacks and scripts hold commands, and commands hold terms for callbacks, so the plain part
goes through the whole language. Nothing that can be seen of a callback from outside, or that
decides whether it can be called, is changed by it.
-/
import SymbolMachine.Proofs.Machine.Mirror
import SymbolMachine.Session.Transcript

set_option autoImplicit false

namespace SymbolMachine.Session

/-! ## Commands -/

mutual

/-- The term with one level in the place of all. -/
def Term.plain : Term → Term
  | .literal v => .literal v
  | .nan => .nan
  | .list ts => .list (plainTerms ts)
  | .tuple ts => .tuple (plainTerms ts)
  | .named t => .named t.plain
  | .token k l => .token k.plain l.plain
  | .equals t => .equals t.plain
  | .oneOf f => .oneOf f.plain
  | .noneOf f => .noneOf f.plain
  | .collection name => .collection name
  | .script items => .script (plainItems items)

def plainTerms : List Term → List Term
  | [] => []
  | t :: ts => t.plain :: plainTerms ts

def plainTerm? : Option Term → Option Term
  | none => none
  | some t => some t.plain

def Feed.plain : Feed → Feed
  | .value t => .value t.plain
  | .script items => .script (plainItems items)

def FeedItem.plain : FeedItem → FeedItem
  | .give t => .give t.plain
  | .perform steps => .perform (plainCommands steps)
  | .fail kind argument => .fail kind argument.plain

def plainItems : List FeedItem → List FeedItem
  | [] => []
  | i :: is => i.plain :: plainItems is

def GuardTerm.plain : GuardTerm → GuardTerm
  | .equals t => .equals t.plain
  | .oneOf f => .oneOf f.plain
  | .noneOf f => .noneOf f.plain
  | .text cls => .text cls
  | .truth => .truth
  | .constant t => .constant t.plain
  | .symbol => .symbol
  | .kindIs t => .kindIs t.plain
  | .fail kind argument => .fail kind argument.plain
  | .traced tag inner => .traced tag inner.plain
  | .perform steps t => .perform (plainCommands steps) t.plain
  | .value t => .value t.plain

def ActionTerm.plain : ActionTerm → ActionTerm
  | .absent => .absent
  | .trace tag => .trace tag
  | .emit t name => .emit t.plain name
  | .extend name => .extend name
  | .add t name => .add t.plain name
  | .fail kind argument => .fail kind argument.plain
  | .perform steps => .perform (plainCommands steps)
  | .sequence as => .sequence (plainActionTerms as)
  | .value t => .value t.plain

def plainActionTerms : List ActionTerm → List ActionTerm
  | [] => []
  | a :: as => a.plain :: plainActionTerms as

def TransitionTerm.plain : TransitionTerm → TransitionTerm
  | .guarded target guard action => .guarded target.plain guard.plain action.plain
  | .equals target value action => .equals target.plain value.plain action.plain
  | .oneOf target values action => .oneOf target.plain values.plain action.plain

def StateTerm.plain : StateTerm → StateTerm
  | .numbered name id => .numbered name id.plain
  | .alone name => .alone name

def TokenCommand.plain : TokenCommand → TokenCommand
  | .add kind lexeme => .add kind.plain (plainTerm? lexeme)
  | .append value => .append value.plain
  | .last => .last
  | .pop => .pop
  | .assign index lexeme => .assign index lexeme.plain
  | .removeKind kind => .removeKind kind.plain
  | .collapseKind kind => .collapseKind kind.plain
  | .trimStart kind => .trimStart kind.plain
  | .trimEnd kind => .trimEnd kind.plain
  | .trim kind => .trim kind.plain
  | .startsWith kind => .startsWith kind.plain
  | .endsWith kind => .endsWith kind.plain
  | .findKind kind start count => .findKind kind.plain (plainTerm? start) (plainTerm? count)
  | .segment first final into => .segment first.plain final.plain into
  | .split kind withEmpty into => .split kind.plain (plainTerm? withEmpty) into
  | .emit kind symbols => .emit kind.plain (plainTerms symbols)
  | .extend symbols => .extend (plainTerms symbols)
  | .text => .text
  | .equals other => .equals other

/-- The command with one level in the place of all. -/
def Command.plain : Command → Command
  | .newMachine name => .newMachine name
  | .newState name id accepting => .newState name id.plain (plainTerm? accepting)
  | .setThreshold _ => .setThreshold .critical
  | .addState name accepting => .addState name (plainTerm? accepting)
  | .describeState state => .describeState state.plain
  | .describeMachine name => .describeMachine name
  | .connect state transition => .connect state.plain transition.plain
  | .connectValue state value => .connectValue state.plain value.plain
  | .setAccepting state value => .setAccepting state.plain value.plain
  | .listTransitions state => .listTransitions state.plain
  | .find state symbol => .find state.plain symbol.plain
  | .run name symbols actions unwrap => .run name symbols.plain (plainTerm? actions) unwrap
  | .accepts name symbols => .accepts name symbols.plain
  | .assignMachine name field value => .assignMachine name field value.plain
  | .assignState state field value => .assignState state.plain field value.plain
  | .newCollection name source => .newCollection name source.plain
  | .tokens name command => .tokens name command.plain

def plainCommands : List Command → List Command
  | [] => []
  | c :: cs => c.plain :: plainCommands cs

end

theorem plainTerms_eq_map (ts : List Term) : plainTerms ts = ts.map Term.plain := by
  induction ts with
  | nil => rw [plainTerms, List.map_nil]
  | cons t ts ih => rw [plainTerms, ih, List.map_cons]

/-! ## Callbacks -/

/-- The guard with plain commands in it. -/
def Guard.plain : Guard → Guard
  | .rule r => .rule r
  | .text cls => .text cls
  | .truth => .truth
  | .constant t => .constant t.plain
  | .symbol => .symbol
  | .kindIs t => .kindIs t.plain
  | .fail kind argument => .fail kind argument.plain
  | .traced tag inner => .traced tag inner.plain
  | .perform steps t => .perform (plainCommands steps) t.plain
  | .inert v => .inert v

mutual

/-- The action with plain commands in it. -/
def Action.plain : Action → Action
  | .trace tag => .trace tag
  | .emit kind c => .emit kind c
  | .extend c => .extend c
  | .add t name => .add t.plain name
  | .fail kind argument => .fail kind argument.plain
  | .perform steps => .perform (plainCommands steps)
  | .sequence as => .sequence (plainActions as)
  | .rule r => .rule r
  | .inert v => .inert v

def plainActions : List Action → List Action
  | [] => []
  | a :: as => a.plain :: plainActions as

end

@[simp] theorem Guard.isCallable_plain (g : Guard) : g.plain.isCallable = g.isCallable := by
  cases g <;> rfl

@[simp] theorem Action.isCallable_plain (a : Action) : a.plain.isCallable = a.isCallable := by
  cases a <;> rfl

@[simp] theorem Guard.appearance_plain (s : TokenStore) (g : Guard) :
    g.plain.appearance s = g.appearance s := by
  cases g <;> rfl

theorem plain_guardOfValue (v : Value) : (Guard.ofValue v).plain = Guard.ofValue v := by
  unfold Guard.ofValue
  split <;> rfl

theorem plain_actionOfValue? (v : Value) :
    (Action.ofValue? v).map Action.plain = Action.ofValue? v := by
  unfold Action.ofValue?
  split
  · rfl
  · split <;> rfl

/-- A transition, a state and a machine with plain callbacks. -/
abbrev plainTransition : Transition Guard Action → Transition Guard Action :=
  Transition.map Guard.plain Action.plain

abbrev plainState : State Guard Action → State Guard Action := State.map Guard.plain Action.plain

abbrev plainMachine : Machine Guard Action → Machine Guard Action :=
  Machine.map Guard.plain Action.plain

/-- Which parts make a transition does not depend on levels. -/
theorem joinTransition_plain (target : Value) (g : Guard) (a : Option Action) :
    joinTransition target g.plain (a.map Action.plain) =
      (joinTransition target g a).map plainTransition := by
  have hall : (a.map Action.plain).all Action.isCallable = a.all Action.isCallable := by
    cases a with
    | none => rfl
    | some a => exact a.isCallable_plain
  unfold joinTransition
  rw [g.isCallable_plain, hall]
  cases StateId.ofValue target with
  | error f => rfl
  | ok s => cases g.isCallable <;> cases a.all Action.isCallable <;> rfl

theorem transitionSummary_plain (tokens : TokenStore) (t : Transition Guard Action) :
    transitionSummary tokens (plainTransition t) = transitionSummary tokens t := by
  have hguard : (plainTransition t).guard.appearance tokens = t.guard.appearance tokens :=
    t.guard.appearance_plain tokens
  have haction : (plainTransition t).action.isSome = t.action.isSome := Option.isSome_map
  rw [transitionSummary, hguard, haction]
  rfl

theorem transitionSummaries_plain (tokens : TokenStore) (s : State Guard Action) :
    (plainState s).transitions.map (transitionSummary tokens) =
      s.transitions.map (transitionSummary tokens) := by
  have hsummary : transitionSummary tokens ∘ plainTransition = transitionSummary tokens :=
    funext fun t => transitionSummary_plain tokens t
  change (s.transitions.map plainTransition).map _ = _
  rw [List.map_map, hsummary]

theorem length_plain (s : State Guard Action) :
    (plainState s).transitions.length = s.transitions.length := List.length_map _

theorem add_plain (s : State Guard Action) (t : Transition Guard Action) :
    (plainState s).add (plainTransition t) = plainState (s.add t) := by
  simp [State.add, State.map]

theorem summary_plain (tokens : TokenStore) (s : State Guard Action) :
    summary tokens (plainState s) = summary tokens s := by
  simp [summary, State.quoted, State.map]

theorem summaries_plain (tokens : TokenStore) (M : Machine Guard Action) :
    (plainMachine M).states.mapM (summary tokens) = M.states.mapM (summary tokens) := by
  have hsummary : summary tokens ∘ plainState = summary tokens :=
    funext fun s => summary_plain tokens s
  change (M.states.map plainState).mapM _ = _
  rw [List.mapM_map, hsummary]

/-! ## Scripts -/

/-- What is left of a feed, with plain stages. -/
def Supply.plain : Supply → Supply
  | .items xs => .items xs
  | .blocked f => .blocked f
  | .live c i => .live c i
  | .script stages => .script (plainItems stages)

/-! ## Worlds -/

/-- A note of a run. -/
def Event.isLogged : Event → Bool
  | .logged _ _ => true
  | _ => false

/-- Some events without the notes of runs. -/
def unlogged (es : List Event) : List Event := es.filter fun e => !e.isLogged

/-- The world without its log: plain callbacks, one threshold, and no notes of runs. -/
def World.plain (w : World) : World :=
  { w with
    machines := w.machines.map plainMachine
    states := w.states.map plainState
    threshold := .critical
    events := unlogged w.events }

namespace World

variable (w : World)

@[simp] theorem tokens_plain : w.plain.tokens = w.tokens := rfl

theorem machine_plain (m : Nat) : w.plain.machine m = plainMachine (w.machine m) := by
  unfold World.machine World.plain
  simp only [Array.getElem?_map]
  cases w.machines[m]? <;> rfl

theorem state?_plain (p : StatePlace) : w.plain.state? p = (w.state? p).map plainState := by
  cases p with
  | inMachine m i =>
      change (w.plain.machine m).states[i]? = _
      rw [machine_plain]
      exact List.getElem?_map
  | alone i => exact Array.getElem?_map

theorem transitionsAt_plain (p : StatePlace) :
    w.plain.transitionsAt p = (w.transitionsAt p).map plainTransition := by
  unfold transitionsAt
  rw [state?_plain]
  cases w.state? p <;> rfl

theorem addEvent_plain {e : Event} (he : e.isLogged = false) :
    w.plain.addEvent e = (w.addEvent e).plain := by
  unfold addEvent World.plain unlogged
  simp only [List.filter_cons, he, Bool.not_false, if_true]

/-- Notes leave no trace in the plain part. -/
theorem plain_addNote (note : Note Value) : (w.addNote note).plain = w.plain := by
  unfold addNote
  split
  · simp [addEvent, World.plain, unlogged, Event.isLogged]
  · rfl

/-- And none are kept there. -/
theorem addNote_plain (note : Note Value) : w.plain.addNote note = w.plain := by
  have hlevel : w.plain.threshold.passes note.level = false := by
    cases note <;> rfl
  rw [addNote, hlevel]
  rfl

/-- A change of one item, with all items seen otherwise. -/
theorem map_modify {ι κ : Type} {u : ι → κ} {f : ι → ι} {f' : κ → κ} (h : ∀ x, f' (u x) = u (f x))
    (xs : Array ι) (i : Nat) : (xs.map u).modify i f' = (xs.modify i f).map u := by
  apply Array.ext_getElem?
  intro j
  rw [Array.getElem?_modify, Array.getElem?_map, Array.getElem?_map, Array.getElem?_modify]
  by_cases same : i = j
  · rw [if_pos same, if_pos same]
    cases xs[j]? <;> simp [h]
  · rw [if_neg same, if_neg same]

theorem modify_plainMachine {f f' : State Guard Action → State Guard Action}
    (h : ∀ s, f' (plainState s) = plainState (f s)) (M : Machine Guard Action) (i : Nat) :
    (plainMachine M).modify i f' = plainMachine (M.modify i f) := by
  apply congrArg Machine.mk
  apply List.ext_getElem?
  intro j
  change (M.states.map plainState |>.modify i f')[j]? = ((M.states.modify i f).map plainState)[j]?
  rw [List.getElem?_modify, List.getElem?_map, List.getElem?_map, List.getElem?_modify]
  cases M.states[j]? with
  | none => rfl
  | some s => by_cases same : i = j <;> simp [same, h]

theorem modifyState_plain {f f' : State Guard Action → State Guard Action}
    (h : ∀ s, f' (plainState s) = plainState (f s)) (p : StatePlace) :
    w.plain.modifyState p f' = (w.modifyState p f).plain := by
  cases p with
  | inMachine m i =>
      have hm : (w.machines.map plainMachine).modify m (·.modify i f') =
          (w.machines.modify m (·.modify i f)).map plainMachine :=
        map_modify (fun M => modify_plainMachine h M i) w.machines m
      simp only [modifyState, World.plain, hm]
  | alone i =>
      have hs : (w.states.map plainState).modify i f' = (w.states.modify i f).map plainState :=
        map_modify h w.states i
      simp only [modifyState, World.plain, hs]

theorem newMachine_plain (name : String) :
    ({ w.plain with
        machines := w.plain.machines.push Machine.empty
        machineNames := (name, w.plain.machines.size) :: w.plain.machineNames } : World) =
      World.plain { w with
        machines := w.machines.push Machine.empty
        machineNames := (name, w.machines.size) :: w.machineNames } := by
  simp only [World.plain, Array.map_push, Array.size_map]
  rfl

theorem newState_plain (name : String) (i accepting : Value) :
    ({ w.plain with
        states := w.plain.states.push (State.new i accepting)
        stateNames := (name, w.plain.states.size) :: w.plain.stateNames } : World) =
      World.plain { w with
        states := w.states.push (State.new i accepting)
        stateNames := (name, w.states.size) :: w.stateNames } := by
  simp only [World.plain, Array.map_push, Array.size_map]
  rfl

theorem addState_plain (m : Nat) (accepting : Value) :
    ({ w.plain with machines := w.plain.machines.modify m (·.addState accepting) } : World) =
      World.plain { w with machines := w.machines.modify m (·.addState accepting) } := by
  have hm : (w.machines.map plainMachine).modify m (·.addState accepting) =
      (w.machines.modify m (·.addState accepting)).map plainMachine := by
    refine map_modify (fun M => ?_) w.machines m
    simp [Machine.addState, Machine.map, Machine.size, State.map, State.new]
  simp only [World.plain, hm]

end World

end SymbolMachine.Session
