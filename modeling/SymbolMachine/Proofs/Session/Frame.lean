/-
What a session can do to its world.

A command may evaluate terms, run scripts, call guards and actions, and these may perform
commands of their own, nested to any depth. All of it comes down to ten changes of the world.
So a preorder on worlds that each of the ten keeps (`World.Frame`) is kept by every command,
every guard, every action and every source of symbols, whatever they answer and wherever they
stop; `keeps_execute` and `callbacksKeep_host` say so.

The proofs follow the definitions. How commands of callbacks are performed is a parameter
there, so it is one here, and the knot is tied at the end by the induction on the fuel. There
are even two such parameters: the commands of callbacks may be cut off at some moment, and then
the whole is cut off there (`Effect.Cut`). This tells moments in the middle of a command.
-/
import SymbolMachine.Proofs.Machine.Frame
import SymbolMachine.Session.Perform

set_option autoImplicit false
-- Which of the two hypotheses a theorem of a mutual block uses is not seen from outside.
set_option linter.unusedSectionVars false

namespace SymbolMachine.Session

open Effect (Keeps Cut)

/-- A transition that has passed the checks: its target is a whole number and no truth value, and
its guard and its action, if there is one, can be called. -/
structure Checked (t : Transition Guard Action) : Prop where
  target : StateId.ofValue t.target.toValue = .ok t.target
  guard : t.guard.isCallable = true
  action : ∀ a, t.action = some a → a.isCallable = true

/-- A relation between worlds that no single change of a session breaks. -/
structure World.Frame (R : World → World → Prop) : Prop where
  event : ∀ w e, R w (w.addEvent e)
  made : ∀ w n, R w { w with made := n }
  tokens : ∀ w s, R w { w with tokens := s }
  collectionNames : ∀ w ns, R w { w with collectionNames := ns }
  threshold : ∀ w l, R w { w with threshold := l }
  newMachine : ∀ w name, R w
    { w with
      machines := w.machines.push .empty
      machineNames := (name, w.machines.size) :: w.machineNames }
  newState : ∀ w name i v, R w
    { w with
      states := w.states.push (State.new i v)
      stateNames := (name, w.states.size) :: w.stateNames }
  addState : ∀ w m v, R w { w with machines := w.machines.modify m (·.addState v) }
  connect : ∀ w p t, Checked t → R w (w.modifyState p (·.add t))
  setAccepting : ∀ w p v, R w (w.modifyState p fun s => { s with accepting := v })

variable {R : World → World → Prop} {β : Type}

namespace World.Frame

theorem cut_event (hR : World.Frame R) (e : Event) : Cut R (Session.event e) (Session.event e) :=
  .modify fun w => hR.event w e

theorem cut_onTokens (hR : World.Frame R) (e : Effect TokenStore β) : Cut R (onTokens e) (onTokens e) :=
  (Keeps.within fun s w => hR.tokens w s).cut

theorem cut_freshIdentity (hR : World.Frame R) : Cut R freshIdentity freshIdentity := by
  have hkeep : Keeps R freshIdentity := fun w => hR.made w (w.made + 1)
  exact hkeep.cut

end World.Frame

variable [IsPreorder World R]

theorem cut_read (v : Value) : Cut R (Session.read v) (Session.read v) := .bind .get fun _ => .pure _

theorem cut_lookup (names : World → List (String × Nat)) (name : String) :
    Cut R (Session.lookup names name) (Session.lookup names name) := by
  refine .bind .get fun w => ?_
  rcases (names w).lookup name with _ | i
  · exact .raise _
  · exact .pure _

section Parts

variable {perform perform' : List Command → Effect World Unit} (hR : World.Frame R)
  (hp : ∀ cs, Cut R (perform cs) (perform' cs))

include hR hp

/-! ## Terms and feeds -/

mutual

theorem cut_evaluate : (t : Term) → Cut R (evaluate perform t) (evaluate perform' t)
  | .literal _ => by
    rw [evaluate]
    exact .pure _
  | .nan | .script _ => by
    rw [evaluate]
    exact .map _ hR.cut_freshIdentity
  | .list ts | .tuple ts => by
    rw [evaluate]
    exact .map _ (cut_evaluateAll ts)
  | .named t => by
    rw [evaluate]
    exact .map _ (cut_evaluate t)
  | .token k l => by
    rw [evaluate]
    exact .bind (cut_evaluate k) fun _ => .bind (cut_evaluate l) fun _ => .pure _
  | .equals t => by
    rw [evaluate]
    exact .bind (cut_evaluate t) fun _ => .bind hR.cut_freshIdentity fun _ => .pure _
  | .oneOf f | .noneOf f => by
    rw [evaluate]
    exact .map _ (cut_gather f)
  | .collection name => by
    rw [evaluate]
    exact .bind (cut_lookup _ name) fun _ => .pure _

theorem cut_evaluateAll : (ts : List Term) → Cut R (evaluateAll perform ts) (evaluateAll perform' ts)
  | [] => by
    rw [evaluateAll]
    exact .pure _
  | t :: ts => by
    rw [evaluateAll]
    exact .bind (cut_evaluate t) fun _ => .bind (cut_evaluateAll ts) fun _ => .pure _

theorem cut_gather : (f : Feed) → Cut R (gather perform f) (gather perform' f)
  | .value t => by
    rw [gather]
    exact .bind (cut_evaluate t) fun _ => .bind .get fun _ => .ofExcept _
  | .script items => by
    rw [gather]
    exact cut_gatherScript items

theorem cut_gatherScript : (is : List FeedItem) → Cut R (gatherScript perform is) (gatherScript perform' is)
  | [] => by
    rw [gatherScript]
    exact .bind (hR.cut_event _) fun _ => .pure _
  | i :: is => by
    rw [gatherScript]
    refine .bind (cut_stage i) fun x => ?_
    rcases x with _ | x
    · exact cut_gatherScript is
    · exact .bind (cut_gatherScript is) fun _ => .pure _

theorem cut_stage : (i : FeedItem) → Cut R (stage perform i) (stage perform' i)
  | .give t => by
    rw [stage]
    exact .bind (cut_evaluate t) fun v => .bind (cut_read v) fun _ =>
      .bind (hR.cut_event _) fun _ => .pure _
  | .perform steps => by
    rw [stage]
    exact .bind (hp steps) fun _ => .pure _
  | .fail _ argument => by
    rw [stage]
    exact .bind (cut_evaluate argument) fun v => .bind (cut_read v) fun _ => .raise _

end

theorem cut_evaluateOr (default : Value) (t : Option Term) :
    Cut R (evaluateOr perform default t) (evaluateOr perform' default t) := by
  rcases t with _ | t
  · exact .pure _
  · exact cut_evaluate hR hp t

theorem cut_supply (f : Feed) : Cut R (supply perform f) (supply perform' f) := by
  rcases f with t | stages
  · refine .bind (cut_evaluate hR hp t) fun v => ?_
    split
    · exact .pure _
    · refine .bind .get fun w => ?_
      split <;> exact .pure _
  · exact .pure _

theorem cut_nextStage (is : List FeedItem) : Cut R (nextStage perform is) (nextStage perform' is) := by
  induction is with
  | nil => exact .bind (hR.cut_event _) fun _ => .pure _
  | cons i is ih =>
      refine .bind (cut_stage hR hp i) fun x => ?_
      rcases x with _ | x
      · exact ih
      · exact .pure _

theorem cut_next (s : Supply) : Cut R (Supply.next perform s) (Supply.next perform' s) := by
  rcases s with (_ | ⟨x, xs⟩) | f | ⟨c, i⟩ | stages
  · exact .pure _
  · exact .pure _
  · exact .raise f
  · refine .bind .get fun w => ?_
    rcases w.tokens.item? c i with _ | x <;> exact .pure _
  · exact cut_nextStage hR hp stages

theorem cut_drain (s : Supply) : Cut R (s.drain perform) (s.drain perform') := by
  rcases s with xs | f | ⟨c, i⟩ | stages
  · exact .pure xs
  · exact .raise f
  · exact .bind .get fun _ => .pure _
  · exact cut_gatherScript hR hp stages

/-! ## Guards, actions and transitions -/

theorem cut_equalsRule (v : Value) : Cut R (equalsRule v) (equalsRule v) :=
  .bind hR.cut_freshIdentity fun _ => .pure _

theorem cut_makeGuard : (g : GuardTerm) → Cut R (makeGuard perform g) (makeGuard perform' g)
  | .equals t => by
    rw [makeGuard]
    exact .bind (cut_evaluate hR hp t) fun v => cut_equalsRule hR hp v
  | .oneOf f | .noneOf f => by
    rw [makeGuard]
    exact .bind (cut_gather hR hp f) fun _ => .pure _
  | .text _ | .truth | .constant _ | .symbol | .kindIs _ | .fail _ _ | .perform _ _ => by
    rw [makeGuard]
    exact .pure _
  | .traced _ inner => by
    rw [makeGuard]
    exact .bind (cut_makeGuard inner) fun _ => .pure _
  | .value t => by
    rw [makeGuard]
    exact .bind (cut_evaluate hR hp t) fun _ => .pure _

mutual

theorem cut_makeAction : (a : ActionTerm) → Cut R (makeAction perform a) (makeAction perform' a)
  | .absent | .trace _ | .add _ _ | .fail _ _ | .perform _ => by
    rw [makeAction]
    exact .pure _
  | .emit t name => by
    rw [makeAction]
    exact .bind (cut_lookup _ name) fun _ => .bind (cut_evaluate hR hp t) fun _ => .pure _
  | .extend name => by
    rw [makeAction]
    exact .bind (cut_lookup _ name) fun _ => .pure _
  | .sequence as => by
    rw [makeAction]
    exact .bind (cut_makeActions as) fun _ => .pure _
  | .value t => by
    rw [makeAction]
    exact .bind (cut_evaluate hR hp t) fun _ => .pure _

theorem cut_makeActions : (as : List ActionTerm) → Cut R (makeActions perform as) (makeActions perform' as)
  | [] => by
    rw [makeActions]
    exact .pure _
  | a :: as => by
    rw [makeActions]
    exact .bind (cut_makeAction a) fun _ => .bind (cut_makeActions as) fun _ => .pure _

end

theorem cut_makeTransition (t : TransitionTerm) : Cut R (makeTransition perform t) (makeTransition perform' t) := by
  rcases t with ⟨target, guard, action⟩ | ⟨target, value, action⟩ | ⟨target, values, action⟩
  · exact .bind (cut_evaluate hR hp target) fun _ => .bind (cut_makeGuard hR hp guard) fun _ =>
      .bind (cut_makeAction hR hp action) fun _ => .ofExcept _
  · exact .bind (cut_evaluate hR hp target) fun _ => .bind (cut_evaluate hR hp value) fun v =>
      .bind (cut_makeAction hR hp action) fun _ =>
        .bind (cut_equalsRule hR hp v) fun _ => .ofExcept _
  · exact .bind (cut_evaluate hR hp target) fun _ => .bind (cut_supply hR hp values) fun s =>
      .bind (cut_makeAction hR hp action) fun _ =>
        .bind (cut_drain hR hp s) fun _ => .ofExcept _

omit hR hp in
theorem checked_of_join {target : Value} {g : Guard} {a : Option Action}
    {t : Transition Guard Action} (h : joinTransition target g a = .ok t) : Checked t := by
  unfold joinTransition at h
  cases hs : StateId.ofValue target with
  | error f =>
      rw [hs] at h
      cases h
  | ok s =>
      rw [hs] at h
      cases hg : g.isCallable <;> cases ha : a.all Action.isCallable <;> rw [hg, ha] at h <;> cases h
      have hvalue : StateId.ofValue s.toValue = .ok s := by cases s <;> rfl
      refine ⟨hvalue, hg, fun b hb => ?_⟩
      have hb : a = some b := hb
      rw [hb] at ha
      exact ha

omit hR hp in
/-- What is made is checked. -/
theorem yields_makeTransition (t : TransitionTerm) :
    Effect.Yields Checked (makeTransition perform t) := by
  have hjoin : ∀ target g a, Effect.Yields Checked
      (Effect.ofExcept (joinTransition target g a) : Effect World _) :=
    fun _ _ _ => .ofExcept fun _ => checked_of_join
  cases t with
  | guarded target guard action =>
      exact .bind fun _ => .bind fun _ => .bind fun _ => hjoin _ _ _
  | equals target value action =>
      exact .bind fun _ => .bind fun _ => .bind fun _ => .bind fun _ => hjoin _ _ _
  | oneOf target values action =>
      exact .bind fun _ => .bind fun _ => .bind fun _ => .bind fun _ => hjoin _ _ _

theorem cut_failWith (kind : String) (argument : Term) :
    Cut R (failWith perform kind argument : Effect World β) (failWith perform' kind argument : Effect World β) :=
  .bind (cut_evaluate hR hp argument) fun v => .bind (cut_read v) fun _ => .raise _

theorem cut_ask (g : Guard) (x : Value) : Cut R (ask perform g x) (ask perform' g x) := by
  induction g with
  | rule _ => exact .bind .get fun _ => .pure _
  | text _ => exact .bind (cut_read x) fun _ => .ofExcept _
  | truth => exact .bind (cut_read x) fun _ => .pure _
  | constant t => exact cut_evaluate hR hp t
  | symbol => exact .pure x
  | kindIs t =>
      exact .bind .get fun _ => .bind (.ofExcept _) fun kind =>
        .bind (cut_evaluate hR hp t) fun asked => .bind .get fun _ => .pure _
  | fail kind argument => exact cut_failWith hR hp kind argument
  | traced _ _ ih =>
      exact .bind (cut_read x) fun _ => .bind (hR.cut_event _) fun _ => ih
  | perform steps t => exact .bind (hp steps) fun _ => cut_evaluate hR hp t
  | inert _ => exact .raise _

mutual

theorem cut_act : (a : Action) → (x : Value) → Cut R (act perform a x) (act perform' a x)
  | .trace _, x => by
    rw [act]
    exact .bind (cut_read x) fun _ => hR.cut_event _
  | .emit _ _, _ | .extend _, _ => by
    rw [act]
    exact hR.cut_onTokens _
  | .add t name, _ => by
    rw [act]
    exact .bind (cut_lookup _ name) fun _ => .bind (cut_evaluate hR hp t) fun _ =>
      .bind (hR.cut_onTokens _) fun _ => .pure _
  | .fail kind argument, _ => by
    rw [act]
    exact cut_failWith hR hp kind argument
  | .perform steps, _ => by
    rw [act]
    exact hp steps
  | .sequence as, x => by
    rw [act]
    exact cut_actAll as x
  | .rule _, _ => by
    rw [act]
    exact .pure _
  | .inert _, _ => by
    rw [act]
    exact .raise _

theorem cut_actAll : (as : List Action) → (x : Value) → Cut R (actAll perform as x) (actAll perform' as x)
  | [], _ => by
    rw [actAll]
    exact .pure _
  | a :: as, x => by
    rw [actAll]
    exact .bind (cut_act a x) fun _ => cut_actAll as x

end

theorem cut_admits (g : Guard) (x : Value) : Cut R (admits perform g x) (admits perform' g x) :=
  .bind (cut_ask hR hp g x) fun v => .bind (cut_read v) fun _ => .pure _

/-- The callbacks of a session's machine keep what no single change breaks, and are cut off where
the commands that they perform are. -/
theorem callbacksCut_host (m : Nat) :
    Host.CallbacksCut (host perform m) (host perform' m) (Supply.next perform)
      (Supply.next perform') R where
  machine := rfl
  detailed := rfl
  source := cut_next hR hp
  test := cut_admits hR hp
  perform := cut_act hR hp
  record note := by
    refine .modify fun w => ?_
    unfold World.addNote
    split
    · exact hR.event w _
    · exact refl_of R w

/-! ## Commands -/

theorem cut_locateState (s : StateTerm) : Cut R (locateState perform s) (locateState perform' s) := by
  rcases s with ⟨name, id⟩ | name
  · exact .bind (cut_lookup _ name) fun _ => .bind (cut_evaluate hR hp id) fun _ =>
      .bind .get fun _ => .bind (.ofExcept _) fun _ => .pure _
  · exact .bind (cut_lookup _ name) fun _ => .pure _

theorem cut_stateAt (p : StatePlace) : Cut R (stateAt p) (stateAt p) := by
  refine .bind .get fun w => ?_
  rcases w.state? p with _ | s
  · exact .raise _
  · exact .pure _

theorem cut_nameCollection (name : String) (c : CollectionId) :
    Cut R (nameCollection name c) (nameCollection name c) := .modify fun w => hR.collectionNames w _

theorem cut_nameCollections (stem : String) (cs : List CollectionId) :
    Cut R (nameCollections stem cs) (nameCollections stem cs) := by
  unfold nameCollections
  refine .forM (fun ci => ?_) cs.zipIdx
  exact cut_nameCollection hR hp _ _

theorem cut_editKind (kind : Term) (edit : Value → Effect TokenStore Unit) :
    Cut R (editKind perform kind edit) (editKind perform' kind edit) :=
  .bind (cut_evaluate hR hp kind) fun _ => .bind (hR.cut_onTokens _) fun _ => .pure _

theorem cut_askKind (kind : Term) (question : Value → Effect TokenStore Bool) :
    Cut R (askKind perform kind question) (askKind perform' kind question) :=
  .bind (cut_evaluate hR hp kind) fun _ => .map _ (hR.cut_onTokens _)

theorem cut_callEach (symbols : List Term) (action : Value → Effect TokenStore Unit) :
    Cut R (callEach perform symbols action) (callEach perform' symbols action) := by
  refine .bind (.forM (fun t => ?_) symbols) fun _ => .pure _
  exact .bind (cut_evaluate hR hp t) fun _ => hR.cut_onTokens _

theorem cut_evaluateCount (t : Option Term) : Cut R (evaluateCount perform t) (evaluateCount perform' t) := by
  rcases t with _ | t
  · exact .pure _
  · refine .bind (cut_evaluate hR hp t) fun v => ?_
    split
    · exact .pure _
    · exact .map _ (cut_read _)

theorem cut_collectionReply (c : CollectionId) : Cut R (collectionReply c) (collectionReply c) :=
  .bind .get fun _ => .pure _

theorem cut_executeTokens (c : CollectionId) (command : TokenCommand) :
    Cut R (executeTokens perform c command) (executeTokens perform' c command) := by
  -- One bullet for each command, in the order of the data type.
  rcases command with ⟨kind, lexeme⟩ | value | _ | _ | ⟨index, lexeme⟩ | kind | kind | kind |
    kind | kind | kind | kind | ⟨kind, start, count⟩ | ⟨first, final, into⟩ |
    ⟨kind, withEmpty, into⟩ | ⟨kind, symbols⟩ | symbols | _ | other
  · exact .bind (cut_evaluate hR hp kind) fun _ =>
      .bind (cut_evaluateOr hR hp _ lexeme) fun _ => .bind (hR.cut_onTokens _) fun x =>
        .bind (cut_read x) fun _ => .pure _
  · exact .bind (cut_evaluate hR hp value) fun _ => .bind (hR.cut_onTokens _) fun _ => .pure _
  · exact .bind (hR.cut_onTokens _) fun x => .map _ (cut_read x)
  · exact .bind (hR.cut_onTokens _) fun x => .map _ (cut_read x)
  · exact .bind (cut_evaluate hR hp lexeme) fun _ => .bind (hR.cut_onTokens _) fun _ => .pure _
  · exact cut_editKind hR hp kind _
  · exact cut_editKind hR hp kind _
  · exact cut_editKind hR hp kind _
  · exact cut_editKind hR hp kind _
  · exact cut_editKind hR hp kind _
  · exact cut_askKind hR hp kind _
  · exact cut_askKind hR hp kind _
  · exact .bind (cut_evaluate hR hp kind) fun _ =>
      .bind (cut_evaluateOr hR hp _ start) fun start => .bind (cut_evaluateCount hR hp count)
        fun _ => .bind (cut_read start) fun _ => .bind (hR.cut_onTokens _) fun _ => .pure _
  · refine .bind (cut_evaluate hR hp first) fun v => .bind (cut_evaluate hR hp final) fun v' =>
      .bind (cut_read v) fun _ => .bind (cut_read v') fun _ =>
        .bind (hR.cut_onTokens _) fun cut => ?_
    rcases into with _ | name
    · exact cut_collectionReply hR hp cut
    · exact .bind (cut_nameCollection hR hp name cut) fun _ => cut_collectionReply hR hp cut
  · refine .bind (cut_evaluate hR hp kind) fun _ =>
      .bind (cut_evaluateOr hR hp _ withEmpty) fun v => .bind (cut_read v) fun _ =>
        .bind (hR.cut_onTokens _) fun cs => ?_
    rcases into with _ | stem
    · exact .bind .get fun _ => .pure _
    · exact .bind (cut_nameCollections hR hp stem cs) fun _ => .bind .get fun _ => .pure _
  · exact .bind (cut_evaluate hR hp kind) fun _ => cut_callEach hR hp symbols _
  · exact cut_callEach hR hp symbols _
  · exact .bind (hR.cut_onTokens _) fun _ => .bind (hR.cut_onTokens _) fun _ =>
      .bind .get fun _ => .pure _
  · exact .bind (cut_lookup _ other) fun _ => .bind .get fun _ => .pure _

theorem cut_assignState (p : StatePlace) (field : String) (v : Value) :
    Cut R (assignState p field v) (assignState p field v) := by
  unfold assignState
  split
  · exact .raise _
  · split
    · exact .modify fun w => hR.setAccepting w p v
    · exact .pure _

theorem cut_assignMachine (field : String) : Cut R (assignMachine field) (assignMachine field) := by
  unfold assignMachine
  split
  · exact .raise _
  · exact .pure _

theorem cut_executeWith (fuel : Nat) (c : Command) : Cut R (executeWith perform fuel c) (executeWith perform' fuel c) := by
  -- One bullet for each command again. A run is among them, and so is a scan of one state.
  rcases c with name | ⟨name, id, accepting⟩ | level | ⟨name, accepting⟩ | state | name |
    ⟨state, transition⟩ | ⟨state, value⟩ | ⟨state, value⟩ | state | ⟨state, symbol⟩ |
    ⟨name, symbols, actions, unwrap⟩ | ⟨name, symbols⟩ | ⟨name, field, value⟩ |
    ⟨state, field, value⟩ | ⟨name, source⟩ | ⟨name, command⟩
  · exact .bind (.modify fun w => hR.newMachine w name) fun _ => .pure _
  · exact .bind (cut_evaluate hR hp id) fun i =>
      .bind (cut_evaluateOr hR hp _ accepting) fun v =>
        .bind (.modify fun w => hR.newState w name i v) fun _ => .pure _
  · exact .bind (.modify fun w => hR.threshold w level) fun _ => .pure _
  · exact .bind (cut_lookup _ name) fun m => .bind (cut_evaluateOr hR hp _ accepting) fun v =>
      .bind .get fun _ => .bind (.modify fun w => hR.addState w m v) fun _ => .pure _
  · exact .bind (cut_locateState hR hp state) fun p => .bind (cut_stateAt hR hp p) fun _ =>
      .bind .get fun _ => .map _ (.ofExcept _)
  · exact .bind (cut_lookup _ name) fun _ => .bind .get fun _ => .map _ (.ofExcept _)
  · exact .bind (cut_locateState hR hp state) fun p =>
      .bind_of_yields (cut_makeTransition hR hp transition) (yields_makeTransition transition)
        fun t ht => .bind (.modify fun w => hR.connect w p t ht) fun _ =>
          .bind (cut_stateAt hR hp p) fun _ => .pure _
  · exact .bind (cut_locateState hR hp state) fun _ => .bind (cut_evaluate hR hp value) fun _ =>
      .raise _
  · exact .bind (cut_locateState hR hp state) fun p => .bind (cut_evaluate hR hp value) fun v =>
      .bind (cut_assignState hR hp p _ v) fun _ => .pure _
  · exact .bind (cut_locateState hR hp state) fun p => .bind .get fun _ =>
      .bind (cut_stateAt hR hp p) fun _ => .pure _
  · exact .bind (cut_locateState hR hp state) fun _ =>
      .bind (cut_evaluate hR hp symbol) fun x =>
        .bind (cut_firstMatch _ (cut_admits hR hp) x fuel 0) fun _ => .pure _
  · refine .bind (cut_lookup _ name) fun m => .bind (cut_supply hR hp symbols) fun source =>
      .bind (cut_evaluateOr hR hp _ actions) fun _ =>
        .bind ((callbacksCut_host hR hp m).run fuel _ source) fun _ => .bind .get fun _ => ?_
    split
    · exact .bind (.ofExcept _) fun _ => .pure _
    · exact .bind (.ofExcept _) fun _ => .pure _
  · exact .bind (cut_lookup _ name) fun m => .bind (cut_supply hR hp symbols) fun source =>
      .bind ((callbacksCut_host hR hp m).accepts fuel source) fun v => .map _ (cut_read v)
  · exact .bind (cut_lookup _ name) fun _ => .bind (cut_evaluate hR hp value) fun _ =>
      .bind (cut_assignMachine hR hp field) fun _ => .pure _
  · exact .bind (cut_locateState hR hp state) fun p => .bind (cut_evaluate hR hp value) fun v =>
      .bind (cut_assignState hR hp p field v) fun _ => .pure _
  · exact .bind (cut_gather hR hp source) fun _ => .bind (hR.cut_onTokens _) fun c =>
      .bind (cut_nameCollection hR hp name c) fun _ => .pure _
  · exact .bind (cut_lookup _ name) fun c => cut_executeTokens hR hp c command

end Parts

/-! ## Callbacks that perform commands -/

theorem cut_nest (hR : World.Frame R) {execute execute' : Command → Effect World Reply}
    (he : ∀ c, Cut R (execute c) (execute' c)) (cs : List Command) :
    Cut R (nest execute cs) (nest execute' cs) := by
  induction cs with
  | nil => exact .pure _
  | cons c cs ih => exact .bind (he c).attempt fun _ => .bind (hR.cut_event _) fun _ => ih

/-- **Every command of a session keeps what no single change breaks**, with the commands that
its callbacks perform and those that theirs perform. -/
theorem keeps_execute (hR : World.Frame R) (fuel : Nat) (c : Command) :
    Keeps R (execute fuel c) := by
  induction fuel generalizing c with
  | zero => exact .stall
  | succ fuel ih =>
      have hnest := cut_nest hR fun c => (ih c).cut
      exact ((cut_executeWith hR hnest fuel c).mapFault _).keeps

theorem keeps_nest (hR : World.Frame R) (fuel : Nat) (cs : List Command) :
    Keeps R (nest (execute fuel) cs) :=
  (cut_nest hR (fun c => (keeps_execute hR fuel c).cut) cs).keeps

/-- So do the callbacks of every machine. -/
theorem callbacksKeep_host (hR : World.Frame R) (fuel m : Nat) :
    (host (nest (execute fuel)) m).CallbacksKeep (Supply.next (nest (execute fuel))) R :=
  (callbacksCut_host hR (fun cs => (keeps_nest hR fuel cs).cut) m).callbacksKeep

/-! ## Moments in the middle of a command -/

/-- Performs a command with this fuel, but stops for good where a callback is about to perform
commands at a moment that is asked for. -/
def executeUntil (moment : List Command → World → Bool) : Nat → Command → Effect World Reply
  | 0, _ => Effect.stall
  | fuel + 1, c =>
    (executeWith (fun cs => (nest (executeUntil moment fuel) cs).stopAt (moment cs)) fuel
      c).mapFault Fault.shown

/-- Where no moment is asked for, nothing stops. -/
theorem executeUntil_never (fuel : Nat) (c : Command) :
    executeUntil (fun _ _ => false) fuel c = execute fuel c := by
  induction fuel generalizing c with
  | zero => rfl
  | succ fuel ih =>
      have hnest : (fun cs => nest (executeUntil (fun _ _ => false) fuel) cs) =
          nest (execute fuel) := by
        rw [funext ih]
      rw [executeUntil, execute, ← hnest]
      rfl

/-- Two moments of one command: if the first one is asked for wherever the second one is, it is
the earlier one. -/
theorem cut_executeUntil (hR : World.Frame R) {moment later : List Command → World → Bool}
    (earlier : ∀ cs w, later cs w = true → moment cs w = true) (fuel : Nat) (c : Command) :
    Cut R (executeUntil later fuel c) (executeUntil moment fuel c) := by
  induction fuel generalizing c with
  | zero => exact .stall
  | succ fuel ih =>
      refine (cut_executeWith hR (fun cs => ?_) fuel c).mapFault _
      exact (cut_nest hR ih cs).stopAt (earlier cs)

end SymbolMachine.Session
