/-
A session in a world without its log.

What a session does to the plain part of its world, when it is given plain commands, is the
plain part of what it does: levels have no say in it. The proofs go through the definitions of
the session as they stand, from terms and feeds to callbacks, runs and commands. How commands
of callbacks are performed is a parameter again, and the knot is tied by the induction on the
fuel.

Notes and levels come up in two places only. A run writes notes, which its plain part has none
of, and a command sets the level, in whose place the plain command sets a fixed one.
-/
import SymbolMachine.Proofs.Session.Plain

set_option autoImplicit false
-- Whether a theorem of a mutual block uses the hypothesis is not seen from outside.
set_option linter.unusedSectionVars false

namespace SymbolMachine.Session

open Effect (Mirrors)

theorem mirrors_freshIdentity : Mirrors World.plain id freshIdentity freshIdentity :=
  fun _ => rfl

theorem mirrors_event {e : Event} (he : e.isLogged = false) :
    Mirrors World.plain id (event e) (event e) :=
  .modify fun w => w.addEvent_plain he

theorem mirrors_read (v : Value) : Mirrors World.plain id (read v) (read v) :=
  .bind .get fun _ => .pure id _

theorem mirrors_onTokens {β : Type} (e : Effect TokenStore β) :
    Mirrors World.plain id (onTokens e) (onTokens e) := by
  intro w
  rw [onTokens, Effect.within_apply, Effect.within_apply, Effect.map_id_except]
  rfl

theorem mirrors_lookup {names : World → List (String × Nat)} (hn : ∀ w, names (World.plain w) = names w)
    (name : String) : Mirrors World.plain id (lookup names name) (lookup names name) := by
  refine .bind .get fun w => ?_
  rw [hn]
  cases (names w).lookup name with
  | none => exact .raise id _
  | some i => exact .pure id i

section Parts

variable {perform : List Command → Effect World Unit}
  (hp : ∀ cs, Mirrors World.plain id (perform cs) (perform (plainCommands cs)))

include hp

/-! ## Terms and feeds -/

mutual

theorem mirrors_evaluate :
    (t : Term) → Mirrors World.plain id (evaluate perform t) (evaluate perform t.plain)
  | .literal v => by
    rw [Term.plain, evaluate]
    exact .pure id v
  | .nan => by
    rw [Term.plain, evaluate]
    exact .map mirrors_freshIdentity fun _ => rfl
  | .script _ => by
    rw [Term.plain, evaluate, evaluate]
    exact .map mirrors_freshIdentity fun _ => rfl
  | .list ts | .tuple ts => by
    rw [Term.plain, evaluate, evaluate]
    exact .map (mirrors_evaluateAll ts) fun _ => rfl
  | .named t => by
    rw [Term.plain, evaluate, evaluate]
    exact .map (mirrors_evaluate t) fun _ => rfl
  | .token k l => by
    rw [Term.plain, evaluate, evaluate]
    exact .bind (mirrors_evaluate k) fun _ => .bind (mirrors_evaluate l) fun _ => .pure id _
  | .equals t => by
    rw [Term.plain, evaluate, evaluate]
    exact .bind (mirrors_evaluate t) fun _ => .bind mirrors_freshIdentity fun _ => .pure id _
  | .oneOf f | .noneOf f => by
    rw [Term.plain, evaluate, evaluate]
    exact .map (mirrors_gather f) fun _ => rfl
  | .collection name => by
    rw [Term.plain, evaluate]
    exact .bind (mirrors_lookup (fun _ => rfl) name) fun _ => .pure id _

theorem mirrors_evaluateAll : (ts : List Term) →
    Mirrors World.plain id (evaluateAll perform ts) (evaluateAll perform (plainTerms ts))
  | [] => by
    rw [plainTerms, evaluateAll]
    exact .pure id _
  | t :: ts => by
    rw [plainTerms, evaluateAll, evaluateAll]
    exact .bind (mirrors_evaluate t) fun _ => .bind (mirrors_evaluateAll ts) fun _ => .pure id _

theorem mirrors_gather :
    (f : Feed) → Mirrors World.plain id (gather perform f) (gather perform f.plain)
  | .value t => by
    rw [Feed.plain, gather, gather]
    exact .bind (mirrors_evaluate t) fun _ => .bind .get fun _ => .ofExcept _
  | .script items => by
    rw [Feed.plain, gather, gather]
    exact mirrors_gatherScript items

theorem mirrors_gatherScript : (is : List FeedItem) →
    Mirrors World.plain id (gatherScript perform is) (gatherScript perform (plainItems is))
  | [] => by
    rw [plainItems, gatherScript]
    exact .bind (mirrors_event rfl) fun _ => .pure id _
  | i :: is => by
    rw [plainItems, gatherScript, gatherScript]
    refine .bind (mirrors_stage i) fun x => ?_
    cases x with
    | none => exact mirrors_gatherScript is
    | some x => exact .bind (mirrors_gatherScript is) fun _ => .pure id _

theorem mirrors_stage :
    (i : FeedItem) → Mirrors World.plain id (stage perform i) (stage perform i.plain)
  | .give t => by
    rw [FeedItem.plain, stage, stage]
    exact .bind (mirrors_evaluate t) fun v => .bind (mirrors_read v) fun _ =>
      .bind (mirrors_event rfl) fun _ => .pure id _
  | .perform steps => by
    rw [FeedItem.plain, stage, stage]
    exact .bind (hp steps) fun _ => .pure id _
  | .fail _ argument => by
    rw [FeedItem.plain, stage, stage]
    exact .bind (mirrors_evaluate argument) fun v => .bind (mirrors_read v) fun _ => .raise id _

end

theorem mirrors_evaluateOr (default : Value) (t : Option Term) :
    Mirrors World.plain id (evaluateOr perform default t)
      (evaluateOr perform default (plainTerm? t)) := by
  cases t with
  | none => exact .pure id _
  | some t => exact mirrors_evaluate hp t

theorem mirrors_supply (f : Feed) :
    Mirrors World.plain Supply.plain (supply perform f) (supply perform f.plain) := by
  cases f with
  | value t =>
      rw [Feed.plain]
      refine .bind (mirrors_evaluate hp t) fun v => ?_
      rw [id_eq]
      split
      · exact .pure Supply.plain _
      · refine .bind .get fun w => ?_
        rw [World.tokens_plain]
        cases w.tokens.iterate v with
        | ok xs => exact .pure Supply.plain (.items xs)
        | error f => exact .pure Supply.plain (.blocked f)
  | script stages =>
      rw [Feed.plain]
      exact .pure Supply.plain _

theorem mirrors_nextStage (is : List FeedItem) :
    Mirrors World.plain (Option.map (Prod.map id Supply.plain)) (nextStage perform is)
      (nextStage perform (plainItems is)) := by
  induction is with
  | nil =>
      rw [plainItems]
      exact .bind (mirrors_event rfl) fun _ => .pure _ none
  | cons i is ih =>
      rw [plainItems]
      refine .bind (mirrors_stage hp i) fun x => ?_
      cases x with
      | none => exact ih
      | some x => exact .pure _ (some (x, Supply.script is))

theorem mirrors_next :
    Host.Mirrors.Feeds World.plain Supply.plain (Supply.next perform) (Supply.next perform) := by
  intro s
  rcases s with (_ | ⟨x, xs⟩) | f | ⟨c, i⟩ | stages
  · exact .pure _ none
  · exact .pure _ (some (x, Supply.items xs))
  · exact .raise _ f
  · refine .bind .get fun w => ?_
    rw [World.tokens_plain]
    cases w.tokens.item? c i with
    | none => exact .pure _ none
    | some x => exact .pure _ (some (x, Supply.live c (i + 1)))
  · exact mirrors_nextStage hp stages

theorem mirrors_drain (s : Supply) :
    Mirrors World.plain id (s.drain perform) (s.plain.drain perform) := by
  cases s with
  | items xs => exact .pure id xs
  | blocked f => exact .raise id f
  | live c i => exact .bind .get fun _ => .pure id _
  | script stages => exact mirrors_gatherScript hp stages

/-! ## Guards, actions and transitions -/

omit hp in
theorem mirrors_equalsRule (v : Value) :
    Mirrors World.plain Guard.plain (equalsRule v) (equalsRule v) :=
  .bind mirrors_freshIdentity fun _ => .pure Guard.plain _

theorem mirrors_makeGuard : (g : GuardTerm) →
    Mirrors World.plain Guard.plain (makeGuard perform g) (makeGuard perform g.plain)
  | .equals t => by
    rw [GuardTerm.plain, makeGuard, makeGuard]
    exact .bind (mirrors_evaluate hp t) fun v => mirrors_equalsRule v
  | .oneOf f | .noneOf f => by
    rw [GuardTerm.plain, makeGuard, makeGuard]
    exact .bind (mirrors_gather hp f) fun _ => .pure Guard.plain _
  | .text _ | .truth | .symbol => by
    rw [GuardTerm.plain, makeGuard]
    exact .pure Guard.plain _
  | .constant _ | .kindIs _ | .fail _ _ | .perform _ _ => by
    rw [GuardTerm.plain, makeGuard, makeGuard]
    exact .pure Guard.plain _
  | .traced tag inner => by
    rw [GuardTerm.plain, makeGuard, makeGuard]
    exact .bind (mirrors_makeGuard inner) fun g => .pure Guard.plain (.traced tag g)
  | .value t => by
    rw [GuardTerm.plain, makeGuard, makeGuard]
    refine .bind (mirrors_evaluate hp t) fun v => ?_
    have hv : Mirrors World.plain Guard.plain (pure (Guard.ofValue v))
        (pure (Guard.plain (Guard.ofValue v))) := .pure Guard.plain _
    rwa [plain_guardOfValue] at hv

mutual

theorem mirrors_makeAction : (a : ActionTerm) →
    Mirrors World.plain (Option.map Action.plain) (makeAction perform a)
      (makeAction perform a.plain)
  | .absent => by
    rw [ActionTerm.plain, makeAction]
    exact .pure _ none
  | .trace tag => by
    rw [ActionTerm.plain, makeAction]
    exact .pure _ (some (Action.trace tag))
  | .add t name => by
    rw [ActionTerm.plain, makeAction, makeAction]
    exact .pure _ (some (Action.add t name))
  | .fail kind t => by
    rw [ActionTerm.plain, makeAction, makeAction]
    exact .pure _ (some (Action.fail kind t))
  | .perform steps => by
    rw [ActionTerm.plain, makeAction, makeAction]
    exact .pure _ (some (Action.perform steps))
  | .emit t name => by
    rw [ActionTerm.plain, makeAction, makeAction]
    exact .bind (mirrors_lookup (fun _ => rfl) name) fun c =>
      .bind (mirrors_evaluate hp t) fun kind => .pure _ (some (Action.emit kind c))
  | .extend name => by
    rw [ActionTerm.plain, makeAction]
    exact .bind (mirrors_lookup (fun _ => rfl) name) fun c => .pure _ (some (Action.extend c))
  | .sequence as => by
    rw [ActionTerm.plain, makeAction, makeAction]
    exact .bind (mirrors_makeActions as) fun as => .pure _ (some (Action.sequence as))
  | .value t => by
    rw [ActionTerm.plain, makeAction, makeAction]
    refine .bind (mirrors_evaluate hp t) fun v => ?_
    have hv : Mirrors World.plain (Option.map Action.plain) (pure (Action.ofValue? v))
        (pure ((Action.ofValue? v).map Action.plain)) := .pure (Option.map Action.plain) _
    rwa [plain_actionOfValue?] at hv

theorem mirrors_makeActions : (as : List ActionTerm) →
    Mirrors World.plain plainActions (makeActions perform as)
      (makeActions perform (plainActionTerms as))
  | [] => by
    rw [plainActionTerms, makeActions]
    exact .pure plainActions []
  | a :: as => by
    rw [plainActionTerms, makeActions, makeActions]
    refine .bind (mirrors_makeAction a) fun first => .bind (mirrors_makeActions as) fun rest => ?_
    cases first with
    | none => exact .pure plainActions (Action.inert .null :: rest)
    | some first => exact .pure plainActions (first :: rest)

end

omit hp in
theorem mirrors_join (target : Value) (g : Guard) (a : Option Action) :
    Mirrors World.plain plainTransition (Effect.ofExcept (joinTransition target g a))
      (Effect.ofExcept (joinTransition target g.plain (a.map Action.plain))) := by
  rw [joinTransition_plain]
  exact .ofExcept_map plainTransition _

theorem mirrors_makeTransition (t : TransitionTerm) :
    Mirrors World.plain plainTransition (makeTransition perform t)
      (makeTransition perform t.plain) := by
  cases t with
  | guarded target guard action =>
      rw [TransitionTerm.plain]
      exact .bind (mirrors_evaluate hp target) fun _ => .bind (mirrors_makeGuard hp guard) fun _ =>
        .bind (mirrors_makeAction hp action) fun _ => mirrors_join _ _ _
  | equals target value action =>
      rw [TransitionTerm.plain]
      exact .bind (mirrors_evaluate hp target) fun _ => .bind (mirrors_evaluate hp value) fun v =>
        .bind (mirrors_makeAction hp action) fun _ =>
          .bind (mirrors_equalsRule v) fun _ => mirrors_join _ _ _
  | oneOf target values action =>
      rw [TransitionTerm.plain]
      exact .bind (mirrors_evaluate hp target) fun _ => .bind (mirrors_supply hp values) fun s =>
        .bind (mirrors_makeAction hp action) fun _ =>
          .bind (mirrors_drain hp s) fun values => mirrors_join _ (.rule (.oneOf values)) _

theorem mirrors_failWith {β β' : Type} (f : β → β') (kind : String) (argument : Term) :
    Mirrors World.plain f (failWith perform kind argument) (failWith perform kind argument.plain) :=
  .bind (mirrors_evaluate hp argument) fun v => .bind (mirrors_read v) fun _ => .raise f _

theorem mirrors_ask (g : Guard) (x : Value) :
    Mirrors World.plain id (ask perform g x) (ask perform g.plain x) := by
  induction g with
  | rule _ => exact .bind .get fun _ => .pure id _
  | text _ => exact .bind (mirrors_read x) fun _ => .ofExcept _
  | truth => exact .bind (mirrors_read x) fun _ => .pure id _
  | constant t => exact mirrors_evaluate hp t
  | symbol => exact .pure id x
  | kindIs t =>
      exact .bind .get fun _ => .bind (.ofExcept _) fun kind =>
        .bind (mirrors_evaluate hp t) fun asked => .bind .get fun _ => .pure id _
  | fail kind argument => exact mirrors_failWith hp id kind argument
  | traced _ _ ih => exact .bind (mirrors_read x) fun _ => .bind (mirrors_event rfl) fun _ => ih
  | perform steps t => exact .bind (hp steps) fun _ => mirrors_evaluate hp t
  | inert _ => exact .raise id _

mutual

theorem mirrors_act : (a : Action) → (x : Value) →
    Mirrors World.plain id (act perform a x) (act perform a.plain x)
  | .trace _, x => by
    rw [Action.plain, act]
    exact .bind (mirrors_read x) fun _ => mirrors_event rfl
  | .emit _ _, _ | .extend _, _ => by
    rw [Action.plain, act]
    exact mirrors_onTokens _
  | .add t name, _ => by
    rw [Action.plain, act, act]
    exact .bind (mirrors_lookup (fun _ => rfl) name) fun _ => .bind (mirrors_evaluate hp t) fun _ =>
      .bind (mirrors_onTokens _) fun _ => .pure id _
  | .fail kind argument, _ => by
    rw [Action.plain, act, act]
    exact mirrors_failWith hp id kind argument
  | .perform steps, _ => by
    rw [Action.plain, act, act]
    exact hp steps
  | .sequence as, x => by
    rw [Action.plain, act, act]
    exact mirrors_actAll as x
  | .rule _, _ => by
    rw [Action.plain, act]
    exact .pure id _
  | .inert _, _ => by
    rw [Action.plain, act]
    exact .raise id _

theorem mirrors_actAll : (as : List Action) → (x : Value) →
    Mirrors World.plain id (actAll perform as x) (actAll perform (plainActions as) x)
  | [], _ => by
    rw [plainActions, actAll]
    exact .pure id _
  | a :: as, x => by
    rw [plainActions, actAll, actAll]
    exact .bind (mirrors_act a x) fun _ => mirrors_actAll as x

end

theorem mirrors_admits (g : Guard) (x : Value) :
    Mirrors World.plain id (admits perform g x) (admits perform g.plain x) :=
  .bind (mirrors_ask hp g x) fun v => .bind (mirrors_read v) fun _ => .pure id _

/-- **Machines of a session run without their log as they run with it.** -/
theorem host_mirrors (m : Nat) :
    (host perform m).Mirrors (host perform m) World.plain Guard.plain Action.plain where
  machine w := w.machine_plain m
  test := mirrors_admits hp
  perform := mirrors_act hp
  unseen note w := by
    change _ = (Except.ok (), (w.addNote note).plain)
    rw [w.plain_addNote]
    rfl
  silent note w := by
    change (Except.ok (), w.plain.addNote note) = _
    rw [w.addNote_plain]

/-! ## Commands -/

theorem mirrors_locateState (s : StateTerm) :
    Mirrors World.plain id (locateState perform s) (locateState perform s.plain) := by
  cases s with
  | numbered name i =>
      rw [StateTerm.plain]
      refine .bind (mirrors_lookup (fun _ => rfl) name) fun m =>
        .bind (mirrors_evaluate hp i) fun v => .bind .get fun w => ?_
      have hlocate : (w.plain.machine m).locate v = (w.machine m).locate v := by
        rw [World.machine_plain, Machine.locate, Machine.size_map]
        rfl
      change Mirrors _ _ _ (Effect.ofExcept ((w.plain.machine m).locate v) >>= _)
      rw [hlocate]
      exact .bind (.ofExcept _) fun _ => .pure id _
  | alone name =>
      rw [StateTerm.plain]
      exact .bind (mirrors_lookup (fun _ => rfl) name) fun _ => .pure id _

omit hp in
theorem mirrors_stateAt (p : StatePlace) :
    Mirrors World.plain plainState (stateAt p) (stateAt p) := by
  refine .bind .get fun w => ?_
  rw [World.state?_plain]
  cases w.state? p with
  | none => exact .raise plainState _
  | some s => exact .pure plainState s

omit hp in
theorem mirrors_nameCollection (name : String) (c : CollectionId) :
    Mirrors World.plain id (nameCollection name c) (nameCollection name c) :=
  .modify fun _ => rfl

omit hp in
theorem mirrors_nameCollections (stem : String) (cs : List CollectionId) :
    Mirrors World.plain id (nameCollections stem cs) (nameCollections stem cs) := by
  unfold nameCollections
  refine .forM (fun ci => ?_) cs.zipIdx
  exact mirrors_nameCollection _ _

theorem mirrors_editKind (kind : Term) (edit : Value → Effect TokenStore Unit) :
    Mirrors World.plain id (editKind perform kind edit) (editKind perform kind.plain edit) :=
  .bind (mirrors_evaluate hp kind) fun _ => .bind (mirrors_onTokens _) fun _ => .pure id _

theorem mirrors_askKind (kind : Term) (question : Value → Effect TokenStore Bool) :
    Mirrors World.plain id (askKind perform kind question)
      (askKind perform kind.plain question) :=
  .bind (mirrors_evaluate hp kind) fun _ => .map (mirrors_onTokens _) fun _ => rfl

theorem mirrors_callEach (symbols : List Term) (action : Value → Effect TokenStore Unit) :
    Mirrors World.plain id (callEach perform symbols action)
      (callEach perform (plainTerms symbols) action) := by
  unfold callEach
  rw [plainTerms_eq_map, List.length_map, List.forM_eq_forM, List.forM_map]
  refine .bind (.forM (fun t => ?_) symbols) fun _ => .pure id _
  exact .bind (mirrors_evaluate hp t) fun _ => mirrors_onTokens _

theorem mirrors_evaluateCount (t : Option Term) :
    Mirrors World.plain id (evaluateCount perform t) (evaluateCount perform (plainTerm? t)) := by
  cases t with
  | none => exact .pure id _
  | some t =>
      refine .bind (mirrors_evaluate hp t) fun v => ?_
      rw [id_eq]
      split
      · exact .pure id _
      · exact .map (mirrors_read _) fun _ => rfl

omit hp in
theorem mirrors_collectionReply (c : CollectionId) :
    Mirrors World.plain id (collectionReply c) (collectionReply c) :=
  .bind .get fun _ => .pure id _

theorem mirrors_executeTokens (c : CollectionId) (command : TokenCommand) :
    Mirrors World.plain id (executeTokens perform c command)
      (executeTokens perform c command.plain) := by
  -- One bullet for each command, in the order of the data type.
  rcases command with ⟨kind, lexeme⟩ | value | _ | _ | ⟨index, lexeme⟩ | kind | kind | kind |
    kind | kind | kind | kind | ⟨kind, start, count⟩ | ⟨first, final, into⟩ |
    ⟨kind, withEmpty, into⟩ | ⟨kind, symbols⟩ | symbols | _ | other
  all_goals rw [TokenCommand.plain]
  · exact .bind (mirrors_evaluate hp kind) fun _ =>
      .bind (mirrors_evaluateOr hp _ lexeme) fun _ => .bind (mirrors_onTokens _) fun x =>
        .bind (mirrors_read x) fun _ => .pure id _
  · exact .bind (mirrors_evaluate hp value) fun _ => .bind (mirrors_onTokens _) fun _ => .pure id _
  · exact .bind (mirrors_onTokens _) fun x => .map (mirrors_read x) fun _ => rfl
  · exact .bind (mirrors_onTokens _) fun x => .map (mirrors_read x) fun _ => rfl
  · exact .bind (mirrors_evaluate hp lexeme) fun _ => .bind (mirrors_onTokens _) fun _ => .pure id _
  · exact mirrors_editKind hp kind _
  · exact mirrors_editKind hp kind _
  · exact mirrors_editKind hp kind _
  · exact mirrors_editKind hp kind _
  · exact mirrors_editKind hp kind _
  · exact mirrors_askKind hp kind _
  · exact mirrors_askKind hp kind _
  · exact .bind (mirrors_evaluate hp kind) fun _ =>
      .bind (mirrors_evaluateOr hp _ start) fun start => .bind (mirrors_evaluateCount hp count)
        fun _ => .bind (mirrors_read start) fun _ => .bind (mirrors_onTokens _) fun _ => .pure id _
  · refine .bind (mirrors_evaluate hp first) fun v => .bind (mirrors_evaluate hp final) fun v' =>
      .bind (mirrors_read v) fun _ => .bind (mirrors_read v') fun _ =>
        .bind (mirrors_onTokens _) fun cut => ?_
    cases into with
    | none => exact mirrors_collectionReply cut
    | some name => exact .bind (mirrors_nameCollection name cut) fun _ => mirrors_collectionReply cut
  · refine .bind (mirrors_evaluate hp kind) fun _ =>
      .bind (mirrors_evaluateOr hp _ withEmpty) fun v => .bind (mirrors_read v) fun _ =>
        .bind (mirrors_onTokens _) fun cs => ?_
    cases into with
    | none => exact .bind .get fun _ => .pure id _
    | some stem => exact .bind (mirrors_nameCollections stem cs) fun _ => .bind .get fun _ => .pure id _
  · exact .bind (mirrors_evaluate hp kind) fun _ => mirrors_callEach hp symbols _
  · exact mirrors_callEach hp symbols _
  · exact .bind (mirrors_onTokens _) fun _ => .bind (mirrors_onTokens _) fun _ =>
      .bind .get fun _ => .pure id _
  · exact .bind (mirrors_lookup (fun _ => rfl) other) fun _ => .bind .get fun _ => .pure id _

omit hp in
theorem mirrors_assignState (p : StatePlace) (field : String) (v : Value) :
    Mirrors World.plain id (assignState p field v) (assignState p field v) := by
  unfold assignState
  split
  · exact .raise id _
  · split
    · refine .modify fun w => w.modifyState_plain ?_ p
      exact fun _ => rfl
    · exact .pure id _

omit hp in
theorem mirrors_assignMachine (field : String) :
    Mirrors World.plain id (assignMachine field) (assignMachine field) := by
  unfold assignMachine
  split
  · exact .raise id _
  · exact .pure id _

theorem mirrors_executeWith (fuel : Nat) (c : Command) :
    Mirrors World.plain id (executeWith perform fuel c) (executeWith perform fuel c.plain) := by
  -- One bullet for each command again. Only the third one has to do with levels.
  rcases c with name | ⟨name, i, accepting⟩ | level | ⟨name, accepting⟩ | state | name |
    ⟨state, transition⟩ | ⟨state, value⟩ | ⟨state, value⟩ | state | ⟨state, symbol⟩ |
    ⟨name, symbols, actions, unwrap⟩ | ⟨name, symbols⟩ | ⟨name, field, value⟩ |
    ⟨state, field, value⟩ | ⟨name, source⟩ | ⟨name, command⟩
  all_goals rw [Command.plain]
  · exact .bind (.modify fun w => w.newMachine_plain name) fun _ => .pure id _
  · exact .bind (mirrors_evaluate hp i) fun i => .bind (mirrors_evaluateOr hp _ accepting) fun v =>
      .bind (.modify fun w => w.newState_plain name i v) fun _ => .pure id _
  · exact .bind (.modify fun w => rfl) fun _ => .pure id _
  · refine .bind (mirrors_lookup (fun _ => rfl) name) fun m =>
      .bind (mirrors_evaluateOr hp _ accepting) fun v => .bind .get fun w => ?_
    change Mirrors _ _ _ (modify _ >>= fun _ => pure (Reply.number (w.plain.machine m).size))
    rw [World.machine_plain, Machine.size_map]
    exact .bind (.modify fun w => w.addState_plain m v) fun _ => .pure id _
  · refine .bind (mirrors_locateState hp state) fun p => .bind (mirrors_stateAt p) fun s =>
      .bind .get fun w => .map (f := id) ?_ fun _ => rfl
    rw [summary_plain]
    exact .ofExcept _
  · refine .bind (mirrors_lookup (fun _ => rfl) name) fun m =>
      .bind .get fun w => .map (f := id) ?_ fun _ => rfl
    change Mirrors _ _ _ (Effect.ofExcept ((w.plain.machine m).states.mapM (summary w.tokens)))
    rw [w.machine_plain, summaries_plain]
    exact .ofExcept _
  · refine .bind (mirrors_locateState hp state) fun p =>
      .bind (mirrors_makeTransition hp transition) fun t =>
        .bind (.modify fun w => w.modifyState_plain (fun s => add_plain s t) p) fun _ =>
          .bind (mirrors_stateAt p) fun s => ?_
    rw [length_plain]
    exact .pure id _
  · exact .bind (mirrors_locateState hp state) fun _ => .bind (mirrors_evaluate hp value) fun _ =>
      .raise id _
  · exact .bind (mirrors_locateState hp state) fun p => .bind (mirrors_evaluate hp value) fun v =>
      .bind (mirrors_assignState p _ v) fun _ => .pure id _
  · refine .bind (mirrors_locateState hp state) fun p => .bind .get fun w =>
      .bind (mirrors_stateAt p) fun s => ?_
    change Mirrors _ _ _
      (pure (Reply.transitions ((plainState s).transitions.map (transitionSummary w.tokens))))
    rw [transitionSummaries_plain]
    exact .pure id _
  · refine .bind (mirrors_locateState hp state) fun p => .bind (mirrors_evaluate hp symbol) fun x =>
      .bind (mirrors_firstMatch (fun w => w.transitionsAt_plain p) (mirrors_admits hp) x fuel 0)
        fun found => ?_
    cases found with
    | none => exact .pure id _
    | some found => exact .pure id _
  · refine .bind (mirrors_lookup (fun _ => rfl) name) fun m =>
      .bind (mirrors_supply hp symbols) fun source =>
        .bind (mirrors_evaluateOr hp _ actions) fun v =>
          .bind ((host_mirrors hp m).run (mirrors_next hp) fuel (fun _ => rfl) source) fun _ =>
            .bind .get fun _ => ?_
    change Mirrors _ _ _ (if unwrap then _ else _)
    split
    · exact .bind (.ofExcept _) fun _ => .pure id _
    · exact .bind (.ofExcept _) fun _ => .pure id _
  · exact .bind (mirrors_lookup (fun _ => rfl) name) fun m =>
      .bind (mirrors_supply hp symbols) fun source =>
        .bind ((host_mirrors hp m).accepts (mirrors_next hp) fuel source) fun v =>
          .map (mirrors_read v) fun _ => rfl
  · exact .bind (mirrors_lookup (fun _ => rfl) name) fun _ =>
      .bind (mirrors_evaluate hp value) fun _ =>
        .bind (mirrors_assignMachine field) fun _ => .pure id _
  · exact .bind (mirrors_locateState hp state) fun p => .bind (mirrors_evaluate hp value) fun v =>
      .bind (mirrors_assignState p field v) fun _ => .pure id _
  · exact .bind (mirrors_gather hp source) fun _ => .bind (mirrors_onTokens _) fun c =>
      .bind (mirrors_nameCollection name c) fun _ => .pure id _
  · exact .bind (mirrors_lookup (fun _ => rfl) name) fun c => mirrors_executeTokens hp c command

end Parts

/-! ## Callbacks that perform commands -/

theorem mirrors_nest {execute : Command → Effect World Reply}
    (he : ∀ c, Mirrors World.plain id (execute c) (execute c.plain)) (cs : List Command) :
    Mirrors World.plain id (nest execute cs) (nest execute (plainCommands cs)) := by
  induction cs with
  | nil =>
      rw [plainCommands]
      exact .pure id _
  | cons c cs ih =>
      rw [plainCommands]
      refine .bind (he c).attempt fun answer => ?_
      rw [Effect.map_id_except]
      exact .bind (mirrors_event rfl) fun _ => ih

/-- **Commands do without the log what they do with it**, and so do the commands of their
callbacks, nested to any depth. -/
theorem mirrors_execute (fuel : Nat) (c : Command) :
    Mirrors World.plain id (execute fuel c) (execute fuel c.plain) := by
  induction fuel generalizing c with
  | zero => exact .stall id
  | succ fuel ih => exact (mirrors_executeWith (mirrors_nest ih) fuel c).mapFault _

end SymbolMachine.Session
