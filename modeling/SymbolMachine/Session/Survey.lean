/-
Surveys: making some objects of one kind and asking them about themselves, about symbols
and about one another.

Each survey has a world of its own. First the symbols are evaluated, and those objects that
are nothing but values; a fault there ends the survey. A rule or a transition is made and
asked before the next one is made. One that cannot be made is reported by its fault; the
comparisons are among the others, as they are in the end.

Every object is compared with every other by its equality. A transition, report or token is
compared part by part, so it always equals itself; a rule need not.
-/
import SymbolMachine.Session.Transcript

set_option autoImplicit false

namespace SymbolMachine.Session

/-! ## Equality of callbacks and transitions -/

/-- The equality of guards that stand at different places: rules compare as values, the
named tests as what they are, and a function only equals itself. -/
def Guard.eq (s : TokenStore) : Guard → Guard → Bool
  | rule r, rule r' => s.eq r.toValue r'.toValue
  | text c, text c' => c = c'
  | truth, truth => true
  | _, _ => false

/-- The equality of actions that stand at different places. -/
def actionEq (s : TokenStore) : Option Action → Option Action → Bool
  | none, none => true
  | some (.rule r), some (.rule r') => s.eq r.toValue r'.toValue
  | _, _ => false

/-- The equality of transitions that stand at different places. -/
def transitionEq (s : TokenStore) (t u : Transition Guard Action) : Bool :=
  t.target.toValue.eq u.target.toValue && t.guard.eq s u.guard && actionEq s t.action u.action

/-! ## Comparisons -/

/-- Rows of a comparison. With `reflexive` an object at the same place is equal whatever
its equality says. -/
def comparison {α : Type} (reflexive : Bool) (eq : α → α → Bool) (xs : List α) :
    List (List Bool) :=
  xs.zipIdx.map fun (x, i) => xs.zipIdx.map fun (y, j) => (reflexive && i == j) || eq x y

/-- The number of members of a set made of some objects: those that equal none of the
later ones. -/
def distinctCount {α : Type} (eq : α → α → Bool) : List α → Nat
  | [] => 0
  | x :: xs => if xs.any (eq x) then distinctCount eq xs else distinctCount eq xs + 1

/-- The objects that could be made. -/
def made {α : Type} (rs : List (Except Fault α)) : List α := rs.filterMap Except.toOption

/-- A survey of objects of which each says a `β`. -/
structure Survey (β : Type) where
  items : List β
  eq : List (List Bool)
  distinct : Nat

/-- Puts a survey together from what is said and the objects to compare. -/
def Survey.ofList {α β : Type} (reflexive : Bool) (eq : α → α → Bool) (objects : List α)
    (items : List β) : Survey β :=
  ⟨items, comparison reflexive eq objects, distinctCount eq objects⟩

/-- The answer of a computation in a fresh world. -/
def inFreshWorld {α : Type} (e : (List Command → Effect World Unit) → Effect World α) :
    Except Stop α :=
  ((e (nest (execute patience))).mapFault Fault.shown (World.initial .error)).1

/-- Computes each of some answers, a fault only spoiling its own. -/
def attemptEach {α β : Type} (xs : List α) (f : α → Effect World β) :
    Effect World (List (Except Fault β)) :=
  xs.mapM fun x => ((f x).mapFault Fault.shown).attempt

/-! ## Rules and transitions -/

/-- What a guard says. -/
structure GuardAnswer where
  text : String
  accepts : List (Except Fault Value)

/-- The text of a guard that is a rule. -/
def Appearance.text? : Appearance → Option String
  | rule text => some text
  | _ => none

/-- Surveys guards, which are rules. -/
def surveyRules (guards : List GuardTerm) (symbols : List Term) :
    Except Stop (Survey (Except Fault GuardAnswer)) :=
  inFreshWorld fun perform => do
    let xs ← evaluateAll perform symbols
    let gs ← attemptEach guards fun g => do
      let guard ← makeGuard perform g
      let accepts ← attemptEach xs fun x => do read (← ask perform guard x)
      let text := (guard.appearance (← get).tokens).text?.getD ""
      pure (guard, (⟨text, accepts⟩ : GuardAnswer))
    let s := (← get).tokens
    pure (Survey.ofList false (Guard.eq s) ((made gs).map fun g => g.1)
      (gs.map (Except.map fun g => g.2)))

/-- What a transition says. -/
structure TransitionAnswer where
  summary : TransitionSummary
  accepts : List (Except Fault Value)
  quoted : Option String

/-- The quoted text of a transition, which one with a rule and without an action has. -/
def transitionQuoted? (s : TokenStore) (t : Transition Guard Action) : Option String :=
  match t.action, (t.guard.appearance s).text? with
  | none, some text =>
    some ("Transition(target=" ++ t.target.toValue.quoted ++ ", predicate=" ++ text ++
      ", action=None)")
  | _, _ => none

/-- The faults of assigning the fields of a transition. -/
def transitionFrozen : List Fault :=
  [.frozenField "target", .frozenField "predicate", .frozenField "action"]

/-- Surveys transitions. -/
def surveyTransitions (transitions : List TransitionTerm) (symbols : List Term) :
    Except Stop (Survey (Except Fault TransitionAnswer)) :=
  inFreshWorld fun perform => do
    let xs ← evaluateAll perform symbols
    let ts ← attemptEach transitions fun t => do
      let transition ← makeTransition perform t
      let accepts ← attemptEach xs fun x => do
        return .bool (← admits perform transition.guard x)
      let s := (← get).tokens
      let answer : TransitionAnswer :=
        ⟨transitionSummary s transition, accepts, transitionQuoted? s transition⟩
      pure (transition, answer)
    let s := (← get).tokens
    pure (Survey.ofList true (transitionEq s) ((made ts).map fun t => t.1)
      (ts.map (Except.map fun t => t.2)))

/-! ## Reports, faults, tokens and names -/

/-- What a report says. The message is that of a failure. -/
structure ReportAnswer where
  report : Report
  quoted : String
  unwrapped : Except Fault Value
  hashed : Except Fault Unit
  frozen : Fault
  message : Option String

/-- What keeps some parts from being keys, if anything does. -/
def hashParts (parts : List Value) : Except Fault Unit :=
  match Value.firstUnhashable? parts with
  | some typeName => .error (.unhashable typeName)
  | none => .ok ()

/-- Asks a report about itself. -/
def reportAnswer (r : Report) : Except Fault ReportAnswer := do
  pure ⟨r, r.quoted, r.unwrap.mapError Fault.shown, hashParts r.fields,
    .frozenField "final_state", ← r.message?⟩

/-- The value of a report as it is written. -/
def evaluateReport (perform : List Command → Effect World Unit) :
    Outcome Term Term Term → Effect World Report
  | .success final => .success <$> evaluate perform final
  | .failure final symbol position failing => do
    let final ← evaluate perform final
    let symbol ← evaluate perform symbol
    let position ← evaluate perform position
    return .failure final symbol position (← evaluate perform failing)

/-- Surveys reports. -/
def surveyReports (reports : List (Outcome Term Term Term)) : Except Stop (Survey ReportAnswer) :=
  inFreshWorld fun perform => do
    let rs ← reports.mapM (evaluateReport perform)
    let s := (← get).tokens
    let answers ← Effect.ofExcept (rs.mapM fun r => reportAnswer (r.map s.read s.read s.read))
    pure (Survey.ofList true (Report.alike s.same) rs answers)

/-- A fault of a run as it is written. -/
inductive FaultTerm
  | unmatched (symbol position state : Term)
  | invalidTarget (state index target position count : Term)

/-- The closed value of a term. -/
def evaluateClosed (perform : List Command → Effect World Unit) (t : Term) :
    Effect World Value := do
  read (← evaluate perform t)

/-- Makes a fault. -/
def evaluateFault (perform : List Command → Effect World Unit) : FaultTerm → Effect World Fault
  | .unmatched symbol position state => do
    let symbol ← evaluateClosed perform symbol
    let position ← evaluateClosed perform position
    return .unmatched symbol position (← evaluateClosed perform state)
  | .invalidTarget state index target position count => do
    let state ← evaluateClosed perform state
    let index ← evaluateClosed perform index
    let target ← evaluateClosed perform target
    let position ← evaluateClosed perform position
    return .invalidTarget state index target position (← evaluateClosed perform count)

/-- Makes faults, all of which have to be worded. -/
def makeFaults (faults : List FaultTerm) : Except Stop (List Fault) :=
  inFreshWorld fun perform =>
    faults.mapM fun t => do
      let f ← evaluateFault perform t
      let _ ← Effect.ofExcept f.text
      pure f

/-- What a token says. -/
structure TokenAnswer where
  token : Value
  quoted : String
  kindName : String
  hashFault : Fault

/-- Asks a token about itself. What is no token has no kind to tell. -/
def tokenAnswer : Value → Except Fault TokenAnswer
  | .token kind lexeme => do
    let t := Value.token kind lexeme
    pure ⟨t, t.quoted, ← kind.displayName, .unhashable t.typeName⟩
  | v => .error (.noAttribute v.typeName "type")

/-- Surveys tokens. -/
def surveyTokens (tokens : List Term) : Except Stop (Survey TokenAnswer) :=
  inFreshWorld fun perform => do
    let vs ← evaluateAll perform tokens
    let s := (← get).tokens
    let answers ← Effect.ofExcept (vs.mapM fun v => tokenAnswer (s.read v))
    pure (Survey.ofList true s.eq vs answers)

/-- The names under which kinds are shown. -/
def displayNames (kinds : List Term) : Except Stop (List String) :=
  inFreshWorld fun perform => do
    let vs ← evaluateAll perform kinds
    let s := (← get).tokens
    Effect.ofExcept (vs.mapM fun v => (s.read v).displayName)

end SymbolMachine.Session
