/-
What a call does of its own.

The arguments of a call are evaluated before it does anything, and evaluating them may perform
commands: values are iterated, and a script may build on the very state that the call is for. So
what a call does of its own is told apart from what its arguments do. They leave a world, and in
this world a call for a state or a transition appends one if it answers, and does nothing if it
does not. With the history of the session behind it, this is all that can happen to its machines.
-/
import SymbolMachine.Proofs.Session.History

set_option autoImplicit false

namespace SymbolMachine.Session

/-! ## Arguments -/

section Arguments

variable (perform : List Command → Effect World Unit)

/-- What is done for a builder call before it appends: its state is located and its transition
made. Values are iterated here, which may perform commands. -/
def arguments (state : StateTerm) (transition : TransitionTerm) :
    Effect World (StatePlace × Transition Guard Action) := do
  let p ← locateState perform state
  let t ← makeTransition perform transition
  pure (p, t)

/-- What is done for a new state before it is appended. -/
def stateArguments (name : String) (accepting : Option Term) : Effect World (Nat × Value) := do
  let m ← lookup World.machineNames name
  let v ← evaluateOr perform (.bool false) accepting
  pure (m, v)

end Arguments

/-! ## Calls -/

/-- A builder call, given what its arguments did: it answers and has appended one checked
transition to one state, or it does not answer and has done nothing. -/
def AppendsOne (args : Except Stop (StatePlace × Transition Guard Action) × World)
    (call : Except Stop Reply × World) : Prop :=
  (∃ p t s, args.1 = .ok (p, t) ∧ Checked t ∧ args.2.state? p = some s ∧
    call.1 = .ok (.connected (s.transitions.length + 1)) ∧
    call.2.state? p = some (s.add t) ∧ ∀ q, q ≠ p → call.2.state? q = args.2.state? q) ∨
  ∃ e, call = (.error e, args.2)

/-- A call for a new state: it answers the size of the machine and has appended one state, or it
does not answer and has done nothing. -/
def AppendsState (args : Except Stop (Nat × Value) × World) (call : Except Stop Reply × World) :
    Prop :=
  (∃ m v, args.1 = .ok (m, v) ∧ call.1 = .ok (.number (args.2.machine m).size) ∧
    call.2.machine m = (args.2.machine m).addState v ∧
    ∀ k, k ≠ m → call.2.machine k = args.2.machine k) ∨
  ∃ e, call = (.error e, args.2)

/-- Another wording of faults changes nothing else. -/
theorem mapFault_error {β : Type} {e : Effect World β} {f : Fault → Fault} {w w₁ : World}
    {x : Stop} (h : e w = (.error x, w₁)) : ∃ y, e.mapFault f w = (.error y, w₁) := by
  rw [Effect.mapFault, h]
  cases x <;> exact ⟨_, rfl⟩

theorem stateAt_of_some {p : StatePlace} {s : State Guard Action} {w : World}
    (h : w.state? p = some s) : stateAt p w = (.ok s, w) := by
  rw [stateAt, Effect.bind_apply_of_ok w (Effect.get_apply w), h]
  rfl

theorem stateAt_of_none {p : StatePlace} {w : World} (h : w.state? p = none) :
    stateAt p w = (.error (.fault .outOfRange), w) := by
  rw [stateAt, Effect.bind_apply_of_ok w (Effect.get_apply w), h]
  rfl

/-- What a builder does when its arguments are there. -/
def append (made : StatePlace × Transition Guard Action) : Effect World Reply := do
  modify (·.modifyState made.1 (·.add made.2))
  return .connected (← stateAt made.1).transitions.length

theorem append_of_some {p : StatePlace} {s : State Guard Action} {w : World}
    (h : w.state? p = some s) (t : Transition Guard Action) :
    append (p, t) w =
      (.ok (.connected (s.transitions.length + 1)), w.modifyState p (·.add t)) := by
  have hs : (w.modifyState p (·.add t)).state? p = some (s.add t) := by
    rw [w.state?_modifyState_self, h]
    rfl
  rw [append, Effect.bind_apply_of_ok w (Effect.modify_apply w _), Effect.bind_apply_of_ok _ (stateAt_of_some hs),
    State.transitions_add, List.length_append]
  rfl

theorem append_of_none {p : StatePlace} {w : World} (h : w.state? p = none)
    (t : Transition Guard Action) : append (p, t) w = (.error (.fault .outOfRange), w) := by
  have hsame : w.modifyState p (·.add t) = w := w.modifyState_of_none h _
  rw [append, Effect.bind_apply_of_ok w (Effect.modify_apply w _), hsame,
    Effect.bind_apply_of_error _ (stateAt_of_none h)]

theorem yields_arguments (perform : List Command → Effect World Unit) (state : StateTerm)
    (transition : TransitionTerm) :
    Effect.Yields (fun made => Checked made.2) (arguments perform state transition) := by
  refine .bind fun p w made hmade => ?_
  have hyields : Effect.Yields Checked (makeTransition perform transition) :=
    yields_makeTransition transition
  rcases ht : makeTransition perform transition w with ⟨e | t, w₁⟩
  · rw [Effect.bind_apply_of_error w ht] at hmade
    cases hmade
  · rw [Effect.bind_apply_of_ok w ht] at hmade
    cases hmade
    exact hyields w t (by rw [ht])

/-- **A builder call appends one transition or nothing.** -/
theorem execute_connect (fuel : Nat) (state : StateTerm) (transition : TransitionTerm) (w : World) :
    AppendsOne (arguments (nest (execute fuel)) state transition w)
      (execute (fuel + 1) (.connect state transition) w) := by
  have hcommand : executeWith (nest (execute fuel)) fuel (.connect state transition) =
      arguments (nest (execute fuel)) state transition >>= append := by
    simp only [executeWith, arguments, append, bind_assoc, pure_bind]
  have hchecked := yields_arguments (nest (execute fuel)) state transition w
  rw [execute, hcommand]
  rcases hargs : arguments (nest (execute fuel)) state transition w with ⟨e | ⟨p, t⟩, w₁⟩
  · exact .inr (mapFault_error (Effect.bind_apply_of_error w hargs))
  · rw [hargs] at hchecked
    have hcall := Effect.bind_apply_of_ok (f := append) w hargs
    cases hp : w₁.state? p with
    | none =>
        rw [append_of_none hp] at hcall
        exact .inr (mapFault_error hcall)
    | some s =>
        rw [append_of_some hp] at hcall
        refine .inl ⟨p, t, s, rfl, hchecked _ rfl, hp, ?_, ?_, fun q hq => ?_⟩
        all_goals rw [Effect.mapFault_apply_of_ok w _ hcall]
        · exact (w₁.state?_modifyState_self p _).trans (by rw [hp]; rfl)
        · exact w₁.state?_modifyState_of_ne hq _

/-! ### New states -/

/-- What a call for a state does when its arguments are there. -/
def appendState (made : Nat × Value) : Effect World Reply := do
  let i := ((← get).machine made.1).size
  modify fun w => { w with machines := w.machines.modify made.1 (·.addState made.2) }
  pure (.number i)

theorem World.machine_modify_self (w : World) {m : Nat} (hm : m < w.machines.size)
    (f : Machine Guard Action → Machine Guard Action) :
    ({ w with machines := w.machines.modify m f } : World).machine m = f (w.machine m) := by
  rw [World.machine, Array.getElem?_modify, if_pos rfl, World.machine,
    Array.getElem?_eq_getElem hm]
  rfl

theorem World.machine_modify_of_ne (w : World) {m k : Nat} (hne : k ≠ m)
    (f : Machine Guard Action → Machine Guard Action) :
    ({ w with machines := w.machines.modify m f } : World).machine k = w.machine k := by
  rw [World.machine, Array.getElem?_modify, if_neg (Ne.symm hne), World.machine]

/-- A name stands for what the world has under it. -/
theorem mem_of_lookup {names : World → List (String × Nat)} {name : String} {w w' : World} {i : Nat}
    (h : lookup names name w = (.ok i, w')) : w' = w ∧ ∃ e ∈ names w, e.2 = i := by
  rw [lookup, Effect.bind_apply_of_ok w (Effect.get_apply w)] at h
  cases hfound : (names w).lookup name with
  | none =>
      rw [hfound] at h
      cases h
  | some j =>
      rw [hfound] at h
      cases h
      obtain ⟨l, l', hl, -⟩ := List.lookup_eq_some_iff.mp hfound
      exact ⟨rfl, (name, i), by rw [hl]; simp, rfl⟩

/-- In a sound world, the machine that is to get a state exists. -/
theorem lt_of_stateArguments {fuel : Nat} {name : String} {accepting : Option Term} {w w₁ : World}
    {m : Nat} {v : Value} (sound : w.Sound)
    (h : stateArguments (nest (execute fuel)) name accepting w = (.ok (m, v), w₁)) :
    m < w₁.machines.size := by
  have hnest := fun cs => (keeps_nest World.History.frame fuel cs).cut
  rcases hm : lookup World.machineNames name w with ⟨e | k, w₂⟩
  · rw [stateArguments, Effect.bind_apply_of_error w hm] at h
    cases h
  rw [stateArguments, Effect.bind_apply_of_ok w hm] at h
  obtain ⟨rfl, e, he, rfl⟩ := mem_of_lookup hm
  have hkeep := (cut_evaluateOr World.History.frame hnest (.bool false) accepting).keeps w₂
  rcases hv : evaluateOr (nest (execute fuel)) (.bool false) accepting w₂ with ⟨e' | v', w₃⟩
  · rw [Effect.bind_apply_of_error w₂ hv] at h
    cases h
  rw [Effect.bind_apply_of_ok w₂ hv] at h
  rw [hv] at hkeep
  cases h
  exact Nat.lt_of_lt_of_le (sound.named e he) hkeep.size_machines_le

/-- **A call for a state appends one, whose number it answers, or nothing.** -/
theorem execute_addState (fuel : Nat) (name : String) (accepting : Option Term) {w : World}
    (sound : w.Sound) :
    AppendsState (stateArguments (nest (execute fuel)) name accepting w)
      (execute (fuel + 1) (.addState name accepting) w) := by
  have hcommand : executeWith (nest (execute fuel)) fuel (.addState name accepting) =
      stateArguments (nest (execute fuel)) name accepting >>= appendState := by
    simp only [executeWith, stateArguments, appendState, bind_assoc, pure_bind]
  rw [execute, hcommand]
  rcases hargs : stateArguments (nest (execute fuel)) name accepting w with ⟨e | ⟨m, v⟩, w₁⟩
  · exact .inr (mapFault_error (Effect.bind_apply_of_error w hargs))
  · have hm := lt_of_stateArguments sound hargs
    have hcall := Effect.bind_apply_of_ok (f := appendState) w hargs
    refine .inl ⟨m, v, rfl, ?_⟩
    rw [Effect.mapFault_apply_of_ok w _ hcall]
    exact ⟨rfl, w₁.machine_modify_self hm _, fun k hk => w₁.machine_modify_of_ne hk _⟩

/-! ### Calls that are refused -/

/-- Whatever is computed for a call that raises in any case, nothing else is done. -/
theorem bind_raise_apply {β : Type} (e : Effect World β) (f : β → Fault) (w : World) :
    ∃ x, (e >>= fun b => (Effect.raise (f b) : Effect World Reply)) w = (.error x, (e w).2) := by
  rcases h : e w with ⟨s | b, w₁⟩
  · exact ⟨s, Effect.bind_apply_of_error w h⟩
  · exact ⟨.fault (f b), Effect.bind_apply_of_ok w h⟩

/-- What is no transition is not appended. -/
theorem execute_connectValue (fuel : Nat) (state : StateTerm) (value : Term) (w : World) :
    ∃ e, execute (fuel + 1) (.connectValue state value) w =
      (.error e, ((locateState (nest (execute fuel)) state >>= fun _ =>
        evaluate (nest (execute fuel)) value) w).2) := by
  obtain ⟨x, hx⟩ := bind_raise_apply (locateState (nest (execute fuel)) state >>=
    fun _ => evaluate (nest (execute fuel)) value) (fun v => .notTransition v.typeName) w
  rw [bind_assoc] at hx
  exact mapFault_error hx

/-- The number and the transitions of a state are not assigned. -/
theorem execute_assignState (fuel : Nat) (state : StateTerm) {field : String}
    (readOnly : field = "id" ∨ field = "transitions") (value : Term) (w : World) :
    ∃ e, execute (fuel + 1) (.assignState state field value) w =
      (.error e, ((locateState (nest (execute fuel)) state >>= fun _ =>
        evaluate (nest (execute fuel)) value) w).2) := by
  obtain ⟨x, hx⟩ := bind_raise_apply (locateState (nest (execute fuel)) state >>=
    fun _ => evaluate (nest (execute fuel)) value) (fun _ => .noSetter field "State") w
  rw [bind_assoc] at hx
  have hcommand : executeWith (nest (execute fuel)) fuel (.assignState state field value) =
      locateState (nest (execute fuel)) state >>= fun _ =>
        evaluate (nest (execute fuel)) value >>= fun _ => Effect.raise (.noSetter field "State") := by
    simp only [executeWith, assignState, if_pos readOnly]
    rfl
  rw [execute, hcommand]
  exact mapFault_error hx

/-- And neither are the states of a machine. -/
theorem execute_assignMachine (fuel : Nat) (name : String) (value : Term) (w : World) :
    ∃ e, execute (fuel + 1) (.assignMachine name "states" value) w =
      (.error e, ((lookup World.machineNames name >>= fun _ =>
        evaluate (nest (execute fuel)) value) w).2) := by
  obtain ⟨x, hx⟩ := bind_raise_apply (lookup World.machineNames name >>=
    fun _ => evaluate (nest (execute fuel)) value) (fun _ => .noSetter "states" "Machine") w
  rw [bind_assoc] at hx
  exact mapFault_error hx

/-! ## Whole histories -/

theorem history_arguments (fuel : Nat) (state : StateTerm) (transition : TransitionTerm) :
    Effect.Keeps World.History (arguments (nest (execute fuel)) state transition) := by
  have hnest := fun cs => (keeps_nest World.History.frame fuel cs).cut
  refine .bind (cut_locateState World.History.frame hnest state).keeps fun _ => ?_
  exact .bind (cut_makeTransition World.History.frame hnest transition).keeps fun _ => .pure _

theorem history_stateArguments (fuel : Nat) (name : String) (accepting : Option Term) :
    Effect.Keeps World.History (stateArguments (nest (execute fuel)) name accepting) := by
  have hnest := fun cs => (keeps_nest World.History.frame fuel cs).cut
  refine .bind (cut_lookup _ name).keeps fun _ => ?_
  exact .bind (cut_evaluateOr World.History.frame hnest _ accepting).keeps fun _ => .pure _

theorem history_step (c : Command) (w : World) : w.History (step c w).2 := by
  have hshown : w.History { w with events := [] } := .single (.shown w)
  have hrest := keeps_execute World.History.frame patience c { w with events := [] }
  exact hshown.trans hrest

/-- **The machines of a session, over its whole history.** At every moment states are numbered by
their places, and every transition has a whole number for its target and callbacks that can be
called. Every later moment has the earlier states in their places, with their numbers and with
their transitions first. Steps of the session and commands of callbacks lead from moment to
moment, and so does what happens in the middle of a command, where callbacks and scripts perform
commands. A call for a state answers how many there were, a builder that answers has appended
one transition to what its arguments left, and whatever raises has done nothing of its own. -/
theorem machines_stay_sound {level : Level} {w : World}
    (reached : (World.initial level).History w) :
    w.Sound ∧
    (∀ w', w.History w' →
      w'.Sound ∧ w.Grows w' ∧ ∀ m, (w.machine m).size ≤ (w'.machine m).size) ∧
    (∀ c, w.History (step c w).2) ∧
    ∀ fuel,
      (∀ c (moment later : List Command → World → Bool),
        (∀ cs v, later cs v = true → moment cs v = true) →
          w.History (executeUntil moment fuel c w).2 ∧
          (executeUntil moment fuel c w).2.History (executeUntil later fuel c w).2 ∧
          (executeUntil later fuel c w).2.History (execute fuel c w).2) ∧
      (∀ cs, w.History (nest (execute fuel) cs w).2) ∧
      (∀ state transition,
        w.History (arguments (nest (execute fuel)) state transition w).2 ∧
        AppendsOne (arguments (nest (execute fuel)) state transition w)
          (execute (fuel + 1) (.connect state transition) w)) ∧
      (∀ name accepting,
        w.History (stateArguments (nest (execute fuel)) name accepting w).2 ∧
        AppendsState (stateArguments (nest (execute fuel)) name accepting w)
          (execute (fuel + 1) (.addState name accepting) w)) ∧
      (∀ state value, ∃ e, execute (fuel + 1) (.connectValue state value) w =
        (.error e, ((locateState (nest (execute fuel)) state >>= fun _ =>
          evaluate (nest (execute fuel)) value) w).2)) ∧
      (∀ state field value, field = "id" ∨ field = "transitions" →
        ∃ e, execute (fuel + 1) (.assignState state field value) w =
          (.error e, ((locateState (nest (execute fuel)) state >>= fun _ =>
            evaluate (nest (execute fuel)) value) w).2)) ∧
      ∀ name value, ∃ e, execute (fuel + 1) (.assignMachine name "states" value) w =
        (.error e, ((lookup World.machineNames name >>= fun _ =>
          evaluate (nest (execute fuel)) value) w).2) := by
  have sound : w.Sound := reached.sound (World.sound_initial level)
  refine ⟨sound, fun w' h => ?_, fun c => history_step c w, fun fuel => ⟨fun c moment later hml => ?_,
    fun cs => keeps_nest World.History.frame fuel cs w, fun state transition => ?_,
    fun name accepting => ?_, fun state value => ?_, fun state field value readOnly => ?_,
    fun name value => ?_⟩⟩
  · exact ⟨h.sound sound, h.grows, fun m => (h.grows.machine m).size_le⟩
  · have hmoments := (cut_executeUntil World.History.frame hml fuel c).moments w
    have hnever : ∀ cs v, (fun _ _ => false : List Command → World → Bool) cs v = true →
        later cs v = true := fun _ _ => nofun
    have hrest := ((cut_executeUntil World.History.frame hnever fuel c).moments w).2
    rw [executeUntil_never] at hrest
    exact ⟨hmoments.1, hmoments.2, hrest⟩
  · exact ⟨history_arguments fuel state transition w, execute_connect fuel state transition w⟩
  · exact ⟨history_stateArguments fuel name accepting w, execute_addState fuel name accepting sound⟩
  · exact execute_connectValue fuel state value w
  · exact execute_assignState fuel state readOnly value w
  · exact execute_assignMachine fuel name value w

/-- Builds a transition for the values of a script that builds another state and another
transition of the same state, and then one whose target is a truth value. -/
def selfBuildingSteps : List Command :=
  [.addState "m" none,
    .connect (.numbered "m" (.literal (.int 0))) (.oneOf (.literal (.int 1))
      (.script [.perform [.addState "m" none,
        .connect (.numbered "m" (.literal (.int 0)))
          (.equals (.literal (.int 0)) (.literal (.int 5)) .absent)], .give (.literal (.int 7))])
      .absent),
    .connect (.numbered "m" (.literal (.int 0)))
      (.equals (.literal (.bool true)) (.literal (.int 5)) .absent)]

/-- The last call raises, so there are two states and two transitions. -/
theorem selfBuildingSteps_sound :
    let w := (nest (execute 6) selfBuildingSteps (World.initial .debug)).2
    w.Sound ∧ (w.machine 0).size = 2 ∧ (w.transitionsAt (.inMachine 0 0)).length = 2 := by
  intro w
  have reached : (World.initial .debug).History w :=
    keeps_nest World.History.frame 6 selfBuildingSteps (World.initial .debug)
  exact ⟨(machines_stay_sound reached).1, by decide +kernel, by decide +kernel⟩

end SymbolMachine.Session
