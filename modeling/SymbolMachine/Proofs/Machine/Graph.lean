/-
No run leaves the graph.

A run reads its machine while callbacks may be changing it: the source, the guards and the
actions may add states and transitions to this machine or to others, say that states are
accepting, and start runs of their own. All that is asked of them here is that they take
nothing away, which is what no operation of a machine does (`Host.Growing`). Then a state
that the run stands in stays a state of the machine, and so does the place of a transition
that it has found. What the run knows about the size is from its start, so the only thing
that can be wrong with a target is that it is not among the states of then.
-/
import SymbolMachine.Proofs.Machine.Frame

set_option autoImplicit false

namespace SymbolMachine

variable {ω γ α ξ ν : Type}

/-! ## What a scan finds -/

section Scan

variable {transitions : ω → List (Transition γ α)} {test : γ → ξ → Effect ω Bool} {x : ξ}
  {R : ω → ω → Prop}

/-- The transition that a scan finds is still in its place when the scan ends, although its
own guard was asked in between. -/
theorem Scan.getElem?_found (ht : ∀ g x, Effect.Keeps R (test g x))
    (hR : ∀ {v v' : ω} {i : Nat} {t : Transition γ α}, R v v' →
      (transitions v)[i]? = some t → (transitions v')[i]? = some t)
    {i j : Nat} {w w' : ω} {ts : List (Transition γ α)} {t : Transition γ α}
    (hscan : Scan transitions test x i w ts (.ok (some (j, t))) w') :
    (transitions w')[j]? = some t := by
  generalize hr : Except.ok (some (j, t)) = r at hscan
  induction hscan with
  | exhausted => cases hr
  | failed => cases hr
  | @accepted i w w' t' here asked =>
      cases hr
      exact hR ((ht t.guard x).of_eq asked) here
  | refused _ _ _ ih => exact ih hr

/-- A scan fails with what the guard raised that was asked last. -/
theorem Scan.exists_raised {i : Nat} {w w' : ω} {ts : List (Transition γ α)} {f : Fault}
    (hscan : Scan transitions test x i w ts (.error f) w') :
    ∃ (v : ω) (j : Nat) (t : Transition γ α), (transitions v)[j]? = some t ∧
      test t.guard x v = (.error (.fault f), w') := by
  generalize hr : Except.error f = r at hscan
  induction hscan with
  | exhausted => cases hr
  | accepted => cases hr
  | failed here asked =>
      cases hr
      exact ⟨_, _, _, here, asked⟩
  | refused _ _ _ ih => exact ih hr

end Scan

namespace Host

variable (h : Host ω γ α ξ)

/-! ## Faults of callbacks, and of the run itself -/

/-- A fault that a callback raised during a run, with the world that it left: after some
moves, the source, a guard of the scanned state, or the action of the transition found. -/
inductive CallbackRaised (next : Source ω ν ξ) (setting : Setting ω) (c₀ : Config ω ν)
    (f : Fault) (w' : ω) : Prop
  | source {ps : List (Passage γ α ξ)} {c : Config ω ν} (trail : h.Trail next setting c₀ ps c)
      (raised : next c.source c.world = (.error (.fault f), w'))
  | guard {ps : List (Passage γ α ξ)} {c : Config ω ν} {x : ξ} {rest : ν}
      {ts : List (Transition γ α)} {v : ω} {i : Nat} {t : Transition γ α}
      (trail : h.Trail next setting c₀ ps c)
      (handled : h.Handles next setting c x rest ts (.error f) w')
      (stored : (h.transitionsOf c.state v)[i]? = some t)
      (raised : h.test t.guard x v = (.error (.fault f), w'))
  | action {ps : List (Passage γ α ξ)} {c : Config ω ν} {x : ξ} {rest : ν}
      {ts : List (Transition γ α)} {i : Nat} {t : Transition γ α} {v : ω} {a : α}
      (trail : h.Trail next setting c₀ ps c)
      (handled : h.Handles next setting c x rest ts (.ok (some (i, t))) v)
      (wanted : setting.actions v) (own : t.action = some a)
      (raised : h.perform a x v = (.error (.fault f), w'))

/-- A fault that the run itself raised: at a state that the machine has, it took a transition
which is stored there in the place that is named, and whose target is not one of the states
that the run knows. -/
inductive UnknownTargetRaised (next : Source ω ν ξ) (setting : Setting ω) (c₀ : Config ω ν)
    (w' : ω) : Fault → Prop
  | intro {ps : List (Passage γ α ξ)} {c : Config ω ν} {x : ξ} {i : Nat} {t : Transition γ α}
      {performed : Option α} {state : State γ α} (trail : h.Trail next setting c₀ ps c)
      (exits : h.Exits next setting c (.unknownTarget x i t performed) w')
      (contained : (h.machine w').Contains c.state)
      (found : (h.machine w').state? c.state.toInt = some state)
      (stored : state.transitions[i]? = some t)
      (unknown : ¬(0 ≤ t.target.toInt ∧ t.target.toInt < setting.count)) :
      UnknownTargetRaised next setting c₀ w' (.invalidTarget c.state.toValue (.int i)
        t.target.toValue (.int c.position) (.int setting.count))

/-! ## The invariant -/

variable {h} {next : Source ω ν ξ}

/-- Where a run stands that started in the world `w`: in a state that the machine had then,
and the machine has only grown since. -/
def Stands (h : Host ω γ α ξ) (w : ω) (c : Config ω ν) : Prop :=
  (h.machine w).Contains c.state ∧ h.Growing w c.world

theorem Stands.of_start {w : ω} (hne : 0 < (h.machine w).size) (source : ν) :
    h.Stands w (.start source w) :=
  ⟨.start hne, .refl _⟩

/-- A state that the run stands in is found, however the machine has grown since. -/
theorem Stands.exists_state {w w₁ : ω} {c : Config ω ν} (hc : h.Stands w c)
    (hg : h.Growing c.world w₁) :
    ∃ state, (h.machine w₁).state? c.state.toInt = some state :=
  ((hc.1.of_grows hc.2).of_grows hg).exists_state

section Invariant

variable (hgrow : h.CallbacksKeep next h.Growing) {w : ω} {actions : ω → Bool}
include hgrow

theorem Stands.of_move {c c' : Config ω ν} {p : Passage γ α ξ} (hc : h.Stands w c)
    (move : h.Move next (h.settingAt actions w) c p c') : h.Stands w c' := by
  have hg := hgrow.move move
  obtain ⟨_, _, known, _⟩ := move
  exact ⟨known, hc.2.trans hg⟩

theorem Stands.of_trail {c c' : Config ω ν} {ps : List (Passage γ α ξ)} (hc : h.Stands w c)
    (trail : h.Trail next (h.settingAt actions w) c ps c') : h.Stands w c' :=
  trail.invariant (fun hc move => hc.of_move hgrow move) hc

/-- The state in which a run ends is a state of the machine that it leaves. -/
theorem Exits.final_contained {c : Config ω ν} {e : Exit γ α ξ} {w' : ω} (hc : h.Stands w c)
    (exits : h.Exits next (h.settingAt actions w) c e w') : (h.machine w').Contains c.state :=
  (hc.1.of_grows hc.2).of_grows (hgrow.exits exits)

/-- A run fails where it stands for one of two reasons. -/
theorem Exits.fault_cases {c₀ c : Config ω ν} {ps : List (Passage γ α ξ)} {e : Exit γ α ξ}
    {f : Fault} {w' : ω} (hne : 0 < (h.machine w).size) (hc : h.Stands w c)
    (trail : h.Trail next (h.settingAt actions w) c₀ ps c)
    (exits : h.Exits next (h.settingAt actions w) c e w')
    (hf : e.result (h.settingAt actions w).count c = .error f) :
    h.CallbackRaised next (h.settingAt actions w) c₀ f w' ∨
      h.UnknownTargetRaised next (h.settingAt actions w) c₀ w' f := by
  have hcontains := exits.final_contained hgrow hc
  cases exits with
  | usedUp => cases hf
  | rejected => cases hf
  | sourceFailed given =>
      cases hf
      exact .inl (.source trail given)
  | noStates _ states => exact absurd states (Nat.ne_of_gt hne)
  | lost given _ missing =>
      have hsource := (hgrow.source c.source).of_eq given
      obtain ⟨state, hstate⟩ := hc.exists_state hsource
      rw [hstate] at missing
      cases missing
  | guardFailed handled =>
      cases hf
      obtain ⟨_, _, _, scan⟩ := id handled
      obtain ⟨v, i, t, stored, raised⟩ := scan.exists_raised
      exact .inl (.guard trail handled stored raised)
  | @actionFailed x rest ts i t f w₂ w' handled performed =>
      cases hf
      rcases performDue_cases h performed with ⟨a, wanted, own, performed⟩ | ⟨hr, -⟩
      · exact .inl (.action trail handled wanted own performed)
      · cases hr
  | @unknownTarget x rest ts i t w₂ w₃ w' handled performed unknown noted =>
      cases hf
      obtain ⟨_, _, _, scan⟩ := id handled
      have hfound := scan.getElem?_found hgrow.test getElem?_transitionsOf_of_grows
      have hdue := (hgrow.performDue x _).of_eq performed
      have hnote := (hgrow.record _).of_eq noted
      have hstored :=
        getElem?_transitionsOf_of_grows hnote (getElem?_transitionsOf_of_grows hdue hfound)
      obtain ⟨state, hstate⟩ := hcontains.exists_state
      rw [transitionsOf, hstate] at hstored
      exact .inr (.intro trail (.unknownTarget handled performed unknown noted) hcontains hstate
        hstored unknown)

end Invariant

/-! ## The whole run -/

/-- **No run leaves the graph.** Take a machine that has a state when the run starts, and
callbacks that take nothing away from it, whatever else they do, and however deep they start
runs of their own. Then the look at the current state always finds one, also in a run that
does not end. A run that answers names states which the machine has in the end. A run that
fails passes on, unchanged, what the source, a guard or an action raised, or it took a
transition of the machine whose target it does not know. -/
theorem run_stays_in_graph (hlog : h.LogsSafely) (hgrow : h.CallbacksKeep next h.Growing)
    {w : ω} (hne : 0 < (h.machine w).size) (actions : ω → Bool) (source : ν) :
    (∀ {ps c x rest w₁}, h.Trail next (h.settingAt actions w) (.start source w) ps c →
      next c.source c.world = (.ok (some (x, rest)), w₁) →
      ∃ state, h.stateNow c.state w₁ = (.ok state, w₁)) ∧
    (∀ {fuel r w'}, h.run next fuel actions source w = (r, w') →
      match r with
      | .ok (.success s) => (h.machine w').Contains s
      | .ok (.failure s _ _ s') => (h.machine w').Contains s ∧ (h.machine w').Contains s'
      | .error (.fault f) =>
        h.CallbackRaised next (h.settingAt actions w) (.start source w) f w' ∨
          h.UnknownTargetRaised next (h.settingAt actions w) (.start source w) w' f
      | .error .stalled => True) := by
  constructor
  · intro ps c x rest w₁ trail given
    have hc := (Stands.of_start hne source).of_trail hgrow trail
    have hsource := (hgrow.source c.source).of_eq given
    obtain ⟨state, hstate⟩ := hc.exists_state hsource
    refine ⟨state, ?_⟩
    rw [stateNow_apply, hstate]
  · intro fuel r w' hr
    by_cases hstall : r = .error .stalled
    · rw [hstall]
      trivial
    rw [run_apply] at hr
    obtain ⟨ps, c, e, trail, exits, rfl⟩ :=
      exists_trail_of_drive hlog (c := .start source w) hr hstall
    have hc := (Stands.of_start hne source).of_trail hgrow trail
    have hcontains := exits.final_contained hgrow hc
    cases hres : e.result (h.settingAt actions w).count c with
    | error f => exact exits.fault_cases hgrow hne hc trail hres
    | ok o =>
        cases exits with
        | usedUp =>
            cases hres
            exact hcontains
        | rejected =>
            cases hres
            exact ⟨hcontains, hcontains⟩
        | _ => cases hres

/-- A machine as a world of its own, in which every callback adds to it: a guard adds a state
before it answers, and an action adds a transition to the state that it names. -/
def selfBuilding : Host (Machine Bool Nat) Bool Nat Unit where
  machine m := m
  test answer _ := do
    modify (·.addState (.bool answer))
    pure answer
  perform i _ := modify (·.modify i (·.add ⟨.number i, true, none⟩))
  record _ := pure ()
  detailed _ := false

theorem selfBuilding_logsSafely : selfBuilding.LogsSafely := fun _ _ => rfl

theorem selfBuilding_growing : selfBuilding.CallbacksKeep Source.ofList selfBuilding.Growing where
  source s := by cases s <;> exact .pure _
  test answer _ := .bind (.modify fun m => Machine.Grows.addState m (.bool answer)) fun _ => .pure _
  perform i _ := .modify fun m => Machine.Grows.modify m i fun s => State.Grows.add s _
  record _ := .pure _

/-- A machine with two states, of which only the first has transitions. -/
def twoStates : Machine Bool Nat :=
  ⟨[⟨.int 0, .bool false, [⟨.number 0, false, none⟩, ⟨.number 1, true, some 1⟩]⟩,
    ⟨.int 1, .bool true, []⟩]⟩

/-- A run of two symbols while the machine grows from two states to five, and its second state
by the transition that the second symbol takes. -/
theorem selfBuilding_stays_in_graph :
    ∃ m', selfBuilding.run Source.ofList 5 (fun _ => true) [(), ()] twoStates =
        (.ok (.success (.number 1)), m') ∧ m'.size = 5 ∧ m'.Contains (.number 1) := by
  have hne : 0 < (selfBuilding.machine twoStates).size := Nat.two_pos
  have hrun : selfBuilding.run Source.ofList 5 (fun _ => true) [(), ()] twoStates =
      (.ok (.success (.number 1)), (selfBuilding.run Source.ofList 5 (fun _ => true) [(), ()]
        twoStates).2) := rfl
  have hgraph := run_stays_in_graph selfBuilding_logsSafely selfBuilding_growing hne
    (fun _ => true) [(), ()]
  exact ⟨_, hrun, rfl, hgraph.2 hrun⟩

end Host

end SymbolMachine
