/-
By which states a run judges a target.

A target is looked at when its transition is taken, after the action, and by then callbacks may
have added states. But the run knows the number of states from its start only. So whether a
target exists is judged by the machine as it was at the start, at every step: a state that
came later can be looked up by anybody else, and is still unknown to the run. The same number
decides whether there is a state to start in. Where nothing is added during a run, the two
machines are one and there is nothing to tell apart.
-/
import SymbolMachine.Proofs.Machine.Graph
import SymbolMachine.Proofs.Machine.Silence

set_option autoImplicit false

namespace SymbolMachine.Host

variable {ω γ α ξ ν : Type} {h : Host ω γ α ξ} {next : Source ω ν ξ}

/-- **A target is judged by the states that there were when the run started.** At any symbol
that a run is given, and whatever callbacks have added since its start: if the machine had no
state then, the run fails for want of states, and otherwise it finds the state it is in. If
the symbol takes a transition and the action returns, a target that was no state at the start
makes the run fail, with the number of states that there were; and a target that was one is
one still, and the run goes on from it. -/
theorem run_judges_by_start (hlog : h.LogsSafely) (hgrow : h.CallbacksKeep next h.Growing)
    {w : ω} {actions : ω → Bool} {source : ν} {ps : List (Passage γ α ξ)} {c : Config ω ν}
    (trail : h.Trail next (h.settingAt actions w) (.start source w) ps c) {x : ξ} {rest : ν}
    {w₁ : ω} (given : next c.source c.world = (.ok (some (x, rest)), w₁)) :
    ((h.machine w).size = 0 → h.EndsWith next actions source w (.error .noStates) w₁) ∧
    ((h.machine w).size ≠ 0 → ∃ state, h.stateNow c.state w₁ = (.ok state, w₁)) ∧
    ∀ {ts i t w₂ w₃},
      h.Handles next (h.settingAt actions w) c x rest ts (.ok (some (i, t))) w₂ →
      h.performDue x (due (h.settingAt actions w) t w₂) w₂ = (.ok (), w₃) →
      (¬(h.machine w).Contains t.target → ∃ w', h.EndsWith next actions source w
        (.error (.invalidTarget c.state.toValue (.int i) t.target.toValue (.int c.position)
          (.int (h.machine w).size))) w') ∧
      ((h.machine w).Contains t.target → (h.machine w₃).Contains t.target ∧
        ∃ p w', h.Trail next (h.settingAt actions w) (.start source w) (ps ++ [p])
          ⟨t.target, c.position + 1, rest, w'⟩) := by
  refine ⟨fun hnone => ?_, fun hsome => ?_, fun {ts i t w₂ w₃} handled performed => ⟨?_, ?_⟩⟩
  · exact (endsWith_iff hlog).mpr ⟨ps, c, .noStates, trail, .noStates given hnone, rfl⟩
  · exact (run_stays_in_graph hlog hgrow (Nat.pos_of_ne_zero hsome) actions source).1 trail given
  · intro hunknown
    obtain ⟨w', noted⟩ := hlog.record (.unknownTarget i c.state t.target) w₃
    exact ⟨w', (endsWith_iff hlog).mpr
      ⟨ps, c, _, trail, .unknownTarget handled performed hunknown noted, rfl⟩⟩
  · intro hknown
    obtain ⟨w', noted⟩ :=
      hlog.remark (h.settingAt actions w) (.moved c.state t.target x c.position) w₃
    have move : h.Move next (h.settingAt actions w) c _ ⟨t.target, c.position + 1, rest, w'⟩ :=
      .intro handled performed hknown noted
    have hbefore : h.Growing w c.world := by
      have hkeeps : ∀ {c p c'}, h.Growing w c.world → h.Move next (h.settingAt actions w) c p c' →
          h.Growing w c'.world := fun hg move => hg.trans (hgrow.move move)
      exact trail.invariant (I := fun c => h.Growing w c.world) hkeeps (.refl _)
    have hgrows : h.Growing w w₃ :=
      (hbefore.trans (hgrow.handles handled)).trans ((hgrow.performDue x _).of_eq performed)
    exact ⟨hknown.of_grows hgrows, _, w', trail.append (.cons move (.nil _))⟩

/-- A machine with one state, which can be left for a second that it does not have. -/
def leavable : Machine Bool Nat := ⟨[⟨.int 0, .bool true, [⟨.number 1, true, none⟩]⟩]⟩

/-- The guard adds the state that is missing, and the run that takes the transition fails. -/
theorem leavable_judged_by_start :
    ∃ w', selfBuilding.EndsWith .ofList (fun _ => true) [()] leavable
      (.error (.invalidTarget (.int 0) (.int 0) (.int 1) (.int 1) (.int 1))) w' := by
  have handled : selfBuilding.Handles .ofList (selfBuilding.settingAt (fun _ => true) leavable)
      (.start [()] leavable) () [] _ (.ok (some (0, ⟨.number 1, true, none⟩)))
      (leavable.addState (.bool true)) :=
    .intro rfl Nat.one_ne_zero rfl (.accepted rfl rfl)
  have given : Source.ofList [()] leavable = (.ok (some ((), [])), leavable) := rfl
  have hunknown : ¬(selfBuilding.machine leavable).Contains (.number 1) := by decide
  have trail : selfBuilding.Trail .ofList (selfBuilding.settingAt (fun _ => true) leavable)
      (.start [()] leavable) [] (.start [()] leavable) := .nil _
  have hjudged := run_judges_by_start selfBuilding_logsSafely selfBuilding_growing trail given
  exact (hjudged.2.2 handled rfl).1 hunknown

/-- A run may fail at a target that is a state when its transition is taken: here the guard has
added it, and the machine that the run leaves has it. -/
theorem exists_target_misjudged :
    ∃ m', selfBuilding.run .ofList 5 (fun _ => true) [()] leavable =
        (.error (.fault (.invalidTarget (.int 0) (.int 0) (.int 1) (.int 1) (.int 1))), m') ∧
      m'.Contains (.number 1) := by
  refine ⟨leavable.addState (.bool true), rfl, ?_⟩
  decide

end SymbolMachine.Host
