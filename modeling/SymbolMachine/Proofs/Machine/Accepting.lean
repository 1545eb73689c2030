/-
Whether symbols are accepted.

To accept is to run without actions and to look up the state in which the run ended. The look-up
is not guarded, so the question is whether it can fail where the run did not. A run that has moved
is in a state that it found in range, and one that has not moved is in the start; so the state is
missing only if the start is, in a machine without states, and then only if there was no symbol to
fail on (`Course.contains_or`). There, and nowhere else, accepting fails although the run succeeds
(`accepts_as_run`).

The run itself is taken from the runs of a host whose actions do nothing. Without actions wanted
that is the same run (`run_withPerform`), and no assumption about actions is left.
-/
import SymbolMachine.Proofs.Machine.Determinism
import SymbolMachine.Proofs.Machine.Silence

set_option autoImplicit false

namespace SymbolMachine

variable {ω γ α ξ ν : Type}

namespace Host

/-! ## Runs that call no action -/

section Actions

variable (h : Host ω γ α ξ) (perform' : α → ξ → Effect ω Unit)

/-- The same world with other actions. -/
def withPerform : Host ω γ α ξ := { h with perform := perform' }

variable {setting : Setting ω} (hquiet : setting.actions = fun _ => false)
include hquiet

/-- Where no actions are wanted, taking a transition does not look at what they do. -/
theorem take_withPerform (s : StateId) (p : Nat) (x : ξ) (i : Nat) (t : Transition γ α) :
    (h.withPerform perform').take setting s p x i t = h.take setting s p x i t := by
  funext w
  rw [take_apply, take_apply, due_eq_none hquiet]
  rfl

theorem step_withPerform (fuel : Nat) (s : StateId) (p : Nat) (x : ξ) :
    (h.withPerform perform').step setting fuel s p x = h.step setting fuel s p x := by
  unfold step
  simp only [take_withPerform h perform' hquiet]
  rfl

theorem drive_withPerform (next : Source ω ν ξ) (fuel : Nat) (s : StateId) (p : Nat) (source : ν) :
    (h.withPerform perform').drive next setting fuel s p source =
      h.drive next setting fuel s p source := by
  induction fuel generalizing s p source with
  | zero => rfl
  | succ fuel ih =>
      funext w
      simp only [drive_succ, step_withPerform h perform' hquiet, ih]

omit hquiet

theorem run_withPerform (next : Source ω ν ξ) (fuel : Nat) (source : ν) :
    (h.withPerform perform').run next fuel (fun _ => false) source =
      h.run next fuel (fun _ => false) source := by
  funext w
  rw [run_apply, run_apply]
  exact congrFun (drive_withPerform h perform' rfl next fuel .start 1 source) w

/-- **Accepting calls no action**: it is the same whatever the actions would do. -/
theorem accepts_withPerform (next : Source ω ν ξ) (fuel : Nat) (source : ν) :
    (h.withPerform perform').accepts next fuel source = h.accepts next fuel source := by
  unfold accepts
  rw [run_withPerform]
  rfl

end Actions

/-! ## The look-up -/

/-- What accepting answers in a machine if the run answers this. -/
def verdict (m : Machine γ α) :
    Except Fault (Outcome StateId ξ Nat) → Except Fault Value
  | .error f => .error f
  | .ok (.failure ..) => .ok (.bool false)
  | .ok (.success s) =>
    match m.state? s.toInt with
    | some state => .ok state.accepting
    | none => .error .outOfRange

variable {h : Host ω γ α ξ} {next : Source ω ν ξ} {m : Machine γ α}

/-- With enough fuel accepting answers like this, and leaves this world. -/
def AnswersWith (h : Host ω γ α ξ) (next : Source ω ν ξ) (source : ν) (w : ω)
    (a : Except Fault Value) (w' : ω) : Prop :=
  ∃ n, ∀ fuel ≥ n, h.accepts next fuel source w = (a.mapError .fault, w')

/-- Accepting is a run and the look-up in the world that the run leaves. -/
theorem EndsWith.answersWith {source : ν} {w w' : ω} {r : Except Fault (Outcome StateId ξ Nat)}
    (hr : h.EndsWith next (fun _ => false) source w r w')
    (hm : ∀ s, r = .ok (.success s) → h.machine w' = m) :
    h.AnswersWith next source w (verdict m r) w' := by
  obtain ⟨n, hn⟩ := hr
  refine ⟨n, fun fuel hf => ?_⟩
  rcases r with f | s | ⟨s, x, p, s'⟩
  · rw [accepts, Effect.bind_apply_of_error w (hn fuel hf)]
    rfl
  · rw [accepts, Effect.bind_apply_of_ok w (hn fuel hf)]
    change (h.stateNow s >>= fun state => pure state.accepting) w' = _
    rw [Effect.bind_apply, stateNow_apply, hm s rfl, verdict]
    cases m.state? s.toInt <;> rfl
  · rw [accepts, Effect.bind_apply_of_ok w (hn fuel hf)]
    rfl

/-- The state in which a run succeeds is in the machine, or there was no state and no symbol. -/
theorem Course.contains_or {xs : List ξ} {actions : ω → Bool} {w w' : ω}
    {ps : List (Passage γ α ξ)} {c : Config ω (List ξ)} {e : Exit γ α ξ}
    (course : h.Course .ofList actions xs w ps c e w') {s : StateId}
    (hsuccess : e.result (h.machine w).size c = .ok (.success s)) :
    (h.machine w).Contains s ∨ (h.machine w).size = 0 ∧ xs = [] ∧ s = .start := by
  obtain ⟨trail, exits⟩ := course
  cases exits with
  | usedUp given =>
      cases hsuccess
      rcases Nat.eq_zero_or_pos (h.machine w).size with hzero | hpos
      · cases trail with
        | nil => exact .inr ⟨hzero, (Source.ofList_eq_none_iff.mp given).1, rfl⟩
        | cons move =>
            obtain ⟨⟨-, states, -, -⟩, -, -, -⟩ := move
            exact absurd hzero states
      · exact .inl (trail.knows (Machine.Contains.start hpos))
  | _ => cases hsuccess

/-! ## Accepting and running -/

section Pure

variable {xs : List ξ} (hguards : h.PureGuards m xs) (hnotes : h.SafeNotes m) {w : ω}
  (hw : h.machine w = m)
include hguards hnotes hw

/-- A run over a list that calls no action ends, whatever the actions are. A success leaves the
world with the machine, and its state is there or there was no state and no symbol. Up to the notes
the world is as it was. -/
theorem exists_quiet_run :
    ∃ r w', h.EndsWith .ofList (fun _ => false) xs w r w' ∧
      (∀ s, r = .ok (.success s) →
        h.machine w' = m ∧ (m.Contains s ∨ m.size = 0 ∧ xs = [] ∧ s = .start)) ∧
      ∀ {σ : Type} (part : ω → σ), h.NotesSpare part → part w' = part w := by
  -- Actions that do nothing are tame, so there is a course with them.
  let h₀ : Host ω γ α ξ := h.withPerform fun _ _ => pure ()
  have htame : h₀.TameActions m xs := fun _ _ _ _ _ _ v hv => ⟨nofun, hv⟩
  obtain ⟨ps, c, e, w', trail, exits⟩ := exists_course (h := h₀) hguards htame hnotes
    (h₀.settingAt (fun _ => false) w) (List.Subset.refl xs) .start 1 hw
  have course : h₀.Course .ofList (fun _ => false) xs w ps c e w' := ⟨trail, exits⟩
  have hpart : ∀ {σ : Type} (part : ω → σ), h.NotesSpare part →
      part w' = part w ∧ h.machine c.world = m := by
    intro σ part hspare
    obtain ⟨-, hway, hc, hsource⟩ :=
      Trail.silent (h := h₀) rfl hguards hnotes hspare trail hw (List.Subset.refl xs)
    exact ⟨(Exits.silent (h := h₀) rfl hguards hspare exits hc hsource).2.trans hway, hc⟩
  refine ⟨e.result m.size c, w', ?_, fun s hs => ⟨?_, ?_⟩, fun part hspare => (hpart part hspare).1⟩
  · obtain ⟨n, hn⟩ := course.endsWith
    refine ⟨n, fun fuel hf => ?_⟩
    rw [← run_withPerform h fun _ _ => pure (), hn fuel hf]
    exact congrArg (fun m : Machine γ α => ((e.result m.size c).mapError Stop.fault, w')) hw
  · cases exits with
    | usedUp given =>
        rw [(Source.ofList_eq_none_iff.mp given).2]
        exact (hpart (fun _ => ()) fun _ _ => rfl).2
    | _ => cases hs
  · have hcontains := course.contains_or (s := s)
    rw [show h₀.machine w = m from hw] at hcontains
    exact hcontains hs

/-- **Accepting is total where a run is, but for the machine without states.** Take any machine,
with any targets, guards that answer or fail by the symbol alone, and any actions. For a list of
symbols, a run without actions ends, and so does accepting, in the same world, in which all but the
notes is as it was. Accepting fails as the run fails. Otherwise it answers, and the answer counts
as true just if the run succeeded in a state of the machine that is marked with something that
counts as true. The exception is a machine without states and no symbols: the run succeeds in the
start, and accepting fails because it looks for that state. No action is called, whatever the
actions are. -/
theorem accepts_as_run :
    (∃ r a w', h.EndsWith .ofList (fun _ => false) xs w r w' ∧ h.AnswersWith .ofList xs w a w' ∧
      (∀ f, a = .error f ↔
        r = .error f ∨ m.size = 0 ∧ xs = [] ∧ r = .ok (.success .start) ∧ f = .outOfRange) ∧
      (∀ (counts : Value → Bool) (v : Value), counts (.bool false) = false → a = .ok v →
        (counts v = true ↔ ∃ s state, r = .ok (.success s) ∧ m.state? s.toInt = some state ∧
          counts state.accepting = true)) ∧
      ∀ {σ : Type} (part : ω → σ), h.NotesSpare part → part w' = part w) ∧
    ∀ perform' fuel,
      (h.withPerform perform').accepts .ofList fuel xs = h.accepts .ofList fuel xs := by
  refine ⟨?_, fun perform' fuel => accepts_withPerform h perform' .ofList fuel xs⟩
  obtain ⟨r, w', hends, hsuccess, hpart⟩ := exists_quiet_run hguards hnotes hw
  refine ⟨r, _, w', hends, hends.answersWith fun s hs => (hsuccess s hs).1, fun f => ?_,
    fun counts v hfalse hv => ?_, hpart⟩
  · rcases r with g | s | _
    · simp [verdict]
    · rcases (hsuccess s rfl).2 with hcontains | ⟨hzero, hxs, rfl⟩
      · obtain ⟨state, hstate⟩ := hcontains.exists_state
        have hsize : m.size ≠ 0 := by
          obtain ⟨hnonneg, hlt⟩ := hcontains
          omega
        simp [verdict, hstate, hsize]
      · have hnone : m.state? StateId.start.toInt = none := by
          rw [← Option.not_isSome_iff_eq_none, m.state?_isSome_iff, hzero]
          rintro ⟨hnonneg, hlt⟩
          omega
        simp [verdict, hnone, hzero, hxs, eq_comm]
    · simp [verdict]
  · rcases r with g | s | _
    · cases hv
    · simp only [verdict] at hv
      split at hv
      · next state hstate =>
        cases hv
        simp [hstate]
      · cases hv
    · cases hv
      simp [hfalse]

end Pure

/-- One symbol leads the machine with a target that cannot exist to its accepting state. The action
on the way is not called, so the list of the recorder stays as it is. -/
theorem recorder_accepts_as_run :
    ∃ a v, recorder.AnswersWith .ofList [1] (leavingMachine, [7]) a v ∧ v.2 = [7] ∧
      ∃ u, a = .ok u ∧ u.truthy = true := by
  obtain ⟨⟨r, a, v, hends, hanswers, herror, htrue, hpart⟩, -⟩ :=
    accepts_as_run (recorder_pureGuards leavingMachine [1]) (recorder_safeNotes leavingMachine)
      (rfl : recorder.machine (leavingMachine, [7]) = leavingMachine)
  have hrun : recorder.run .ofList 5 (fun _ => false) [1] (leavingMachine, [7]) =
      ((Except.ok (.success (.number 1))).mapError .fault, (leavingMachine, [7])) := rfl
  obtain ⟨rfl, -⟩ := hends.unique (endsWith_of_run (fun _ _ => rfl) hrun)
  refine ⟨a, v, hanswers, hpart Prod.snd fun _ _ => rfl, ?_⟩
  rcases a with f | u
  · rcases (herror f).mp rfl with hfault | ⟨-, hempty, -, -⟩
    · cases hfault
    · cases hempty
  · exact ⟨u, rfl, (htrue Value.truthy u rfl rfl).mpr ⟨_, _, rfl, rfl, rfl⟩⟩

/-- **The exception**: without states and symbols a run succeeds, and accepting fails. -/
theorem recorder_empty_divides :
    recorder.EndsWith .ofList (fun _ => false) [] (Machine.empty, []) (.ok (.success .start))
        (Machine.empty, []) ∧
      recorder.AnswersWith .ofList [] (Machine.empty, []) (.error .outOfRange)
        (Machine.empty, []) := by
  have hends : recorder.EndsWith .ofList (fun _ => false) [] (Machine.empty, [])
      (.ok (.success .start)) (Machine.empty, []) := by
    refine ⟨1, fun fuel hf => ?_⟩
    obtain ⟨fuel, rfl⟩ := Nat.exists_eq_add_one.mpr hf
    rfl
  exact ⟨hends, hends.answersWith (m := Machine.empty) fun _ _ => rfl⟩

end Host

end SymbolMachine
