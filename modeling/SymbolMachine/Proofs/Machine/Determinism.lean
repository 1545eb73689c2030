/-
A run goes one way.

Everything that a run asks answers a function of the world, so of a configuration there is at
most one continuation: one move, or one exit, and never both. The relations of the course do
not say so of themselves, because they are told without fuel. What they leave open is closed
here once, and a property that is proved of one course of a run holds of the run.
-/
import SymbolMachine.Proofs.Machine.Course

set_option autoImplicit false

namespace SymbolMachine

variable {ω γ α ξ ν : Type}

/-- A scan has one answer, and leaves one world. -/
theorem Scan.unique {transitions : ω → List (Transition γ α)} {test : γ → ξ → Effect ω Bool}
    {x : ξ} {i : Nat} {w w₁ w₂ : ω} {ts ts' : List (Transition γ α)}
    {r r' : Except Fault (Option (Nat × Transition γ α))}
    (scan : Scan transitions test x i w ts r w₁) (scan' : Scan transitions test x i w ts' r' w₂) :
    r = r' ∧ w₁ = w₂ := by
  -- With fuel for both, both are the same search.
  have hfirst := scan.firstMatch_eq (by omega : ts.length < max ts.length ts'.length + 1)
  have hsecond := scan'.firstMatch_eq (by omega : ts'.length < max ts.length ts'.length + 1)
  obtain ⟨hanswer, hworld⟩ := Prod.ext_iff.mp (hfirst.symm.trans hsecond)
  exact ⟨Effect.mapError_fault_injective hanswer, hworld⟩

namespace Host

variable {h : Host ω γ α ξ} {next : Source ω ν ξ} {setting : Setting ω} {c : Config ω ν}

theorem Handles.unique {x x' : ξ} {rest rest' : ν} {ts ts' : List (Transition γ α)}
    {r r' : Except Fault (Option (Nat × Transition γ α))} {w w' : ω}
    (handled : h.Handles next setting c x rest ts r w)
    (handled' : h.Handles next setting c x' rest' ts' r' w') :
    x' = x ∧ rest' = rest ∧ r' = r ∧ w' = w := by
  obtain ⟨given, -, -, scan⟩ := handled
  obtain ⟨given', -, -, scan'⟩ := handled'
  rw [given] at given'
  cases given'
  obtain ⟨rfl, rfl⟩ := scan.unique scan'
  exact ⟨rfl, rfl, rfl, rfl⟩

/-- A symbol moves a run on in one way. -/
theorem Move.unique {p p' : Passage γ α ξ} {c₁ c₂ : Config ω ν}
    (move : h.Move next setting c p c₁) (move' : h.Move next setting c p' c₂) :
    p' = p ∧ c₂ = c₁ := by
  obtain ⟨handled, performed, -, noted⟩ := move
  obtain ⟨handled', performed', -, noted'⟩ := move'
  obtain ⟨rfl, rfl, hr, rfl⟩ := handled.unique handled'
  cases hr
  rw [performed] at performed'
  cases performed'
  rw [noted] at noted'
  cases noted'
  exact ⟨rfl, rfl⟩

/-- Where a symbol is handled, a run ends by what the scan answered and by what became of the
action, and in no other way. -/
theorem Handles.exits_cases {x : ξ} {rest : ν} {ts : List (Transition γ α)}
    {r : Except Fault (Option (Nat × Transition γ α))} {e : Exit γ α ξ} {w w₁ : ω}
    (handled : h.Handles next setting c x rest ts r w₁) (exits : h.Exits next setting c e w) :
    (∃ f, r = .error f ∧ e = .guardFailed x f ∧ w = w₁) ∨
    (r = .ok none ∧ e = .rejected x ∧
      h.remark setting (.rejected c.state x c.position) w₁ = (.ok (), w)) ∨
    ∃ i t, r = .ok (some (i, t)) ∧
      ((∃ f, h.performDue x (due setting t w₁) w₁ = (.error (.fault f), w) ∧
          e = .actionFailed x i t f) ∨
        ∃ w₂, h.performDue x (due setting t w₁) w₁ = (.ok (), w₂) ∧ ¬setting.Knows t.target ∧
          h.record (.unknownTarget i c.state t.target) w₂ = (.ok (), w) ∧
          e = .unknownTarget x i t (due setting t w₁)) := by
  cases exits with
  | usedUp given | sourceFailed given =>
      obtain ⟨given', -, -, -⟩ := handled
      rw [given] at given'
      cases given'
  | noStates _ states =>
      obtain ⟨-, states', -, -⟩ := handled
      exact absurd states states'
  | lost given _ missing =>
      obtain ⟨given', -, found, -⟩ := handled
      rw [given] at given'
      cases given'
      rw [missing] at found
      cases found
  | guardFailed handled' =>
      obtain ⟨rfl, rfl, rfl, rfl⟩ := handled.unique handled'
      exact .inl ⟨_, rfl, rfl, rfl⟩
  | rejected handled' noted =>
      obtain ⟨rfl, rfl, rfl, rfl⟩ := handled.unique handled'
      exact .inr (.inl ⟨rfl, rfl, noted⟩)
  | actionFailed handled' performed =>
      obtain ⟨rfl, rfl, rfl, rfl⟩ := handled.unique handled'
      exact .inr (.inr ⟨_, _, rfl, .inl ⟨_, performed, rfl⟩⟩)
  | unknownTarget handled' performed unknown noted =>
      obtain ⟨rfl, rfl, rfl, rfl⟩ := handled.unique handled'
      exact .inr (.inr ⟨_, _, rfl, .inr ⟨_, performed, unknown, noted, rfl⟩⟩)

/-- Where a run can end it does not go on. -/
theorem Exits.not_move {e : Exit γ α ξ} {w : ω} (exits : h.Exits next setting c e w)
    {p : Passage γ α ξ} {c₁ : Config ω ν} : ¬h.Move next setting c p c₁ := by
  rintro ⟨handled, performed, known, -⟩
  rcases handled.exits_cases exits with
    ⟨_, ⟨⟩, -⟩ | ⟨⟨⟩, -⟩ | ⟨_, _, ⟨⟩, ⟨_, failed, -⟩ | ⟨_, -, unknown, -⟩⟩
  · rw [performed] at failed
    cases failed
  · exact unknown known

/-- A run that can end ends in one way. -/
theorem Exits.unique {e e' : Exit γ α ξ} {w w' : ω} (exits : h.Exits next setting c e w)
    (exits' : h.Exits next setting c e' w') : e' = e ∧ w' = w := by
  cases exits with
  | usedUp given | sourceFailed given =>
      -- The source gave no symbol, and for the same reason.
      cases exits' with
      | usedUp given' | sourceFailed given' | noStates given' | lost given' =>
          rw [given] at given'
          cases given' <;> exact ⟨rfl, rfl⟩
      | guardFailed handled' | rejected handled' | actionFailed handled' | unknownTarget handled' =>
          obtain ⟨given', -, -, -⟩ := handled'
          rw [given] at given'
          cases given'
  | noStates given states =>
      cases exits' with
      | usedUp given' | sourceFailed given' | noStates given' =>
          rw [given] at given'
          cases given' <;> exact ⟨rfl, rfl⟩
      | lost _ states' => exact absurd states states'
      | guardFailed handled' | rejected handled' | actionFailed handled' | unknownTarget handled' =>
          obtain ⟨-, states', -, -⟩ := handled'
          exact absurd states states'
  | lost given states missing =>
      cases exits' with
      | usedUp given' | sourceFailed given' | lost given' =>
          rw [given] at given'
          cases given' <;> exact ⟨rfl, rfl⟩
      | noStates _ states' => exact absurd states' states
      | guardFailed handled' | rejected handled' | actionFailed handled' | unknownTarget handled' =>
          obtain ⟨given', -, found, -⟩ := handled'
          rw [given] at given'
          cases given'
          rw [missing] at found
          cases found
  -- From here on both exits stand behind one scan, with one answer.
  | guardFailed handled =>
      rcases handled.exits_cases exits' with ⟨_, ⟨⟩, rfl, rfl⟩ | ⟨⟨⟩, -⟩ | ⟨_, _, ⟨⟩, -⟩
      exact ⟨rfl, rfl⟩
  | rejected handled noted =>
      rcases handled.exits_cases exits' with ⟨_, ⟨⟩, -⟩ | ⟨-, rfl, noted'⟩ | ⟨_, _, ⟨⟩, -⟩
      rw [noted] at noted'
      cases noted'
      exact ⟨rfl, rfl⟩
  | actionFailed handled performed =>
      rcases handled.exits_cases exits' with
        ⟨_, ⟨⟩, -⟩ | ⟨⟨⟩, -⟩ | ⟨_, _, ⟨⟩, ⟨_, performed', rfl⟩ | ⟨_, performed', -⟩⟩ <;>
        rw [performed] at performed' <;> cases performed'
      exact ⟨rfl, rfl⟩
  | unknownTarget handled performed _ noted =>
      rcases handled.exits_cases exits' with
        ⟨_, ⟨⟩, -⟩ | ⟨⟨⟩, -⟩ | ⟨_, _, ⟨⟩, ⟨_, performed', -⟩ | ⟨_, performed', -, noted', rfl⟩⟩ <;>
        rw [performed] at performed' <;> cases performed'
      rw [noted] at noted'
      cases noted'
      exact ⟨rfl, rfl⟩

/-- From where a run stands there is one trail that ends. -/
theorem Trail.unique {c₁ c₂ : Config ω ν} {ps ps' : List (Passage γ α ξ)} {e e' : Exit γ α ξ}
    {w w' : ω} (trail : h.Trail next setting c ps c₁) (exits : h.Exits next setting c₁ e w)
    (trail' : h.Trail next setting c ps' c₂) (exits' : h.Exits next setting c₂ e' w') :
    ps' = ps ∧ c₂ = c₁ ∧ e' = e ∧ w' = w := by
  induction trail generalizing ps' with
  | nil =>
      cases trail' with
      | nil =>
          obtain ⟨rfl, rfl⟩ := exits.unique exits'
          exact ⟨rfl, rfl, rfl, rfl⟩
      | cons move' => exact absurd move' exits.not_move
  | cons move _ ih =>
      cases trail' with
      | nil => exact absurd move exits'.not_move
      | cons move' rest' =>
          obtain ⟨rfl, rfl⟩ := move.unique move'
          obtain ⟨rfl, hend⟩ := ih exits rest'
          exact ⟨rfl, hend⟩

/-! ## Whole runs -/

variable (h next)

/-- The course of a run from its start to its end: the moves that it makes, where and why it
ends, and the world that it leaves. -/
structure Course (actions : ω → Bool) (source : ν) (w : ω) (ps : List (Passage γ α ξ))
    (c : Config ω ν) (e : Exit γ α ξ) (w' : ω) : Prop where
  trail : h.Trail next (h.settingAt actions w) (.start source w) ps c
  exits : h.Exits next (h.settingAt actions w) c e w'

variable {h next} {actions : ω → Bool} {source : ν} {w w' : ω} {ps ps' : List (Passage γ α ξ)}
  {c c' : Config ω ν} {e e' : Exit γ α ξ}

/-- **A run has one course.** -/
theorem Course.unique {w₁ : ω} (course : h.Course next actions source w ps c e w')
    (course' : h.Course next actions source w ps' c' e' w₁) :
    ps' = ps ∧ c' = c ∧ e' = e ∧ w₁ = w' :=
  course.trail.unique course.exits course'.trail course'.exits

/-- A run that has a course ends, with the result of its exit. -/
theorem Course.endsWith (course : h.Course next actions source w ps c e w') :
    h.EndsWith next actions source w (e.result (h.machine w).size c) w' :=
  course.trail.drive_eq_of_exits course.exits

/-- A run that ends, ends in one way. -/
theorem EndsWith.unique {w₁ w₂ : ω} {r r' : Except Fault (Outcome StateId ξ Nat)}
    (hr : h.EndsWith next actions source w r w₁) (hr' : h.EndsWith next actions source w r' w₂) :
    r = r' ∧ w₁ = w₂ := by
  obtain ⟨n, hn⟩ := hr
  obtain ⟨k, hk⟩ := hr'
  have hboth := (hn (max n k) (Nat.le_max_left n k)).symm.trans
    (hk (max n k) (Nat.le_max_right n k))
  obtain ⟨hanswer, hworld⟩ := Prod.ext_iff.mp hboth
  exact ⟨Effect.mapError_fault_injective hanswer, hworld⟩

end Host

end SymbolMachine
