/-
What the loops of a run do to a given world, one equation each.

The loops are written as computations; here each is a case distinction over what the
callbacks do to the world at hand. Later files rewrite with these equations and do not open
the loops again.
-/
import SymbolMachine.Machine.Run
import SymbolMachine.Proofs.Effect

set_option autoImplicit false

namespace SymbolMachine

variable {ω γ α ξ ν : Type}

/-- One place of a scan. -/
theorem firstMatch_succ (transitions : ω → List (Transition γ α)) (test : γ → ξ → Effect ω Bool)
    (x : ξ) (fuel i : Nat) (w : ω) :
    firstMatch transitions test x (fuel + 1) i w =
      match (transitions w)[i]? with
      | none => (.ok none, w)
      | some t =>
        match test t.guard x w with
        | (.error e, w₁) => (.error e, w₁)
        | (.ok true, w₁) => (.ok (some (i, t)), w₁)
        | (.ok false, w₁) => firstMatch transitions test x fuel (i + 1) w₁ := by
  rw [firstMatch, Effect.bind_apply_of_ok w (Effect.get_apply w)]
  cases (transitions w)[i]? with
  | none => rfl
  | some t =>
      simp only
      rcases ht : test t.guard x w with ⟨e | b, w₁⟩
      · exact Effect.bind_apply_of_error w ht
      · rw [Effect.bind_apply_of_ok w ht]
        cases b <;> rfl

/-- Where there is a transition, a scan asks its guard and goes on if that refuses. -/
theorem firstMatch_apply_of_some {transitions : ω → List (Transition γ α)}
    {test : γ → ξ → Effect ω Bool} {x : ξ} {fuel i : Nat} {w : ω} {t : Transition γ α}
    (here : (transitions w)[i]? = some t) :
    firstMatch transitions test x (fuel + 1) i w =
      (test t.guard x >>= fun b => if b then pure (some (i, t))
        else firstMatch transitions test x fuel (i + 1)) w := by
  rw [firstMatch, Effect.bind_apply_of_ok w (Effect.get_apply w), here]

/-- A scan in which no guard fails or has an effect finds the first transition whose guard
accepts, at its place. -/
theorem firstMatch_eq_find? {transitions : ω → List (Transition γ α)}
    {test : γ → ξ → Effect ω Bool} {x : ξ} {w : ω} {verdict : Transition γ α → Bool}
    (hverdict : ∀ t ∈ transitions w, test t.guard x w = (.ok (verdict t), w)) {fuel : Nat}
    (hfuel : (transitions w).length < fuel) :
    firstMatch transitions test x fuel 0 w =
      (.ok (((transitions w).find? verdict).map ((transitions w).findIdx verdict, ·)), w) := by
  -- The induction is on the transitions ahead, whatever stands before them.
  suffices hfrom : ∀ ahead before fuel, transitions w = before ++ ahead → ahead.length < fuel →
      firstMatch transitions test x fuel before.length w =
        (.ok ((ahead.find? verdict).map (before.length + ahead.findIdx verdict, ·)), w) by
    have hstart := hfrom (transitions w) [] fuel rfl hfuel
    simp only [List.length_nil, Nat.zero_add] at hstart
    exact hstart
  intro ahead
  induction ahead with
  | nil =>
      intro before fuel hsplit hlength
      obtain ⟨fuel, rfl⟩ := Nat.exists_eq_succ_of_ne_zero (Nat.ne_of_gt hlength)
      have hend : (transitions w)[before.length]? = none := by
        rw [hsplit, List.append_nil]
        exact List.getElem?_eq_none (Nat.le_refl _)
      rw [firstMatch_succ, hend]
      rfl
  | cons t ahead ih =>
      intro before fuel hsplit hlength
      rw [List.length_cons] at hlength
      obtain ⟨fuel, rfl⟩ := Nat.exists_eq_succ_of_ne_zero (by omega : fuel ≠ 0)
      have hhere : (transitions w)[before.length]? = some t := by
        rw [hsplit]
        simp
      have hasked := hverdict t (List.mem_of_getElem? hhere)
      rw [firstMatch_succ, hhere]
      simp only [hasked]
      cases haccepts : verdict t with
      | true => simp only [List.find?_cons, List.findIdx_cons, haccepts, cond_true]; rfl
      | false =>
          have hrest := ih (before ++ [t]) fuel (by rw [hsplit, List.append_assoc]; rfl) (by omega)
          simp only [List.length_append, List.length_singleton, Nat.add_assoc] at hrest
          simp only [List.find?_cons, List.findIdx_cons, haccepts, cond_false,
            Nat.add_comm (ahead.findIdx _) 1]
          exact hrest

namespace Host

variable (h : Host ω γ α ξ)

/-! ## Taking a transition -/

/-- The action that is performed when a transition is taken: none if actions are not wanted
now. -/
def due (setting : Setting ω) (t : Transition γ α) (w : ω) : Option α :=
  if setting.actions w then t.action else none

/-- Performs an action if there is one. -/
def performDue (x : ξ) : Option α → Effect ω Unit
  | some a => h.perform a x
  | none => pure ()

/-- A state number in the range that a run knows from its start. -/
def Setting.Knows (setting : Setting ω) (s : StateId) : Prop :=
  0 ≤ s.toInt ∧ s.toInt < setting.count

instance (setting : Setting ω) (s : StateId) : Decidable (setting.Knows s) :=
  inferInstanceAs (Decidable (_ ∧ _))

/-- What follows the action of a transition that is taken: the look at its target. -/
def arrive (setting : Setting ω) (s : StateId) (p : Nat) (x : ξ) (i : Nat)
    (t : Transition γ α) : Effect ω StateId :=
  if setting.Knows t.target then do
    h.remark setting (.moved s t.target x p)
    pure t.target
  else do
    h.record (.unknownTarget i s t.target)
    Effect.raise (.invalidTarget s.toValue (.int i) t.target.toValue (.int p)
      (.int setting.count))

/-- Taking a transition is performing the action that is due, and arriving. -/
theorem take_apply (setting : Setting ω) (s : StateId) (p : Nat) (x : ξ) (i : Nat)
    (t : Transition γ α) (w : ω) :
    h.take setting s p x i t w =
      (h.performDue x (due setting t w) >>= fun _ => h.arrive setting s p x i t) w := by
  rw [take, Effect.bind_apply_of_ok w (Effect.get_apply w)]
  unfold due
  by_cases ha : setting.actions w
  · simp only [ha, if_true]
    cases t.action <;> rfl
  · simp only [ha, Bool.false_eq_true, if_false]
    rfl

/-- What performing the action that is due does: what that action does, and nothing if there is
none. -/
theorem performDue_cases {setting : Setting ω} {t : Transition γ α} {x : ξ} {w w' : ω}
    {r : Except Stop Unit} (performed : h.performDue x (due setting t w) w = (r, w')) :
    (∃ a, setting.actions w = true ∧ t.action = some a ∧ h.perform a x w = (r, w')) ∨
      r = .ok () ∧ w' = w := by
  unfold due at performed
  split at performed
  · next wanted =>
    cases own : t.action with
    | none =>
        rw [own] at performed
        cases performed
        exact .inr ⟨rfl, rfl⟩
    | some a =>
        rw [own] at performed
        exact .inl ⟨a, wanted, rfl, performed⟩
  · cases performed
    exact .inr ⟨rfl, rfl⟩

/-- A remark is a note, or nothing. -/
theorem remark_cases {setting : Setting ω} {note : Note ξ} {w w' : ω} {r : Except Stop Unit}
    (noted : h.remark setting note w = (r, w')) :
    h.record note w = (r, w') ∨ r = .ok () ∧ w' = w := by
  unfold Host.remark at noted
  split at noted
  · exact .inl noted
  · cases noted
    exact .inr ⟨rfl, rfl⟩

/-- Arriving at a target that the run knows. -/
theorem arrive_of_knows {setting : Setting ω} {s : StateId} {p : Nat} {x : ξ} {i : Nat}
    {t : Transition γ α} (hk : setting.Knows t.target) {w w' : ω}
    (hn : h.remark setting (.moved s t.target x p) w = (.ok (), w')) :
    h.arrive setting s p x i t w = (.ok t.target, w') := by
  rw [arrive, if_pos hk, Effect.bind_apply_of_ok w hn]
  rfl

/-- Arriving at a target that the run does not know. -/
theorem arrive_of_not_knows {setting : Setting ω} {s : StateId} {p : Nat} {x : ξ} {i : Nat}
    {t : Transition γ α} (hk : ¬setting.Knows t.target) {w w' : ω}
    (hn : h.record (.unknownTarget i s t.target) w = (.ok (), w')) :
    h.arrive setting s p x i t w =
      (.error (.fault (.invalidTarget s.toValue (.int i) t.target.toValue (.int p)
        (.int setting.count))), w') := by
  rw [arrive, if_neg hk, Effect.bind_apply_of_ok w hn]
  rfl

/-! ## Callbacks that return -/

section Within

variable {h : Host ω γ α ξ} {W : ω → Prop}

/-- Where notes return and do not lead out of some worlds, remarks do neither. -/
theorem exists_remark_within
    (hrecord : ∀ note v, W v → ∃ v', h.record note v = (.ok (), v') ∧ W v') (setting : Setting ω)
    (note : Note ξ) {v : ω} (hv : W v) :
    ∃ v', h.remark setting note v = (.ok (), v') ∧ W v' := by
  unfold Host.remark
  split
  · exact hrecord note v hv
  · exact ⟨v, rfl, hv⟩

/-- Nor does performing what is due, where the action of the transition does not. -/
theorem exists_performDue_within {t : Transition γ α} {x : ξ}
    (hperform : ∀ a, t.action = some a → ∀ v, W v → ∃ v', h.perform a x v = (.ok (), v') ∧ W v')
    (setting : Setting ω) {v : ω} (hv : W v) :
    ∃ v', h.performDue x (due setting t v) v = (.ok (), v') ∧ W v' := by
  unfold due
  split
  · cases ha : t.action with
    | none => exact ⟨v, rfl, hv⟩
    | some a => exact hperform a ha v hv
  · exact ⟨v, rfl, hv⟩

end Within

/-! ## Reading a symbol -/

/-- Looking a state up leaves the world as it is. -/
theorem stateNow_apply (s : StateId) (w : ω) :
    h.stateNow s w =
      match (h.machine w).state? s.toInt with
      | some state => (.ok state, w)
      | none => (.error (.fault .outOfRange), w) := by
  rw [stateNow, Effect.bind_apply_of_ok w (Effect.get_apply w)]
  cases (h.machine w).state? s.toInt <;> rfl

/-- Handling a symbol in a machine that has states: the current state is looked up, its
transitions are scanned, and the one that is found is taken. -/
theorem step_apply (setting : Setting ω) (fuel : Nat) (s : StateId) (p : Nat) (x : ξ) (w : ω) :
    h.step setting fuel s p x w =
      if setting.count = 0 then (.error (.fault .noStates), w)
      else
        match (h.machine w).state? s.toInt with
        | none => (.error (.fault .outOfRange), w)
        | some _ =>
          match firstMatch (h.transitionsOf s) h.test x fuel 0 w with
          | (.error e, w₁) => (.error e, w₁)
          | (.ok none, w₁) =>
            (h.remark setting (.rejected s x p) >>= fun _ => pure none) w₁
          | (.ok (some (i, t)), w₁) => (some <$> h.take setting s p x i t) w₁ := by
  rw [step]
  by_cases hc : setting.count = 0
  · simp only [hc, if_true]
    rfl
  · simp only [hc, if_false]
    have hn := h.stateNow_apply s w
    cases hs : (h.machine w).state? s.toInt with
    | none =>
        rw [hs] at hn
        exact Effect.bind_apply_of_error w hn
    | some state =>
        rw [hs] at hn
        rw [Effect.bind_apply_of_ok w hn, Effect.bind_apply]
        rcases firstMatch (h.transitionsOf s) h.test x fuel 0 w with ⟨_ | _ | ⟨i, t⟩, w₁⟩ <;> rfl

/-- One symbol of a run. -/
theorem drive_succ (next : Source ω ν ξ) (setting : Setting ω) (fuel : Nat) (s : StateId)
    (p : Nat) (source : ν) (w : ω) :
    h.drive next setting (fuel + 1) s p source w =
      match next source w with
      | (.error e, w₁) => (.error e, w₁)
      | (.ok none, w₁) => (.ok (.success s), w₁)
      | (.ok (some (x, rest)), w₁) =>
        match h.step setting fuel s p x w₁ with
        | (.error e, w₂) => (.error e, w₂)
        | (.ok none, w₂) => (.ok (.failure s x p s), w₂)
        | (.ok (some target), w₂) => h.drive next setting fuel target (p + 1) rest w₂ := by
  rw [drive, Effect.bind_apply]
  rcases next source w with ⟨_ | _ | ⟨x, rest⟩, w₁⟩
  · rfl
  · rfl
  · simp only
    rw [Effect.bind_apply]
    rcases h.step setting fuel s p x w₁ with ⟨_ | _ | target, w₂⟩ <;> rfl

/-- Driving asks the source, handles the symbol, and goes on from the target. -/
theorem drive_succ_eq_bind (h : Host ω γ α ξ) (next : Source ω ν ξ) (setting : Setting ω)
    (fuel : Nat) (s : StateId) (p : Nat) (source : ν) :
    h.drive next setting (fuel + 1) s p source = next source >>= fun given =>
      match given with
      | none => pure (.success s)
      | some (x, rest) => h.step setting fuel s p x >>= fun moved =>
        match moved with
        | none => pure (.failure s x p s)
        | some target => h.drive next setting fuel target (p + 1) rest := rfl

/-! ## Symbols from a list -/

theorem drive_nil (setting : Setting ω) (fuel : Nat) (s : StateId) (p : Nat) (w : ω) :
    h.drive .ofList setting (fuel + 1) s p ([] : List ξ) w = (.ok (.success s), w) := rfl

theorem drive_cons (setting : Setting ω) (fuel : Nat) (s : StateId) (p : Nat) (x : ξ)
    (xs : List ξ) (w : ω) :
    h.drive .ofList setting (fuel + 1) s p (x :: xs) w =
      match h.step setting fuel s p x w with
      | (.error e, w') => (.error e, w')
      | (.ok none, w') => (.ok (.failure s x p s), w')
      | (.ok (some target), w') => h.drive .ofList setting fuel target (p + 1) xs w' := by
  rw [drive_succ]
  rfl

/-! ## The whole run -/

/-- What a run that starts in a world knows. -/
def settingAt (actions : ω → Bool) (w : ω) : Setting ω :=
  ⟨(h.machine w).size, h.detailed w, actions⟩

/-- A run drives the machine from its start. -/
theorem run_apply (next : Source ω ν ξ) (fuel : Nat) (actions : ω → Bool) (source : ν) (w : ω) :
    h.run next fuel actions source w =
      h.drive next (h.settingAt actions w) fuel .start 1 source w := rfl

end Host

end SymbolMachine
