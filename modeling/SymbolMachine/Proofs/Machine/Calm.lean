/-
Runs that nothing surprises.

Take a machine whose guards answer a symbol once and for all, whose actions return, and whose
callbacks keep the world within a set of worlds that hold the machine. Then the machine and the
symbols say what a run does: a function of them, the itinerary, is the course of every such run
(`Calm.exists_course`). What two runs have in common is thereby a matter of two itineraries, in
which there is no world and no fuel, and `itinerary_alike` compares those: where each state
chooses alike for alike symbols, everything is alike, for symbols of any number.
-/
import SymbolMachine.Proofs.Machine.Determinism
import SymbolMachine.Proofs.Machine.Growth

set_option autoImplicit false

namespace SymbolMachine

variable {ω γ α ξ : Type}

/-! ## Scans without surprises -/

/-- A scan whose guards all answer and change nothing finds the first transition whose guard
accepts. -/
theorem exists_scan_of_verdicts {transitions : ω → List (Transition γ α)}
    {test : γ → ξ → Effect ω Bool} {x : ξ} {w : ω} {verdict : Transition γ α → Bool}
    (hverdict : ∀ t ∈ transitions w, test t.guard x w = (.ok (verdict t), w)) :
    ∃ ts, Scan transitions test x 0 w ts (.ok (((transitions w).find? verdict).map
      ((transitions w).findIdx verdict, ·))) w := by
  have hfound := firstMatch_eq_find? hverdict (Nat.lt_succ_self _)
  obtain ⟨ts, r, scan, hr⟩ := exists_scan_of_firstMatch hfound nofun
  obtain rfl := Effect.mapError_fault_injective (r := .ok _) hr
  exact ⟨ts, scan⟩

/-! ## Itineraries -/

/-- The first transition of a state whose guard accepts a symbol, with its place. -/
def State.choice (accepts : γ → ξ → Bool) (s : State γ α) (x : ξ) : Option (Nat × Transition γ α) :=
  (s.transitions.find? fun t => accepts t.guard x).map
    (s.transitions.findIdx (fun t => accepts t.guard x), ·)

/-- Where the guards of a state say the same, the state chooses the same. -/
theorem State.choice_congr {accepts : γ → ξ → Bool} {s : State γ α} {x y : ξ}
    (haccepts : ∀ t ∈ s.transitions, accepts t.guard x = accepts t.guard y) :
    s.choice accepts x = s.choice accepts y := by
  have hfirst : ∀ {p q : Transition γ α → Bool} (ts : List (Transition γ α)),
      (∀ t ∈ ts, p t = q t) → ts.find? p = ts.find? q ∧ ts.findIdx p = ts.findIdx q := by
    intro p q ts hts
    induction ts with
    | nil => exact ⟨rfl, rfl⟩
    | cons t ts ih =>
        obtain ⟨ht, hrest⟩ := List.forall_mem_cons.mp hts
        obtain ⟨hfind, hplace⟩ := ih hrest
        rw [List.find?_cons, List.find?_cons, List.findIdx_cons, List.findIdx_cons, ht, hfind,
          hplace]
        exact ⟨rfl, rfl⟩
  obtain ⟨hfind, hplace⟩ := hfirst s.transitions haccepts
  rw [State.choice, State.choice, hfind, hplace]

theorem State.owns_of_choice {m : Machine γ α} {i : Int} {s : State γ α}
    (hs : m.state? i = some s) {accepts : γ → ξ → Bool} {x : ξ} {j : Nat} {t : Transition γ α}
    (hchoice : s.choice accepts x = some (j, t)) : m.Owns t := by
  obtain ⟨u, hfind, heq⟩ := Option.map_eq_some_iff.mp hchoice
  cases heq
  exact ⟨s, Machine.mem_states_of_state? hs, List.mem_of_find?_eq_some hfind⟩

/-- Two machines of one size find a state for the same numbers. -/
theorem Machine.state?_or_of_size_eq {m m' : Machine γ α} (hsize : m.size = m'.size) (i : Int) :
    (m.state? i = none ∧ m'.state? i = none) ∨
      ∃ s s', m.state? i = some s ∧ m'.state? i = some s' := by
  have hboth : (m.state? i).isSome = (m'.state? i).isSome := by
    rw [Bool.eq_iff_iff, m.state?_isSome_iff, m'.state?_isSome_iff, hsize]
  cases hs : m.state? i <;> cases hs' : m'.state? i <;> rw [hs, hs'] at hboth
  · exact .inl ⟨rfl, rfl⟩
  · cases hboth
  · cases hboth
  · exact .inr ⟨_, _, rfl, rfl⟩

namespace Host

/-- What a run does, told without its world: its moves, where it stands at the end, and why it
ends there. -/
structure Itinerary (γ α ξ : Type) where
  passages : List (Passage γ α ξ)
  state : StateId
  position : Nat
  exit : Exit γ α ξ

/-- What a run answers that goes like this, given the number of states that it knows. -/
def Itinerary.result (count : Nat) (r : Itinerary γ α ξ) : Except Fault (Outcome StateId ξ Nat) :=
  r.exit.result count ⟨r.state, r.position, (), ()⟩

/-- A run that ends where its itinerary does answers what the itinerary says, whatever its
world. -/
theorem Itinerary.result_eq {ν : Type} (count : Nat) {r : Itinerary γ α ξ} {c : Config ω ν}
    (hstate : c.state = r.state) (hposition : c.position = r.position) :
    r.exit.result count c = r.result count := by
  unfold Itinerary.result
  cases r.exit <;> simp [Exit.result, hstate, hposition]

end Host

/-- How a run goes from a state on, if the guards accept what is said here and the actions
return. -/
def Machine.itinerary (accepts : γ → ξ → Bool) (wanted : Bool) (m : Machine γ α) :
    StateId → Nat → List ξ → Host.Itinerary γ α ξ
  | s, p, [] => ⟨[], s, p, .usedUp⟩
  | s, p, x :: xs =>
    if m.size = 0 then ⟨[], s, p, .noStates⟩
    else
      match m.state? s.toInt with
      | none => ⟨[], s, p, .lost⟩
      | some state =>
        match state.choice accepts x with
        | none => ⟨[], s, p, .rejected x⟩
        | some (i, t) =>
          let performed := if wanted then t.action else none
          if m.Contains t.target then
            let rest := itinerary accepts wanted m t.target (p + 1) xs
            { rest with passages := ⟨s, p, x, i, t, performed⟩ :: rest.passages }
          else ⟨[], s, p, .unknownTarget x i t performed⟩

namespace Host

variable (h : Host ω γ α ξ)

/-! ## Calm runs -/

/-- In certain worlds the machine is this one. There its guards answer each of the symbols once
and for all, without an effect, its actions and the notes return, and none of this leads out of
those worlds. -/
structure Calm (W : ω → Prop) (m : Machine γ α) (accepts : γ → ξ → Bool) (symbols : List ξ) :
    Prop where
  machine : ∀ v, W v → h.machine v = m
  test : ∀ t, m.Owns t → ∀ x ∈ symbols, ∀ v, W v →
    h.test t.guard x v = (.ok (accepts t.guard x), v)
  perform : ∀ t, m.Owns t → ∀ a, t.action = some a → ∀ x ∈ symbols, ∀ v, W v →
    ∃ v', h.perform a x v = (.ok (), v') ∧ W v'
  record : ∀ note v, W v → ∃ v', h.record note v = (.ok (), v') ∧ W v'

namespace Calm

variable {h} {W : ω → Prop} {m : Machine γ α} {accepts : γ → ξ → Bool} {symbols : List ξ}
  {setting : Setting ω} {wanted : Bool}

theorem transitionsOf (hcalm : h.Calm W m accepts symbols) {s : StateId} {state : State γ α}
    (hs : m.state? s.toInt = some state) {v : ω} (hv : W v) :
    h.transitionsOf s v = state.transitions := by
  rw [Host.transitionsOf, hcalm.machine v hv, hs]

theorem due_eq (hwanted : setting.actions = fun _ => wanted) (t : Transition γ α) (v : ω) :
    due setting t v = if wanted then t.action else none := by
  rw [due, hwanted]

/-! ### One symbol -/

section Symbol

variable (hcalm : h.Calm W m accepts symbols) (hcount : setting.count = m.size) {s : StateId}
  {state : State γ α} (found : m.state? s.toInt = some state) {x : ξ} (hx : x ∈ symbols) {v : ω}
  (hv : W v)
include hcalm hcount found hx hv

/-- A symbol is handled by what its state chooses. -/
theorem exists_handles (states : m.size ≠ 0) (p : Nat) (xs : List ξ) :
    ∃ ts,
      h.Handles .ofList setting ⟨s, p, x :: xs, v⟩ x xs ts (.ok (state.choice accepts x)) v := by
  have hhere := hcalm.transitionsOf found hv
  have hverdict : ∀ t ∈ h.transitionsOf s v,
      h.test t.guard x v = (.ok (accepts t.guard x), v) := by
    intro t ht
    rw [hhere] at ht
    exact hcalm.test t ⟨state, Machine.mem_states_of_state? found, ht⟩ x hx v hv
  obtain ⟨ts, scan⟩ := exists_scan_of_verdicts hverdict
  rw [hhere] at scan
  exact ⟨ts, .intro rfl (by rwa [hcount]) (by rwa [hcalm.machine v hv]) scan⟩

/-- A symbol for which a state chooses nothing is rejected. -/
theorem exists_rejected (states : m.size ≠ 0) (hchoice : state.choice accepts x = none) (p : Nat)
    (xs : List ξ) : ∃ w, h.Exits .ofList setting ⟨s, p, x :: xs, v⟩ (.rejected x) w ∧ W w := by
  obtain ⟨ts, handled⟩ := hcalm.exists_handles hcount found hx hv states p xs
  rw [hchoice] at handled
  obtain ⟨w, noted, hw⟩ := exists_remark_within hcalm.record setting (.rejected s x p) hv
  exact ⟨w, .rejected handled noted, hw⟩

variable (hwanted : setting.actions = fun _ => wanted) {i : Nat} {t : Transition γ α}
  (hchoice : state.choice accepts x = some (i, t))
include hwanted hchoice

/-- A transition that is chosen moves the run to its target if there is such a state. -/
theorem exists_move (states : m.size ≠ 0) (known : m.Contains t.target) (p : Nat) (xs : List ξ) :
    ∃ w, h.Move .ofList setting ⟨s, p, x :: xs, v⟩
        ⟨s, p, x, i, t, if wanted then t.action else none⟩ ⟨t.target, p + 1, xs, w⟩ ∧ W w := by
  obtain ⟨ts, handled⟩ := hcalm.exists_handles hcount found hx hv states p xs
  rw [hchoice] at handled
  have howns : m.Owns t := State.owns_of_choice found hchoice
  obtain ⟨v₁, performed, hv₁⟩ := exists_performDue_within
    (fun a ha v hv => hcalm.perform t howns a ha x hx v hv) setting hv
  obtain ⟨w, noted, hw⟩ := exists_remark_within hcalm.record setting (.moved s t.target x p) hv₁
  have move := Move.intro handled performed (by rwa [Setting.Knows, hcount]) noted
  rw [due_eq hwanted] at move
  exact ⟨w, move, hw⟩

/-- If there is not, the run ends there. -/
theorem exists_unknownTarget (states : m.size ≠ 0) (unknown : ¬m.Contains t.target) (p : Nat)
    (xs : List ξ) :
    ∃ w, h.Exits .ofList setting ⟨s, p, x :: xs, v⟩
        (.unknownTarget x i t (if wanted then t.action else none)) w ∧ W w := by
  obtain ⟨ts, handled⟩ := hcalm.exists_handles hcount found hx hv states p xs
  rw [hchoice] at handled
  have howns : m.Owns t := State.owns_of_choice found hchoice
  obtain ⟨v₁, performed, hv₁⟩ := exists_performDue_within
    (fun a ha v hv => hcalm.perform t howns a ha x hx v hv) setting hv
  obtain ⟨w, noted, hw⟩ := hcalm.record (.unknownTarget i s t.target) v₁ hv₁
  have exits := Exits.unknownTarget handled performed (by rwa [Setting.Knows, hcount]) noted
  rw [due_eq hwanted] at exits
  exact ⟨w, exits, hw⟩

end Symbol

/-! ### All symbols -/

/-- **A calm run goes as the machine and the symbols say**, from wherever it stands, and leaves
one of the worlds it was in. -/
theorem exists_trail (hcalm : h.Calm W m accepts symbols) (hcount : setting.count = m.size)
    (hwanted : setting.actions = fun _ => wanted) {xs : List ξ} (hxs : xs ⊆ symbols) (s : StateId)
    (p : Nat) {v : ω} (hv : W v) :
    let r := m.itinerary accepts wanted s p xs
    ∃ c w, h.Trail .ofList setting ⟨s, p, xs, v⟩ r.passages c ∧ c.state = r.state ∧
      c.position = r.position ∧ h.Exits .ofList setting c r.exit w ∧ W w := by
  induction xs generalizing s p v with
  | nil => exact ⟨_, v, .nil _, rfl, rfl, .usedUp rfl, hv⟩
  | cons x xs ih =>
      obtain ⟨hx, hxs⟩ := List.cons_subset.mp hxs
      simp only [Machine.itinerary]
      by_cases states : m.size = 0
      · rw [if_pos states]
        exact ⟨_, v, .nil _, rfl, rfl, .noStates rfl (hcount.trans states), hv⟩
      rw [if_neg states]
      cases found : m.state? s.toInt with
      | none =>
          have missing : (h.machine v).state? s.toInt = none := by rwa [hcalm.machine v hv]
          exact ⟨_, v, .nil _, rfl, rfl, .lost rfl (by rwa [hcount]) missing, hv⟩
      | some state =>
          simp only
          cases hchoice : state.choice accepts x with
          | none =>
              obtain ⟨w, exits, hw⟩ :=
                hcalm.exists_rejected hcount found hx hv states hchoice p xs
              exact ⟨_, w, .nil _, rfl, rfl, exits, hw⟩
          | some choice =>
              obtain ⟨i, t⟩ := choice
              simp only
              by_cases known : m.Contains t.target
              · rw [if_pos known]
                obtain ⟨v₁, move, hv₁⟩ :=
                  hcalm.exists_move hcount found hx hv hwanted hchoice states known p xs
                obtain ⟨c, w, trail, hrest⟩ := ih hxs t.target (p + 1) hv₁
                exact ⟨c, w, .cons move trail, hrest⟩
              · rw [if_neg known]
                obtain ⟨w, exits, hw⟩ :=
                  hcalm.exists_unknownTarget hcount found hx hv hwanted hchoice states known p xs
                exact ⟨_, w, .nil _, rfl, rfl, exits, hw⟩

/-- The whole run. -/
theorem exists_course (hcalm : h.Calm W m accepts symbols) (wanted : Bool) {xs : List ξ}
    (hxs : xs ⊆ symbols) {w : ω} (hw : W w) :
    let r := m.itinerary accepts wanted .start 1 xs
    ∃ c w', h.Course .ofList (fun _ => wanted) xs w r.passages c r.exit w' ∧
      c.state = r.state ∧ c.position = r.position ∧ W w' := by
  have hcount : (h.settingAt (fun _ => wanted) w).count = m.size := by
    rw [← hcalm.machine w hw]
    rfl
  obtain ⟨c, w', trail, hstate, hposition, exits, hw'⟩ :=
    hcalm.exists_trail hcount rfl hxs .start 1 hw
  exact ⟨c, w', ⟨trail, exits⟩, hstate, hposition, hw'⟩

/-- A calm run answers as it ended, by the number of states that its machine has all the time. -/
theorem endsWith_of_course (hcalm : h.Calm W m accepts symbols) {actions : ω → Bool}
    {source : List ξ} {w w' : ω} (hw : W w) {ps : List (Passage γ α ξ)} {c : Config ω (List ξ)}
    {e : Exit γ α ξ} (course : h.Course .ofList actions source w ps c e w') :
    h.EndsWith .ofList actions source w (e.result m.size c) w' := by
  have hends := course.endsWith
  rwa [hcalm.machine w hw] at hends

/-- However a calm run goes, it goes like that. -/
theorem of_course (hcalm : h.Calm W m accepts symbols) {wanted : Bool} {xs : List ξ}
    (hxs : xs ⊆ symbols) {w w' : ω} (hw : W w) {ps : List (Passage γ α ξ)}
    {c : Config ω (List ξ)} {e : Exit γ α ξ}
    (course : h.Course .ofList (fun _ => wanted) xs w ps c e w') :
    let r := m.itinerary accepts wanted .start 1 xs
    ps = r.passages ∧ e = r.exit ∧ ∀ count, e.result count c = r.result count := by
  obtain ⟨c', w₁, known, hstate, hposition, -⟩ := hcalm.exists_course wanted hxs hw
  obtain ⟨rfl, rfl, rfl, rfl⟩ := known.unique course
  exact ⟨rfl, rfl, fun count => Itinerary.result_eq count hstate hposition⟩

end Calm

/-! ## Two itineraries -/

section Alike

variable (R : ξ → ξ → Prop) (K : Nat × Transition γ α → Nat × Transition γ α → Prop)

/-- Two moves from one state at one position, on symbols of which one thing is known, by
transitions of which another is, with the same action performed. -/
structure Passage.Alike (p p' : Passage γ α ξ) : Prop where
  state : p.state = p'.state
  position : p.position = p'.position
  symbol : R p.symbol p'.symbol
  taken : K (p.index, p.transition) (p'.index, p'.transition)
  performed : p.performed = p'.performed

/-- Two runs that end for the same reason, as far as a calm run can. -/
inductive Exit.Alike : Exit γ α ξ → Exit γ α ξ → Prop
  | usedUp : Alike .usedUp .usedUp
  | noStates : Alike .noStates .noStates
  | lost : Alike .lost .lost
  | rejected {x y : ξ} (symbol : R x y) : Alike (.rejected x) (.rejected y)
  | unknownTarget {x y : ξ} {i j : Nat} {t u : Transition γ α} (symbol : R x y)
      (taken : K (i, t) (j, u)) (performed : Option α) :
      Alike (.unknownTarget x i t performed) (.unknownTarget y j u performed)

/-- Two runs that go alike. -/
structure Itinerary.Alike (r r' : Itinerary γ α ξ) : Prop where
  passages : List.Forall₂ (Passage.Alike R K) r.passages r'.passages
  state : r.state = r'.state
  position : r.position = r'.position
  exit : Exit.Alike R K r.exit r'.exit

end Alike

variable {R : ξ → ξ → Prop} {K : Nat × Transition γ α → Nat × Transition γ α → Prop}
  {accepts accepts' : γ → ξ → Bool} {m m' : Machine γ α}

/-- **Where the states of two machines choose alike, the machines go alike.** The machines have
as many states, and wherever two of the symbols are alike, so is what a state and its counterpart
choose for them, with the same target and the same action. Then symbols that are alike one by
one lead both machines the same way. -/
theorem itinerary_alike {symbols : List ξ} (hsize : m.size = m'.size)
    (htaken : ∀ {c c'}, K c c' → c.2.target = c'.2.target ∧ c.2.action = c'.2.action)
    (hchoice : ∀ i s s', m.state? i = some s → m'.state? i = some s' →
      ∀ x ∈ symbols, ∀ y ∈ symbols, R x y →
        Option.Rel K (s.choice accepts x) (s'.choice accepts' y))
    (wanted : Bool) {xs ys : List ξ} (hR : List.Forall₂ R xs ys) (hxs : xs ⊆ symbols)
    (hys : ys ⊆ symbols) (s : StateId) (p : Nat) :
    Itinerary.Alike R K (m.itinerary accepts wanted s p xs)
      (m'.itinerary accepts' wanted s p ys) := by
  induction hR generalizing s p with
  | nil => exact ⟨.nil, rfl, rfl, .usedUp⟩
  | @cons x y xs ys hxy _ ih =>
      obtain ⟨hx, hxs⟩ := List.cons_subset.mp hxs
      obtain ⟨hy, hys⟩ := List.cons_subset.mp hys
      simp only [Machine.itinerary]
      by_cases states : m.size = 0
      · rw [if_pos states, if_pos (hsize ▸ states)]
        exact ⟨.nil, rfl, rfl, .noStates⟩
      rw [if_neg states, if_neg (hsize ▸ states)]
      rcases Machine.state?_or_of_size_eq hsize s.toInt with
        ⟨found, found'⟩ | ⟨state, state', found, found'⟩
      · rw [found, found']
        exact ⟨.nil, rfl, rfl, .lost⟩
      rw [found, found']
      have hrel := hchoice _ state state' found found' x hx y hy hxy
      simp only
      generalize state.choice accepts x = choice, state'.choice accepts' y = choice' at hrel ⊢
      cases hrel with
      | none => exact ⟨.nil, rfl, rfl, .rejected hxy⟩
      | @some c c' hK =>
          obtain ⟨i, t⟩ := c
          obtain ⟨j, u⟩ := c'
          obtain ⟨htarget, haction⟩ := htaken hK
          simp only at htarget haction ⊢
          rw [← htarget, ← haction]
          by_cases known : m.Contains t.target
          · have known' : m'.Contains t.target := by rwa [Machine.Contains, ← hsize]
            rw [if_pos known, if_pos known']
            obtain ⟨hpassages, hstate, hposition, hexit⟩ := ih hxs hys t.target (p + 1)
            exact ⟨.cons ⟨rfl, rfl, hxy, hK, rfl⟩ hpassages, hstate, hposition, hexit⟩
          · have unknown : ¬m'.Contains t.target := by rwa [Machine.Contains, ← hsize]
            rw [if_neg known, if_neg unknown]
            exact ⟨.nil, rfl, rfl, .unknownTarget hxy hK _⟩

end Host

end SymbolMachine
