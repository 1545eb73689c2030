/-
Rules may be rearranged.

A state is asked for the first of its transitions that accepts, and a run uses no more of it
than where that leads and by what action. So two machines whose states agree in this do the same,
whatever their transitions are (`run_of_rearranged`). There are two ways to change a state that
keep to it: to delete a transition that earlier ones shadow, and to swap two neighbours that no
symbol satisfies together. Both are rewritings of a list, and each leaves the first match where
it was up to its place; the place is all that a run can show of the difference, and it shows
it only when the target does not exist.
-/
import SymbolMachine.Proofs.Machine.Calm
import SymbolMachine.Proofs.Machine.Stepwise
import Mathlib.Data.List.Forall2
import Mathlib.Logic.Relation

set_option autoImplicit false

namespace SymbolMachine

variable {ω γ α ξ : Type}

/-! ## Where a state leads -/

/-- Where a state leads on a symbol, and by what action. -/
def State.effect? (accepts : γ → ξ → Bool) (s : State γ α) (x : ξ) : Option (StateId × Option α) :=
  (s.choice accepts x).map fun c => (c.2.target, c.2.action)

/-- The place of a transition does not matter for where it leads. -/
theorem State.effect?_eq (accepts : γ → ξ → Bool) (s : State γ α) (x : ξ) :
    s.effect? accepts x =
      (s.transitions.find? fun t => accepts t.guard x).map fun t => (t.target, t.action) := by
  rw [State.effect?, State.choice, Option.map_map]
  rfl

/-- Two states that lead to the same target by the same action choose such transitions. -/
theorem State.rel_choice_of_effect?_eq {accepts : γ → ξ → Bool} {s s' : State γ α} {x : ξ}
    (heffect : s.effect? accepts x = s'.effect? accepts x) :
    Option.Rel (fun c c' => c.2.target = c'.2.target ∧ c.2.action = c'.2.action)
      (s.choice accepts x) (s'.choice accepts x) := by
  unfold State.effect? at heffect
  generalize s.choice accepts x = choice, s'.choice accepts x = choice' at heffect
  cases choice with
  | none =>
      cases choice' with
      | none => exact .none
      | some c' => cases heffect
  | some c =>
      cases choice' with
      | none => cases heffect
      | some c' => exact .some (Prod.ext_iff.mp (Option.some.inj heffect))

/-- Two machines with as many states, in which each state and its counterpart lead to the same
target by the same action, or both reject, on each of the symbols. -/
structure Machine.LeadsLike (accepts : γ → ξ → Bool) (symbols : List ξ) (m m' : Machine γ α) :
    Prop where
  size : m.size = m'.size
  effect : ∀ i s s', m.state? i = some s → m'.state? i = some s' → ∀ x ∈ symbols,
    s.effect? accepts x = s'.effect? accepts x

namespace Machine.LeadsLike

variable {accepts : γ → ξ → Bool} {symbols : List ξ} {m m' m'' : Machine γ α}

theorem refl (m : Machine γ α) : m.LeadsLike accepts symbols m where
  size := rfl
  effect i s s' hs hs' x _ := by
    rw [hs] at hs'
    cases hs'
    rfl

theorem trans (h : m.LeadsLike accepts symbols m') (h' : m'.LeadsLike accepts symbols m'') :
    m.LeadsLike accepts symbols m'' where
  size := h.size.trans h'.size
  effect i s s'' hs hs'' x hx := by
    rcases Machine.state?_or_of_size_eq h.size i with ⟨hnone, -⟩ | ⟨_, s', _, hs'⟩
    · rw [hs] at hnone
      cases hnone
    · exact (h.effect i s s' hs hs' x hx).trans (h'.effect i s' s'' hs' hs'' x hx)

end Machine.LeadsLike

/-! ## Rewriting a list of transitions -/

/-- A change to the transitions of a state that the symbols cannot tell. -/
inductive Rearranges (accepts : γ → ξ → Bool) (symbols : List ξ) :
    List (Transition γ α) → List (Transition γ α) → Prop
  /-- A transition is deleted that accepts no symbol but those of earlier ones. -/
  | delete (before : List (Transition γ α)) (t : Transition γ α) (behind : List (Transition γ α))
      (shadowed : ∀ x ∈ symbols, accepts t.guard x → ∃ u ∈ before, accepts u.guard x) :
      Rearranges accepts symbols (before ++ t :: behind) (before ++ behind)
  /-- Two neighbours are swapped that accept no symbol both. -/
  | swap (before : List (Transition γ α)) (t u : Transition γ α)
      (behind : List (Transition γ α))
      (apart : ∀ x ∈ symbols, ¬(accepts t.guard x ∧ accepts u.guard x)) :
      Rearranges accepts symbols (before ++ t :: u :: behind) (before ++ u :: t :: behind)

/-- Behind a list with a match, nothing is looked at. -/
theorem find?_delete_of_shadowed {β : Type} {p : β → Bool} {before : List β} {t : β}
    (shadowed : p t → ∃ u ∈ before, p u) (behind : List β) :
    (before ++ t :: behind).find? p = (before ++ behind).find? p := by
  rw [List.find?_append, List.find?_append]
  cases hfind : before.find? p with
  | some u => rfl
  | none =>
      have hnone := List.find?_eq_none.mp hfind
      have hrefused : ¬p t := by
        intro haccepted
        obtain ⟨u, hu, huaccepted⟩ := shadowed haccepted
        exact hnone u hu huaccepted
      rw [List.find?_cons_of_neg hrefused]

/-- Of two neighbours that do not both match, it does not matter which is looked at first. -/
theorem find?_swap_of_apart {β : Type} {p : β → Bool} {t u : β} (apart : ¬(p t ∧ p u))
    (before behind : List β) :
    (before ++ t :: u :: behind).find? p = (before ++ u :: t :: behind).find? p := by
  rw [List.find?_append, List.find?_append]
  congr 1
  by_cases ht : p t
  · have hu : ¬p u := fun hu => apart ⟨ht, hu⟩
    rw [List.find?_cons_of_pos ht, List.find?_cons_of_neg hu, List.find?_cons_of_pos ht]
  · rw [List.find?_cons_of_neg ht]
    by_cases hu : p u
    · rw [List.find?_cons_of_pos hu, List.find?_cons_of_pos hu]
    · rw [List.find?_cons_of_neg hu, List.find?_cons_of_neg hu, List.find?_cons_of_neg ht]

/-- A rearranged list has the same first match. -/
theorem Rearranges.find?_eq {accepts : γ → ξ → Bool} {symbols : List ξ}
    {ts us : List (Transition γ α)} (step : Rearranges accepts symbols ts us) {x : ξ}
    (hx : x ∈ symbols) :
    (ts.find? fun t => accepts t.guard x) = us.find? fun t => accepts t.guard x := by
  cases step with
  | delete before t behind shadowed => exact find?_delete_of_shadowed (shadowed x hx) behind
  | swap before t u behind apart => exact find?_swap_of_apart (apart x hx) before behind

/-- One state of a machine is rearranged. -/
inductive Machine.Rearranged (accepts : γ → ξ → Bool) (symbols : List ξ) :
    Machine γ α → Machine γ α → Prop
  | intro {m : Machine γ α} {i : Nat} {s : State γ α} {ts : List (Transition γ α)}
      (here : m.states[i]? = some s) (step : Rearranges accepts symbols s.transitions ts) :
      Rearranged accepts symbols m (m.modify i fun s => { s with transitions := ts })

/-- The state with a number after the state at a place was changed. -/
theorem Machine.state?_modify (m : Machine γ α) (i : Nat) (f : State γ α → State γ α) (j : Int) :
    (m.modify i f).state? j = if j = i then (m.state? j).map f else m.state? j := by
  unfold Machine.state? Machine.modify
  by_cases hj : 0 ≤ j
  · rw [if_pos hj, if_pos hj, List.getElem?_modify]
    obtain ⟨n, rfl⟩ := Int.eq_ofNat_of_zero_le hj
    by_cases hi : i = n
    · subst hi
      simp
    · rw [if_neg (by omega : ¬(n : Int) = i)]
      simp [hi]
  · rw [if_neg hj, if_neg hj]
    simp

/-- A rearranged machine leads where it led. -/
theorem Machine.Rearranged.leadsLike {accepts : γ → ξ → Bool} {symbols : List ξ}
    {m m' : Machine γ α} (h : m.Rearranged accepts symbols m') :
    m.LeadsLike accepts symbols m' := by
  obtain ⟨here, step⟩ := h
  refine ⟨(m.size_modify _ _).symm, fun j s s' hs hs' x hx => ?_⟩
  rw [Machine.state?_modify, hs] at hs'
  split at hs'
  · next hj =>
    subst hj
    rw [Machine.state?_natCast, here] at hs
    cases hs
    cases hs'
    rw [State.effect?_eq, State.effect?_eq, step.find?_eq hx]
  · cases hs'
    rfl

theorem Machine.leadsLike_of_rearranged {accepts : γ → ξ → Bool} {symbols : List ξ}
    {m m' : Machine γ α} (h : Relation.ReflTransGen (Machine.Rearranged accepts symbols) m m') :
    m.LeadsLike accepts symbols m' := by
  induction h with
  | refl => exact .refl m
  | tail _ step ih => exact ih.trans step.leadsLike

namespace Host

/-! ## Two runs -/

/-- The action that a run called on the symbol that it ended at, with the symbol. -/
def Exit.performance? : Exit γ α ξ → Option (α × ξ)
  | unknownTarget x _ _ a => a.map (·, x)
  | actionFailed x _ t _ => t.action.map (·, x)
  | _ => none

/-- The actions that a run called, each with the symbol that it was called on, in order. -/
def performances (ps : List (Passage γ α ξ)) (e : Exit γ α ξ) : List (α × ξ) :=
  ps.filterMap (fun p => p.performed.map (·, p.symbol)) ++ e.performance?.toList

/-- The same result, but for the place of a transition whose target does not exist. -/
inductive SameButPlace :
    Except Fault (Outcome StateId ξ Nat) → Except Fault (Outcome StateId ξ Nat) → Prop
  | same (r : Except Fault (Outcome StateId ξ Nat)) : SameButPlace r r
  | invalidTarget (state target position count : Value) (i j : Nat) :
      SameButPlace (.error (.invalidTarget state (.int i) target position count))
        (.error (.invalidTarget state (.int j) target position count))

variable {K : Nat × Transition γ α → Nat × Transition γ α → Prop}

theorem performances_eq_of_passages {ps ps' : List (Passage γ α ξ)} {e e' : Exit γ α ξ}
    (hps : List.Forall₂ (Passage.Alike Eq K) ps ps') (he : e.performance? = e'.performance?) :
    performances ps e = performances ps' e' := by
  unfold performances
  rw [he]
  congr 1
  induction hps with
  | nil => rfl
  | cons hp _ ih => rw [List.filterMap_cons, List.filterMap_cons, ih, hp.performed, hp.symbol]

theorem performances_eq_of_alike {ps ps' : List (Passage γ α ξ)} {e e' : Exit γ α ξ}
    (hps : List.Forall₂ (Passage.Alike Eq K) ps ps') (he : Exit.Alike Eq K e e') :
    performances ps e = performances ps' e' := by
  refine performances_eq_of_passages hps ?_
  cases he with
  | usedUp | noStates | lost | rejected => rfl
  | unknownTarget symbol =>
      cases symbol
      rfl

theorem sameButPlace_of_alike {r r' : Itinerary γ α ξ} (halike : Itinerary.Alike Eq K r r')
    (htarget : ∀ {c c'}, K c c' → c.2.target = c'.2.target) (count : Nat) :
    SameButPlace (r.result count) (r'.result count) := by
  obtain ⟨ps, s, p, e⟩ := r
  obtain ⟨ps', s', p', e'⟩ := r'
  obtain ⟨-, rfl, rfl, hexit⟩ := halike
  cases hexit with
  | usedUp | noStates | lost => exact .same _
  | rejected symbol =>
      cases symbol
      exact .same _
  | @unknownTarget x y i j t u _ taken =>
      have hsame : t.target = u.target := htarget taken
      change SameButPlace (.error (.invalidTarget _ _ t.target.toValue _ _)) _
      rw [hsame]
      exact .invalidTarget ..

variable {h : Host ω γ α ξ} {W W' : ω → Prop} {m m' : Machine γ α} {accepts : γ → ξ → Bool}
  {xs : List ξ}

/-- **A run depends on where each state leads, and on nothing else of its transitions.** Take two
machines with as many states whose states lead to the same targets by the same actions on each
of the symbols; in particular, a machine and what becomes of it when shadowed transitions are
deleted and neighbours that are apart are swapped, any number of times and in any states. Where
guards answer once and for all, and actions return and leave the machine alone, both runs over
the symbols come to an end, with the same result up to the place of a transition whose target
does not exist, and call the same actions on the same symbols in the same order. -/
theorem run_of_rearranged (hcalm : h.Calm W m accepts xs) (hcalm' : h.Calm W' m' accepts xs)
    (hlike : m.LeadsLike accepts xs m' ∨
      Relation.ReflTransGen (Machine.Rearranged accepts xs) m m')
    (wanted : Bool) {w w' : ω} (hw : W w) (hw' : W' w') :
    ∃ ps c e w₁ ps' c' e' w₂,
      h.Course .ofList (fun _ => wanted) xs w ps c e w₁ ∧
      h.Course .ofList (fun _ => wanted) xs w' ps' c' e' w₂ ∧
      h.EndsWith .ofList (fun _ => wanted) xs w (e.result m.size c) w₁ ∧
      h.EndsWith .ofList (fun _ => wanted) xs w' (e'.result m'.size c') w₂ ∧
      performances ps e = performances ps' e' ∧
      SameButPlace (e.result m.size c) (e'.result m'.size c') := by
  have hsame : m.LeadsLike accepts xs m' := hlike.elim id Machine.leadsLike_of_rearranged
  obtain ⟨c, w₁, course, hstate, hposition, -⟩ :=
    hcalm.exists_course wanted (List.Subset.refl xs) hw
  obtain ⟨c', w₂, course', hstate', hposition', -⟩ :=
    hcalm'.exists_course wanted (List.Subset.refl xs) hw'
  have halike : Itinerary.Alike Eq
      (fun c c' => c.2.target = c'.2.target ∧ c.2.action = c'.2.action)
      (m.itinerary accepts wanted .start 1 xs) (m'.itinerary accepts wanted .start 1 xs) := by
    refine itinerary_alike hsame.size (fun hK => hK) ?_ wanted
      (List.forall₂_same.mpr fun _ _ => rfl) (List.Subset.refl xs) (List.Subset.refl xs) _ _
    rintro i s s' hs hs' x hx _ - rfl
    exact State.rel_choice_of_effect?_eq (hsame.effect i s s' hs hs' x hx)
  refine ⟨_, c, _, w₁, _, c', _, w₂, course, course', hcalm.endsWith_of_course hw course,
    hcalm'.endsWith_of_course hw' course', performances_eq_of_alike halike.passages halike.exit, ?_⟩
  rw [Itinerary.result_eq _ hstate hposition, Itinerary.result_eq _ hstate' hposition',
    ← hsame.size]
  exact sameButPlace_of_alike halike (fun hK => hK.1) m.size

/-! ## A machine with shadowed rules -/

/-- What the guard of a recorder says of a symbol, where it does not fail. -/
def saysYes (g : Nat → Except Fault Bool) (x : Nat) : Bool :=
  match g x with
  | .ok b => b
  | .error _ => false

/-- A recorder is calm if no guard of its machine fails. -/
theorem recorder_calm {m : Machine (Nat → Except Fault Bool) Unit} {symbols : List Nat}
    (hguards : ∀ s ∈ m.states, ∀ t ∈ s.transitions, ∀ x ∈ symbols, (t.guard x).isOk) :
    recorder.Calm (fun v => v.1 = m) m saysYes symbols where
  machine _ hv := hv
  test t ht x hx v _ := by
    obtain ⟨s, hs, ht⟩ := ht
    have hok := hguards s hs t ht x hx
    change Effect.ofExcept (t.guard x) v = (.ok (saysYes t.guard x), v)
    unfold saysYes
    cases hg : t.guard x with
    | ok b => rfl
    | error f =>
        rw [hg] at hok
        cases hok
  perform _ _ _ _ x _ v hv := ⟨(v.1, v.2 ++ [x]), rfl, hv⟩
  record _ v hv := ⟨v, rfl, hv⟩

/-- A rule on some symbols, which are written. -/
def writing (p : Nat → Bool) (target : Int) : Transition (Nat → Except Fault Bool) Unit :=
  ⟨.number target, fun x => .ok (p x), some ()⟩

/-- A machine in which a rule for all small symbols shadows a later one for 2, and whose last
rule leads nowhere. -/
def cluttered : Machine (Nat → Except Fault Bool) Unit :=
  ⟨[⟨.int 0, .bool false, [writing (· == 1) 1, writing (· < 3) 0, writing (· == 2) 1,
      writing (· == 5) 7]⟩,
    ⟨.int 1, .bool true, []⟩]⟩

/-- The same machine without the shadowed rule, and with the last two rules swapped. -/
def tidied : Machine (Nat → Except Fault Bool) Unit :=
  ⟨[⟨.int 0, .bool false, [writing (· == 1) 1, writing (· == 5) 7, writing (· < 3) 0]⟩,
    ⟨.int 1, .bool true, []⟩]⟩

theorem cluttered_rearranged :
    Relation.ReflTransGen (Machine.Rearranged saysYes [0, 2, 5]) cluttered tidied := by
  have hdelete : cluttered.Rearranged saysYes [0, 2, 5] _ :=
    .intro (i := 0) rfl
      (.delete [writing (· == 1) 1, writing (· < 3) 0] (writing (· == 2) 1) [writing (· == 5) 7]
        (by decide))
  refine .tail (.single hdelete) (.intro (i := 0) rfl
    (.swap [writing (· == 1) 1] (writing (· < 3) 0) (writing (· == 5) 7) [] (by decide)))

/-- Both machines stop at the third symbol because state 7 does not exist, at places of their
own, and have written all three. -/
theorem recorder_run_of_rearranged :
    ∃ ps c e w i,
      recorder.Course .ofList (fun _ => true) [0, 2, 5] (tidied, [9]) ps c e w ∧
      performances ps e = [((), 0), ((), 2), ((), 5)] ∧
      recorder.EndsWith .ofList (fun _ => true) [0, 2, 5] (tidied, [9])
        (.error (.invalidTarget (.int 0) (.int i) (.int 7) (.int 3) (.int 2))) w := by
  have hcluttered : recorder.Calm (fun v => v.1 = cluttered) cluttered saysYes [0, 2, 5] :=
    recorder_calm (by decide)
  have htidied : recorder.Calm (fun v => v.1 = tidied) tidied saysYes [0, 2, 5] :=
    recorder_calm (by decide)
  obtain ⟨ps, c, e, w₁, ps', c', e', w₂, course, course', -, hends, hcalls, hresult⟩ :=
    run_of_rearranged hcluttered htidied (.inr cluttered_rearranged) true
      (rfl : (cluttered, ([] : List Nat)).1 = cluttered)
      (rfl : (tidied, [9]).1 = tidied)
  -- The first run goes as its itinerary says, and that can be computed.
  obtain ⟨rfl, rfl, hknown⟩ := hcluttered.of_course (List.Subset.refl _)
    (rfl : (cluttered, ([] : List Nat)).1 = cluttered) course
  rw [hknown] at hresult
  generalize e'.result tidied.size c' = r at hresult hends
  cases hresult with
  | same => exact ⟨ps', c', e', w₂, 3, course', hcalls.symm, hends⟩
  | invalidTarget _ _ _ _ _ i => exact ⟨ps', c', e', w₂, i, course', hcalls.symm, hends⟩

end Host

end SymbolMachine
