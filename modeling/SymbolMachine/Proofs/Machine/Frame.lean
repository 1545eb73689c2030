/-
What callbacks preserve, runs preserve.

A run changes the world only through its callbacks: the source, the guards, the actions and
the notes. So a preorder that each callback keeps, whatever it answers and wherever it stops,
is kept by every run and every question about acceptance, with any fuel. Nothing is asked of
the machine here, and callbacks may run machines themselves.

If a callback is cut off, the run is cut off there. So the two statements are one, about a run
and the same run with callbacks that may be cut off (`CallbacksCut`).
-/
import SymbolMachine.Proofs.Machine.Course
import SymbolMachine.Proofs.Machine.Growth

set_option autoImplicit false

namespace SymbolMachine

variable {ω γ α ξ ν : Type} {R : ω → ω → Prop}

/-- A search does to the world what its guards do, and if one of them is cut off, so is it. -/
theorem cut_firstMatch [IsPreorder ω R] (transitions : ω → List (Transition γ α))
    {test test' : γ → ξ → Effect ω Bool} (ht : ∀ g x, Effect.Cut R (test g x) (test' g x)) (x : ξ)
    (fuel i : Nat) :
    Effect.Cut R (firstMatch transitions test x fuel i) (firstMatch transitions test' x fuel i) := by
  induction fuel generalizing i with
  | zero => exact .stall
  | succ fuel ih =>
      refine .bind .get fun w => ?_
      cases (transitions w)[i]? with
      | none => exact .pure _
      | some t =>
          refine .bind (ht t.guard x) fun b => ?_
          cases b with
          | true => exact .pure _
          | false => exact ih (i + 1)

/-- A scan does to the world what its guards do. -/
theorem Scan.keeps [IsPreorder ω R] {transitions : ω → List (Transition γ α)}
    {test : γ → ξ → Effect ω Bool} (ht : ∀ g x, Effect.Keeps R (test g x)) {x : ξ} {i : Nat}
    {w w' : ω} {ts : List (Transition γ α)} {r : Except Fault (Option (Nat × Transition γ α))}
    (hscan : Scan transitions test x i w ts r w') : R w w' := by
  have hsearch := cut_firstMatch transitions (fun g x => (ht g x).cut) x (ts.length + 1) i
  exact hsearch.keeps.of_eq (hscan.firstMatch_eq (Nat.lt_succ_self _))

namespace Host

variable (h : Host ω γ α ξ)

/-- A run is not lost in a state that its machine has when the source has answered. -/
theorem not_lost_of_contains {next : Source ω ν ξ} {setting : Setting ω} {c : Config ω ν} {v : ω}
    (hcontains : (h.machine (next c.source c.world).2).Contains c.state) :
    ¬h.Exits next setting c .lost v := by
  intro exits
  cases exits with
  | lost given _ missing =>
      rw [given] at hcontains
      obtain ⟨state, hstate⟩ := hcontains.exists_state
      rw [hstate] at missing
      cases missing

/-- Every callback of a run keeps a relation between worlds. -/
structure CallbacksKeep (next : Source ω ν ξ) (R : ω → ω → Prop) : Prop where
  source : ∀ s, Effect.Keeps R (next s)
  test : ∀ g x, Effect.Keeps R (h.test g x)
  perform : ∀ a x, Effect.Keeps R (h.perform a x)
  record : ∀ note, Effect.Keeps R (h.record note)

namespace CallbacksKeep

variable {h} {next : Source ω ν ξ}

/-- A weaker relation is kept too. -/
theorem mono {R' : ω → ω → Prop} (hk : h.CallbacksKeep next R) (hR : ∀ w w', R w w' → R' w w') :
    h.CallbacksKeep next R' where
  source s w := hR _ _ (hk.source s w)
  test g x w := hR _ _ (hk.test g x w)
  perform a x w := hR _ _ (hk.perform a x w)
  record note w := hR _ _ (hk.record note w)

variable [IsPreorder ω R]

theorem performDue (hk : h.CallbacksKeep next R) (x : ξ) (a : Option α) :
    Effect.Keeps R (h.performDue x a) := by
  cases a with
  | none => exact .pure _
  | some a => exact hk.perform a x

theorem remark (hk : h.CallbacksKeep next R) (setting : Setting ω) (note : Note ξ) :
    Effect.Keeps R (h.remark setting note) := by
  unfold Host.remark
  split
  · exact hk.record note
  · exact .pure _

/-! ### Along the course of a run -/

section Course

variable {setting : Setting ω}

theorem handles (hk : h.CallbacksKeep next R) {c : Config ω ν} {x : ξ} {rest : ν}
    {ts : List (Transition γ α)} {r : Except Fault (Option (Nat × Transition γ α))} {w : ω}
    (handled : h.Handles next setting c x rest ts r w) : R c.world w := by
  obtain ⟨given, _, _, scan⟩ := handled
  have hsource := (hk.source c.source).of_eq given
  exact trans_of R hsource (scan.keeps hk.test)

theorem move (hk : h.CallbacksKeep next R) {c c' : Config ω ν} {p : Passage γ α ξ}
    (move : h.Move next setting c p c') : R c.world c'.world := by
  obtain ⟨handled, performed, _, noted⟩ := move
  have hdue := (hk.performDue _ _).of_eq performed
  have hnote := (hk.remark setting _).of_eq noted
  exact trans_of R (hk.handles handled) (trans_of R hdue hnote)

theorem exits (hk : h.CallbacksKeep next R) {c : Config ω ν} {e : Exit γ α ξ} {w : ω}
    (exits : h.Exits next setting c e w) : R c.world w := by
  cases exits with
  | usedUp given | sourceFailed given | noStates given | lost given =>
      exact (hk.source c.source).of_eq given
  | guardFailed handled => exact hk.handles handled
  | rejected handled noted =>
      have hnote := (hk.remark setting _).of_eq noted
      exact trans_of R (hk.handles handled) hnote
  | actionFailed handled performed =>
      have hdue := (hk.performDue _ _).of_eq performed
      exact trans_of R (hk.handles handled) hdue
  | unknownTarget handled performed _ noted =>
      have hdue := (hk.performDue _ _).of_eq performed
      have hnote := (hk.record _).of_eq noted
      exact trans_of R (hk.handles handled) (trans_of R hdue hnote)

end Course

end CallbacksKeep

/-! ## Runs that are cut off -/

/-- The callbacks of the second host are those of the first, which keep a relation between
worlds, or they are cut off at some moment. -/
structure CallbacksCut (h h' : Host ω γ α ξ) (next next' : Source ω ν ξ) (R : ω → ω → Prop) :
    Prop where
  machine : h'.machine = h.machine
  detailed : h'.detailed = h.detailed
  source : ∀ s, Effect.Cut R (next s) (next' s)
  test : ∀ g x, Effect.Cut R (h.test g x) (h'.test g x)
  perform : ∀ a x, Effect.Cut R (h.perform a x) (h'.perform a x)
  record : ∀ note, Effect.Cut R (h.record note) (h'.record note)

namespace CallbacksCut

variable {h h' : Host ω γ α ξ} {next next' : Source ω ν ξ}

theorem callbacksKeep (hc : CallbacksCut h h' next next' R) : h.CallbacksKeep next R where
  source s := (hc.source s).keeps
  test g x := (hc.test g x).keeps
  perform a x := (hc.perform a x).keeps
  record note := (hc.record note).keeps

theorem transitionsOf (hc : CallbacksCut h h' next next' R) (s : StateId) :
    h'.transitionsOf s = h.transitionsOf s := by
  funext w
  rw [Host.transitionsOf, hc.machine, Host.transitionsOf]

variable [IsPreorder ω R]

theorem stateNow (hc : CallbacksCut h h' next next' R) (s : StateId) :
    Effect.Cut R (h.stateNow s) (h'.stateNow s) := by
  unfold Host.stateNow
  rw [hc.machine]
  refine .bind .get fun w => ?_
  cases (h.machine w).state? s.toInt with
  | none => exact .raise _
  | some state => exact .pure _

theorem performDue (hc : CallbacksCut h h' next next' R) (x : ξ) (a : Option α) :
    Effect.Cut R (h.performDue x a) (h'.performDue x a) := by
  cases a with
  | none => exact .pure _
  | some a => exact hc.perform a x

theorem remark (hc : CallbacksCut h h' next next' R) (setting : Setting ω) (note : Note ξ) :
    Effect.Cut R (h.remark setting note) (h'.remark setting note) := by
  unfold Host.remark
  split
  · exact hc.record note
  · exact .pure _

theorem take (hc : CallbacksCut h h' next next' R) (setting : Setting ω) (s : StateId) (p : Nat)
    (x : ξ) (i : Nat) (t : Transition γ α) :
    Effect.Cut R (h.take setting s p x i t) (h'.take setting s p x i t) := by
  intro w
  rw [take_apply, take_apply]
  refine Effect.Cut.bind (hc.performDue x _) (fun _ => ?_) w
  unfold arrive
  split
  · exact .bind (hc.remark setting _) fun _ => .pure _
  · exact .bind (hc.record _) fun _ => .raise _

theorem step (hc : CallbacksCut h h' next next' R) (setting : Setting ω) (fuel : Nat)
    (s : StateId) (p : Nat) (x : ξ) :
    Effect.Cut R (h.step setting fuel s p x) (h'.step setting fuel s p x) := by
  have hscan := cut_firstMatch (h.transitionsOf s) hc.test x fuel 0
  unfold Host.step
  rw [hc.transitionsOf]
  split
  on_goal 1 => refine .bind (.raise _) fun _ => ?_
  all_goals
    refine .bind (hc.stateNow s) fun _ => .bind hscan fun r => ?_
    rcases r with _ | ⟨i, t⟩
    · exact .bind (hc.remark setting _) fun _ => .pure _
    · exact (hc.take setting s p x i t).map some

theorem drive (hc : CallbacksCut h h' next next' R) (setting : Setting ω) (fuel : Nat)
    (s : StateId) (p : Nat) (source : ν) :
    Effect.Cut R (h.drive next setting fuel s p source)
      (h'.drive next' setting fuel s p source) := by
  induction fuel generalizing s p source with
  | zero => exact .stall
  | succ fuel ih =>
      refine .bind (hc.source source) fun given => ?_
      rcases given with _ | ⟨x, rest⟩
      · exact .pure _
      · refine .bind (hc.step setting fuel s p x) fun target => ?_
        cases target with
        | none => exact .pure _
        | some target => exact ih target (p + 1) rest

/-- **A run does to the world what its callbacks do**, and is cut off where one of them is. -/
theorem run (hc : CallbacksCut h h' next next' R) (fuel : Nat) (actions : ω → Bool) (source : ν) :
    Effect.Cut R (h.run next fuel actions source) (h'.run next' fuel actions source) := by
  unfold Host.run
  rw [hc.machine, hc.detailed]
  exact .bind .get fun w => hc.drive (h.settingAt actions w) fuel .start 1 source

/-- So does the question whether the symbols are accepted. -/
theorem accepts (hc : CallbacksCut h h' next next' R) (fuel : Nat) (source : ν) :
    Effect.Cut R (h.accepts next fuel source) (h'.accepts next' fuel source) := by
  refine .bind (hc.run fuel _ source) fun outcome => ?_
  split
  · exact .bind (hc.stateNow _) fun _ => .pure _
  · exact .pure _

end CallbacksCut

/-! ## Growth during a run -/

theorem owns_of_getElem? {h : Host ω γ α ξ} {s : StateId} {v : ω} {i : Nat}
    {t : Transition γ α} (ht : (h.transitionsOf s v)[i]? = some t) : (h.machine v).Owns t := by
  unfold transitionsOf at ht
  cases hs : (h.machine v).state? s.toInt with
  | none =>
      rw [hs] at ht
      cases ht
  | some state =>
      rw [hs] at ht
      exact ⟨state, Machine.mem_states_of_state? hs, List.mem_of_getElem? ht⟩

/-- The machine of the second world is that of the first after it was used. -/
def Growing (w w' : ω) : Prop := (h.machine w).Grows (h.machine w')

instance : IsPreorder ω h.Growing where
  refl w := Machine.Grows.refl (h.machine w)
  trans _ _ _ h₁ h₂ := Machine.Grows.trans h₁ h₂

/-- A transition has the same place in a machine that has grown. -/
theorem getElem?_transitionsOf_of_grows {h h' : Host ω γ α ξ} {s : StateId} {v v' : ω} {i : Nat}
    {t : Transition γ α} (hg : (h.machine v).Grows (h'.machine v'))
    (ht : (h.transitionsOf s v)[i]? = some t) : (h'.transitionsOf s v')[i]? = some t := by
  unfold transitionsOf at ht ⊢
  cases hs : (h.machine v).state? s.toInt with
  | none =>
      rw [hs] at ht
      cases ht
  | some state =>
      obtain ⟨state', hs', hgrows⟩ := hg.state? hs
      rw [hs] at ht
      rw [hs']
      exact hgrows.getElem? ht

end Host

end SymbolMachine
