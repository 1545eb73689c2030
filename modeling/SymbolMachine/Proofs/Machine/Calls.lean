/-
What a run calls, and in which order.

A run calls its source, its guards and its actions. To say which calls it makes, the same run
is made in a world with a diary in which each call is entered together with its answer
(`Host.traced`). The traced run answers what the run answers and leaves the same world, so the
diary is about the run itself. What it may contain is told by one relation for each loop:
`Inquiry` for the scan of a state, `Reaction` for one symbol, `Dialogue` for the run.

Nothing is asked of what callbacks answer. They may raise, and they may be given too little
fuel and stall; only the machine has to stay as it is. A run may also be cut off because its
own fuel is used up. Then the diary is told up to there, and it is as long as the fuel allows.
-/
import SymbolMachine.Proofs.Machine.Extension
import SymbolMachine.Proofs.Machine.Undisturbed

set_option autoImplicit false

namespace SymbolMachine

variable {ω γ α ξ ν β κ : Type}

namespace Effect

/-- The same computation in a world with a diary, in which it is entered with its answer. -/
def recorded (entry : Except Stop β → List κ) (e : Effect ω β) : Effect (ω × List κ) β := fun v =>
  match e v.1 with
  | (r, w) => (r, (w, v.2 ++ entry r))

end Effect

namespace Host

/-- A call that a run makes, with what was answered. -/
inductive Call (γ α ξ : Type)
  /-- The source was asked for a symbol. -/
  | drawn (answer : Except Stop (Option ξ))
  | asked (guard : γ) (symbol : ξ) (answer : Except Stop Bool)
  | performed (action : α) (symbol : ξ) (answer : Except Stop Unit)

namespace Call

/-- Whether the source was called. -/
def isDraw : Call γ α ξ → Bool
  | drawn _ => true
  | _ => false

/-- The call did not come to an end. -/
def Stalls : Call γ α ξ → Prop
  | drawn r => r = .error .stalled
  | asked _ _ r => r = .error .stalled
  | performed _ _ r => r = .error .stalled

end Call

end Host

/-- The source, with its calls entered in the diary. -/
def Source.traced (next : Source ω ν ξ) : Source (ω × List (Host.Call γ α ξ)) ν ξ := fun s =>
  (next s).recorded fun r => [.drawn (r.map (Option.map Prod.fst))]

namespace Host

/-- The asking of guards, with the calls entered in the diary. -/
def tracedTest (test : γ → ξ → Effect ω Bool) (g : γ) (x : ξ) :
    Effect (ω × List (Call γ α ξ)) Bool :=
  (test g x).recorded fun r => [.asked g x r]

/-- The host, with the calls of guards and actions entered in the diary. -/
def traced (h : Host ω γ α ξ) : Host (ω × List (Call γ α ξ)) γ α ξ where
  machine v := h.machine v.1
  test g x := (h.test g x).recorded fun r => [.asked g x r]
  perform a x := (h.perform a x).recorded fun r => [.performed a x r]
  record note := (h.record note).recorded fun _ => []
  detailed v := h.detailed v.1

/-! ## The order of the calls -/

/-- The guards that are asked about a symbol, from a place on: one after another, up to the
first that accepts or stops. -/
inductive Inquiry (x : ξ) : Nat → List (Transition γ α) → List (Call γ α ξ) →
    Except Stop (Option (Nat × Transition γ α)) → Prop
  /-- There is no fuel left for this place. -/
  | cut {i : Nat} {ts : List (Transition γ α)} : Inquiry x i ts [] (.error .stalled)
  | exhausted {i : Nat} : Inquiry x i [] [] (.ok none)
  | stopped {i : Nat} {t : Transition γ α} {ts : List (Transition γ α)} {e : Stop} :
      Inquiry x i (t :: ts) [.asked t.guard x (.error e)] (.error e)
  | accepted {i : Nat} {t : Transition γ α} {ts : List (Transition γ α)} :
      Inquiry x i (t :: ts) [.asked t.guard x (.ok true)] (.ok (some (i, t)))
  | refused {i : Nat} {t : Transition γ α} {ts : List (Transition γ α)}
      {calls : List (Call γ α ξ)} {r : Except Stop (Option (Nat × Transition γ α))}
      (rest : Inquiry x (i + 1) ts calls r) :
      Inquiry x i (t :: ts) (.asked t.guard x (.ok false) :: calls) r

/-- The action of a transition that is taken: it is called if there is one and actions are
wanted. -/
inductive Performance (wanted : Bool) (t : Transition γ α) (x : ξ) :
    List (Call γ α ξ) → Except Stop Unit → Prop
  | omitted (undue : wanted = true → t.action = none) : Performance wanted t x [] (.ok ())
  | called {a : α} {r : Except Stop Unit} (due : wanted = true) (action : t.action = some a) :
      Performance wanted t x [.performed a x r] r

/-- What happens at one symbol: the guards of the state are asked, then the action of the
transition that was found is called, and then its target is looked at. -/
inductive Reaction (m : Machine γ α) (wanted : Bool) (s : StateId) (p : Nat) (x : ξ) :
    List (Call γ α ξ) → Except Stop (Option StateId) → Prop
  | guardStopped {state : State γ α} {asks : List (Call γ α ξ)} {e : Stop}
      (found : m.state? s.toInt = some state)
      (inquiry : Inquiry x 0 state.transitions asks (.error e)) :
      Reaction m wanted s p x asks (.error e)
  | rejected {state : State γ α} {asks : List (Call γ α ξ)}
      (found : m.state? s.toInt = some state)
      (inquiry : Inquiry x 0 state.transitions asks (.ok none)) :
      Reaction m wanted s p x asks (.ok none)
  | actionStopped {state : State γ α} {asks acts : List (Call γ α ξ)} {i : Nat}
      {t : Transition γ α} {e : Stop} (found : m.state? s.toInt = some state)
      (inquiry : Inquiry x 0 state.transitions asks (.ok (some (i, t))))
      (performance : Performance wanted t x acts (.error e)) :
      Reaction m wanted s p x (asks ++ acts) (.error e)
  | unknownTarget {state : State γ α} {asks acts : List (Call γ α ξ)} {i : Nat}
      {t : Transition γ α} (found : m.state? s.toInt = some state)
      (inquiry : Inquiry x 0 state.transitions asks (.ok (some (i, t))))
      (performance : Performance wanted t x acts (.ok ())) (unknown : ¬m.Contains t.target) :
      Reaction m wanted s p x (asks ++ acts) (.error (.fault (.invalidTarget s.toValue (.int i)
        t.target.toValue (.int p) (.int m.size))))
  | moved {state : State γ α} {asks acts : List (Call γ α ξ)} {i : Nat}
      {t : Transition γ α} (found : m.state? s.toInt = some state)
      (inquiry : Inquiry x 0 state.transitions asks (.ok (some (i, t))))
      (performance : Performance wanted t x acts (.ok ())) (known : m.Contains t.target) :
      Reaction m wanted s p x (asks ++ acts) (.ok (some t.target))

/-- What happens in a run from a state and a position on. Each symbol is asked for only after
everything that the symbol before it brings about, and nothing follows an end. -/
inductive Dialogue (m : Machine γ α) (wanted : Bool) :
    StateId → Nat → List (Call γ α ξ) → Except Stop (Outcome StateId ξ Nat) → Prop
  /-- There is no fuel left for another symbol. -/
  | cut {s : StateId} {p : Nat} : Dialogue m wanted s p [] (.error .stalled)
  | usedUp {s : StateId} {p : Nat} :
      Dialogue m wanted s p [.drawn (.ok none)] (.ok (.success s))
  | sourceStopped {s : StateId} {p : Nat} {e : Stop} :
      Dialogue m wanted s p [.drawn (.error e)] (.error e)
  | stopped {s : StateId} {p : Nat} {x : ξ} {calls : List (Call γ α ξ)} {e : Stop}
      (reaction : Reaction m wanted s p x calls (.error e)) :
      Dialogue m wanted s p (.drawn (.ok (some x)) :: calls) (.error e)
  | rejected {s : StateId} {p : Nat} {x : ξ} {calls : List (Call γ α ξ)}
      (reaction : Reaction m wanted s p x calls (.ok none)) :
      Dialogue m wanted s p (.drawn (.ok (some x)) :: calls) (.ok (.failure s x p s))
  | moved {s target : StateId} {p : Nat} {x : ξ} {calls later : List (Call γ α ξ)}
      {r : Except Stop (Outcome StateId ξ Nat)}
      (reaction : Reaction m wanted s p x calls (.ok (some target)))
      (rest : Dialogue m wanted target (p + 1) later r) :
      Dialogue m wanted s p (.drawn (.ok (some x)) :: (calls ++ later)) r

/-! ## When the source is asked -/

theorem Inquiry.isDraw_eq_false {x : ξ} {i : Nat} {ts : List (Transition γ α)}
    {calls : List (Call γ α ξ)} {r : Except Stop (Option (Nat × Transition γ α))}
    (inquiry : Inquiry x i ts calls r) : ∀ call ∈ calls, call.isDraw = false := by
  induction inquiry with
  | cut | exhausted => exact nofun
  | stopped | accepted => simp [Call.isDraw]
  | refused _ ih => simpa [Call.isDraw] using ih

theorem Performance.isDraw_eq_false {wanted : Bool} {t : Transition γ α} {x : ξ}
    {calls : List (Call γ α ξ)} {r : Except Stop Unit}
    (performance : Performance wanted t x calls r) : ∀ call ∈ calls, call.isDraw = false := by
  cases performance with
  | omitted => exact nofun
  | called => simp [Call.isDraw]

variable {m : Machine γ α} {wanted : Bool}

/-- The source is not asked before a symbol is done with. -/
theorem Reaction.isDraw_eq_false {s : StateId} {p : Nat} {x : ξ} {calls : List (Call γ α ξ)}
    {r : Except Stop (Option StateId)} (reaction : Reaction m wanted s p x calls r) :
    ∀ call ∈ calls, call.isDraw = false := by
  cases reaction with
  | guardStopped _ inquiry | rejected _ inquiry => exact inquiry.isDraw_eq_false
  | actionStopped _ inquiry performance | unknownTarget _ inquiry performance
  | moved _ inquiry performance =>
      intro call hcall
      rcases List.mem_append.mp hcall with hcall | hcall
      · exact inquiry.isDraw_eq_false call hcall
      · exact performance.isDraw_eq_false call hcall

/-- The source is asked past its last symbol exactly by the runs that succeed. -/
theorem Dialogue.drawn_none_mem_iff {s : StateId} {p : Nat} {calls : List (Call γ α ξ)}
    {r : Except Stop (Outcome StateId ξ Nat)} (dialogue : Dialogue m wanted s p calls r) :
    .drawn (.ok none) ∈ calls ↔ ∃ s', r = .ok (.success s') := by
  have hfree : ∀ {s : StateId} {p : Nat} {x : ξ} {calls : List (Call γ α ξ)}
      {r : Except Stop (Option StateId)}, Reaction m wanted s p x calls r →
      Call.drawn (.ok none) ∉ calls := by
    intro s p x calls r reaction hmem
    have hdraw := reaction.isDraw_eq_false _ hmem
    exact Bool.noConfusion hdraw
  induction dialogue with
  | cut => simp
  | @usedUp s => simp
  | sourceStopped => simp
  | stopped reaction => simpa using hfree reaction
  | rejected reaction => simpa using hfree reaction
  | moved reaction _ ih => simpa [hfree reaction] using ih

/-! ## A run and its traced run -/

/-- A computation and one that keeps a diary do the same, and these are the calls. -/
def Traces (e : Effect ω β) (e' : Effect (ω × List κ) β) (w : ω) (calls : List κ)
    (r : Except Stop β) (w' : ω) : Prop :=
  e w = (r, w') ∧ ∀ diary, e' (w, diary) = (r, (w', diary ++ calls))

variable {h : Host ω γ α ξ} {next : Source ω ν ξ}

theorem traces_test {test : γ → ξ → Effect ω Bool} {g : γ} {x : ξ} {w w' : ω}
    {r : Except Stop Bool} (asked : test g x w = (r, w')) :
    Traces (test g x) (tracedTest (α := α) test g x) w [.asked g x r] r w' :=
  ⟨asked, fun diary => by simp only [tracedTest, Effect.recorded, asked]⟩

theorem traces_perform {a : α} {x : ξ} {w w' : ω} {r : Except Stop Unit}
    (performed : h.perform a x w = (r, w')) :
    Traces (h.perform a x) (h.traced.perform a x) w [.performed a x r] r w' :=
  ⟨performed, fun diary => by simp only [traced, Effect.recorded, performed]⟩

theorem traces_pure (b : β) (w : ω) :
    Traces (pure b) (pure b : Effect (ω × List κ) β) w [] (.ok b) w := by
  refine ⟨rfl, fun diary => ?_⟩
  rw [List.append_nil]
  rfl

theorem traces_next {source : ν} {w w' : ω} {r : Except Stop (Option (ξ × ν))}
    (given : next source w = (r, w')) :
    Traces (next source) (next.traced source : Effect (ω × List (Call γ α ξ)) (Option (ξ × ν))) w
      [.drawn (r.map (Option.map Prod.fst))] r w' :=
  ⟨given, fun diary => by simp only [Source.traced, Effect.recorded, given]⟩

theorem Traces.of_eq {e f : Effect ω β} {e' f' : Effect (ω × List κ) β} {w w' : ω}
    {calls : List κ} {r : Except Stop β} (he : e w = f w)
    (he' : ∀ diary, e' (w, diary) = f' (w, diary)) (traces : Traces f f' w calls r w') :
    Traces e e' w calls r w' :=
  ⟨he.trans traces.1, fun diary => (he' diary).trans (traces.2 diary)⟩

theorem Traces.bind {δ : Type} {e : Effect ω β} {e' : Effect (ω × List κ) β} {f : β → Effect ω δ}
    {f' : β → Effect (ω × List κ) δ} {w w₁ w₂ : ω} {calls later : List κ} {b : β}
    {r : Except Stop δ} (first : Traces e e' w calls (.ok b) w₁)
    (second : Traces (f b) (f' b) w₁ later r w₂) :
    Traces (e >>= f) (e' >>= f') w (calls ++ later) r w₂ := by
  refine ⟨?_, fun diary => ?_⟩
  · rw [Effect.bind_apply_of_ok w first.1, second.1]
  · rw [Effect.bind_apply_of_ok _ (first.2 diary), second.2, List.append_assoc]

/-- Nothing is entered for what makes no calls. -/
theorem Traces.bind_silent {δ : Type} {e : Effect ω β} {e' : Effect (ω × List κ) β}
    {f : β → Effect ω δ} {f' : β → Effect (ω × List κ) δ} {w w₁ w₂ : ω} {calls : List κ} {b : β}
    {r : Except Stop δ} (first : Traces e e' w calls (.ok b) w₁)
    (second : Traces (f b) (f' b) w₁ [] r w₂) : Traces (e >>= f) (e' >>= f') w calls r w₂ := by
  have traces := first.bind second
  rwa [List.append_nil] at traces

theorem Traces.bind_error {δ : Type} {e : Effect ω β} {e' : Effect (ω × List κ) β}
    {f : β → Effect ω δ} {f' : β → Effect (ω × List κ) δ} {w w₁ : ω} {calls : List κ} {s : Stop}
    (first : Traces e e' w calls (.error s) w₁) :
    Traces (e >>= f) (e' >>= f') w calls (.error s) w₁ :=
  ⟨Effect.bind_apply_of_error w first.1, fun diary =>
    Effect.bind_apply_of_error _ (first.2 diary)⟩

theorem Traces.map {δ : Type} {e : Effect ω β} {e' : Effect (ω × List κ) β} {w w' : ω}
    {calls : List κ} {r : Except Stop β} (traces : Traces e e' w calls r w') (g : β → δ) :
    Traces (g <$> e) (g <$> e') w calls (r.map g) w' := by
  refine ⟨?_, fun diary => ?_⟩
  · rw [Effect.map_apply, traces.1]
  · rw [Effect.map_apply, traces.2]

/-! ### Scans

The guards may change the very transitions that are scanned, as long as they only put new ones
behind them. Then the transitions that are there in the end tell who was asked. -/

/-- What guards that refuse leave in the diary. -/
def refusals (x : ξ) (ts : List (Transition γ α)) : List (Call γ α ξ) :=
  ts.map fun t => .asked t.guard x (.ok false)

section Inquiry

variable {x : ξ} {i : Nat} {ts : List (Transition γ α)} {calls : List (Call γ α ξ)}
  {r : Except Stop (Option (Nat × Transition γ α))}

/-- Nobody is asked twice. -/
theorem Inquiry.length_le (inquiry : Inquiry x i ts calls r) : calls.length ≤ ts.length := by
  induction inquiry with
  | cut | exhausted => exact Nat.zero_le _
  | stopped | accepted => exact Nat.succ_le_succ (Nat.zero_le _)
  | refused _ ih => exact Nat.succ_le_succ ih

/-- **The calls of an inquiry, by its end**: refusals, and behind them the guard that accepted or
stopped, if there is one. -/
theorem Inquiry.calls_eq (inquiry : Inquiry x i ts calls r) :
    match r with
    | .ok (some (j, t)) => ∃ k, j = i + k ∧ ts[k]? = some t ∧
        calls = refusals x (ts.take k) ++ [.asked t.guard x (.ok true)]
    | .ok none => calls = refusals x ts
    | .error e => (∃ k t, ts[k]? = some t ∧
        calls = refusals x (ts.take k) ++ [.asked t.guard x (.error e)]) ∨
      e = .stalled ∧ calls = refusals x (ts.take calls.length) := by
  induction inquiry with
  | cut => exact .inr ⟨rfl, rfl⟩
  | exhausted => rfl
  | @stopped i t ts e => exact .inl ⟨0, t, rfl, rfl⟩
  | @accepted i t ts => exact ⟨0, rfl, rfl, rfl⟩
  | @refused i t ts calls r _ ih =>
      rcases r with e | _ | ⟨j, u⟩
      · rcases ih with ⟨k, u, hu, heq⟩ | ⟨he, heq⟩
        · exact .inl ⟨k + 1, u, hu, congrArg _ heq⟩
        · exact .inr ⟨he, congrArg _ heq⟩
      · exact congrArg _ ih
      · obtain ⟨k, hj, hu, heq⟩ := ih
        exact ⟨k + 1, by omega, hu, congrArg _ heq⟩

end Inquiry

/-- Whatever is put behind a list, what is in it stays in its place. -/
theorem drop_eq_cons_of_extends {β : Type} {l l' : List β} {i : Nat} {a : β} (h : l <+: l')
    (here : l[i]? = some a) : l'.drop i = a :: l'.drop (i + 1) := by
  obtain ⟨hi, rfl⟩ := List.getElem?_eq_some_iff.mp here
  obtain ⟨hi', hthere⟩ := List.getElem?_eq_some_iff.mp (List.prefix_iff_getElem?.mp h i hi)
  rw [← hthere]
  exact List.drop_eq_getElem_cons hi'

/-- **A scan of transitions that grow is an inquiry of those that are there in the end.** A
condition on the world may be needed for the growing, if guards keep it. The scan stalls only if a
guard does, or when it has asked as many of them as its fuel allows. -/
theorem exists_inquiry_of_growing {transitions : ω → List (Transition γ α)}
    {test : γ → ξ → Effect ω Bool} {x : ξ} {P : ω → Prop}
    (hgrow : ∀ v, P v → ∀ t ∈ transitions v,
      P (test t.guard x v).2 ∧ transitions v <+: transitions (test t.guard x v).2)
    (fuel i : Nat) {w : ω} (hw : P w) :
    ∃ calls r w', Traces (firstMatch transitions test x fuel i)
        (firstMatch (fun v => transitions v.1) (tracedTest test) x fuel i) w calls r w' ∧
      P w' ∧ transitions w <+: transitions w' ∧
      Inquiry x i ((transitions w').drop i) calls r ∧
      (r = .error .stalled → (∃ call ∈ calls, call.Stalls) ∨ calls.length = fuel) := by
  induction fuel generalizing i w with
  | zero =>
      refine ⟨[], _, w, ⟨rfl, fun diary => ?_⟩, hw, List.prefix_refl _, .cut, fun _ => .inr rfl⟩
      rw [List.append_nil]
      rfl
  | succ fuel ih =>
      cases here : (transitions w)[i]? with
      | none =>
          refine ⟨[], .ok none, w, ⟨?_, fun diary => ?_⟩, hw, List.prefix_refl _, ?_, nofun⟩
          · rw [firstMatch_succ, here]
          · rw [firstMatch_succ, here, List.append_nil]
          · rw [List.drop_eq_nil_of_le (List.getElem?_eq_none_iff.mp here)]
            exact .exhausted
      | some t =>
          have hscan : ∀ {calls : List (Call γ α ξ)} {r w'}, Traces
              (test t.guard x >>= fun b => if b then pure (some (i, t))
                else firstMatch transitions test x fuel (i + 1))
              (tracedTest test t.guard x >>= fun b => if b then pure (some (i, t))
                else firstMatch (fun v => transitions v.1) (tracedTest test) x fuel (i + 1))
              w calls r w' →
              Traces (firstMatch transitions test x (fuel + 1) i)
                (firstMatch (fun v => transitions v.1) (tracedTest test) x (fuel + 1) i) w calls r
                w' :=
            fun traces => traces.of_eq (firstMatch_apply_of_some here) fun diary =>
              firstMatch_apply_of_some here
          obtain ⟨hw₁, hprefix⟩ := hgrow w hw t (List.mem_of_getElem? here)
          rcases asked : test t.guard x w with ⟨answer, w₁⟩
          rw [asked] at hw₁ hprefix
          have hasked := traces_test (α := α) asked
          -- What a guard answers settles whether the scan goes on.
          rcases answer with e | _ | _
          · refine ⟨_, .error e, w₁, hscan hasked.bind_error, hw₁, hprefix, ?_, ?_⟩
            · rw [drop_eq_cons_of_extends hprefix here]
              exact .stopped
            · rintro ⟨⟩
              exact .inl ⟨_, List.mem_singleton_self _, rfl⟩
          · obtain ⟨calls, r, w', hrest, hw', hlater, inquiry, hstall⟩ := ih (i + 1) hw₁
            have hall := hprefix.trans hlater
            refine ⟨_, r, w', hscan (hasked.bind hrest), hw', hall, ?_, fun hr => ?_⟩
            · rw [drop_eq_cons_of_extends hall here]
              exact .refused inquiry
            · rcases hstall hr with ⟨call, hcall, hstalls⟩ | hlength
              · exact .inl ⟨call, List.mem_cons_of_mem _ hcall, hstalls⟩
              · exact .inr (congrArg (· + 1) hlength)
          · refine ⟨_, _, w₁, hscan (hasked.bind_silent (traces_pure _ w₁)), hw₁, hprefix, ?_,
              nofun⟩
            rw [drop_eq_cons_of_extends hprefix here]
            exact .accepted

section Kept

variable (hkeep : h.StaysWithin next (fun v => h.machine v = m) m)
include hkeep

/-- A scan makes an inquiry. It stalls only if a guard does, or for want of fuel. -/
theorem exists_inquiry {s : StateId} {state : State γ α} (hs : m.state? s.toInt = some state)
    (x : ξ) (fuel i : Nat) {w : ω} (hw : h.machine w = m) :
    ∃ calls r w', Traces (firstMatch (h.transitionsOf s) h.test x fuel i)
        (firstMatch (h.traced.transitionsOf s) h.traced.test x fuel i) w calls r w' ∧
      Inquiry x i (state.transitions.drop i) calls r ∧ h.machine w' = m ∧
      (∀ j t, r = .ok (some (j, t)) → m.Owns t) ∧
      (r = .error .stalled → state.transitions.length - i < fuel →
        ∃ call ∈ calls, call.Stalls) := by
  have hthere : ∀ {v}, h.machine v = m → h.transitionsOf s v = state.transitions := by
    intro v hv
    rw [transitionsOf, hv, hs]
  have howns : ∀ {t}, t ∈ state.transitions → m.Owns t := fun ht =>
    ⟨state, Machine.mem_states_of_state? hs, ht⟩
  -- A machine that stays as it is grows by nothing.
  have hgrow : ∀ v, h.machine v = m → ∀ t ∈ h.transitionsOf s v,
      h.machine (h.test t.guard x v).2 = m ∧
        h.transitionsOf s v <+: h.transitionsOf s (h.test t.guard x v).2 := by
    intro v hv t ht
    have hkept := hkeep.of_test (howns (hthere hv ▸ ht)) hv (x := x)
      (r := (h.test t.guard x v).1) rfl
    rw [hthere hv, hthere hkept]
    exact ⟨hkept, List.prefix_refl _⟩
  obtain ⟨calls, r, w', traces, hw', -, inquiry, hstall⟩ :=
    exists_inquiry_of_growing hgrow fuel i hw
  rw [hthere hw'] at inquiry
  refine ⟨calls, r, w', traces, inquiry, hw', ?_, fun hr hfuel => (hstall hr).resolve_right ?_⟩
  · rintro j t rfl
    obtain ⟨k, -, ht, -⟩ := inquiry.calls_eq
    exact howns (List.mem_of_mem_drop (List.mem_of_getElem? ht))
  · have hlength := inquiry.length_le
    rw [List.length_drop] at hlength
    omega

/-- Performing what is due is a performance. -/
theorem exists_performance (wanted : Bool) {t : Transition γ α} (ht : m.Owns t) (x : ξ) {w : ω}
    (hw : h.machine w = m) :
    ∃ calls r w', Traces (h.performDue x (if wanted then t.action else none))
        (h.traced.performDue x (if wanted then t.action else none)) w calls r w' ∧
      Performance wanted t x calls r ∧ h.machine w' = m ∧
      (r = .error .stalled → ∃ call ∈ calls, call.Stalls) := by
  cases wanted with
  | false => exact ⟨[], .ok (), w, traces_pure () w, .omitted nofun, hw, nofun⟩
  | true =>
      simp only [if_true]
      cases ha : t.action with
      | none => exact ⟨[], .ok (), w, traces_pure () w, .omitted fun _ => ha, hw, nofun⟩
      | some a =>
          rcases performed : h.perform a x w with ⟨r, w₁⟩
          have hw₁ : h.machine w₁ = m := by
            have hkept := hkeep.perform t ht a ha x w hw
            rwa [performed] at hkept
          refine ⟨_, r, w₁, traces_perform performed, .called rfl ha, hw₁, ?_⟩
          rintro rfl
          exact ⟨_, List.mem_singleton_self _, rfl⟩

variable (hlog : h.LogsSafely)
include hlog

/-- A note is no call. -/
theorem traces_record (note : Note ξ) {w : ω} (hw : h.machine w = m) :
    ∃ w', Traces (h.record note) (h.traced.record note) w [] (.ok ()) w' ∧ h.machine w' = m := by
  obtain ⟨w', noted⟩ := hlog.record note w
  have hkept := hkeep.record note w hw
  rw [noted] at hkept
  exact ⟨w', ⟨noted, fun diary => by simp only [traced, Effect.recorded, noted]⟩, hkept⟩

variable (detailed : Bool)

theorem traces_remark (note : Note ξ) {w : ω} (hw : h.machine w = m) :
    ∃ w', Traces (h.remark ⟨m.size, detailed, fun _ => wanted⟩ note)
        (h.traced.remark ⟨m.size, detailed, fun _ => wanted⟩ note) w [] (.ok ()) w' ∧
      h.machine w' = m := by
  cases detailed with
  | true => exact traces_record hkeep hlog note hw
  | false => exact ⟨w, traces_pure () w, hw⟩

/-- Behind the action there is no call left. -/
theorem traces_arrive_of_contains {s : StateId} {p : Nat} {x : ξ} {i : Nat} {t : Transition γ α}
    (known : m.Contains t.target) {w : ω} (hw : h.machine w = m) :
    ∃ w', Traces (h.arrive ⟨m.size, detailed, fun _ => wanted⟩ s p x i t)
        (h.traced.arrive ⟨m.size, detailed, fun _ => wanted⟩ s p x i t) w [] (.ok t.target) w' ∧
      h.machine w' = m := by
  obtain ⟨w', noted, hw'⟩ := traces_remark hkeep hlog detailed (.moved s t.target x p) hw
  refine ⟨w', ⟨h.arrive_of_knows ?_ noted.1, fun diary =>
    h.traced.arrive_of_knows ?_ (noted.2 diary)⟩, hw'⟩
  · exact known
  · exact known

theorem traces_arrive_of_not_contains {s : StateId} {p : Nat} {x : ξ} {i : Nat}
    {t : Transition γ α} (unknown : ¬m.Contains t.target) {w : ω} (hw : h.machine w = m) :
    ∃ w', Traces (h.arrive ⟨m.size, detailed, fun _ => wanted⟩ s p x i t)
        (h.traced.arrive ⟨m.size, detailed, fun _ => wanted⟩ s p x i t) w []
        (.error (.fault (.invalidTarget s.toValue (.int i) t.target.toValue (.int p)
          (.int m.size)))) w' ∧
      h.machine w' = m := by
  obtain ⟨w', noted, hw'⟩ := traces_record hkeep hlog (.unknownTarget i s t.target) hw
  refine ⟨w', ⟨h.arrive_of_not_knows ?_ noted.1, fun diary =>
    h.traced.arrive_of_not_knows ?_ (noted.2 diary)⟩, hw'⟩
  · exact unknown
  · exact unknown

/-- What follows a scan of a state that found something is the rest of a reaction. -/
theorem exists_reaction_of_match {s : StateId} {state : State γ α}
    (found : m.state? s.toInt = some state) (p : Nat) {x : ξ} {asks : List (Call γ α ξ)} {i : Nat}
    {t : Transition γ α} (inquiry : Inquiry x 0 state.transitions asks (.ok (some (i, t))))
    (ht : m.Owns t) {w : ω} (hw : h.machine w = m) :
    ∃ acts r w', Traces (h.take ⟨m.size, detailed, fun _ => wanted⟩ s p x i t)
        (h.traced.take ⟨m.size, detailed, fun _ => wanted⟩ s p x i t) w acts r w' ∧
      Reaction m wanted s p x (asks ++ acts) (r.map some) ∧ h.machine w' = m ∧
      (r = .error .stalled → ∃ call ∈ acts, call.Stalls) := by
  have htake : ∀ {acts r w'}, Traces
      (h.performDue x (if wanted then t.action else none) >>= fun _ =>
        h.arrive ⟨m.size, detailed, fun _ => wanted⟩ s p x i t)
      (h.traced.performDue x (if wanted then t.action else none) >>= fun _ =>
        h.traced.arrive ⟨m.size, detailed, fun _ => wanted⟩ s p x i t) w acts r w' →
      Traces (h.take ⟨m.size, detailed, fun _ => wanted⟩ s p x i t)
        (h.traced.take ⟨m.size, detailed, fun _ => wanted⟩ s p x i t) w acts r w' :=
    fun traces => traces.of_eq (h.take_apply _ s p x i t w) fun diary =>
      h.traced.take_apply _ s p x i t (w, diary)
  obtain ⟨acts, r, w₁, hacts, performance, hw₁, hstall⟩ :=
    exists_performance hkeep wanted ht x hw
  rcases r with e | ⟨⟩
  · refine ⟨acts, .error e, w₁, htake hacts.bind_error,
      .actionStopped found inquiry performance, hw₁, ?_⟩
    rintro ⟨⟩
    exact hstall rfl
  by_cases known : m.Contains t.target
  · obtain ⟨w', harrive, hw'⟩ := traces_arrive_of_contains hkeep hlog detailed known hw₁
    exact ⟨acts, _, w', htake (hacts.bind_silent harrive), .moved found inquiry performance known,
      hw', nofun⟩
  · obtain ⟨w', harrive, hw'⟩ := traces_arrive_of_not_contains hkeep hlog detailed known hw₁
    exact ⟨acts, _, w', htake (hacts.bind_silent harrive),
      .unknownTarget found inquiry performance known, hw', nofun⟩

variable (wanted)

/-- Handling a symbol in a state of the machine is a reaction. -/
theorem exists_reaction {s : StateId} (hs : m.Contains s) (fuel p : Nat) (x : ξ) {w : ω}
    (hw : h.machine w = m) :
    ∃ calls r w', Traces (h.step ⟨m.size, detailed, fun _ => wanted⟩ fuel s p x)
        (h.traced.step ⟨m.size, detailed, fun _ => wanted⟩ fuel s p x) w calls r w' ∧
      Reaction m wanted s p x calls r ∧ h.machine w' = m ∧
      (r = .error .stalled → (∀ state ∈ m.states, state.transitions.length < fuel) →
        ∃ call ∈ calls, call.Stalls) := by
  obtain ⟨state, found⟩ := hs.exists_state
  have hmem := Machine.mem_states_of_state? found
  have hsize : m.size ≠ 0 := by
    obtain ⟨hlow, hhigh⟩ := hs
    omega
  have hstep : ∀ {calls r w'}, Traces
      (firstMatch (h.transitionsOf s) h.test x fuel 0 >>= fun r =>
        h.afterScan ⟨m.size, detailed, fun _ => wanted⟩ s p x (.ok r))
      (firstMatch (h.traced.transitionsOf s) h.traced.test x fuel 0 >>= fun r =>
        h.traced.afterScan ⟨m.size, detailed, fun _ => wanted⟩ s p x (.ok r)) w calls r w' →
      Traces (h.step ⟨m.size, detailed, fun _ => wanted⟩ fuel s p x)
        (h.traced.step ⟨m.size, detailed, fun _ => wanted⟩ fuel s p x) w calls r w' := by
    intro calls r w' traces
    have hfound : (h.machine w).state? s.toInt = some state := by rw [hw, found]
    refine traces.of_eq (h.step_apply_of_found hsize hfound fuel p x) fun diary => ?_
    exact h.traced.step_apply_of_found hsize (w := (w, diary)) hfound fuel p x
  obtain ⟨asks, r, w₁, hscan, inquiry, hw₁, howns, hstall⟩ :=
    exists_inquiry hkeep found x fuel 0 hw
  rw [List.drop_zero] at inquiry
  rcases r with e | _ | ⟨i, t⟩
  · refine ⟨asks, .error e, w₁, hstep hscan.bind_error, .guardStopped found inquiry, hw₁, ?_⟩
    rintro ⟨⟩ hfuel
    exact hstall rfl (hfuel state hmem)
  · obtain ⟨w', noted, hw'⟩ := traces_remark hkeep hlog detailed (.rejected s x p) hw₁
    have htraces := hstep (hscan.bind_silent (noted.bind_silent (traces_pure none w')))
    exact ⟨asks, .ok none, w', htraces, .rejected found inquiry, hw', nofun⟩
  · obtain ⟨acts, r, w', htake, reaction, hw', hstall'⟩ :=
      exists_reaction_of_match hkeep hlog detailed found p inquiry (howns i t rfl) hw₁
    refine ⟨asks ++ acts, r.map some, w', hstep (hscan.bind (htake.map some)), reaction, hw', ?_⟩
    intro hr _
    obtain ⟨call, hcall, hstalls⟩ := hstall' (by cases r <;> cases hr; rfl)
    exact ⟨call, List.mem_append_right asks hcall, hstalls⟩

/-- **A drive is a dialogue.** It stalls only if a callback does, or when it has asked for as
many symbols as its fuel allows. -/
theorem exists_dialogue {s : StateId} (hs : m.Contains s) (fuel p : Nat) (source : ν) {w : ω}
    (hw : h.machine w = m) :
    ∃ calls r w', Traces (h.drive next ⟨m.size, detailed, fun _ => wanted⟩ fuel s p source)
        (h.traced.drive next.traced ⟨m.size, detailed, fun _ => wanted⟩ fuel s p source) w calls
        r w' ∧
      Dialogue m wanted s p calls r ∧
      ∀ n, r = .error .stalled → (∀ state ∈ m.states, state.transitions.length + n ≤ fuel) →
        (∃ call ∈ calls, call.Stalls) ∨ n ≤ calls.countP Call.isDraw := by
  induction fuel generalizing s p source w with
  | zero =>
      refine ⟨[], _, w, ⟨rfl, fun diary => ?_⟩, .cut, fun n _ hn => ?_⟩
      · rw [List.append_nil]
        rfl
      · obtain ⟨state, found⟩ := hs.exists_state
        have hzero := hn state (Machine.mem_states_of_state? found)
        exact .inr (by omega)
  | succ fuel ih =>
      rcases given : next source w with ⟨answer, w₁⟩
      have hw₁ : h.machine w₁ = m := by
        have hkept := hkeep.source source w hw
        rwa [given] at hkept
      let draw : Call γ α ξ := .drawn (answer.map (Option.map Prod.fst))
      have hdrawn : Traces (next source) _ w [draw] answer w₁ := traces_next given
      rw [drive_succ_eq_bind, drive_succ_eq_bind]
      -- The source is used up, or stops, or gives a symbol to react to.
      rcases answer with e | _ | ⟨x, rest⟩
      · refine ⟨_, .error e, w₁, hdrawn.bind_error, .sourceStopped, ?_⟩
        rintro n ⟨⟩ -
        exact .inl ⟨_, List.mem_singleton_self _, rfl⟩
      · exact ⟨_, .ok (.success s), w₁, hdrawn.bind_silent (traces_pure _ w₁), .usedUp, nofun⟩
      obtain ⟨calls, r, w₂, hstep, reaction, hw₂, hstall⟩ :=
        exists_reaction wanted hkeep hlog detailed hs fuel p x hw₁
      rcases r with e | _ | target
      · refine ⟨draw :: calls, .error e, w₂, hdrawn.bind hstep.bind_error, .stopped reaction, ?_⟩
        rintro n ⟨⟩ hn
        rw [List.countP_cons_of_pos rfl]
        by_cases hone : n ≤ 1
        · exact .inr (by omega)
        · have hfuel : ∀ state ∈ m.states, state.transitions.length < fuel := by
            intro state hstate
            have hbound := hn state hstate
            omega
          obtain ⟨call, hcall, hstalls⟩ := hstall rfl hfuel
          exact .inl ⟨call, List.mem_cons_of_mem _ hcall, hstalls⟩
      · exact ⟨draw :: calls, _, w₂, hdrawn.bind (hstep.bind_silent (traces_pure _ w₂)),
          .rejected reaction, nofun⟩
      · have htarget : m.Contains target := by
          cases reaction with
          | moved _ _ _ known => exact known
        obtain ⟨later, r, w', hdrive, dialogue, hprogress⟩ := ih htarget (p + 1) rest hw₂
        refine ⟨draw :: (calls ++ later), r, w', hdrawn.bind (hstep.bind hdrive),
          .moved reaction dialogue, fun n hr hn => ?_⟩
        rw [List.countP_cons_of_pos rfl, List.countP_append]
        cases n with
        | zero => exact .inr (Nat.zero_le _)
        | succ n =>
            rcases hprogress n hr fun state hstate => Nat.le_of_succ_le_succ (hn state hstate) with
              ⟨call, hcall, hstalls⟩ | hcount
            · exact .inl ⟨call, List.mem_cons_of_mem _ (List.mem_append_right _ hcall), hstalls⟩
            · exact .inr (by omega)

end Kept

/-- **What a run calls, and in which order.** Take a machine with a state, any source, and
callbacks that may raise but leave the machine as it is. The traced run does what the run does,
and its diary is a dialogue with the same end: for one symbol after another the source is asked,
then the guards of the current state in their order up to the first that accepts, then the
action of the transition found. Nothing is called behind an end. So the source is asked past its
last symbol exactly if the run succeeds. A run that is cut off without a callback that stalls has
asked for as many symbols as its fuel allows. -/
theorem run_calls (hne : 0 < m.size) (hkeep : h.StaysWithin next (fun v => h.machine v = m) m)
    (hlog : h.LogsSafely) (wanted : Bool) (fuel : Nat) (source : ν) {w : ω}
    (hw : h.machine w = m) :
    let run := h.run next fuel (fun _ => wanted) source w
    ∃ calls,
      h.traced.run next.traced fuel (fun _ => wanted) source (w, []) = (run.1, (run.2, calls)) ∧
      Dialogue m wanted .start 1 calls run.1 ∧
      (.drawn (.ok none) ∈ calls ↔ ∃ s, run.1 = .ok (.success s)) ∧
      ∀ n, run.1 = .error .stalled →
        (∀ state ∈ m.states, state.transitions.length + n ≤ fuel) →
        (∃ call ∈ calls, call.Stalls) ∨ n ≤ calls.countP Call.isDraw := by
  intro run
  have hsetting : h.settingAt (fun _ => wanted) w = ⟨m.size, h.detailed w, fun _ => wanted⟩ := by
    rw [← hw]
    rfl
  have htraced : h.traced.settingAt (fun _ => wanted) (w, []) =
      ⟨m.size, h.detailed w, fun _ => wanted⟩ := by
    rw [← hw]
    rfl
  obtain ⟨calls, r, w', ⟨hdrive, hdiary⟩, dialogue, hprogress⟩ :=
    exists_dialogue wanted hkeep hlog (h.detailed w) (.start hne) fuel 1 source hw
  have hrun : run = (r, w') := by
    change h.run next fuel (fun _ => wanted) source w = _
    rw [run_apply, hsetting, hdrive]
  refine ⟨calls, ?_, ?_⟩
  · rw [run_apply, htraced, hdiary, hrun]
    rfl
  · rw [hrun]
    exact ⟨dialogue, dialogue.drawn_none_mem_iff, hprogress⟩

/-- The source would never end. It is asked for two symbols: the action on the second raises. -/
theorem narrowRecorder_run_calls :
    Dialogue turningMachine true .start 1
      [.drawn (.ok (some 1)), .asked (turn 1 1).guard 1 (.ok true), .performed () 1 (.ok ()),
        .drawn (.ok (some 2)), .asked (turn 2 0).guard 2 (.ok true),
        .performed () 2 (.error (.fault .outOfRange))]
      (.error (.fault .outOfRange)) := by
  let counting : Source (Machine (Nat → Except Fault Bool) Unit × List Nat) Nat Nat :=
    fun n => pure (some (n, n + 1))
  have hkeep : narrowRecorder.StaysWithin counting
      (fun v => narrowRecorder.machine v = turningMachine) turningMachine := by
    refine ⟨fun _ _ hv => hv, ?_, ?_, fun _ _ hv => hv⟩
    · intro t ht x v hv
      have hx := List.mem_singleton_self x
      obtain ⟨_, hasked⟩ := recorder_pureGuards turningMachine [x] t ht x hx
      rw [show narrowRecorder.test t.guard x v = _ from hasked v hv]
      exact hv
    · intro t ht a ha x v hv
      have hx := List.mem_singleton_self x
      exact (narrowRecorder_tameActions turningMachine [x] t ht a ha x hx v hv).2
  have hmachine : narrowRecorder.machine (turningMachine, []) = turningMachine := rfl
  obtain ⟨calls, htraced, dialogue, -⟩ :=
    run_calls (m := turningMachine) Nat.two_pos hkeep (fun _ _ => rfl) true 5 1 hmachine
  obtain rfl : _ = calls := congrArg (fun result => result.2.2) htraced
  exact dialogue

end Host

end SymbolMachine
