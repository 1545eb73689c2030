/-
Two runs of which one sees less.

A view of a world leaves something out. A computation mirrors another one in the view if it
does to the view of a world what the other does to the world, and answers the same, as far as
the view lets its answer be told apart (`Effect.Mirrors`). This is kept by composing, so it is
enough to look at the parts: if the callbacks of a host mirror those of another, so do its
runs. Notes are what a view may leave out altogether, and with them whether a run wants
detailed ones, which the two hosts need not agree about.

Since the calls of a run are written into the world by a traced host, which mirrors one too,
the calls of the two runs are the same in order, each with the same answer.
-/
import SymbolMachine.Proofs.Machine.Calls

set_option autoImplicit false

namespace SymbolMachine

variable {ω ω' γ γ' α α' ξ ν ν' β β' κ κ' : Type}

/-! ## Computations -/

namespace Effect

theorem map_id_except {ε : Type} (r : Except ε β) : r.map id = r := by
  cases r <;> rfl

/-- The second computation does to the view of a world what the first does to the world, and
answers the same, seen through `f`. -/
def Mirrors (view : ω → ω') (f : β → β') (e : Effect ω β) (e' : Effect ω' β') : Prop :=
  ∀ w, e' (view w) = ((e w).1.map f, view (e w).2)

namespace Mirrors

variable {view : ω → ω'} {f : β → β'} {e : Effect ω β} {e' : Effect ω' β'}

theorem pure (f : β → β') (b : β) :
    Mirrors view f (pure b : Effect ω β) (pure (f b) : Effect ω' β') := fun _ => rfl

theorem raise (f : β → β') (x : Fault) :
    Mirrors view f (Effect.raise x : Effect ω β) (Effect.raise x : Effect ω' β') := fun _ => rfl

theorem stall (f : β → β') :
    Mirrors view f (Effect.stall : Effect ω β) (Effect.stall : Effect ω' β') := fun _ => rfl

theorem get : Mirrors view view (get : Effect ω ω) (get : Effect ω' ω') := fun _ => rfl

theorem modify {g : ω → ω} {g' : ω' → ω'} (h : ∀ w, g' (view w) = view (g w)) :
    Mirrors view id (modify g : Effect ω Unit) (modify g' : Effect ω' Unit) := by
  intro w
  rw [modify_apply, modify_apply, h]
  rfl

theorem ofExcept_map (f : β → β') (r : Except Fault β) :
    Mirrors view f (Effect.ofExcept r : Effect ω β) (Effect.ofExcept (r.map f) : Effect ω' β') := by
  cases r <;> exact fun _ => rfl

theorem ofExcept (r : Except Fault β) :
    Mirrors view id (Effect.ofExcept r : Effect ω β) (Effect.ofExcept r : Effect ω' β) := by
  cases r <;> exact fun _ => rfl

/-- **One computation after another.** -/
theorem bind {g : κ → κ'} {k : β → Effect ω κ} {k' : β' → Effect ω' κ'}
    (he : Mirrors view f e e') (hk : ∀ b, Mirrors view g (k b) (k' (f b))) :
    Mirrors view g (e >>= k) (e' >>= k') := by
  intro w
  have hw := he w
  rw [bind_apply, bind_apply, hw]
  rcases e w with ⟨s | b, w₁⟩
  · rfl
  · exact hk b w₁

/-- The answers may be seen through something else. -/
theorem map {g : κ → κ'} {u : β → κ} {u' : β' → κ'} (he : Mirrors view f e e')
    (hu : ∀ b, u' (f b) = g (u b)) : Mirrors view g (u <$> e) (u' <$> e') := by
  intro w
  rw [map_apply, map_apply, he w]
  rcases e w with ⟨s | b, w₁⟩
  · rfl
  · change (Except.ok (u' (f b)), view w₁) = _
    rw [hu]
    rfl

theorem forM {ι : Type} {k : ι → Effect ω PUnit} {k' : ι → Effect ω' PUnit}
    (hk : ∀ x, Mirrors view id (k x) (k' x)) : (xs : List ι) → Mirrors view id (xs.forM k) (xs.forM k')
  | [] => pure id _
  | x :: xs => bind (hk x) fun _ => forM hk xs

theorem attempt (he : Mirrors view f e e') :
    Mirrors view (Except.map f) e.attempt e'.attempt := by
  intro w
  rw [Effect.attempt, Effect.attempt, he w]
  rcases e w with ⟨(_ | _) | _, _⟩ <;> rfl

theorem mapFault (u : Fault → Fault) (he : Mirrors view f e e') :
    Mirrors view f (e.mapFault u) (e'.mapFault u) := by
  intro w
  rw [Effect.mapFault, Effect.mapFault, he w]
  rcases e w with ⟨(_ | _) | _, _⟩ <;> rfl

theorem stopAt {moment : ω → Bool} {moment' : ω' → Bool} (hmoment : ∀ w, moment' (view w) = moment w)
    (he : Mirrors view f e e') : Mirrors view f (e.stopAt moment) (e'.stopAt moment') := by
  intro w
  by_cases hm : moment w = true
  · have hm' : moment' (view w) = true := (hmoment w).trans hm
    rw [stopAt_of_moment e hm, stopAt_of_moment e' hm']
    rfl
  · have hm' : ¬moment' (view w) = true := by rwa [hmoment]
    rw [stopAt_of_not_moment e hm, stopAt_of_not_moment e' hm', he w]

/-- Two computations with the same mirror do the same to two worlds that look the same. -/
theorem alike {ω₁ ω₂ : Type} {v₁ : ω₁ → ω'} {v₂ : ω₂ → ω'} {e₁ : Effect ω₁ β} {e₂ : Effect ω₂ β}
    {e' : Effect ω' β} (h₁ : Mirrors v₁ id e₁ e') (h₂ : Mirrors v₂ id e₂ e') {w₁ : ω₁} {w₂ : ω₂}
    (hw : v₁ w₁ = v₂ w₂) : (e₁ w₁).1 = (e₂ w₂).1 ∧ v₁ (e₁ w₁).2 = v₂ (e₂ w₂).2 := by
  have h : ((e₁ w₁).1.map id, v₁ (e₁ w₁).2) = ((e₂ w₂).1.map id, v₂ (e₂ w₂).2) := by
    rw [← h₁ w₁, ← h₂ w₂, hw]
  rw [map_id_except, map_id_except] at h
  exact Prod.mk.inj h

/-- The view of a world with a diary, whose entries are seen through `g`. -/
def beside (view : ω → ω') (g : κ → κ') (v : ω × List κ) : ω' × List κ' :=
  (view v.1, v.2.map g)

/-- What is entered in a diary is mirrored with the computation. -/
theorem recorded {entry : Except Stop β → List κ} {entry' : Except Stop β' → List κ'}
    {g : κ → κ'} (he : Mirrors view f e e') (h : ∀ r, entry' (r.map f) = (entry r).map g) :
    Mirrors (beside view g) f (e.recorded entry) (e'.recorded entry') := by
  intro v
  rw [beside, Effect.recorded, Effect.recorded, he v.1]
  rcases e v.1 with ⟨r, w₁⟩
  simp only [h, beside, List.map_append]

/-- A view may leave the diary out. -/
theorem of_recorded {entry : Except Stop β → List κ} (he : Mirrors view f e e') :
    Mirrors (fun v : ω × List κ => view v.1) f (e.recorded entry) e' := fun v => he v.1

end Mirrors

end Effect

/-! ## Machines with other callbacks -/

section Map

variable (g : γ → γ') (a : α → α')

/-- The transition with its callbacks seen otherwise. -/
def Transition.map (t : Transition γ α) : Transition γ' α' := ⟨t.target, g t.guard, t.action.map a⟩

def State.map (s : State γ α) : State γ' α' :=
  ⟨s.id, s.accepting, s.transitions.map (Transition.map g a)⟩

def Machine.map (m : Machine γ α) : Machine γ' α' := ⟨m.states.map (State.map g a)⟩

@[simp] theorem Machine.size_map (m : Machine γ α) : (m.map g a).size = m.size :=
  List.length_map _

theorem Machine.state?_map (m : Machine γ α) (id : Int) :
    (m.map g a).state? id = (m.state? id).map (State.map g a) := by
  unfold Machine.state? Machine.map
  split
  · exact List.getElem?_map
  · rfl

end Map

/-! ## Scans -/

section Scan

variable {view : ω → ω'} {g : γ → γ'} {a : α → α'} {transitions : ω → List (Transition γ α)}
  {transitions' : ω' → List (Transition γ' α')} {test : γ → ξ → Effect ω Bool}
  {test' : γ' → ξ → Effect ω' Bool}

theorem mirrors_firstMatch
    (ht : ∀ w, transitions' (view w) = (transitions w).map (Transition.map g a))
    (hasked : ∀ c x, Effect.Mirrors view id (test c x) (test' (g c) x)) (x : ξ) (fuel i : Nat) :
    Effect.Mirrors view (Option.map (Prod.map id (Transition.map g a)))
      (firstMatch transitions test x fuel i) (firstMatch transitions' test' x fuel i) := by
  induction fuel generalizing i with
  | zero => exact .stall _
  | succ fuel ih =>
      refine .bind .get fun w => ?_
      rw [ht, List.getElem?_map]
      cases (transitions w)[i]? with
      | none => exact .pure _ none
      | some t =>
          refine .bind (hasked t.guard x) fun b => ?_
          cases b with
          | true => exact .pure _ (some (i, t))
          | false => exact ih (i + 1)

end Scan

/-! ## Runs -/

namespace Host

/-- The second host mirrors the first, in whose view notes leave no trace. -/
structure Mirrors (h : Host ω γ α ξ) (h' : Host ω' γ' α' ξ) (view : ω → ω') (g : γ → γ')
    (a : α → α') : Prop where
  machine : ∀ w, h'.machine (view w) = (h.machine w).map g a
  test : ∀ c x, Effect.Mirrors view id (h.test c x) (h'.test (g c) x)
  perform : ∀ b x, Effect.Mirrors view id (h.perform b x) (h'.perform (a b) x)
  unseen : ∀ note, Effect.Mirrors view id (h.record note) (pure ())
  silent : ∀ note w, h'.record note (view w) = (.ok (), view w)

/-- The second run knows as many states as the first, and wants actions when the first does. -/
structure Setting.Mirrors (setting : Setting ω) (setting' : Setting ω') (view : ω → ω') : Prop where
  count : setting'.count = setting.count
  actions : ∀ w, setting'.actions (view w) = setting.actions w

namespace Mirrors

variable {h : Host ω γ α ξ} {h' : Host ω' γ' α' ξ} {view : ω → ω'} {g : γ → γ'} {a : α → α'}
  {setting : Setting ω} {setting' : Setting ω'}

theorem record (hm : h.Mirrors h' view g a) (note : Note ξ) :
    Effect.Mirrors view id (h.record note) (h'.record note) := by
  intro w
  rw [hm.silent]
  exact hm.unseen note w

/-- A detailed note may be wanted on either side alone. -/
theorem remark (hm : h.Mirrors h' view g a) (setting : Setting ω) (setting' : Setting ω')
    (note : Note ξ) :
    Effect.Mirrors view id (h.remark setting note) (h'.remark setting' note) := by
  intro w
  have hleft : ((h.remark setting note w).1.map id, view (h.remark setting note w).2) =
      (.ok (), view w) := by
    unfold Host.remark
    split
    · exact (hm.unseen note w).symm
    · rfl
  rw [hleft]
  unfold Host.remark
  split
  · exact hm.silent note w
  · rfl

theorem transitionsOf (hm : h.Mirrors h' view g a) (s : StateId) (w : ω) :
    h'.transitionsOf s (view w) = (h.transitionsOf s w).map (Transition.map g a) := by
  unfold Host.transitionsOf
  rw [hm.machine, Machine.state?_map]
  cases (h.machine w).state? s.toInt <;> rfl

theorem stateNow (hm : h.Mirrors h' view g a) (s : StateId) :
    Effect.Mirrors view (State.map g a) (h.stateNow s) (h'.stateNow s) := by
  intro w
  rw [stateNow_apply, stateNow_apply, hm.machine, Machine.state?_map]
  cases (h.machine w).state? s.toInt <;> rfl

theorem performDue (hm : h.Mirrors h' view g a) (x : ξ) (b : Option α) :
    Effect.Mirrors view id (h.performDue x b) (h'.performDue x (b.map a)) := by
  cases b with
  | none => exact .pure _ _
  | some b => exact hm.perform b x

theorem arrive (hm : h.Mirrors h' view g a) (hset : setting.Mirrors setting' view) (s : StateId)
    (p : Nat) (x : ξ) (i : Nat) (t : Transition γ α) :
    Effect.Mirrors view id (h.arrive setting s p x i t) (h'.arrive setting' s p x i (t.map g a)) := by
  have hknows : setting'.Knows (t.map g a).target ↔ setting.Knows t.target := by
    rw [Setting.Knows, hset.count]
    rfl
  unfold Host.arrive
  simp only [hknows, hset.count]
  split
  · exact .bind (hm.remark setting setting' _) fun _ => .pure id _
  · exact .bind (hm.record _) fun _ => .raise id _

theorem take (hm : h.Mirrors h' view g a) (hset : setting.Mirrors setting' view) (s : StateId)
    (p : Nat) (x : ξ) (i : Nat) (t : Transition γ α) :
    Effect.Mirrors view id (h.take setting s p x i t) (h'.take setting' s p x i (t.map g a)) := by
  intro w
  have hdue : due setting' (t.map g a) (view w) = (due setting t w).map a := by
    unfold due
    rw [hset.actions]
    split <;> rfl
  rw [take_apply, take_apply, hdue]
  exact Effect.Mirrors.bind (hm.performDue x _) (fun _ => hm.arrive hset s p x i t) w

theorem step (hm : h.Mirrors h' view g a) (hset : setting.Mirrors setting' view) (fuel : Nat)
    (s : StateId) (p : Nat) (x : ξ) :
    Effect.Mirrors view id (h.step setting fuel s p x) (h'.step setting' fuel s p x) := by
  intro w
  by_cases states : setting.count = 0
  · rw [step_apply, step_apply, hset.count, if_pos states, if_pos states]
    rfl
  cases found : (h.machine w).state? s.toInt with
  | none =>
      rw [step_apply, step_apply, hset.count, if_neg states, if_neg states, hm.machine,
        Machine.state?_map, found]
      rfl
  | some state =>
      have found' : (h'.machine (view w)).state? s.toInt = some (state.map g a) := by
        rw [hm.machine, Machine.state?_map, found]
        rfl
      have states' : setting'.count ≠ 0 := by rwa [hset.count]
      rw [step_apply_of_found h states found, step_apply_of_found h' states' found']
      refine Effect.Mirrors.bind (mirrors_firstMatch (hm.transitionsOf s) hm.test x fuel 0)
        (fun r => ?_) w
      rcases r with _ | ⟨i, t⟩
      · exact .bind (hm.remark setting setting' _) fun _ => .pure id _
      · exact .map (hm.take hset s p x i t) fun _ => rfl

variable {next : Source ω ν ξ} {next' : Source ω' ν' ξ} {f : ν → ν'}

/-- A source that mirrors another one gives the same symbols. -/
def Feeds (view : ω → ω') (f : ν → ν') (next : Source ω ν ξ) (next' : Source ω' ν' ξ) : Prop :=
  ∀ s, Effect.Mirrors view (Option.map (Prod.map id f)) (next s) (next' (f s))

theorem drive (hm : h.Mirrors h' view g a) (hnext : Feeds view f next next')
    (hset : setting.Mirrors setting' view) (fuel : Nat) (s : StateId) (p : Nat) (source : ν) :
    Effect.Mirrors view id (h.drive next setting fuel s p source)
      (h'.drive next' setting' fuel s p (f source)) := by
  induction fuel generalizing s p source with
  | zero => exact .stall _
  | succ fuel ih =>
      rw [drive_succ_eq_bind, drive_succ_eq_bind]
      refine .bind (hnext source) fun given => ?_
      rcases given with _ | ⟨x, rest⟩
      · exact .pure id _
      · refine .bind (hm.step hset fuel s p x) fun moved => ?_
        cases moved with
        | none => exact .pure id _
        | some target => exact ih target (p + 1) rest

/-- **A run in the view answers what the run answers.** -/
theorem run (hm : h.Mirrors h' view g a) (hnext : Feeds view f next next') (fuel : Nat)
    {actions : ω → Bool} {actions' : ω' → Bool} (hactions : ∀ w, actions' (view w) = actions w)
    (source : ν) :
    Effect.Mirrors view id (h.run next fuel actions source)
      (h'.run next' fuel actions' (f source)) := by
  intro w
  have hset : (h.settingAt actions w).Mirrors (h'.settingAt actions' (view w)) view :=
    ⟨by rw [settingAt, hm.machine, Machine.size_map]; rfl, hactions⟩
  rw [run_apply, run_apply]
  exact hm.drive hnext hset fuel .start 1 source w

theorem accepts (hm : h.Mirrors h' view g a) (hnext : Feeds view f next next') (fuel : Nat)
    (source : ν) :
    Effect.Mirrors view id (h.accepts next fuel source) (h'.accepts next' fuel (f source)) := by
  refine .bind (hm.run hnext fuel (fun _ => rfl) source) fun outcome => ?_
  change Effect.Mirrors view id (if outcome.isSuccess then _ else _)
    (if outcome.isSuccess then _ else _)
  split
  · exact .bind (hm.stateNow _) fun state => .pure id _
  · exact .pure id _

end Mirrors

/-! ## The calls of a run -/

theorem traced_test (h : Host ω γ α ξ) (c : γ) (x : ξ) :
    h.traced.test c x = (h.test c x).recorded fun r => [.asked c x r] := rfl

theorem traced_perform (h : Host ω γ α ξ) (b : α) (x : ξ) :
    h.traced.perform b x = (h.perform b x).recorded fun r => [.performed b x r] := rfl

/-- The call with its callback seen otherwise. -/
def Call.map (g : γ → γ') (a : α → α') : Call γ α ξ → Call γ' α' ξ
  | drawn r => .drawn r
  | asked c x r => .asked (g c) x r
  | performed b x r => .performed (a b) x r

namespace Mirrors

variable {h : Host ω γ α ξ} {h' : Host ω' γ' α' ξ} {view : ω → ω'} {g : γ → γ'} {a : α → α'}

theorem recorded_pure (b : β) :
    (pure b : Effect ω β).recorded (fun _ => ([] : List κ)) = pure b := by
  funext v
  change (Except.ok b, (v.1, v.2 ++ [])) = (Except.ok b, v)
  rw [List.append_nil]

/-- **The diaries are the same, with the callbacks seen as the view has them.** -/
theorem traced (hm : h.Mirrors h' view g a) :
    h.traced.Mirrors h'.traced (Effect.Mirrors.beside view (Call.map g a)) g a where
  machine v := hm.machine v.1
  test c x := by
    rw [traced_test, traced_test]
    refine (hm.test c x).recorded ?_
    intro r
    rw [Effect.map_id_except]
    rfl
  perform b x := by
    rw [traced_perform, traced_perform]
    refine (hm.perform b x).recorded ?_
    intro r
    rw [Effect.map_id_except]
    rfl
  unseen note := by
    have hnothing : (pure () : Effect (ω' × List (Call γ' α' ξ)) Unit) =
        (pure () : Effect ω' Unit).recorded fun _ => [] := (recorded_pure ()).symm
    rw [hnothing]
    refine (hm.unseen note).recorded ?_
    exact fun _ => rfl
  silent note v := by
    change (match h'.record note (view v.1) with
      | (r, w) => (r, (w, v.2.map (Call.map g a) ++ []))) = _
    rw [hm.silent, List.append_nil]
    rfl

/-- The calls of a source are the same too. -/
theorem Feeds.traced {next : Source ω ν ξ} {next' : Source ω' ν' ξ} {f : ν → ν'}
    (hnext : Feeds view f next next') :
    Feeds (Effect.Mirrors.beside view (Call.map g a)) f next.traced next'.traced := by
  intro s
  refine (hnext s).recorded ?_
  intro r
  rcases r with _ | _ | ⟨x, rest⟩ <;> rfl

/-- Without its diary, a traced run is the run. -/
theorem untraced (hm : h.Mirrors h' view g a) :
    h.traced.Mirrors h' (fun v => view v.1) g a where
  machine v := hm.machine v.1
  test c x := (hm.test c x).of_recorded
  perform b x := (hm.perform b x).of_recorded
  unseen note := (hm.unseen note).of_recorded
  silent note v := hm.silent note v.1

theorem Feeds.untraced {next : Source ω ν ξ} {next' : Source ω' ν' ξ} {f : ν → ν'}
    (hnext : Feeds view f next next') :
    Feeds (fun v : ω × List (Call γ α ξ) => view v.1) f next.traced next' :=
  fun s => (hnext s).of_recorded

end Mirrors

end Host

end SymbolMachine
