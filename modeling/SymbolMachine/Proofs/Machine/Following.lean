/-
Two runs in related worlds, of which the first may stall.

A computation is followed by another one if the two answer the same in related worlds and leave
related worlds behind, unless the first of them stalls: then nothing is said about the second. This
is kept by composing, so if the callbacks of a host are followed by those of another, so are its
runs (`Host.Follows.run`), and then the calls of the two runs are the same in order, each with the
same answer (`Host.Follows.traced`).

A view of the world (`Effect.Mirrors`) says more where it applies. Here the two worlds need not
determine each other, and the second run may come to an end where the first one does not.
-/
import SymbolMachine.Proofs.Machine.Mirror

set_option autoImplicit false

namespace SymbolMachine

variable {ω ω' γ α ξ ν β κ : Type}

/-! ## Computations -/

namespace Effect

/-- One answer and related worlds, unless the first computation stalled. -/
def Agrees (S : ω → ω' → Prop) (r : Except Stop β × ω) (r' : Except Stop β × ω') : Prop :=
  r.1 = .error .stalled ∨ r'.1 = r.1 ∧ S r.2 r'.2

/-- The second computation does what the first one does, unless that one stalls. -/
def Follows (S : ω → ω' → Prop) (e : Effect ω β) (e' : Effect ω' β) : Prop :=
  ∀ w w', S w w' → Agrees S (e w) (e' w')

variable {S : ω → ω' → Prop} {e : Effect ω β} {e' : Effect ω' β}

theorem Agrees.of_eq {r : Except Stop β × ω} {r' : Except Stop β × ω'} (h : r'.1 = r.1)
    (hS : S r.2 r'.2) : Agrees S r r' := .inr ⟨h, hS⟩

/-- **One computation after another.** -/
theorem Agrees.bind {f : β → Effect ω κ} {f' : β → Effect ω' κ} {w : ω} {w' : ω'}
    (h : Agrees S (e w) (e' w')) (hf : ∀ b, Follows S (f b) (f' b)) :
    Agrees S ((e >>= f) w) ((e' >>= f') w') := by
  rcases he : e w with ⟨s | b, w₁⟩ <;> rcases he' : e' w' with ⟨r', w₁'⟩ <;> rw [he, he'] at h
  · rw [bind_apply_of_error w he]
    rcases h with ⟨⟨⟩⟩ | ⟨rfl, hS⟩
    · exact .inl rfl
    · rw [bind_apply_of_error w' he']
      exact .of_eq rfl hS
  · rcases h with ⟨⟨⟩⟩ | ⟨rfl, hS⟩
    rw [bind_apply_of_ok w he, bind_apply_of_ok w' he']
    exact hf b w₁ w₁' hS

namespace Follows

theorem pure (b : β) : Follows S (pure b : Effect ω β) (pure b : Effect ω' β) :=
  fun _ _ hS => .of_eq rfl hS

theorem raise (x : Fault) :
    Follows S (Effect.raise x : Effect ω β) (Effect.raise x : Effect ω' β) :=
  fun _ _ hS => .of_eq rfl hS

theorem stall : Follows S (Effect.stall : Effect ω β) e' := fun _ _ _ => .inl rfl

theorem bind {f : β → Effect ω κ} {f' : β → Effect ω' κ} (he : Follows S e e')
    (hf : ∀ b, Follows S (f b) (f' b)) : Follows S (e >>= f) (e' >>= f') :=
  fun w w' hS => (he w w' hS).bind hf

theorem map (g : β → κ) (he : Follows S e e') : Follows S (g <$> e) (g <$> e') := by
  intro w w' hS
  rw [map_apply, map_apply]
  rcases he w w' hS with hstall | ⟨hanswer, hleft⟩
  · exact .inl (by rw [hstall]; rfl)
  · exact .of_eq (by rw [hanswer]) hleft

/-- Handling faults leaves nothing to tell the two apart. -/
theorem attempt (he : Follows S e e') : Follows S e.attempt e'.attempt := by
  intro w w' hS
  rcases h : e w with ⟨(f | _) | b, w₁⟩ <;> rcases h' : e' w' with ⟨r', w₁'⟩ <;>
    have hagrees := he w w' hS <;> rw [h, h'] at hagrees <;>
    rcases hagrees with ⟨⟨⟩⟩ | ⟨rfl, hleft⟩
  all_goals
    unfold Effect.attempt
    rw [h]
  · rw [h']
    exact .of_eq rfl hleft
  · exact .inl rfl
  · exact .inl rfl
  · rw [h']
    exact .of_eq rfl hleft

/-- Two worlds with diaries are related if the worlds are and the diaries are one. -/
def Beside (S : ω → ω' → Prop) (v : ω × List κ) (v' : ω' × List κ) : Prop :=
  S v.1 v'.1 ∧ v.2 = v'.2

/-- What is entered in a diary follows with the computation. -/
theorem recorded (entry : Except Stop β → List κ) (he : Follows S e e') :
    Follows (Beside S) (e.recorded entry) (e'.recorded entry) := by
  rintro ⟨w, diary⟩ ⟨w', _⟩ ⟨hS, rfl⟩
  rcases he w w' hS with hstall | ⟨hanswer, hleft⟩
  · exact .inl hstall
  · refine .of_eq hanswer ⟨hleft, ?_⟩
    change diary ++ entry _ = diary ++ entry _
    rw [hanswer]

/-- A computation follows its copy that keeps a diary. -/
theorem of_recorded (entry : Except Stop β → List κ) (e : Effect ω β) :
    Follows (fun v w => v.1 = w) (e.recorded entry) e := by
  rintro ⟨w, diary⟩ _ rfl
  exact .of_eq rfl rfl

end Follows

end Effect

/-! ## Scans -/

theorem follows_firstMatch {S : ω → ω' → Prop} {transitions : ω → List (Transition γ α)}
    {transitions' : ω' → List (Transition γ α)} {test : γ → ξ → Effect ω Bool}
    {test' : γ → ξ → Effect ω' Bool} (ht : ∀ w w', S w w' → transitions' w' = transitions w)
    (hasked : ∀ g x, Effect.Follows S (test g x) (test' g x)) (x : ξ) (fuel i : Nat) :
    Effect.Follows S (firstMatch transitions test x fuel i)
      (firstMatch transitions' test' x fuel i) := by
  induction fuel generalizing i with
  | zero => exact .stall
  | succ fuel ih =>
      intro w w' hS
      have hsame := ht w w' hS
      cases here : (transitions w)[i]? with
      | none =>
          rw [firstMatch_succ, firstMatch_succ, hsame, here]
          exact .of_eq rfl hS
      | some t =>
          rw [firstMatch_apply_of_some here, firstMatch_apply_of_some (by rw [hsame, here])]
          refine (hasked t.guard x w w' hS).bind fun b => ?_
          cases b with
          | true => exact .pure _
          | false => exact ih (i + 1)

/-! ## Runs -/

namespace Host

/-- The callbacks of the second host follow those of the first one. Whether detailed notes are
wanted may differ, if a note that is made on one side only keeps the worlds related. -/
structure Follows (S : ω → ω' → Prop) (h : Host ω γ α ξ) (h' : Host ω' γ α ξ) : Prop where
  machine : ∀ w w', S w w' → h'.machine w' = h.machine w
  test : ∀ g x, Effect.Follows S (h.test g x) (h'.test g x)
  perform : ∀ a x, Effect.Follows S (h.perform a x) (h'.perform a x)
  record : ∀ note, Effect.Follows S (h.record note) (h'.record note)
  detail : ∀ w w', S w w' → ∀ note, Effect.Follows S
    (if h.detailed w then h.record note else pure ())
    (if h'.detailed w' then h'.record note else pure ())

/-- Two runs that know as many states, want actions in the same worlds, and remark on what they do
without parting for it. -/
structure Setting.Follows (S : ω → ω' → Prop) (h : Host ω γ α ξ) (h' : Host ω' γ α ξ)
    (setting : Setting ω) (setting' : Setting ω') : Prop where
  count : setting'.count = setting.count
  actions : ∀ w w', S w w' → setting'.actions w' = setting.actions w
  remark : ∀ note, Effect.Follows S (h.remark setting note) (h'.remark setting' note)

namespace Follows

variable {S : ω → ω' → Prop} {h : Host ω γ α ξ} {h' : Host ω' γ α ξ} {setting : Setting ω}
  {setting' : Setting ω'}

theorem transitionsOf (hf : Follows S h h') (s : StateId) {w : ω} {w' : ω'} (hS : S w w') :
    h'.transitionsOf s w' = h.transitionsOf s w := by
  rw [Host.transitionsOf, Host.transitionsOf, hf.machine w w' hS]

theorem stateNow (hf : Follows S h h') (s : StateId) :
    Effect.Follows S (h.stateNow s) (h'.stateNow s) := by
  intro w w' hS
  rw [stateNow_apply, stateNow_apply, hf.machine w w' hS]
  cases (h.machine w).state? s.toInt with
  | none => exact .of_eq rfl hS
  | some state => exact .of_eq rfl hS

theorem performDue (hf : Follows S h h') (x : ξ) (a : Option α) :
    Effect.Follows S (h.performDue x a) (h'.performDue x a) := by
  cases a with
  | none => exact .pure _
  | some a => exact hf.perform a x

theorem arrive (hf : Follows S h h') (hset : setting.Follows S h h' setting') (s : StateId)
    (p : Nat) (x : ξ) (i : Nat) (t : Transition γ α) :
    Effect.Follows S (h.arrive setting s p x i t) (h'.arrive setting' s p x i t) := by
  have hknows : setting'.Knows t.target ↔ setting.Knows t.target := by
    rw [Setting.Knows, hset.count]
    rfl
  unfold Host.arrive
  simp only [hknows, hset.count]
  split
  · exact .bind (hset.remark _) fun _ => .pure _
  · exact .bind (hf.record _) fun _ => .raise _

theorem take (hf : Follows S h h') (hset : setting.Follows S h h' setting') (s : StateId)
    (p : Nat) (x : ξ) (i : Nat) (t : Transition γ α) :
    Effect.Follows S (h.take setting s p x i t) (h'.take setting' s p x i t) := by
  intro w w' hS
  have hdue : due setting' t w' = due setting t w := by
    rw [due, due, hset.actions w w' hS]
  rw [take_apply, take_apply, hdue]
  exact (hf.performDue x _ w w' hS).bind fun _ => hf.arrive hset s p x i t

theorem step (hf : Follows S h h') (hset : setting.Follows S h h' setting') (fuel : Nat)
    (s : StateId) (p : Nat) (x : ξ) :
    Effect.Follows S (h.step setting fuel s p x) (h'.step setting' fuel s p x) := by
  have hscan := follows_firstMatch (fun w w' hS => hf.transitionsOf s hS) hf.test x fuel 0
  unfold Host.step
  rw [hset.count]
  split
  on_goal 1 => refine .bind (.raise _) fun _ => ?_
  all_goals
    refine .bind (hf.stateNow s) fun _ => .bind hscan fun r => ?_
    rcases r with _ | ⟨i, t⟩
    · exact .bind (hset.remark _) fun _ => .pure _
    · exact (hf.take hset s p x i t).map some

/-- The sources give the same symbols. -/
def Feeds (S : ω → ω' → Prop) (next : Source ω ν ξ) (next' : Source ω' ν ξ) : Prop :=
  ∀ s, Effect.Follows S (next s) (next' s)

theorem Feeds.ofList : Feeds S (.ofList : Source ω (List ξ) ξ) .ofList
  | [] => .pure _
  | _ :: _ => .pure _

variable {next : Source ω ν ξ} {next' : Source ω' ν ξ}

theorem drive (hf : Follows S h h') (hnext : Feeds S next next')
    (hset : setting.Follows S h h' setting') (fuel : Nat) (s : StateId) (p : Nat) (source : ν) :
    Effect.Follows S (h.drive next setting fuel s p source)
      (h'.drive next' setting' fuel s p source) := by
  induction fuel generalizing s p source with
  | zero => exact .stall
  | succ fuel ih =>
      rw [drive_succ_eq_bind, drive_succ_eq_bind]
      refine .bind (hnext source) fun given => ?_
      rcases given with _ | ⟨x, rest⟩
      · exact .pure _
      · refine .bind (hf.step hset fuel s p x) fun moved => ?_
        cases moved with
        | none => exact .pure _
        | some target => exact ih target (p + 1) rest

/-- **A run is followed by the run of the host that follows.** -/
theorem run (hf : Follows S h h') (hnext : Feeds S next next') (fuel : Nat) {actions : ω → Bool}
    {actions' : ω' → Bool} (hactions : ∀ w w', S w w' → actions' w' = actions w) (source : ν) :
    Effect.Follows S (h.run next fuel actions source) (h'.run next' fuel actions' source) := by
  intro w w' hS
  have hset : (h.settingAt actions w).Follows S h h' (h'.settingAt actions' w') :=
    ⟨by rw [settingAt, hf.machine w w' hS]; rfl, hactions, hf.detail w w' hS⟩
  rw [run_apply, run_apply]
  exact hf.drive hnext hset fuel .start 1 source w w' hS

/-! ### The calls of a run -/

/-- A note is made with a diary beside it as it is without. -/
theorem recorded_ite (wanted : Bool) (e : Effect ω Unit) :
    (if wanted then e.recorded (fun _ => []) else pure () : Effect (ω × List κ) Unit) =
      (if wanted then e else pure ()).recorded fun _ => [] := by
  cases wanted with
  | true => rfl
  | false => exact (Mirrors.recorded_pure ()).symm

/-- **The diaries are one.** -/
theorem traced (hf : Follows S h h') :
    Follows (Effect.Follows.Beside S) h.traced h'.traced where
  machine v v' hS := hf.machine v.1 v'.1 hS.1
  test g x := (hf.test g x).recorded _
  perform a x := (hf.perform a x).recorded _
  record note := (hf.record note).recorded _
  detail v v' hS note := by
    have hdetail := (hf.detail v.1 v'.1 hS.1 note).recorded (κ := Call γ α ξ) fun _ => []
    rw [← recorded_ite, ← recorded_ite] at hdetail
    exact hdetail

theorem Feeds.traced (hnext : Feeds S next next') :
    Feeds (Effect.Follows.Beside (κ := Call γ α ξ) S) next.traced next'.traced :=
  fun s => (hnext s).recorded _

/-- The run itself follows the run that keeps a diary. -/
theorem untraced (h : Host ω γ α ξ) : Follows (fun v w => v.1 = w) h.traced h where
  machine := by
    rintro v _ rfl
    rfl
  test g x := .of_recorded _ _
  perform a x := .of_recorded _ _
  record note := .of_recorded _ _
  detail := by
    rintro v _ rfl note
    have hdetail := Effect.Follows.of_recorded (κ := Call γ α ξ) (fun _ => [])
      (if h.detailed v.1 then h.record note else pure ())
    rw [← recorded_ite] at hdetail
    exact hdetail

theorem Feeds.untraced (next : Source ω ν ξ) :
    Feeds (fun (v : ω × List (Call γ α ξ)) w => v.1 = w) next.traced next :=
  fun _ => .of_recorded _ _

end Follows

end Host

end SymbolMachine
