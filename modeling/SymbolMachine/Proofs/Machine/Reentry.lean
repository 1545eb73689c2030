/-
Callbacks that run the machine that calls them.

A callback of a run may use the same machine while the run is waiting for it: run it on other
symbols, ask whether it accepts them, search a state, and do so again from within the callbacks of
these. A run keeps its place and its symbol to itself, so nothing of this disturbs it, as long as
the machine stays as it is and the callback's own work is not disturbed: then the outer run ends,
and calls its callbacks, as if they had left all that out.

What a callback leaves out are excursions (`Excursion`): any number of uses of the machine, one
after another, each of which may depend on how the ones before came out, and none of which makes
the callback fail. What is left is its own work, and `Interleaved` says how the two are put
together. The own work may depend on the machine and on some state of the world that no excursion
changes, such as whether there is a token to extend. Of the rest of the world nothing is asked.

Uses of a machine whose callbacks use it again are cut by depth: the callbacks of `h (n + 1)` use
`h n`, and those of `h 0` stall where they would use the machine.
-/
import SymbolMachine.Proofs.Machine.Following
import SymbolMachine.Session.Perform

set_option autoImplicit false

namespace SymbolMachine

variable {ω γ α ξ β κ τ : Type}

namespace Effect

/-! ## Parts of the world that stay as they are -/

/-- A part of the world is the same in both worlds. -/
def SamePart (part : ω → τ) (w w' : ω) : Prop := part w' = part w

instance (part : ω → τ) : IsPreorder ω (SamePart part) where
  refl _ := rfl
  trans _ _ _ h h' := Eq.trans h' h

/-- The computation leaves a part of the world as it is. -/
abbrev Spares (part : ω → τ) (e : Effect ω β) : Prop := Keeps (SamePart part) e

theorem Keeps.attempt {R : ω → ω → Prop} {e : Effect ω β} (he : Keeps R e) : Keeps R e.attempt := by
  intro w
  rw [attempt_world]
  exact he w

/-- Two parts of a world are the same in both worlds. -/
def Alike (graph : ω → κ) (state : ω → τ) (w w' : ω) : Prop :=
  SamePart graph w w' ∧ SamePart state w w'

/-- The computation answers or stalls, and does not fail. -/
def Survives (e : Effect ω β) : Prop := ∀ w f, (e w).1 ≠ .error (.fault f)

theorem Survives.attempt_bind {e : Effect ω κ} {k : Except Fault κ → Effect ω β}
    (hk : ∀ r, Survives (k r)) : Survives (e.attempt >>= k) := by
  intro w f
  rcases he : e w with ⟨(g | _) | b, w₁⟩
  · have hattempt : e.attempt w = (.ok (.error g), w₁) := by rw [Effect.attempt, he]
    rw [bind_apply_of_ok w hattempt]
    exact hk _ w₁ f
  · have hattempt : e.attempt w = (.error .stalled, w₁) := by rw [Effect.attempt, he]
    rw [bind_apply_of_error w hattempt]
    rintro ⟨⟩
  · have hattempt : e.attempt w = (.ok (.ok b), w₁) := by rw [Effect.attempt, he]
    rw [bind_apply_of_ok w hattempt]
    exact hk _ w₁ f

/-! ## Work with calls in between -/

/-- The first computation is the second one with calls in between. Each piece of the work leaves
one part of the world alone and depends on it and another part, which no call changes. -/
inductive Interleaved (calls : Effect ω Unit → Prop) (graph : ω → κ) (state : ω → τ) :
    {β : Type} → Effect ω β → Effect ω β → Prop
  | own {β : Type} {e : Effect ω β} (spares : Spares graph e)
      (heeds : Follows (Alike graph state) e e) : Interleaved calls graph state e e
  | call {c : Effect ω Unit} (call : calls c) (spares : Spares state c) :
      Interleaved calls graph state c (pure ())
  | bind {β δ : Type} {e e' : Effect ω β} {f f' : β → Effect ω δ}
      (first : Interleaved calls graph state e e')
      (second : ∀ b, Interleaved calls graph state (f b) (f' b)) :
      Interleaved calls graph state (e >>= f) (e' >>= f')
  | attempt {β : Type} {e e' : Effect ω β} (inner : Interleaved calls graph state e e') :
      Interleaved calls graph state e.attempt e'.attempt

namespace Interleaved

variable {calls : Effect ω Unit → Prop} {graph : ω → κ} {state : ω → τ} {e e' : Effect ω β}

theorem pure (b : β) : Interleaved calls graph state (pure b) (Pure.pure b) :=
  .own (.pure b) (.pure b)

theorem raise (f : Fault) :
    Interleaved calls graph state (Effect.raise f : Effect ω β) (Effect.raise f) :=
  .own (.raise f) (.raise f)

theorem spares (hcalls : ∀ c, calls c → Spares graph c) (h : Interleaved calls graph state e e') :
    Spares graph e := by
  induction h with
  | own spares => exact spares
  | call call => exact hcalls _ call
  | bind _ _ first second => exact .bind first second
  | attempt _ inner => exact inner.attempt

/-- **Calls in between make no difference to the work.** -/
theorem follows (hcalls : ∀ c, calls c → Spares graph c ∧ Survives c)
    (h : Interleaved calls graph state e e') : Follows (Alike graph state) e e' := by
  induction h with
  | own _ heeds => exact heeds
  | @call c call spares =>
      obtain ⟨hgraph, hsurvives⟩ := hcalls c call
      rintro w w' ⟨hsame, hstate⟩
      rcases hanswer : (c w).1 with (f | _) | ⟨⟩
      · exact absurd hanswer (hsurvives w f)
      · exact .inl hanswer
      · refine .of_eq hanswer.symm ⟨?_, ?_⟩
        · exact hsame.trans (hgraph w).symm
        · exact hstate.trans (spares w).symm
  | bind _ _ first second => exact .bind first second
  | attempt _ inner => exact inner.attempt

end Interleaved

end Effect

/-- Fuel for the transitions of every state of a machine is some fuel. -/
theorem Machine.Contains.exists_fuel {m : Machine γ α} {s : StateId} (hs : m.Contains s)
    {n fuel : Nat} (hfuel : ∀ state ∈ m.states, state.transitions.length + n < fuel) :
    ∃ k, fuel = k + 1 := by
  obtain ⟨state, found⟩ := hs.exists_state
  have hlength := hfuel state (Machine.mem_states_of_state? found)
  exact Nat.exists_eq_add_one.mpr (Nat.zero_lt_of_lt hlength)

/-! ## Uses of a machine -/

namespace Host

/-- What a callback may do beside its own work: run the machine, with or without actions and on
whatever symbols, ask whether it accepts, search a state of it, or do anything else that leaves the
machine as it is. -/
inductive Nested (h : Host ω γ α ξ) : {β : Type} → Effect ω β → Prop
  | run {ν : Type} (next : Source ω ν ξ) (spares : ∀ s, Effect.Spares h.machine (next s))
      (fuel : Nat) (actions : ω → Bool) (source : ν) : Nested h (h.run next fuel actions source)
  | accepts {ν : Type} (next : Source ω ν ξ) (spares : ∀ s, Effect.Spares h.machine (next s))
      (fuel : Nat) (source : ν) : Nested h (h.accepts next fuel source)
  | search (s : StateId) (x : ξ) (fuel : Nat) :
      Nested h (firstMatch (h.transitionsOf s) h.test x fuel 0)
  | aside {β : Type} {e : Effect ω β} (spares : Effect.Spares h.machine e) : Nested h e

/-- Any number of such uses. What one of them answers or raises may decide how to go on. -/
inductive Excursion (h : Host ω γ α ξ) : Effect ω Unit → Prop
  | done : Excursion h (pure ())
  | next {β : Type} {e : Effect ω β} {k : Except Fault β → Effect ω Unit} (nested : Nested h e)
      (rest : ∀ r, Excursion h (k r)) : Excursion h (e.attempt >>= k)

/-- What the callbacks of a host may do in between, by the depth that is left for it. -/
def CallAt (h : Nat → Host ω γ α ξ) : Nat → Effect ω Unit → Prop
  | 0, c => c = Effect.stall
  | n + 1, c => Excursion (h n) c

section Spares

variable {h : Host ω γ α ξ} (htest : ∀ g x, Effect.Spares h.machine (h.test g x))
  (hperform : ∀ a x, Effect.Spares h.machine (h.perform a x))
  (hrecord : ∀ note, Effect.Spares h.machine (h.record note))
include htest hperform hrecord

/-- A use of a machine whose callbacks leave it alone leaves it alone. -/
theorem Nested.spares {e : Effect ω β} (nested : Nested h e) : Effect.Spares h.machine e := by
  have hcut : ∀ {ν : Type} {next : Source ω ν ξ}, (∀ s, Effect.Spares h.machine (next s)) →
      CallbacksCut h h next next (Effect.SamePart h.machine) := fun hnext =>
    ⟨rfl, rfl, fun s => (hnext s).cut, fun g x => (htest g x).cut, fun a x => (hperform a x).cut,
      fun note => (hrecord note).cut⟩
  cases nested with
  | run next hnext fuel actions source => exact ((hcut hnext).run fuel actions source).keeps
  | accepts next hnext fuel source => exact ((hcut hnext).accepts fuel source).keeps
  | search s x fuel => exact (cut_firstMatch _ (fun g x => (htest g x).cut) x fuel 0).keeps
  | aside hspares => exact hspares

theorem Excursion.spares {c : Effect ω Unit} (excursion : Excursion h c) :
    Effect.Spares h.machine c := by
  induction excursion with
  | done => exact .pure ()
  | next nested _ rest => exact .bind (nested.spares htest hperform hrecord).attempt rest

end Spares

theorem Excursion.survives {h : Host ω γ α ξ} {c : Effect ω Unit} (excursion : Excursion h c) :
    c.Survives := by
  induction excursion with
  | done => exact fun _ _ => nofun
  | next _ _ rest => exact .attempt_bind rest

/-- Hosts of growing depth whose callbacks do the work of another host, with uses of the host one
level below in between. Notes do not fail and leave alone what the work depends on. -/
structure Reentrant (bare : Host ω γ α ξ) (h : Nat → Host ω γ α ξ) (state : ω → τ) : Prop where
  machine : ∀ n, (h n).machine = bare.machine
  record : ∀ n, (h n).record = bare.record
  logs : bare.LogsSafely
  notesSpareMachine : bare.NotesSpare bare.machine
  notesSpareState : bare.NotesSpare state
  test : ∀ n g x,
    Effect.Interleaved (CallAt h n) bare.machine state ((h n).test g x) (bare.test g x)
  perform : ∀ n a x,
    Effect.Interleaved (CallAt h n) bare.machine state ((h n).perform a x) (bare.perform a x)

namespace Reentrant

variable {bare : Host ω γ α ξ} {h : Nat → Host ω γ α ξ} {state : ω → τ}

/-- Whatever the depth, what happens in between leaves the machine as it is. The callbacks of one
level do because what they do in between does, and that does because the callbacks of the level
below do. -/
theorem callAt_spares (hr : Reentrant bare h state) (n : Nat) (c : Effect ω Unit)
    (hc : CallAt h n c) : Effect.Spares bare.machine c := by
  induction n generalizing c with
  | zero =>
      obtain rfl : c = Effect.stall := hc
      exact .stall
  | succ n ih =>
      have hspares := Excursion.spares (h := h n) (c := c)
      rw [hr.machine n, hr.record n] at hspares
      exact hspares (fun g x => (hr.test n g x).spares ih) (fun a x => (hr.perform n a x).spares ih)
        hr.notesSpareMachine hc

theorem test_spares (hr : Reentrant bare h state) (n : Nat) (g : γ) (x : ξ) :
    Effect.Spares bare.machine ((h n).test g x) := (hr.test n g x).spares (hr.callAt_spares n)

theorem perform_spares (hr : Reentrant bare h state) (n : Nat) (a : α) (x : ξ) :
    Effect.Spares bare.machine ((h n).perform a x) := (hr.perform n a x).spares (hr.callAt_spares n)

theorem callAt_survives (n : Nat) (c : Effect ω Unit) (hc : CallAt h n c) : c.Survives := by
  cases n with
  | zero =>
      obtain rfl : c = Effect.stall := hc
      exact fun _ _ => nofun
  | succ n => exact Excursion.survives hc

/-- No use of the machine changes it, at any depth. -/
theorem nested_spares (hr : Reentrant bare h state) {n : Nat} {e : Effect ω β}
    (nested : Nested (h n) e) : Effect.Spares bare.machine e := by
  have hspares := Nested.spares (h := h n) (e := e)
  rw [hr.machine n, hr.record n] at hspares
  exact hspares (hr.test_spares n) (hr.perform_spares n) hr.notesSpareMachine nested

theorem staysWithin (hr : Reentrant bare h state) (n : Nat) (m : Machine γ α) :
    (h n).StaysWithin .ofList (fun v => (h n).machine v = m) m := by
  rw [hr.machine]
  refine ⟨?_, fun t _ x v hv => (hr.test_spares n t.guard x v).trans hv,
    fun _ _ a _ x v hv => (hr.perform_spares n a x v).trans hv, fun note v hv => ?_⟩
  · rintro (_ | ⟨x, xs⟩) v hv <;> exact hv
  · rw [hr.record]
    exact (hr.notesSpareMachine note v).trans hv

theorem logsSafely (hr : Reentrant bare h state) (n : Nat) : (h n).LogsSafely := by
  unfold LogsSafely
  rw [hr.record]
  exact hr.logs

/-- A note that is made on one side only leaves the worlds alike. -/
theorem follows_note (hr : Reentrant bare h state) (note : Note ξ) (made made' : Bool) :
    Effect.Follows (Effect.Alike bare.machine state)
      (if made then bare.record note else pure ()) (if made' then bare.record note else pure ()) := by
  have hnote : ∀ (made : Bool) (w : ω),
      ((if made then bare.record note else pure () : Effect ω Unit) w).1 = .ok () ∧
        Effect.Alike bare.machine state w
          ((if made then bare.record note else pure () : Effect ω Unit) w).2 := by
    intro made w
    cases made with
    | true => exact ⟨hr.logs note w, hr.notesSpareMachine note w, hr.notesSpareState note w⟩
    | false => exact ⟨rfl, rfl, rfl⟩
  rintro w w' ⟨hmachine, hstate⟩
  obtain ⟨hanswer, hmachine₁, hstate₁⟩ := hnote made w
  obtain ⟨hanswer', hmachine₂, hstate₂⟩ := hnote made' w'
  refine .of_eq (hanswer'.trans hanswer.symm) ⟨?_, ?_⟩
  · exact hmachine₂.trans (hmachine.trans hmachine₁.symm)
  · exact hstate₂.trans (hstate.trans hstate₁.symm)

/-- **Without what happens in between, the host does the same.** -/
theorem follows (hr : Reentrant bare h state) (n : Nat) :
    Follows (Effect.Alike bare.machine state) (h n) bare where
  machine w w' hS := by
    rw [hr.machine]
    exact hS.1
  test g x := (hr.test n g x).follows fun c hc => ⟨hr.callAt_spares n c hc, callAt_survives n c hc⟩
  perform a x :=
    (hr.perform n a x).follows fun c hc => ⟨hr.callAt_spares n c hc, callAt_survives n c hc⟩
  record note := by
    rw [hr.record]
    exact hr.follows_note note true true
  detail w w' _ note := by
    rw [hr.record]
    exact hr.follows_note note _ _

end Reentrant

/-! ## Runs over finitely many symbols -/

section Finite

variable {h : Host ω γ α ξ} {m : Machine γ α}
  (hkeep : h.StaysWithin .ofList (fun v => h.machine v = m) m) (hlog : h.LogsSafely) (wanted : Bool)
  (detailed : Bool)
include hkeep hlog

/-- With fuel for each symbol and each transition a run over finitely many symbols comes to an end,
unless a callback stalls. -/
theorem exists_stalling_call {s : StateId} (hs : m.Contains s) (p : Nat) {xs : List ξ} {fuel : Nat}
    (hfuel : ∀ state ∈ m.states, state.transitions.length + xs.length < fuel) {w : ω}
    (hw : h.machine w = m) :
    ∃ calls r w', Traces (h.drive .ofList ⟨m.size, detailed, fun _ => wanted⟩ fuel s p xs)
        (h.traced.drive Source.ofList.traced ⟨m.size, detailed, fun _ => wanted⟩ fuel s p xs) w
        calls r w' ∧
      (r = .error .stalled → ∃ call ∈ calls, call.Stalls) := by
  obtain ⟨fuel, rfl⟩ := hs.exists_fuel hfuel
  induction xs generalizing s p fuel w with
  | nil =>
      have hgiven : (Source.ofList : Source ω (List ξ) ξ) [] w = (.ok none, w) := rfl
      have hdrawn := traces_next (γ := γ) (α := α) hgiven
      rw [drive_succ_eq_bind, drive_succ_eq_bind]
      exact ⟨_, .ok (.success s), w, hdrawn.bind_silent (traces_pure _ w), nofun⟩
  | cons x xs ih =>
      have hgiven : Source.ofList (x :: xs) w = (.ok (some (x, xs)), w) := rfl
      have hdrawn := traces_next (γ := γ) (α := α) hgiven
      rw [drive_succ_eq_bind, drive_succ_eq_bind]
      obtain ⟨calls, r, w₁, hstep, reaction, hw₁, hstall⟩ :=
        exists_reaction wanted hkeep hlog detailed hs fuel p x hw
      have hrest : ∀ state ∈ m.states, state.transitions.length + xs.length < fuel := by
        intro state hstate
        have hbound := hfuel state hstate
        rw [List.length_cons] at hbound
        omega
      rcases r with e | _ | target
      · refine ⟨_, .error e, w₁, hdrawn.bind hstep.bind_error, ?_⟩
        rintro ⟨⟩
        obtain ⟨call, hcall, hstalls⟩ := hstall rfl fun state hstate => by
          have hbound := hrest state hstate
          omega
        exact ⟨call, List.mem_append_right _ hcall, hstalls⟩
      · exact ⟨_, _, w₁, hdrawn.bind (hstep.bind_silent (traces_pure _ w₁)), nofun⟩
      · have htarget : m.Contains target := by
          cases reaction with
          | moved _ _ _ known => exact known
        obtain ⟨fuel, rfl⟩ := htarget.exists_fuel hrest
        obtain ⟨later, r, w', hdrive, hends⟩ := ih htarget (p + 1) hw₁ fuel hrest
        refine ⟨_, r, w', hdrawn.bind (hstep.bind hdrive), fun hr => ?_⟩
        obtain ⟨call, hcall, hstalls⟩ := hends hr
        exact ⟨call, List.mem_append_right _ (List.mem_append_right _ hcall), hstalls⟩

theorem exists_stalling_call_of_run {xs : List ξ} {fuel : Nat} (hxs : xs.length < fuel)
    (hfuel : ∀ state ∈ m.states, state.transitions.length + xs.length < fuel) {w : ω}
    (hw : h.machine w = m)
    (hstalled : (h.traced.run Source.ofList.traced fuel (fun _ => wanted) xs (w, [])).1 =
      .error .stalled) :
    ∃ call ∈ (h.traced.run Source.ofList.traced fuel (fun _ => wanted) xs (w, [])).2.2,
      call.Stalls := by
  have hsetting : h.traced.settingAt (fun _ => wanted) (w, []) =
      ⟨m.size, h.detailed w, fun _ => wanted⟩ := by
    rw [← hw]
    rfl
  rw [run_apply, hsetting] at hstalled ⊢
  rcases Nat.eq_zero_or_pos m.size with hnone | hsome
  · -- A machine without states takes no symbol, and then nothing stalls.
    obtain ⟨fuel, rfl⟩ := Nat.exists_eq_add_one.mpr (Nat.zero_lt_of_lt hxs)
    rw [drive_succ, hnone] at hstalled
    cases xs with
    | nil => cases hstalled
    | cons x xs =>
        have hgiven : Source.ofList.traced (x :: xs) (w, ([] : List (Call γ α ξ))) =
            (.ok (some (x, xs)), (w, [.drawn (.ok (some x))])) := rfl
        simp only [hgiven, step_apply, if_true] at hstalled
        cases hstalled
  · obtain ⟨calls, r, w', ⟨-, hdiary⟩, hends⟩ := exists_stalling_call hkeep hlog wanted
      (h.detailed w) (.start hsome) 1 hfuel hw
    rw [hdiary] at hstalled ⊢
    exact hends hstalled

end Finite

/-- A run that does not stall is the run that keeps a diary. -/
theorem run_eq_of_traced (h : Host ω γ α ξ) {ν : Type} (next : Source ω ν ξ) (fuel : Nat)
    (wanted : Bool) (source : ν) {w w₁ : ω} {calls : List (Call γ α ξ)}
    {r : Except Stop (Outcome StateId ξ Nat)} (hr : r ≠ .error .stalled)
    (htraced : h.traced.run next.traced fuel (fun _ => wanted) source (w, []) =
      (r, (w₁, calls))) :
    h.run next fuel (fun _ => wanted) source w = (r, w₁) := by
  have hfollows := (Follows.untraced h).run (Follows.Feeds.untraced next) fuel
    (fun _ _ _ => rfl : ∀ _ _, _ → wanted = wanted) source (w, []) w rfl
  rw [htraced] at hfollows
  rcases hfollows with hstalled | ⟨hanswer, hworld⟩
  · exact absurd hstalled hr
  · exact Prod.ext hanswer hworld.symm

/-- **A run is not disturbed by what its callbacks do with the machine in between.** No use of the
machine changes it, whether from outside or from within a callback, at any depth. Take a run over
finitely many symbols with fuel for each symbol and each transition, in which every callback comes
to an end. It ends, with one outcome or fault and one sequence of calls and answers as the run of
the host whose callbacks leave all that out. -/
theorem run_reentrant {bare : Host ω γ α ξ} {h : Nat → Host ω γ α ξ} {state : ω → τ}
    (hr : Reentrant bare h state) :
    (∀ (n : Nat) {β : Type} (e : Effect ω β), Nested (h n) e →
      ∀ w, bare.machine (e w).2 = bare.machine w) ∧
    ∀ (n fuel : Nat) (wanted : Bool) (xs : List ξ) (w : ω), xs.length < fuel →
      (∀ s ∈ (bare.machine w).states, s.transitions.length + xs.length < fuel) →
      let outer := (h n).traced.run Source.ofList.traced fuel (fun _ => wanted) xs (w, [])
      (∀ call ∈ outer.2.2, ¬call.Stalls) →
      ∃ (r : Except Stop (Outcome StateId ξ Nat)) (calls : List (Call γ α ξ)) (w₁ w₂ : ω),
        r ≠ .error .stalled ∧
        (h n).run .ofList fuel (fun _ => wanted) xs w = (r, w₁) ∧ outer = (r, (w₁, calls)) ∧
        bare.run .ofList fuel (fun _ => wanted) xs w = (r, w₂) ∧
        bare.traced.run Source.ofList.traced fuel (fun _ => wanted) xs (w, []) =
          (r, (w₂, calls)) ∧
        bare.machine w₁ = bare.machine w ∧ bare.machine w₂ = bare.machine w := by
  refine ⟨fun n β e nested => hr.nested_spares nested, ?_⟩
  intro n fuel wanted xs w hxs hfuel outer hcalls
  have hmachine : (h n).machine w = bare.machine w := by rw [hr.machine]
  have hends : outer.1 ≠ .error .stalled := by
    intro hstalled
    obtain ⟨call, hcall, hstalls⟩ := exists_stalling_call_of_run (hr.staysWithin n _)
      (hr.logsSafely n) wanted hxs hfuel hmachine hstalled
    exact hcalls call hcall hstalls
  have hfollows := (hr.follows n).traced.run Follows.Feeds.ofList.traced fuel
    (fun _ _ _ => rfl : ∀ _ _, _ → wanted = wanted) xs (w, []) (w, []) ⟨⟨rfl, rfl⟩, rfl⟩
  rcases halone : bare.traced.run Source.ofList.traced fuel (fun _ => wanted) xs (w, []) with
    ⟨r, w₂, calls⟩
  rw [halone] at hfollows
  obtain ⟨rfl, ⟨hsame, -⟩, rfl⟩ := hfollows.resolve_left hends
  have hrun : (h n).run .ofList fuel (fun _ => wanted) xs w = (outer.1, outer.2.1) :=
    run_eq_of_traced (h n) .ofList fuel wanted xs hends rfl
  have hkept : bare.machine outer.2.1 = bare.machine w := by
    have hnested := Nested.run (h := h n) .ofList (fun s => by cases s <;> exact .pure _) fuel
      (fun _ => wanted) xs
    have hspared := hr.nested_spares hnested w
    rwa [hrun] at hspared
  exact ⟨outer.1, outer.2.2, outer.2.1, w₂, hends, hrun, rfl,
    run_eq_of_traced bare .ofList fuel wanted xs hends halone, rfl, hkept, hsame.trans hkept⟩

/-- A machine and a count of visits. Who is asked about a number, or acts on it, pays a visit
first; acting on two fails. -/
def visitor (visit : Nat → Effect (Machine (Nat → Bool) Unit × Nat) Unit) :
    Host (Machine (Nat → Bool) Unit × Nat) (Nat → Bool) Unit Nat where
  machine w := w.1
  test g x := visit x >>= fun _ => pure (g x)
  perform _ x := visit x >>= fun _ => if x = 2 then Effect.raise .outOfRange else pure ()
  record _ := pure ()
  detailed _ := false

/-- A visit runs the machine on the number below, and is counted. -/
def visiting : Nat → Host (Machine (Nat → Bool) Unit × Nat) (Nat → Bool) Unit Nat
  | 0 => visitor fun _ => Effect.stall
  | n + 1 => visitor fun x =>
    match x with
    | 0 => pure ()
    | x + 1 => do
      let _ ← ((visiting n).run .ofList 4 (fun _ => true) [x]).attempt
      let _ ← (modify fun w => (w.1, w.2 + 1) : Effect _ Unit).attempt
      pure ()

theorem visiting_machine (n : Nat) : (visiting n).machine = Prod.fst := by
  cases n <;> rfl

/-- A visit is a use of the machine one level below. -/
theorem exists_visit (n : Nat) :
    ∃ visit, visiting n = visitor visit ∧ ∀ x, CallAt visiting n (visit x) := by
  rcases n with _ | n
  · exact ⟨_, rfl, fun _ => rfl⟩
  · refine ⟨_, rfl, ?_⟩
    rintro (_ | x)
    · exact .done
    · refine .next (.run _ (fun s => ?_) _ _ _) fun _ => .next (.aside fun w => ?_) fun _ => .done
      · cases s <;> exact .pure _
      · rw [visiting_machine]
        rfl

theorem visiting_reentrant : Reentrant (visitor fun _ => pure ()) visiting fun _ => () where
  machine := visiting_machine
  record n := by
    obtain ⟨visit, hn, -⟩ := exists_visit n
    rw [hn]
    rfl
  logs _ _ := rfl
  notesSpareMachine _ _ := rfl
  notesSpareState _ _ := rfl
  test n g x := by
    obtain ⟨visit, hn, hcall⟩ := exists_visit n
    rw [hn]
    exact .bind (.call (hcall x) fun _ => rfl) fun _ => .pure _
  perform n a x := by
    obtain ⟨visit, hn, hcall⟩ := exists_visit n
    rw [hn]
    refine .bind (.call (hcall x) fun _ => rfl) fun _ => ?_
    split
    · exact .raise _
    · exact .pure _

/-- One state, with a transition that accepts everything. -/
def loopingMachine : Machine (Nat → Bool) Unit :=
  ⟨[⟨.int 0, .bool true, [⟨.number 0, fun _ => true, some ()⟩]⟩]⟩

/-- Asking about two and acting on two each run the machine on one, and this runs it on zero twice.
So there are six visits, and none of them is seen in the calls. -/
theorem visiting_run_reentrant :
    let failed : Except Stop (Outcome StateId Nat Nat) := .error (.fault .outOfRange)
    ∃ calls w,
      (visiting 3).traced.run Source.ofList.traced 4 (fun _ => true) [2] ((loopingMachine, 0), []) =
        (failed, ((loopingMachine, 6), calls)) ∧
      (visitor fun _ => pure ()).traced.run Source.ofList.traced 4 (fun _ => true) [2]
        ((loopingMachine, 0), []) = (failed, (w, calls)) := by
  intro failed
  have houter : (visiting 3).traced.run Source.ofList.traced 4 (fun _ => true) [2]
      ((loopingMachine, 0), []) =
        (failed, ((loopingMachine, 6), [.drawn (.ok (some 2)), .asked (fun _ => true) 2 (.ok true),
          .performed () 2 (.error (.fault .outOfRange))])) := rfl
  obtain ⟨-, hruns⟩ := run_reentrant visiting_reentrant
  obtain ⟨r, calls, w₁, w₂, -, -, hsame, -, halone, -⟩ :=
    hruns 3 4 true [2] (loopingMachine, 0) (by decide)
      (fun s hs => by
        obtain rfl := List.mem_singleton.mp hs
        decide)
      (by
        rw [houter]
        intro call hcall
        simp only [List.mem_cons, List.not_mem_nil, or_false] at hcall
        rcases hcall with rfl | rfl | rfl <;> exact nofun)
  rw [houter] at hsame
  cases hsame
  exact ⟨_, w₂, houter, halone⟩

end Host

namespace Session

/-- On "b" a token is started. On everything else the machine is first run on "b", and then the
last token is extended. -/
def gathering : World :=
  { World.initial .warning with
    machines := #[⟨[⟨.int 0, .bool false,
      [⟨.number 0, .rule (.equals (.made 0) (.str "b")), some (.emit (.int 1) 0)⟩,
        ⟨.number 0, .perform [.run "m" (.value (.literal (.str "b"))) none false]
          (.literal (.bool true)), some (.extend 0)⟩]⟩]⟩] }

/-- What happens in between must not decide whether an action fails. Here it makes the token that
is extended afterwards; if the commands of callbacks are left out, there is none. -/
theorem run_disturbed :
    ((host (nest (execute 6)) 0).run .ofList 6 (fun _ => true) [.str "a"] gathering).1 =
        .ok (.success .start) ∧
      ((host (fun _ => pure ()) 0).run .ofList 6 (fun _ => true) [.str "a"] gathering).1 =
        .error (.fault .emptyCollection) :=
  ⟨rfl, rfl⟩

end Session

end SymbolMachine
