/-
What a computation preserves.

The equations of `SymbolMachine.Effect` say what a composed computation does to one world.
This file is about relations between the world before and the world after. If such a relation
is a preorder, it is enough to look at the parts of a computation, so a fact about all
callbacks of a program is a fact about each of its basic effects.

The moments in between are told by computations that are cut off (`Effect.Cut`). If a part may
be cut off, so may the whole, and then what was done and what was left to do each stand in the
relation.
-/
import SymbolMachine.Effect
import Mathlib.Order.Defs.Unbundled

set_option autoImplicit false

namespace SymbolMachine.Effect

variable {ω σ α β : Type}

/-! ## Answers and faults -/

/-- Changing the answer changes nothing else. -/
theorem map_apply (g : α → β) (e : Effect ω α) (w : ω) :
    (g <$> e) w = ((e w).1.map g, (e w).2) := by
  change (e >>= fun a => pure (g a)) w = _
  rw [bind_apply]
  rcases e w with ⟨_ | a, w₁⟩ <;> rfl

/-- An answer or a fault is not a stall. -/
theorem mapError_ne_stalled (r : Except Fault α) : r.mapError Stop.fault ≠ .error .stalled := by
  cases r <;> exact nofun

theorem mapError_fault_injective {r r' : Except Fault α}
    (h : r.mapError Stop.fault = r'.mapError Stop.fault) : r = r' := by
  cases r <;> cases r' <;> cases h <;> rfl

/-! ## Computations that never stall -/

/-- The computation answers or fails in every world. -/
def Settles (e : Effect ω α) : Prop := ∀ w, (e w).1 ≠ .error .stalled

namespace Settles

theorem pure (a : α) : Settles (pure a : Effect ω α) := fun _ => nofun

theorem raise (f : Fault) : Settles (Effect.raise f : Effect ω α) := fun _ => nofun

theorem get : Settles (get : Effect ω ω) := fun _ => nofun

theorem set (w : ω) : Settles (set w : Effect ω Unit) := fun _ => nofun

theorem modify (g : ω → ω) : Settles (modify g : Effect ω Unit) := fun _ => nofun

theorem ofExcept (r : Except Fault α) : Settles (Effect.ofExcept r : Effect ω α) := by
  cases r with
  | ok a => exact pure a
  | error f => exact raise f

theorem bind {e : Effect ω α} {f : α → Effect ω β} (he : Settles e) (hf : ∀ a, Settles (f a)) :
    Settles (e >>= f) := by
  intro w
  rcases h : e w with ⟨s | a, w₁⟩
  · have hs := he w
    rw [h] at hs
    rw [bind_apply_of_error w h]
    rintro ⟨⟩
    exact hs rfl
  · rw [bind_apply_of_ok w h]
    exact hf a w₁

end Settles

/-! ## What a computation answers -/

/-- Every answer of the computation has a property. -/
def Yields (Q : α → Prop) (e : Effect ω α) : Prop := ∀ w a, (e w).1 = .ok a → Q a

namespace Yields

variable {Q : β → Prop}

theorem ofExcept {r : Except Fault β} (hr : ∀ b, r = .ok b → Q b) :
    Yields Q (Effect.ofExcept r : Effect ω β) := by
  intro w b hb
  cases r with
  | ok b' =>
      obtain rfl : b' = b := Except.ok.inj hb
      exact hr b' rfl
  | error f => cases hb

/-- Only the last part matters. -/
theorem bind {e : Effect ω α} {f : α → Effect ω β} (hf : ∀ a, Yields Q (f a)) :
    Yields Q (e >>= f) := by
  intro w b hb
  rcases h : e w with ⟨s | a, w₁⟩
  · rw [bind_apply_of_error w h] at hb
    cases hb
  · rw [bind_apply_of_ok w h] at hb
    exact hf a w₁ b hb

end Yields

/-! ## What a computation preserves -/

/-- The world that a computation leaves stands in a relation to the one that it found,
whether it answers or stops. -/
def Keeps (R : ω → ω → Prop) (e : Effect ω α) : Prop := ∀ w, R w (e w).2

namespace Keeps

variable {R : ω → ω → Prop}

theorem of_eq {e : Effect ω α} (he : Keeps R e) {w w' : ω} {r : Except Stop α}
    (hr : e w = (r, w')) : R w w' := by
  have hkeep := he w
  rw [hr] at hkeep
  exact hkeep

section Preorder

variable [IsPreorder ω R]

theorem pure (a : α) : Keeps R (pure a : Effect ω α) := fun w => refl_of R w

theorem raise (f : Fault) : Keeps R (Effect.raise f : Effect ω α) := fun w => refl_of R w

theorem stall : Keeps R (Effect.stall : Effect ω α) := fun w => refl_of R w

theorem get : Keeps R (get : Effect ω ω) := fun w => refl_of R w

theorem ofExcept (r : Except Fault α) : Keeps R (Effect.ofExcept r : Effect ω α) := by
  cases r with
  | ok a => exact pure a
  | error f => exact raise f

/-- **One computation after another.** If each part keeps the relation, so does the whole,
wherever it stops. -/
theorem bind {e : Effect ω α} {f : α → Effect ω β} (he : Keeps R e) (hf : ∀ a, Keeps R (f a)) :
    Keeps R (e >>= f) := by
  intro w
  have h₁ := he w
  rcases h : e w with ⟨s | a, w₁⟩ <;> rw [h] at h₁
  · rw [bind_apply_of_error w h]
    exact h₁
  · rw [bind_apply_of_ok w h]
    exact trans_of R h₁ (hf a w₁)

end Preorder

theorem modify {g : ω → ω} (hg : ∀ w, R w (g w)) : Keeps R (modify g : Effect ω Unit) := hg

/-- A computation on one part keeps whatever does not look at that part. -/
theorem within {part : ω → σ} {replace : σ → ω → ω} {blank : σ} {e : Effect σ α}
    (h : ∀ s w, R w (replace s (replace blank w))) : Keeps R (e.within part replace blank) := by
  intro w
  rw [within_apply]
  exact h _ w

end Keeps

/-! ## Computations that are cut off -/

/-- The second computation is the first one, or it is cut off for good at an earlier moment of
it. What is done up to there stands in the relation, and so does what the first one does from
there on. -/
def Cut (R : ω → ω → Prop) (e e' : Effect ω α) : Prop :=
  ∀ w, R w (e w).2 ∧
    (e' w = e w ∨ ∃ w₁, e' w = (.error .stalled, w₁) ∧ R w w₁ ∧ R w₁ (e w).2)

theorem Keeps.cut {R : ω → ω → Prop} {e : Effect ω α} (he : Keeps R e) : Cut R e e :=
  fun w => ⟨he w, .inl rfl⟩

/-- The computation, unless it would begin at a moment that is asked for. There it stops for
good. -/
def stopAt (moment : ω → Bool) (e : Effect ω α) : Effect ω α := fun w =>
  if moment w then (.error .stalled, w) else e w

theorem stopAt_of_moment {moment : ω → Bool} (e : Effect ω α) {w : ω} (h : moment w = true) :
    e.stopAt moment w = (.error .stalled, w) := if_pos h

theorem stopAt_of_not_moment {moment : ω → Bool} (e : Effect ω α) {w : ω} (h : ¬moment w = true) :
    e.stopAt moment w = e w := if_neg h

namespace Cut

variable {R : ω → ω → Prop} {e e' : Effect ω α}

theorem keeps (he : Cut R e e') : Keeps R e := fun w => (he w).1

theorem modify {g : ω → ω} (hg : ∀ w, R w (g w)) :
    Cut R (modify g : Effect ω Unit) (modify g) := (Keeps.modify hg).cut

theorem map (g : α → β) (he : Cut R e e') : Cut R (g <$> e) (g <$> e') := by
  intro w
  rw [map_apply, map_apply]
  obtain ⟨whole, same | ⟨w₁, stopped, moments⟩⟩ := he w
  · rw [same]
    exact ⟨whole, .inl rfl⟩
  · rw [stopped]
    exact ⟨whole, .inr ⟨w₁, rfl, moments⟩⟩

theorem attempt (he : Cut R e e') : Cut R e.attempt e'.attempt := by
  intro w
  rw [attempt_world]
  obtain ⟨whole, same | ⟨w₁, stopped, moments⟩⟩ := he w
  · exact ⟨whole, .inl (by rw [Effect.attempt, Effect.attempt, same])⟩
  · exact ⟨whole, .inr ⟨w₁, by rw [Effect.attempt, stopped], moments⟩⟩

theorem mapFault (g : Fault → Fault) (he : Cut R e e') : Cut R (e.mapFault g) (e'.mapFault g) := by
  intro w
  rw [mapFault_world]
  obtain ⟨whole, same | ⟨w₁, stopped, moments⟩⟩ := he w
  · exact ⟨whole, .inl (by rw [Effect.mapFault, Effect.mapFault, same])⟩
  · exact ⟨whole, .inr ⟨w₁, by rw [Effect.mapFault, stopped], moments⟩⟩

variable [IsPreorder ω R]

theorem pure (a : α) : Cut R (pure a : Effect ω α) (pure a) := (Keeps.pure a).cut

theorem raise (f : Fault) : Cut R (Effect.raise f : Effect ω α) (Effect.raise f) :=
  (Keeps.raise f).cut

theorem stall : Cut R (Effect.stall : Effect ω α) Effect.stall := Keeps.stall.cut

theorem get : Cut R (get : Effect ω ω) MonadState.get := Keeps.get.cut

theorem ofExcept (r : Except Fault α) :
    Cut R (Effect.ofExcept r : Effect ω α) (Effect.ofExcept r) := (Keeps.ofExcept r).cut

/-- **One computation after another**, of which the second may count on what the first one
answers. If the first one is cut off, the second one is not begun. -/
theorem bind_of_yields {Q : α → Prop} {f f' : α → Effect ω β} (he : Cut R e e')
    (hy : Yields Q e) (hf : ∀ a, Q a → Cut R (f a) (f' a)) : Cut R (e >>= f) (e' >>= f') := by
  intro w
  obtain ⟨whole, cut⟩ := he w
  have hq := hy w
  rcases h : e w with ⟨s | a, w₂⟩ <;> rw [h] at whole cut hq
  · -- The first one stops by itself, if it is not cut off before.
    rw [bind_apply_of_error w h]
    refine ⟨whole, ?_⟩
    rcases cut with same | ⟨w₁, stopped, moments⟩
    · exact .inl (bind_apply_of_error w same)
    · exact .inr ⟨w₁, bind_apply_of_error w stopped, moments⟩
  · rw [bind_apply_of_ok w h]
    obtain ⟨hwhole, hcut⟩ := hf a (hq a rfl) w₂
    refine ⟨trans_of R whole hwhole, ?_⟩
    rcases cut with same | ⟨w₁, stopped, before, after⟩
    · rw [bind_apply_of_ok w same]
      rcases hcut with hsame | ⟨w₃, hstopped, hbefore, hafter⟩
      · exact .inl hsame
      · exact .inr ⟨w₃, hstopped, trans_of R whole hbefore, hafter⟩
    · exact .inr ⟨w₁, bind_apply_of_error w stopped, before, trans_of R after hwhole⟩

theorem bind {f f' : α → Effect ω β} (he : Cut R e e') (hf : ∀ a, Cut R (f a) (f' a)) :
    Cut R (e >>= f) (e' >>= f') :=
  he.bind_of_yields (Q := fun _ => True) (fun _ _ _ => trivial) fun a _ => hf a

theorem forM {ι : Type} {f f' : ι → Effect ω PUnit} (hf : ∀ i, Cut R (f i) (f' i)) :
    (is : List ι) → Cut R (is.forM f) (is.forM f')
  | [] => pure _
  | i :: is => bind (hf i) fun _ => forM hf is

/-- Who asks for the first moment wherever the second one is asked for stops earlier. -/
theorem stopAt {moment later : ω → Bool} (earlier : ∀ w, later w = true → moment w = true)
    (he : Cut R e e') : Cut R (e.stopAt later) (e'.stopAt moment) := by
  intro w
  by_cases hm : moment w = true
  · rw [stopAt_of_moment e' hm]
    by_cases hl : later w = true
    · rw [stopAt_of_moment e hl]
      exact ⟨refl_of R w, .inl rfl⟩
    · rw [stopAt_of_not_moment e hl]
      exact ⟨he.keeps w, .inr ⟨w, rfl, refl_of R w, he.keeps w⟩⟩
  · rw [stopAt_of_not_moment e' hm, stopAt_of_not_moment e fun hl => hm (earlier w hl)]
    exact he w

/-- Both moments are moments of one history: where the second one ends or is cut off, and
where the first one ends. -/
theorem moments (he : Cut R e e') (w : ω) : R w (e' w).2 ∧ R (e' w).2 (e w).2 := by
  obtain ⟨whole, same | ⟨w₁, stopped, moments⟩⟩ := he w
  · rw [same]
    exact ⟨whole, refl_of R _⟩
  · rw [stopped]
    exact moments

end Cut

end SymbolMachine.Effect
