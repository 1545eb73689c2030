/-
Computations in a world that callbacks may change.

An `Effect ω α` reads and changes a world of type `ω` and answers an `α` or stops early.
What it did to the world before it stopped stays done. It stops for a fault, which
somebody further out may handle, or because it was given too little fuel, which nobody
can handle: a stalled computation says nothing about what it would have answered.
-/
import SymbolMachine.Fault

set_option autoImplicit false

namespace SymbolMachine

/-- Why a computation stopped before its end. -/
inductive Stop
  | fault (f : Fault)
  | stalled

/-- A computation that changes a world of type `ω`. -/
abbrev Effect (ω α : Type) : Type := ExceptT Stop (StateM ω) α

namespace Effect

variable {ω σ α : Type}

/-- Stops for a fault. -/
def raise (f : Fault) : Effect ω α := throw (.fault f)

/-- Stops for want of fuel. -/
def stall : Effect ω α := throw .stalled

/-- An answer or a fault found without looking at the world. -/
def ofExcept : Except Fault α → Effect ω α
  | .ok a => pure a
  | .error f => raise f

/-- Handles a fault by answering it. Want of fuel is not handled. -/
def attempt (e : Effect ω α) : Effect ω (Except Fault α) := fun w =>
  match e w with
  | (.ok a, w') => (.ok (.ok a), w')
  | (.error (.fault f), w') => (.ok (.error f), w')
  | (.error .stalled, w') => (.error .stalled, w')

/-- The same computation, reporting another fault where it stops for one. -/
def mapFault (f : Fault → Fault) (e : Effect ω α) : Effect ω α := fun w =>
  match e w with
  | (.error (.fault g), w') => (.error (.fault (f g)), w')
  | r => r

/-- One part of a world, and the world with something blank in its place. -/
@[noinline]
def takeOut (part : ω → σ) (replace : σ → ω → ω) (blank : σ) (w : ω) : σ × ω :=
  (part w, replace blank w)

/-- A computation on one part of a larger world. The part is taken out while the computation
works on it, so that nothing else holds it and it can be changed in place. -/
def within (part : ω → σ) (replace : σ → ω → ω) (blank : σ) (e : Effect σ α) : Effect ω α :=
  fun w =>
    match takeOut part replace blank w with
    | (s, w) =>
      match e s with
      | (a, s) => (a, replace s w)

/-! ## What a computation does to a given world -/

section Apply

variable {β : Type} (w : ω)

@[simp] theorem pure_apply (a : α) : (pure a : Effect ω α) w = (.ok a, w) := rfl

@[simp] theorem raise_apply (f : Fault) :
    (raise f : Effect ω α) w = (.error (.fault f), w) := rfl

@[simp] theorem stall_apply : (stall : Effect ω α) w = (.error .stalled, w) := rfl

@[simp] theorem ofExcept_ok (a : α) : (ofExcept (.ok a) : Effect ω α) = pure a := rfl

@[simp] theorem ofExcept_error (f : Fault) : (ofExcept (.error f) : Effect ω α) = raise f := rfl

theorem ofExcept_apply (r : Except Fault α) :
    (ofExcept r : Effect ω α) w = (r.mapError .fault, w) := by
  cases r <;> rfl

@[simp] theorem get_apply : (get : Effect ω ω) w = (.ok w, w) := rfl

@[simp] theorem set_apply (w' : ω) : (set w' : Effect ω Unit) w = (.ok (), w') := rfl

@[simp] theorem modify_apply (f : ω → ω) :
    (modify f : Effect ω Unit) w = (.ok (), f w) := rfl

/-- **One computation after another.** The second starts in the world that the first
leaves; if the first stops, nothing else happens. -/
theorem bind_apply (e : Effect ω α) (f : α → Effect ω β) :
    (e >>= f) w =
      match e w with
      | (.ok a, w') => f a w'
      | (.error s, w') => (.error s, w') := by
  change (match e w with | (a, w') => ExceptT.bindCont f a w') = _
  rcases e w with ⟨_ | _, _⟩ <;> rfl

theorem bind_apply_of_ok {e : Effect ω α} {f : α → Effect ω β} {w' : ω} {a : α}
    (h : e w = (.ok a, w')) : (e >>= f) w = f a w' := by
  rw [bind_apply, h]

theorem bind_apply_of_error {e : Effect ω α} {f : α → Effect ω β} {w' : ω} {s : Stop}
    (h : e w = (.error s, w')) : (e >>= f) w = (.error s, w') := by
  rw [bind_apply, h]

theorem within_apply (part : ω → σ) (replace : σ → ω → ω) (blank : σ) (e : Effect σ α) :
    e.within part replace blank w =
      ((e (part w)).1, replace (e (part w)).2 (replace blank w)) := rfl

/-- Another report leaves the world as it is. -/
@[simp] theorem mapFault_world (f : Fault → Fault) (e : Effect ω α) :
    (e.mapFault f w).2 = (e w).2 := by
  unfold mapFault
  rcases e w with ⟨(_ | _) | _, _⟩ <;> rfl

theorem mapFault_apply_of_ok {e : Effect ω α} {w' : ω} {a : α} (f : Fault → Fault)
    (h : e w = (.ok a, w')) : e.mapFault f w = (.ok a, w') := by
  simp [mapFault, h]

/-- Handling leaves the world as the computation left it. -/
@[simp] theorem attempt_world (e : Effect ω α) : (e.attempt w).2 = (e w).2 := by
  unfold attempt
  rcases e w with ⟨(_ | _) | _, _⟩ <;> rfl

end Apply

end Effect

end SymbolMachine
