/-
The graphs of a session only grow.

None of the changes that a session can make takes a state or a transition away, renumbers a
state or reorders transitions. So by the frame theorem no command does, and no callback of a
run, whatever commands it performs. That is all that runs in a session need to stay in their
graph, and all that a search of a state needs to be exact.
-/
import SymbolMachine.Proofs.Machine.Matching
import SymbolMachine.Proofs.Session.Frame

set_option autoImplicit false

namespace SymbolMachine.Session

/-- Every state of the first world is in its place in the second, and has only grown. -/
def World.Grows (w w' : World) : Prop :=
  ∀ (p : StatePlace) (s : State Guard Action), w.state? p = some s →
    ∃ s', w'.state? p = some s' ∧ s.Grows s'

namespace World.Grows

theorem refl (w : World) : w.Grows w := fun _ s hs => ⟨s, hs, .refl s⟩

instance : IsPreorder World World.Grows where
  refl := refl
  trans w₁ w₂ w₃ h₁ h₂ := by
    intro p s hs
    obtain ⟨s', hs', hg⟩ := h₁ p s hs
    obtain ⟨s'', hs'', hg'⟩ := h₂ p s' hs'
    exact ⟨s'', hs'', hg.trans hg'⟩

/-- A growing world has growing machines. -/
theorem machine {w w' : World} (h : w.Grows w') (m : Nat) :
    (w.machine m).Grows (w'.machine m) := fun i s hs => h (.inMachine m i) s hs

theorem of_machines {w w' : World} (hm : ∀ m, (w.machine m).Grows (w'.machine m))
    (hs : w'.states = w.states) : w.Grows w' := by
  intro p s hp
  rcases p with ⟨m, i⟩ | i
  · exact hm m i s hp
  · refine ⟨s, ?_, .refl s⟩
    rw [← hp]
    exact congrArg (fun states => states[i]?) hs

/-- The transitions that a state has stand before those that it gets. -/
theorem transitionsAt {w w' : World} (h : w.Grows w') (p : StatePlace) :
    w.transitionsAt p <+: w'.transitionsAt p := by
  unfold World.transitionsAt
  cases hs : w.state? p with
  | none => exact List.nil_prefix
  | some s =>
      obtain ⟨s', hs', hgrows⟩ := h p s hs
      rw [hs']
      exact hgrows.transitions

/-- Changing one machine so that it grows changes no other. -/
theorem modify_machine (w : World) (m : Nat) {f : Machine Guard Action → Machine Guard Action}
    (hf : ∀ M : Machine Guard Action, M.Grows (f M)) :
    w.Grows { w with machines := w.machines.modify m f } := by
  refine of_machines (fun k => ?_) rfl
  unfold World.machine
  rw [Array.getElem?_modify]
  by_cases hk : m = k
  · rw [if_pos hk]
    rcases w.machines[k]? with _ | M
    · exact .refl _
    · exact hf M
  · rw [if_neg hk]
    exact .refl _

theorem modifyState (w : World) (p : StatePlace) {f : State Guard Action → State Guard Action}
    (hf : ∀ s : State Guard Action, s.Grows (f s)) : w.Grows (w.modifyState p f) := by
  rcases p with ⟨m, i⟩ | i
  · exact modify_machine w m fun M => Machine.Grows.modify M i hf
  · rintro (⟨m, j⟩ | j) s hs
    · exact ⟨s, hs, .refl s⟩
    · have hsj : w.states[j]? = some s := hs
      change ∃ s', (w.states.modify i f)[j]? = some s' ∧ s.Grows s'
      rw [Array.getElem?_modify, hsj]
      by_cases hij : i = j
      · exact ⟨f s, by rw [if_pos hij]; rfl, hf s⟩
      · exact ⟨s, by rw [if_neg hij], .refl s⟩

end World.Grows

/-- A machine that does not exist reads as the empty one, which is what it starts as. -/
theorem World.machine_push (w : World) (m : Nat) :
    (w.machines.push Machine.empty)[m]?.getD Machine.empty = w.machine m := by
  rw [Array.getElem?_push]
  by_cases hsize : m = w.machines.size
  · rw [if_pos hsize, World.machine, hsize, Array.getElem?_size]
    rfl
  · rw [if_neg hsize]
    rfl

/-- **No change of a session takes anything of a graph away.** -/
theorem frame_grows : World.Frame World.Grows where
  event w _ := .refl w
  made w _ := .refl w
  tokens w _ := .refl w
  collectionNames w _ := .refl w
  threshold w _ := .refl w
  newMachine w name := by
    refine World.Grows.of_machines (fun m => ?_) rfl
    change (w.machine m).Grows ((w.machines.push Machine.empty)[m]?.getD Machine.empty)
    rw [w.machine_push]
    exact .refl _
  newState w name i v := by
    rintro (⟨m, j⟩ | j) t ht
    · exact ⟨t, ht, .refl t⟩
    · have hj : j < w.states.size := (Array.getElem?_eq_some_iff.mp ht).1
      refine ⟨t, ?_, .refl t⟩
      change (w.states.push (State.new i v))[j]? = some t
      rw [Array.getElem?_push_lt hj, ← ht]
      exact (Array.getElem?_eq_getElem hj).symm
  addState w m v := World.Grows.modify_machine w m fun M => Machine.Grows.addState M v
  connect w p t _ := World.Grows.modifyState w p fun s => State.Grows.add s t
  setAccepting w p v := World.Grows.modifyState w p fun s => State.Grows.setAccepting s v

/-- No callback of a machine of the session takes anything away from it, whichever commands
the callbacks perform. -/
theorem callbacksKeep_growing (fuel m : Nat) :
    (host (nest (execute fuel)) m).CallbacksKeep (Supply.next (nest (execute fuel)))
      (host (nest (execute fuel)) m).Growing := by
  exact (callbacksKeep_host frame_grows fuel m).mono fun w w' hg => hg.machine m

/-- **A search in a session is exact**: whatever its guards do, it asks the transitions that the
state has in the end, once each and in order, up to the first that accepts or raises. -/
theorem find_asksExactly (depth fuel : Nat) (p : StatePlace) (x : Value) (w : World) :
    let test := admits (nest (execute depth))
    let found := firstMatch (·.transitionsAt p) test x fuel 0 w
    ∃ calls : List (Host.Call Guard Action Value),
      firstMatch (fun v => v.1.transitionsAt p) (Host.tracedTest test) x fuel 0 (w, []) =
        (found.1, (found.2, calls)) ∧
      w.transitionsAt p <+: found.2.transitionsAt p ∧
      Host.AsksExactly x fuel (found.2.transitionsAt p) calls found.1 :=
  Host.exists_asksExactly (fun v t _ =>
    ((callbacksKeep_host frame_grows depth 0).test t.guard x v).transitionsAt p) fuel w

theorem World.machine_addNote (w : World) (note : Note Value) (m : Nat) :
    (w.addNote note).machine m = w.machine m := by
  unfold World.addNote
  split <;> rfl

/-- A note of a session is an event or nothing, so it does not fail. -/
theorem logsSafely_host (perform : List Command → Effect World Unit) (m : Nat) :
    (host perform m).LogsSafely := fun _ _ => rfl

end SymbolMachine.Session
