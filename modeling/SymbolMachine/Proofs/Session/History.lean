/-
Whole histories of a session.

The worlds of a session are moments of one history, in which each moment comes from the one
before by a single change (`World.Change`): a state is appended, a checked transition is
appended to a state, something is said about accepting, and so on. Every command leads along a
history, with what its arguments, callbacks and scripts do on the way, and whether it answers or
not. So what one change preserves holds at every moment.

The moments in the middle of a command belong to the history, too. They are those at which the
command may be cut off (`executeUntil`).
-/
import SymbolMachine.Proofs.Session.Growth
import SymbolMachine.Session.Transcript
import Mathlib.Logic.Relation

set_option autoImplicit false

namespace SymbolMachine.Session

/-! ## States by their place -/

namespace World

variable (w : World)

theorem state?_modifyState_self (p : StatePlace) (f : State Guard Action → State Guard Action) :
    (w.modifyState p f).state? p = (w.state? p).map f := by
  cases p with
  | inMachine m i =>
      change ((w.machines.modify m (·.modify i f))[m]?.getD Machine.empty).states[i]? =
        ((w.machines[m]?.getD Machine.empty).states[i]?).map f
      rw [Array.getElem?_modify, if_pos rfl]
      cases w.machines[m]? with
      | none => rfl
      | some M => simp [Machine.modify]
  | alone i =>
      change (w.states.modify i f)[i]? = w.states[i]?.map f
      rw [Array.getElem?_modify, if_pos rfl]

theorem state?_modifyState_of_ne {p q : StatePlace} (hne : q ≠ p)
    (f : State Guard Action → State Guard Action) : (w.modifyState p f).state? q = w.state? q := by
  rcases p with ⟨m, i⟩ | i <;> rcases q with ⟨k, j⟩ | j
  · change ((w.machines.modify m (·.modify i f))[k]?.getD Machine.empty).states[j]? =
      (w.machines[k]?.getD Machine.empty).states[j]?
    rw [Array.getElem?_modify]
    by_cases hm : m = k
    · have hi : i ≠ j := fun hi => hne (by rw [hm, hi])
      rw [if_pos hm]
      cases w.machines[k]? with
      | none => rfl
      | some M => simp [Machine.modify, hi]
    · rw [if_neg hm]
  · rfl
  · rfl
  · change (w.states.modify i f)[j]? = w.states[j]?
    have hi : i ≠ j := fun hi => hne (by rw [hi])
    rw [Array.getElem?_modify, if_neg hi]

/-- Where there is no state, there is nothing to change. -/
theorem modifyState_of_none {p : StatePlace} (hp : w.state? p = none)
    (f : State Guard Action → State Guard Action) : w.modifyState p f = w := by
  cases p with
  | inMachine m i =>
      have hmodify : w.machines.modify m (·.modify i f) = w.machines := by
        apply Array.ext_getElem?
        intro k
        rw [Array.getElem?_modify]
        by_cases hm : m = k
        · rw [if_pos hm]
          cases hk : w.machines[k]? with
          | none => rfl
          | some M =>
              have hi : M.states[i]? = none := by
                rw [← hp, hm, state?, World.machine, hk]
                rfl
              exact congrArg some (Machine.modify_of_none hi f)
        · rw [if_neg hm]
      simp only [modifyState, hmodify]
  | alone i =>
      have hmodify : w.states.modify i f = w.states := by
        apply Array.ext_getElem?
        intro j
        rw [Array.getElem?_modify]
        by_cases hi : i = j
        · have hj : w.states[j]? = none := by rw [← hi]; exact hp
          rw [if_pos hi, hj]
          rfl
        · rw [if_neg hi]
      simp only [modifyState, hmodify]

@[simp] theorem machineNames_modifyState (p : StatePlace)
    (f : State Guard Action → State Guard Action) :
    (w.modifyState p f).machineNames = w.machineNames := by
  cases p <;> rfl

@[simp] theorem size_machines_modifyState (p : StatePlace)
    (f : State Guard Action → State Guard Action) :
    (w.modifyState p f).machines.size = w.machines.size := by
  cases p with
  | inMachine m i => exact Array.size_modify
  | alone i => rfl

end World

/-! ## Changes and histories -/

/-- The second world comes from the first by a single change. -/
inductive World.Change : World → World → Prop
  | event (w : World) (e : Event) : Change w (w.addEvent e)
  /-- The events were shown, and the next step begins. -/
  | shown (w : World) : Change w { w with events := [] }
  | made (w : World) (n : Nat) : Change w { w with made := n }
  | tokens (w : World) (s : TokenStore) : Change w { w with tokens := s }
  | collectionNames (w : World) (ns : List (String × CollectionId)) :
      Change w { w with collectionNames := ns }
  | threshold (w : World) (l : Level) : Change w { w with threshold := l }
  | newMachine (w : World) (name : String) : Change w
      { w with
        machines := w.machines.push .empty
        machineNames := (name, w.machines.size) :: w.machineNames }
  | newState (w : World) (name : String) (i accepting : Value) : Change w
      { w with
        states := w.states.push (State.new i accepting)
        stateNames := (name, w.states.size) :: w.stateNames }
  | addState (w : World) (m : Nat) (accepting : Value) :
      Change w { w with machines := w.machines.modify m (·.addState accepting) }
  | connect (w : World) (p : StatePlace) (t : Transition Guard Action) (checked : Checked t) :
      Change w (w.modifyState p (·.add t))
  | setAccepting (w : World) (p : StatePlace) (v : Value) :
      Change w (w.modifyState p fun s => { s with accepting := v })

/-- The second world is a later moment of a history of the first. -/
def World.History : World → World → Prop := Relation.ReflTransGen World.Change

namespace World.History

instance : IsPreorder World World.History where
  refl _ := .refl
  trans _ _ _ := Relation.ReflTransGen.trans

theorem frame : World.Frame World.History where
  event w e := .single (.event w e)
  made w n := .single (.made w n)
  tokens w s := .single (.tokens w s)
  collectionNames w ns := .single (.collectionNames w ns)
  threshold w l := .single (.threshold w l)
  newMachine w name := .single (.newMachine w name)
  newState w name i v := .single (.newState w name i v)
  addState w m v := .single (.addState w m v)
  connect w p t ht := .single (.connect w p t ht)
  setAccepting w p v := .single (.setAccepting w p v)

end World.History

namespace World.Change

variable {w w' : World}

/-- Nothing of a graph is lost by a change. -/
theorem grows (h : w.Change w') : w.Grows w' := by
  cases h with
  | event e => exact frame_grows.event w e
  | shown => exact .refl w
  | made n => exact frame_grows.made w n
  | tokens s => exact frame_grows.tokens w s
  | collectionNames ns => exact frame_grows.collectionNames w ns
  | threshold l => exact frame_grows.threshold w l
  | newMachine name => exact frame_grows.newMachine w name
  | newState name i v => exact frame_grows.newState w name i v
  | addState m v => exact frame_grows.addState w m v
  | connect p t ht => exact frame_grows.connect w p t ht
  | setAccepting p v => exact frame_grows.setAccepting w p v

/-- Where a state at a place comes from, seen from the world before. -/
inductive Origin (w : World) (p : StatePlace) (s : State Guard Action) : Prop
  /-- It was there before. -/
  | kept (s₀ : State Guard Action) (was : w.state? p = some s₀) (numbered : s.id = s₀.id)
      (same : s.transitions = s₀.transitions)
  /-- A checked transition was appended to it. -/
  | extended (s₀ : State Guard Action) (t : Transition Guard Action)
      (was : w.state? p = some s₀) (checked : Checked t) (more : s = s₀.add t)
  /-- It is new. In a machine it is numbered by its place. -/
  | fresh (was : w.state? p = none) (bare : s.transitions = [])
      (numbered : ∀ m i, p = .inMachine m i → s.id = .int i)

/-- **What a change does to states.** -/
theorem origin (h : w.Change w') {p : StatePlace} {s : State Guard Action}
    (hs : w'.state? p = some s) : Origin w p s := by
  have kept (hs : w.state? p = some s) : Origin w p s := .kept s hs rfl rfl
  cases h with
  | event | shown | made | tokens | collectionNames | threshold => exact kept hs
  | newMachine name =>
      apply kept
      rcases p with ⟨m, i⟩ | i
      · rw [state?, ← w.machine_push]
        exact hs
      · exact hs
  | newState name id v =>
      rcases p with ⟨m, i⟩ | i
      · exact kept hs
      · change (w.states.push (State.new id v))[i]? = some s at hs
        rw [Array.getElem?_push] at hs
        by_cases last : i = w.states.size
        · rw [if_pos last, Option.some.injEq] at hs
          have was : w.states[i]? = none := by rw [last, Array.getElem?_size]
          exact .fresh was (by rw [← hs]; rfl) nofun
        · rw [if_neg last] at hs
          exact kept hs
  | addState m v =>
      rcases p with ⟨k, i⟩ | i
      · change ((w.machines.modify m (·.addState v))[k]?.getD Machine.empty).states[i]? = some s at hs
        rw [Array.getElem?_modify] at hs
        by_cases hm : m = k
        · rw [if_pos hm] at hs
          cases hk : w.machines[k]? with
          | none =>
              rw [hk] at hs
              cases hs
          | some M =>
              rw [hk] at hs
              have hmachine : w.machine k = M := by rw [World.machine, hk]; rfl
              rcases Machine.states_addState hs with old | ⟨was, rfl⟩
              · exact kept (by rw [state?, hmachine]; exact old)
              · refine .fresh (by rw [state?, hmachine]; exact was) rfl ?_
                rintro _ _ ⟨⟩
                rfl
        · rw [if_neg hm] at hs
          exact kept hs
      · exact kept hs
  | connect q t ht =>
      by_cases hp : p = q
      · rw [hp, state?_modifyState_self] at hs
        obtain ⟨s₀, was, rfl⟩ := Option.map_eq_some_iff.mp hs
        exact .extended s₀ t (by rw [hp]; exact was) ht rfl
      · rw [state?_modifyState_of_ne w hp] at hs
        exact kept hs
  | setAccepting q v =>
      by_cases hp : p = q
      · rw [hp, state?_modifyState_self] at hs
        obtain ⟨s₀, was, rfl⟩ := Option.map_eq_some_iff.mp hs
        exact .kept s₀ (by rw [hp]; exact was) rfl rfl
      · rw [state?_modifyState_of_ne w hp] at hs
        exact kept hs

/-- Machines are not lost, and names of machines are given to new ones only. -/
theorem machines (h : w.Change w') :
    w.machines.size ≤ w'.machines.size ∧
      ∀ e ∈ w'.machineNames, e ∈ w.machineNames ∨ e.2 < w'.machines.size := by
  cases h with
  | event | shown | made | tokens | collectionNames | threshold | newState =>
      exact ⟨Nat.le_refl _, fun e he => .inl he⟩
  | newMachine name =>
      simp only [Array.size_push]
      refine ⟨Nat.le_succ _, fun e he => ?_⟩
      rcases List.mem_cons.mp he with rfl | he
      · exact .inr (Nat.lt_succ_self _)
      · exact .inl he
  | addState m v =>
      simp only [Array.size_modify]
      exact ⟨Nat.le_refl _, fun e he => .inl he⟩
  | connect p t ht =>
      rw [machineNames_modifyState, size_machines_modifyState]
      exact ⟨Nat.le_refl _, fun e he => .inl he⟩
  | setAccepting p v =>
      rw [machineNames_modifyState, size_machines_modifyState]
      exact ⟨Nat.le_refl _, fun e he => .inl he⟩

end World.Change

/-! ## What holds at every moment -/

/-- The states of every machine are numbered by their places, every transition in the world is
checked, and every name of a machine stands for one. -/
structure World.Sound (w : World) : Prop where
  numbered : ∀ (m i : Nat) (s : State Guard Action),
    (w.machine m).states[i]? = some s → s.id = .int i
  checked : ∀ (p : StatePlace) (s : State Guard Action),
    w.state? p = some s → ∀ t ∈ s.transitions, Checked t
  named : ∀ e ∈ w.machineNames, e.2 < w.machines.size

theorem World.state?_initial (level : Level) (p : StatePlace) :
    (World.initial level).state? p = none := by
  rcases p with ⟨m, i⟩ | i
  · change ((#[Machine.empty][m]?).getD Machine.empty).states[i]? = none
    cases m <;> rfl
  · rfl

theorem World.sound_initial (level : Level) : (World.initial level).Sound where
  numbered m i s hs := by
    have hnone := World.state?_initial level (.inMachine m i)
    cases hnone.symm.trans hs
  checked p s hs := by
    cases (World.state?_initial level p).symm.trans hs
  named e he := by
    rw [List.mem_singleton.mp he]
    exact Nat.one_pos

/-- **One change keeps a world sound.** -/
theorem World.Change.sound {w w' : World} (h : w.Change w') (hw : w.Sound) : w'.Sound where
  numbered m i s hs := by
    have horigin : Origin w (.inMachine m i) s := h.origin hs
    cases horigin with
    | kept s₀ was numbered same => exact numbered.trans (hw.numbered m i s₀ was)
    | extended s₀ t was checked more =>
        rw [more]
        exact hw.numbered m i s₀ was
    | fresh was bare numbered => exact numbered m i rfl
  checked p s hs t ht := by
    cases h.origin hs with
    | kept s₀ was numbered same =>
        rw [same] at ht
        exact hw.checked p s₀ was t ht
    | extended s₀ t' was checked more =>
        rw [more, State.transitions_add] at ht
        rcases List.mem_append.mp ht with old | new
        · exact hw.checked p s₀ was t old
        · rw [List.mem_singleton.mp new]
          exact checked
    | fresh was bare numbered =>
        rw [bare] at ht
        cases ht
  named e he := by
    rcases h.machines.2 e he with old | new
    · exact Nat.lt_of_lt_of_le (hw.named e old) h.machines.1
    · exact new

namespace World.History

variable {w w' : World}

/-- **So does a whole history.** -/
theorem sound (h : w.History w') (hw : w.Sound) : w'.Sound := by
  induction h with
  | refl => exact hw
  | tail _ change ih => exact change.sound ih

theorem grows (h : w.History w') : w.Grows w' := by
  induction h with
  | refl => exact .refl w
  | tail _ change ih => exact trans_of World.Grows ih change.grows

theorem size_machines_le (h : w.History w') : w.machines.size ≤ w'.machines.size := by
  induction h with
  | refl => exact Nat.le_refl _
  | tail _ change ih => exact Nat.le_trans ih change.machines.1

end World.History

end SymbolMachine.Session
