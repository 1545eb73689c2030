/-
The graph only grows.

Whatever is done to a machine through its operations, a state keeps its place, its number
and the transitions it has, in their order; there may be more states and more transitions
behind the old ones. What is said about accepting may change. This is a preorder, so a fact
that survives growth survives any number of operations in between.
-/
import SymbolMachine.Machine.Basic
import Mathlib.Data.List.Infix
import Mathlib.Order.Defs.Unbundled

set_option autoImplicit false

namespace SymbolMachine

variable {γ α : Type}

/-! ## One state -/

/-- The second state is the first after it was used: the same number, and the old
transitions first. -/
structure State.Grows (s s' : State γ α) : Prop where
  id : s'.id = s.id
  transitions : s.transitions <+: s'.transitions

namespace State.Grows

theorem refl (s : State γ α) : s.Grows s := ⟨rfl, List.prefix_refl _⟩

theorem trans {s s' s'' : State γ α} (h : s.Grows s') (h' : s'.Grows s'') : s.Grows s'' :=
  ⟨h'.id.trans h.id, h.transitions.trans h'.transitions⟩

theorem add (s : State γ α) (t : Transition γ α) : s.Grows (s.add t) :=
  ⟨rfl, List.prefix_append _ _⟩

theorem setAccepting (s : State γ α) (v : Value) : s.Grows { s with accepting := v } :=
  ⟨rfl, List.prefix_refl _⟩

/-- A transition keeps its place. -/
theorem getElem? {s s' : State γ α} (h : s.Grows s') {i : Nat} {t : Transition γ α}
    (ht : s.transitions[i]? = some t) : s'.transitions[i]? = some t := by
  obtain ⟨hi, rfl⟩ := List.getElem?_eq_some_iff.mp ht
  exact List.prefix_iff_getElem?.mp h.transitions i hi

end State.Grows

/-! ## The whole graph -/

/-- The second machine is the first after it was used: every state is still in its place and
has only grown. -/
def Machine.Grows (m m' : Machine γ α) : Prop :=
  ∀ (i : Nat) (s : State γ α), m.states[i]? = some s →
    ∃ s', m'.states[i]? = some s' ∧ s.Grows s'

namespace Machine.Grows

theorem refl (m : Machine γ α) : m.Grows m := fun _ s h => ⟨s, h, .refl s⟩

theorem trans {m m' m'' : Machine γ α} (h : m.Grows m') (h' : m'.Grows m'') : m.Grows m'' := by
  intro i s hs
  obtain ⟨s', hs', hg⟩ := h i s hs
  obtain ⟨s'', hs'', hg'⟩ := h' i s' hs'
  exact ⟨s'', hs'', hg.trans hg'⟩

instance : IsPreorder (Machine γ α) Machine.Grows where
  refl := refl
  trans _ _ _ := trans

/-- No state is lost. -/
theorem size_le {m m' : Machine γ α} (h : m.Grows m') : m.size ≤ m'.size := by
  by_contra hlt
  cases hs : m.states[m'.size]? with
  | none =>
      have hle : m.size ≤ m'.size := List.getElem?_eq_none_iff.mp hs
      exact hlt hle
  | some s =>
      obtain ⟨s', hs', -⟩ := h _ _ hs
      have hbound : m'.size < m'.size := (List.getElem?_eq_some_iff.mp hs').1
      exact Nat.lt_irrefl _ hbound

/-- A state is found where it was found before. -/
theorem state? {m m' : Machine γ α} (h : m.Grows m') {id : Int} {s : State γ α}
    (hs : m.state? id = some s) : ∃ s', m'.state? id = some s' ∧ s.Grows s' := by
  unfold Machine.state? at hs ⊢
  split at hs
  · next hid =>
    rw [if_pos hid]
    exact h _ _ hs
  · cases hs

theorem addState (m : Machine γ α) (accepting : Value) : m.Grows (m.addState accepting) := by
  intro i s hs
  have hi : i < m.size := (List.getElem?_eq_some_iff.mp hs).1
  exact ⟨s, (Machine.states_addState_of_lt hi accepting).trans hs, .refl s⟩

/-- A change to one state that lets it grow lets the machine grow. -/
theorem modify (m : Machine γ α) (i : Nat) {f : State γ α → State γ α}
    (hf : ∀ s : State γ α, s.Grows (f s)) : m.Grows (m.modify i f) := by
  intro j s hs
  simp only [Machine.modify, List.getElem?_modify, hs]
  by_cases hij : i = j
  · exact ⟨f s, by simp [hij], hf s⟩
  · exact ⟨s, by simp [hij], .refl s⟩

end Machine.Grows

/-- Where there is no state, there is nothing to change. -/
theorem Machine.modify_of_none {m : Machine γ α} {i : Nat} (hi : m.states[i]? = none)
    (f : State γ α → State γ α) : m.modify i f = m := by
  apply congrArg Machine.mk
  apply List.ext_getElem?
  intro j
  rw [List.getElem?_modify]
  by_cases hij : i = j
  · have hj : m.states[j]? = none := by rw [← hij]; exact hi
    rw [hj]
    rfl
  · simp [hij]

/-- Behind the old states of a machine there is one new state, numbered by its place. -/
theorem Machine.states_addState {m : Machine γ α} {v : Value} {i : Nat}
    {s : State γ α} (hs : (m.addState v).states[i]? = some s) :
    m.states[i]? = some s ∨ m.states[i]? = none ∧ s = State.new (.int i) v := by
  by_cases old : i < m.size
  · rw [Machine.states_addState_of_lt old] at hs
    exact .inl hs
  · have hnone : m.states[i]? = none := List.getElem?_eq_none (by simpa [Machine.size] using old)
    obtain rfl : i = m.size := by
      have hlt := (List.getElem?_eq_some_iff.mp hs).1
      have hlength : (m.addState v).states.length = m.size + 1 := m.size_addState v
      omega
    have hlast : (m.addState v).states[m.size]? = some (State.new (.int m.size) v) := by
      simp [Machine.addState, Machine.size]
    exact .inr ⟨hnone, Option.some.inj (hs.symm.trans hlast)⟩

/-! ## State numbers in range -/

/-- A state number that the machine has. -/
def Machine.Contains (m : Machine γ α) (s : StateId) : Prop := 0 ≤ s.toInt ∧ s.toInt < m.size

instance (m : Machine γ α) (s : StateId) : Decidable (m.Contains s) :=
  inferInstanceAs (Decidable (_ ∧ _))

namespace Machine.Contains

theorem start {m : Machine γ α} (h : 0 < m.size) : m.Contains StateId.start := by
  refine ⟨Int.le_refl 0, ?_⟩
  change (0 : Int) < m.size
  omega

theorem of_grows {m m' : Machine γ α} {s : StateId} (hs : m.Contains s) (h : m.Grows m') :
    m'.Contains s := by
  have hle := h.size_le
  exact ⟨hs.1, by have := hs.2; omega⟩

/-- A state number in range is that of a state. -/
theorem exists_state {m : Machine γ α} {s : StateId} (hs : m.Contains s) :
    ∃ state, m.state? s.toInt = some state :=
  Option.isSome_iff_exists.mp ((m.state?_isSome_iff s.toInt).mpr hs)

end Machine.Contains

/-! ## Transitions of a machine -/

/-- A transition that some state of the machine has. -/
def Machine.Owns (m : Machine γ α) (t : Transition γ α) : Prop :=
  ∃ s ∈ m.states, t ∈ s.transitions

theorem Machine.mem_states_of_state? {m : Machine γ α} {id : Int} {s : State γ α}
    (hs : m.state? id = some s) : s ∈ m.states := by
  unfold Machine.state? at hs
  split at hs
  · exact List.mem_of_getElem? hs
  · cases hs

end SymbolMachine
