/-
Machines: states, each with an ordered list of guarded transitions.

The graph only grows. States are numbered in the order in which they are added, state 0
is the start, and a state's transitions are tried in the order in which they were added.
A transition's target is a number that is looked up only when the transition is taken, so
it may be written before the state exists, and it may never exist.

Guards and actions are parameters: nothing here calls them.
-/
import SymbolMachine.Value.Number
import SymbolMachine.Value.Text

set_option autoImplicit false

namespace SymbolMachine

/-! ## State numbers -/

/-- A state number as it was written: a whole number, or a member of an enumeration of
whole numbers. The two count alike and are reported as they were written. -/
inductive StateId
  | number (n : Int)
  | member (m : Member)
deriving DecidableEq

namespace StateId

/-- The number itself. -/
def toInt : StateId → Int
  | number n => n
  | member m => m.number

/-- The state number as a value. -/
def toValue : StateId → Value
  | number n => .int n
  | member m => .intMember m

/-- A value as a transition's target. A truth value is refused although it counts as a
number. -/
def ofValue : Value → Except Fault StateId
  | .int n => .ok (number n)
  | .intMember m => .ok (member m)
  | v => .error (.badTarget v.typeName)

/-- The state in which a run starts. -/
def start : StateId := number 0

end StateId

/-! ## The graph -/

/-- A guarded edge. -/
structure Transition (γ α : Type) where
  target : StateId
  guard : γ
  action : Option α

/-- A node of the graph: its number, what its owner says about accepting, and its
transitions in the order in which they are tried. -/
structure State (γ α : Type) where
  id : Value
  accepting : Value
  transitions : List (Transition γ α)

/-- The states in the order of their numbers. -/
structure Machine (γ α : Type) where
  states : List (State γ α)

namespace State

variable {γ α : Type}

/-- A state without transitions. -/
def new (id accepting : Value) : State γ α := ⟨id, accepting, []⟩

/-- Appends a transition. -/
def add (s : State γ α) (t : Transition γ α) : State γ α :=
  { s with transitions := s.transitions ++ [t] }

/-- The state as a quoted text, in which its number and what is said about accepting stand
as plain texts. Both have to be closed. -/
def quoted (s : State γ α) : Except Fault String := do
  let id ← s.id.text
  let accepting ← s.accepting.text
  pure ("State(id=" ++ id ++ ", transitions=" ++ toString s.transitions.length ++
    ", accepting=" ++ accepting ++ ")")

@[simp] theorem transitions_add (s : State γ α) (t : Transition γ α) :
    (s.add t).transitions = s.transitions ++ [t] := rfl

@[simp] theorem id_add (s : State γ α) (t : Transition γ α) : (s.add t).id = s.id := rfl

end State

namespace Machine

variable {γ α : Type}

/-- The machine without states. -/
def empty : Machine γ α := ⟨[]⟩

/-- The number of states. -/
def size (m : Machine γ α) : Nat := m.states.length

/-- Appends a state, whose number is the size so far. -/
def addState (m : Machine γ α) (accepting : Value) : Machine γ α :=
  ⟨m.states ++ [State.new (.int m.size) accepting]⟩

/-- Changes the state at a place. -/
def modify (m : Machine γ α) (i : Nat) (f : State γ α → State γ α) : Machine γ α :=
  ⟨m.states.modify i f⟩

/-- The state with a number, if the machine has it. -/
def state? (m : Machine γ α) (id : Int) : Option (State γ α) :=
  if 0 ≤ id then m.states[id.toNat]? else none

/-- The place of the state that a value asks for. Any number is compared with the range
of the states before its kind matters, so a fraction inside the range is refused as an
index, and one outside as a state that does not exist. -/
def locate (m : Machine γ α) (id : Value) : Except Fault Nat :=
  match id.number? with
  | none => .error (.unordered "<=" "int" id.typeName)
  | some n =>
    let q := n.quantity
    if (Quantity.ofInt 0).le q && q.lt (Quantity.ofInt m.size) then
      match n with
      | .whole k => .ok k.toNat
      | _ => .error .fractionalIndex
    else .error (.noSuchState id m.size)

@[simp] theorem state?_of_neg {m : Machine γ α} {id : Int} (h : id < 0) : m.state? id = none := by
  simp [state?, Int.not_le.mpr h]

@[simp] theorem state?_natCast (m : Machine γ α) (i : Nat) :
    m.state? (i : Int) = m.states[i]? := by
  simp [state?]

/-- A machine has exactly the states in its range. -/
theorem state?_isSome_iff (m : Machine γ α) (id : Int) :
    (m.state? id).isSome ↔ 0 ≤ id ∧ id < m.size := by
  unfold state? size
  split
  · next h =>
    rw [Option.isSome_iff_ne_none, ne_eq, List.getElem?_eq_none_iff]
    omega
  · next h => simp [h]

@[simp] theorem size_addState (m : Machine γ α) (accepting : Value) :
    (m.addState accepting).size = m.size + 1 := by
  simp [addState, size]

/-- A new state does not disturb the old ones. -/
theorem states_addState_of_lt {m : Machine γ α} {i : Nat} (h : i < m.size) (accepting : Value) :
    (m.addState accepting).states[i]? = m.states[i]? := by
  simp only [addState]
  exact List.getElem?_append_left h

@[simp] theorem size_modify (m : Machine γ α) (i : Nat) (f : State γ α → State γ α) :
    (m.modify i f).size = m.size := by
  simp [modify, size]

end Machine

end SymbolMachine
