/-
Running a machine.

A run asks a source for one symbol after another. For each it tries the transitions of
the current state in order, takes the first whose guard accepts, performs its action, and
goes on in its target. It ends when the source is used up, at the first symbol that no
transition accepts, or at a transition whose target does not exist.

Guards, actions and the source are callbacks into a world that they may change, and the
machine is part of that world. So what a run reads anew and what it reads once matters:
the transitions of the current state are read anew at each place of the scan, whether
actions are wanted is asked anew for each transition taken, and the number of states and
the wish for detailed notes are read once, at the start.

The loops take fuel. A scan whose guards keep adding transitions to the scanned state
would not end, and neither would a run whose source never is used up; such computations
stall. Everything else needs only as much fuel as there are transitions to try or symbols
to read.
-/
import SymbolMachine.Effect
import SymbolMachine.Machine.Log
import SymbolMachine.Machine.Outcome

set_option autoImplicit false

namespace SymbolMachine

/-- The world of a run: where the machine is, how its guards are asked and its actions
performed, what becomes of notes, and whether detailed ones are wanted. -/
structure Host (ω γ α ξ : Type) where
  machine : ω → Machine γ α
  test : γ → ξ → Effect ω Bool
  perform : α → ξ → Effect ω Unit
  record : Note ξ → Effect ω Unit
  detailed : ω → Bool

/-- A source of symbols: asked in a state `ν` of its own, it gives the next symbol and the
state after it, or says that there are no more. -/
abbrev Source (ω ν ξ : Type) : Type := ν → Effect ω (Option (ξ × ν))

/-- The source that gives the symbols of a list. -/
def Source.ofList {ω ξ : Type} : Source ω (List ξ) ξ
  | [] => pure none
  | x :: xs => pure (some (x, xs))

variable {ω γ α ξ ν : Type}

/-- A source whose own state is part of the world, so that what one run leaves of it is there
for the next. A source that ends or fails is used up: its state is `spent` from then on. -/
def Source.kept (next : Source ω ν ξ) (spent : ν) : Source (ω × ν) Unit ξ := fun _ w =>
  match next w.2 w.1 with
  | (.ok (some (x, rest)), w') => (.ok (some (x, ())), (w', rest))
  | (.ok none, w') => (.ok none, (w', spent))
  | (.error e, w') => (.error e, (w', spent))

/-- The first transition from place `i` on whose guard accepts the symbol, with its place.
The transitions are read anew for each place. -/
def firstMatch (transitions : ω → List (Transition γ α)) (test : γ → ξ → Effect ω Bool) (x : ξ) :
    Nat → Nat → Effect ω (Option (Nat × Transition γ α))
  | 0, _ => Effect.stall
  | fuel + 1, i => do
    match (transitions (← get))[i]? with
    | none => pure none
    | some t =>
      if ← test t.guard x then pure (some (i, t))
      else firstMatch transitions test x fuel (i + 1)

namespace Host

variable (h : Host ω γ α ξ)

/-- The transitions that a state has now. -/
def transitionsOf (s : StateId) (w : ω) : List (Transition γ α) :=
  match (h.machine w).state? s.toInt with
  | some state => state.transitions
  | none => []

/-- Looks a state up in the machine as it is now. -/
def stateNow (s : StateId) : Effect ω (State γ α) := do
  match (h.machine (← get)).state? s.toInt with
  | some state => pure state
  | none => Effect.raise .outOfRange

/-- What a run knows from its start: the number of states, whether detailed notes are
wanted, and how to find out whether actions are. -/
structure Setting (ω : Type) where
  count : Nat
  detailed : Bool
  actions : ω → Bool

/-- Makes a detailed note if such notes were wanted at the start. -/
def remark (setting : Setting ω) (note : Note ξ) : Effect ω Unit :=
  if setting.detailed then h.record note else pure ()

/-- Takes a transition on a symbol: performs its action, then looks at its target. -/
def take (setting : Setting ω) (current : StateId) (position : Nat) (x : ξ) (index : Nat)
    (t : Transition γ α) : Effect ω StateId := do
  -- The action comes first: it is performed even if the target turns out not to exist.
  if setting.actions (← get) then
    match t.action with
    | some a => h.perform a x
    | none => pure ()
  if 0 ≤ t.target.toInt ∧ t.target.toInt < setting.count then
    h.remark setting (.moved current t.target x position)
    pure t.target
  else
    -- This note is made whether or not detailed ones are wanted.
    h.record (.unknownTarget index current t.target)
    Effect.raise (.invalidTarget current.toValue (.int index) t.target.toValue (.int position)
      (.int setting.count))

/-- Reads one symbol: answers the next state, or none if the symbol is rejected. -/
def step (setting : Setting ω) (fuel : Nat) (current : StateId) (position : Nat) (x : ξ) :
    Effect ω (Option StateId) := do
  -- A machine without states fails only when it is given a symbol.
  if setting.count = 0 then Effect.raise .noStates
  let _ ← h.stateNow current
  match ← firstMatch (h.transitionsOf current) h.test x fuel 0 with
  | none =>
    h.remark setting (.rejected current x position)
    pure none
  | some (index, t) => some <$> h.take setting current position x index t

/-- Reads symbols from a state on. -/
def drive (next : Source ω ν ξ) (setting : Setting ω) :
    Nat → StateId → Nat → ν → Effect ω (Outcome StateId ξ Nat)
  | 0, _, _, _ => Effect.stall
  | fuel + 1, current, position, source => do
    match ← next source with
    | none => pure (.success current)
    | some (x, rest) =>
      match ← h.step setting fuel current position x with
      | none => pure (.failure current x position current)
      | some target => drive next setting fuel target (position + 1) rest

/-- Runs the machine from its start, with its actions while they are wanted. -/
def run (next : Source ω ν ξ) (fuel : Nat) (actions : ω → Bool) (source : ν) :
    Effect ω (Outcome StateId ξ Nat) := do
  let w ← get
  -- States that callbacks add later are unknown to this run.
  h.drive next ⟨(h.machine w).size, h.detailed w, actions⟩ fuel .start 1 source

/-- Whether the symbols lead to the end in an accepting state: false if a symbol is
rejected, and otherwise what the owner of the final state says about accepting. No action
is performed. -/
def accepts (next : Source ω ν ξ) (fuel : Nat) (source : ν) : Effect ω Value := do
  let outcome ← h.run next fuel (fun _ => false) source
  if outcome.isSuccess then return (← h.stateNow outcome.final).accepting
  else return .bool false

end Host

end SymbolMachine
