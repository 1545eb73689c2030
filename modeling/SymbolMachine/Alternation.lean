/-
The smallest machine of interest: two states that wait for `A` and `B` in turn.

Its actions remember the symbols they were called with. The demonstration runs it on three
words, shows what was remembered, and shows that a run without actions remembers nothing.
-/
import SymbolMachine.Machine.Run
import SymbolMachine.Rule

set_option autoImplicit false

namespace SymbolMachine.Alternation

/-- The one action: remember the symbol. -/
inductive Memory
  | remember
deriving DecidableEq

/-- A transition on one character. -/
def on (target : Int) (c : Char) : Transition Rule Memory :=
  ⟨.number target, .equals (.made 0) (.ofChar c), some .remember⟩

/-- State 0 accepts and waits for `A`, state 1 waits for `B`. -/
def machine : Machine Rule Memory :=
  ⟨[⟨.int 0, .bool true, [on 1 'A']⟩, ⟨.int 1, .bool false, [on 0 'B']⟩]⟩

/-- The machine in a world that is the list of remembered symbols. -/
def host : Host (List Char) Rule Memory Char where
  machine _ := machine
  test r x := pure (r.accepts TokenStore.empty (.ofChar x))
  perform _ x := modify (· ++ [x])
  record _ := pure ()
  detailed _ := false

/-- Fuel for a word: each character takes one unit, and a state has one transition. -/
def fuelFor (word : List Char) : Nat := word.length + 3

/-- Runs the machine on a word. -/
def run (actions : Bool) (word : List Char) : Effect (List Char) (Outcome StateId Char Nat) :=
  host.run Source.ofList (fuelFor word) (fun _ => actions) word

/-! ## The demonstration -/

/-- A text with blanks behind it up to a width. -/
def padded (width : Nat) (s : String) : String :=
  s ++ String.ofList (List.replicate (width - s.length) ' ')

/-- What is shown of a run. -/
def shown : Outcome StateId Char Nat → String
  | .success final =>
    let accepting :=
      match machine.state? final.toInt with
      | some s => s.accepting.quoted
      | none => ""
    "ended in state " ++ toString final.toInt ++ "  (accepting=" ++ accepting ++ ")"
  | .failure _ symbol position failing =>
    (Fault.unmatched (.ofChar symbol) (.int position) failing.toValue).message

/-- The line of a word. -/
def line (word : String) : Effect (List Char) String := do
  return "  " ++ padded 8 (Text.quoted word) ++ " -> " ++ shown (← run true word.toList) ++ "\n"

/-- The text of the demonstration. -/
def demonstration : Effect (List Char) String := do
  let first ← line "ABAB"
  let second ← line "ABA"
  let third ← line "AA"
  let seen ← get
  set ([] : List Char)
  let _ ← run false "ABAB".toList
  let after ← get
  return "=== A/B alternation ===\n\n" ++ first ++ second ++ third ++
    "\nActions saw: " ++ String.ofList seen ++
    "\nAfter a validation-only run, actions saw: " ++ Text.quoted (String.ofList after) ++ "\n"

/-- What the demonstration prints. -/
def printed : String :=
  match (demonstration []).1 with
  | .ok text => text
  | .error _ => ""

end SymbolMachine.Alternation
