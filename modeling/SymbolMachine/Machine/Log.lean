/-
What a run says about itself.

A run makes a note of each step, of the symbol it stops at, and of a target that does not
exist. A note is data; its level decides whether it is kept, and its wording is a function
of it.
-/
import SymbolMachine.Machine.Basic

set_option autoImplicit false

namespace SymbolMachine

/-- How much a note matters. -/
inductive Level
  | debug
  | info
  | warning
  | error
  | critical
deriving DecidableEq

namespace Level

/-- The order of the levels. -/
def rank : Level → Nat
  | debug => 10
  | info => 20
  | warning => 30
  | error => 40
  | critical => 50

/-- The name of a level. -/
def name : Level → String
  | debug => "DEBUG"
  | info => "INFO"
  | warning => "WARNING"
  | error => "ERROR"
  | critical => "CRITICAL"

/-- The level with a name. -/
def ofName? (s : String) : Option Level :=
  [debug, info, warning, error, critical].find? fun l => l.name = s

/-- Whether notes of a level are kept at a threshold. -/
def passes (threshold level : Level) : Bool := threshold.rank ≤ level.rank

theorem ofName?_name (l : Level) : ofName? l.name = some l := by
  cases l <;> decide

end Level

/-- A remark of a run on a symbol. -/
inductive Note (ξ : Type)
  /-- A transition was taken. -/
  | moved (source target : StateId) (symbol : ξ) (position : Nat)
  /-- No transition accepted the symbol. -/
  | rejected (state : StateId) (symbol : ξ) (position : Nat)
  /-- The transition taken has a target that does not exist. -/
  | unknownTarget (index : Nat) (state target : StateId)

namespace Note

variable {ξ : Type}

/-- Under this name a run makes its notes. -/
def author : String := "lexfsm.machine"

/-- Steps are detail, a target that does not exist is an error. -/
def level : Note ξ → Level
  | moved .. | rejected .. => .debug
  | unknownTarget .. => .error

/-- The wording of a note, given the text of a symbol. -/
def text (symbolText : ξ → String) : Note ξ → String
  | moved source target symbol position =>
    toString source.toInt ++ " -> " ++ toString target.toInt ++ " on " ++ symbolText symbol ++
      " at position " ++ toString position
  | rejected state symbol position =>
    "state " ++ toString state.toInt ++ " rejected " ++ symbolText symbol ++ " at position " ++
      toString position
  | unknownTarget index state target =>
    "transition " ++ toString index ++ " of state " ++ toString state.toInt ++
      " targets unknown state " ++ toString target.toInt

end Note

end SymbolMachine
