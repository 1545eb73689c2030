/-
How a run ends when nothing goes wrong with the machine itself: all symbols were read, or
one was rejected.

An outcome keeps its state numbers, symbol and position in whatever form its maker has
them, so that a run can use exact types and a caller may build an outcome of arbitrary
values.
-/
import SymbolMachine.Fault.Message

set_option autoImplicit false

namespace SymbolMachine

/-- The end of a run. A failure has the state in which the run halted, the rejected
symbol, its position counted from 1, and the state whose transitions rejected it. -/
inductive Outcome (σ ξ π : Type)
  | success (final : σ)
  | failure (final : σ) (symbol : ξ) (position : π) (failing : σ)
deriving DecidableEq

namespace Outcome

variable {σ ξ π : Type}

/-- Whether all symbols were read. -/
def isSuccess : Outcome σ ξ π → Bool
  | success _ => true
  | failure .. => false

/-- The state in which the run ended. -/
def final : Outcome σ ξ π → σ
  | success s => s
  | failure s .. => s

/-- The same outcome with its parts in another form. -/
def map {σ' ξ' π' : Type} (f : σ → σ') (g : ξ → ξ') (h : π → π') :
    Outcome σ ξ π → Outcome σ' ξ' π'
  | success s => success (f s)
  | failure s x p t => failure (f s) (g x) (h p) (f t)

end Outcome

/-- An outcome whose parts are closed values. -/
abbrev Report : Type := Outcome Value Value Value

namespace Report

/-- The fault that describes a failure. -/
def fault? : Report → Option Fault
  | .success _ => none
  | .failure _ symbol position failing => some (.unmatched symbol position failing)

/-- The message of a failure, which is the wording of its fault. -/
def message? (r : Report) : Except Fault (Option String) :=
  match r.fault? with
  | none => .ok none
  | some f => some <$> f.text

/-- The final state of a success; a failure raises its fault. -/
def unwrap : Report → Except Fault Value
  | .success final => .ok final
  | .failure _ symbol position failing => .error (.unmatched symbol position failing)

/-- The parts of a report in their order. -/
def fields : Report → List Value
  | .success final => [final]
  | .failure final symbol position failing => [final, symbol, position, failing]

/-- Reports of one kind are equal when their parts are the same. -/
def alike (same : Value → Value → Bool) : Report → Report → Bool
  | .success a, .success b => same a b
  | .failure a b c d, .failure a' b' c' d' =>
    same a a' && same b b' && same c c' && same d d'
  | _, _ => false

/-- The report as a quoted text. -/
def quoted : Report → String
  | .success final => "Success(final_state=" ++ final.quoted ++ ")"
  | .failure final symbol position failing =>
    "Failure(final_state=" ++ final.quoted ++ ", symbol=" ++ symbol.quoted ++ ", position=" ++
      position.quoted ++ ", failing_state=" ++ failing.quoted ++ ")"

end Report

end SymbolMachine
