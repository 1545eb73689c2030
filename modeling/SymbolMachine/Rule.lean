/-
Rules that can be looked into: a symbol equals a value, is one of some values, or is none
of them.

A rule is itself a value. Its values may refer to tokens and collections, so whether it
accepts a symbol is asked of the store in which both are compared.
-/
import SymbolMachine.Tokens.Store

set_option autoImplicit false

namespace SymbolMachine

/-- A rule for symbols. A single-value rule keeps its identity, because it need not equal
itself. -/
inductive Rule
  | equals (identity : Identity) (value : Value)
  | oneOf (values : List Value)
  | noneOf (values : List Value)

namespace Rule

/-- The rule as a value. -/
def toValue : Rule → Value
  | equals i v => .equals i v
  | oneOf vs => .oneOf vs
  | noneOf vs => .noneOf vs

/-- A value as a rule, if it is one. -/
def ofValue? : Value → Option Rule
  | .equals i v => some (equals i v)
  | .oneOf vs => some (oneOf vs)
  | .noneOf vs => some (noneOf vs)
  | _ => none

/-- Whether the rule accepts a symbol now: by equality for a single value, by sameness for a
list. -/
def accepts (s : TokenStore) : Rule → Value → Bool
  | equals _ v, x => s.eq x v
  | oneOf vs, x => s.isIn x vs
  | noneOf vs, x => !s.isIn x vs

@[simp] theorem ofValue?_toValue (r : Rule) : ofValue? r.toValue = some r := by
  cases r <;> rfl

/-- A value that is a rule is that rule. -/
theorem toValue_of_ofValue? {v : Value} {r : Rule} (h : ofValue? v = some r) : r.toValue = v := by
  cases v <;> simp_all [ofValue?] <;> subst h <;> rfl

end Rule

end SymbolMachine
