/-
Hashes: the numbers under which rules and transitions are kept as keys.

How a value without parts is hashed, and how hashes are put together, is up to the runtime
(`Hasher`). Here is said of which parts the hash of a value is made, and which values have
none: lists, tokens and collections, and tuples and records with such parts.

A rule has a hash in any case. Where the value that it compares with has none, the rule is
hashed by its kind alone; rules of one kind then share a hash, and equality decides.
-/
import SymbolMachine.Machine.Basic
import SymbolMachine.Rule

set_option autoImplicit false

namespace SymbolMachine

/-- What the runtime makes of hashes. A number is hashed by its size, since numbers of one
size are equal whatever their kinds; a NaN, which has none, as the object that it is. -/
structure Hasher where
  number : Quantity → Int
  /-- A value without parts that is no number. -/
  atom : Value → Int
  /-- A tuple, by the hashes of its items. -/
  sequence : List Int → Int
  /-- A type, by its name. -/
  kind : String → Int

/-- A rule of a kind, by the hash of what it compares with. -/
def Hasher.rule (h : Hasher) (kind : String) (value : Except Fault Int) : Except Fault Int :=
  match value with
  | .ok n => .ok (h.sequence [h.kind kind, n])
  | .error f => if f.kind = "TypeError" then .ok (h.kind kind) else .error f

namespace Value

mutual

/-- The hash of a closed value. -/
def hash (h : Hasher) : Value → Except Fault Int
  | list _ => .error (.unhashable "list")
  | token _ _ | shared (.token _) => .error (.unhashable "Token")
  | collection _ | shared (.collection _) => .error (.unhashable "TokenCollection")
  | tuple vs => h.sequence <$> hashes h vs
  | named v => (fun n => h.sequence [n]) <$> v.hash h
  | equals _ v => h.rule "Equals" (v.hash h)
  | oneOf vs => h.rule "OneOf" (h.sequence <$> hashes h vs)
  | noneOf vs => h.rule "NoneOf" (h.sequence <$> hashes h vs)
  | nan i => .ok (h.atom (nan i))
  | v =>
    match v.quantity? with
    | some q => .ok (h.number q)
    | none => .ok (h.atom v)

/-- The hashes of some closed values, up to the first that has none. -/
def hashes (h : Hasher) : List Value → Except Fault (List Int)
  | [] => .ok []
  | v :: vs => do return (← v.hash h) :: (← hashes h vs)

end

end Value

/-- The hash of a rule as its values are now. -/
def Rule.hash (h : Hasher) (s : TokenStore) (r : Rule) : Except Fault Int :=
  (s.read r.toValue).hash h

/-- The hash of a transition, by its three fields. -/
def Transition.hash {γ α : Type} (h : Hasher) (guardHash : γ → Except Fault Int)
    (actionHash : α → Except Fault Int) (t : Transition γ α) : Except Fault Int := do
  let target ← t.target.toValue.hash h
  let guard ← guardHash t.guard
  let action ← match t.action with
    | some a => actionHash a
    | none => Value.null.hash h
  return h.sequence [target, guard, action]

end SymbolMachine
