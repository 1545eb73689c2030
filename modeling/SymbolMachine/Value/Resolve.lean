/-
Values with something in the place of their references.

What a reference stands for is given by a function. Parts of a value may be references at
any depth, so resolving goes through all of it; what is put in the place of a reference is
not gone through again. A closed value has no references and is left as it is.
-/
import SymbolMachine.Value.Basic

set_option autoImplicit false

namespace SymbolMachine.Value

mutual

/-- Whether a value has no references. -/
def isClosed : Value → Bool
  | shared _ => false
  | list xs | tuple xs | oneOf xs | noneOf xs | collection xs => allClosed xs
  | named v | equals _ v => v.isClosed
  | token k l => k.isClosed && l.isClosed
  | _ => true

/-- Whether no value of a list has references. -/
def allClosed : List Value → Bool
  | [] => true
  | v :: vs => v.isClosed && allClosed vs

end

mutual

/-- The value with each reference replaced by what it stands for. -/
def resolve (target : Reference → Value) : Value → Value
  | shared r => target r
  | list xs => list (resolveAll target xs)
  | tuple xs => tuple (resolveAll target xs)
  | named v => named (v.resolve target)
  | token k l => token (k.resolve target) (l.resolve target)
  | equals i v => equals i (v.resolve target)
  | oneOf xs => oneOf (resolveAll target xs)
  | noneOf xs => noneOf (resolveAll target xs)
  | collection xs => collection (resolveAll target xs)
  | v => v

/-- The values of a list, each with its references replaced. -/
def resolveAll (target : Reference → Value) : List Value → List Value
  | [] => []
  | v :: vs => v.resolve target :: resolveAll target vs

end

/-- What a reference stands for does not change its kind of value. -/
theorem typeName_resolve {target : Reference → Value}
    (h : ∀ r, (target r).typeName = (shared r).typeName) (v : Value) :
    (v.resolve target).typeName = v.typeName := by
  cases v with
  | shared r => exact h r
  | _ => rfl

mutual

/-- **A closed value stands for itself.** -/
theorem resolve_of_isClosed (target : Reference → Value) :
    (v : Value) → v.isClosed = true → v.resolve target = v
  | null, _ | bool _, _ | int _, _ | float _, _ | nan _, _ | str _, _ | bytes _, _ | member _, _
  | intMember _, _ | source _, _ => by simp [resolve]
  | list xs, h | tuple xs, h | oneOf xs, h | noneOf xs, h | collection xs, h => by
    simp only [isClosed] at h
    simp only [resolve, resolveAll_of_allClosed target xs h]
  | named v, h | equals _ v, h => by
    simp only [isClosed] at h
    simp only [resolve, resolve_of_isClosed target v h]
  | token k l, h => by
    simp only [isClosed, Bool.and_eq_true] at h
    simp only [resolve, resolve_of_isClosed target k h.1, resolve_of_isClosed target l h.2]

/-- Closed values stand for themselves. -/
theorem resolveAll_of_allClosed (target : Reference → Value) :
    (vs : List Value) → allClosed vs = true → resolveAll target vs = vs
  | [], _ => rfl
  | v :: vs, h => by
    simp only [allClosed, Bool.and_eq_true] at h
    simp only [resolveAll, resolve_of_isClosed target v h.1, resolveAll_of_allClosed target vs h.2]

end

end SymbolMachine.Value
