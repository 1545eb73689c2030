/-
Two notions of sameness.

`Value.eq` is equality: numbers by exact size across their kinds, everything else within
its own kind. `Value.same` holds also between two occurrences of one object. The two
differ only where an object is not equal to itself, which a NaN is not, nor a rule that
compares with something not equal to itself.

The parts of a list, tuple, record, token or list rule are compared by `same` in either
notion; the value of a single-value rule is compared by `eq`. So the two are one
recursion with a flag for the outermost level. Two references are alike if they are one;
what they stand for is the store's to say, which compares with the same steps
(`alikeBy`).
-/
import SymbolMachine.Value.Number

set_option autoImplicit false

namespace SymbolMachine.Value

mutual

/-- Equality, or sameness where `identity` says that one object is the same as itself. -/
def alike (identity : Bool) : Value → Value → Bool
  | null, w => match w with | null => true | _ => false
  | str s, w => match w with | str t => s = t | _ => false
  | bytes s, w => match w with | bytes t => s = t | _ => false
  | member m, w => match w with | member n => m = n | _ => false
  -- A collection is a list of tokens, and compares as a list.
  | list xs, w => match w with | list ys | collection ys => allAlike xs ys | _ => false
  | tuple xs, w => match w with | tuple ys => allAlike xs ys | _ => false
  | named x, w => match w with | named y => alike true x y | _ => false
  | token k l, w =>
    match w with
    | token k' l' => alike true k k' && alike true l l'
    | _ => false
  | equals i x, w =>
    match w with
    | equals j y => (identity && decide (i = j)) || alike false x y
    | _ => false
  | oneOf xs, w => match w with | oneOf ys => allAlike xs ys | _ => false
  | noneOf xs, w => match w with | noneOf ys => allAlike xs ys | _ => false
  | collection xs, w =>
    match w with
    | list ys | collection ys => allAlike xs ys
    | _ => false
  | shared r, w => match w with | shared r' => r = r' | _ => false
  | nan i, w => match w with | nan j => identity && decide (i = j) | _ => false
  | source i, w => match w with | source j => i = j | _ => false
  | v, w =>
    match v.quantity?, w.quantity? with
    | some x, some y => x.eq y
    | _, _ => false

/-- Sameness position by position. -/
def allAlike : List Value → List Value → Bool
  | [], ys => ys.isEmpty
  | x :: xs, ys =>
    match ys with
    | [] => false
    | y :: ys => alike true x y && allAlike xs ys

end

/-- Equality of values. -/
def eq (v w : Value) : Bool := alike false v w

/-- One object, or equal. -/
def same (v w : Value) : Bool := alike true v w

/-- Whether a value is found in a list. -/
def isIn (v : Value) (ws : List Value) : Bool := ws.any fun w => same w v

/-! ## One step

A comparison goes from two values to their parts. This is one step of it, with what is said
of the parts left open. -/

/-- A value with each of its parts replaced. What a reference stands for is no part. -/
def mapParts (f : Value → Value) : Value → Value
  | list xs => list (xs.map f)
  | tuple xs => tuple (xs.map f)
  | named x => named (f x)
  | token k l => token (f k) (f l)
  | equals i x => equals i (f x)
  | oneOf xs => oneOf (xs.map f)
  | noneOf xs => noneOf (xs.map f)
  | collection xs => collection (xs.map f)
  | v => v

/-- Whether two values are alike, given which parts are. -/
def alikeBy (part : Bool → Value → Value → Bool) (identity : Bool) : Value → Value → Bool
  | list xs, w | collection xs, w =>
    match w with
    -- Lists of different lengths are told apart without a look at their items.
    | list ys | collection ys => xs.length = ys.length && xs.isEqv ys (part true)
    | _ => false
  | tuple xs, w => match w with | tuple ys => xs.isEqv ys (part true) | _ => false
  | named x, w => match w with | named y => part true x y | _ => false
  | token k l, w =>
    match w with
    | token k' l' => part true k k' && part true l l'
    | _ => false
  | equals i x, w =>
    match w with
    | equals j y => (identity && decide (i = j)) || part false x y
    | _ => false
  | oneOf xs, w => match w with | oneOf ys => xs.isEqv ys (part true) | _ => false
  | noneOf xs, w => match w with | noneOf ys => xs.isEqv ys (part true) | _ => false
  | v, w => alike identity v w

theorem allAlike_eq_isEqv (xs ys : List Value) : allAlike xs ys = xs.isEqv ys (alike true) := by
  induction xs generalizing ys with
  | nil => cases ys <;> rfl
  | cons x xs ih =>
      cases ys with
      | nil => rfl
      | cons y ys => rw [allAlike, ih, List.isEqv]

theorem length_and_isEqv (part : Value → Value → Bool) (xs ys : List Value) :
    (decide (xs.length = ys.length) && xs.isEqv ys part) = xs.isEqv ys part := by
  induction xs generalizing ys with
  | nil => cases ys <;> rfl
  | cons x xs ih =>
      cases ys with
      | nil => rfl
      | cons y ys =>
          rw [List.isEqv, ← ih]
          simp [Bool.and_left_comm]

/-- A comparison is one step, and then a comparison of the parts. -/
theorem alike_eq_alikeBy (identity : Bool) (v w : Value) :
    alike identity v w = alikeBy alike identity v w := by
  cases v <;> cases w <;> simp only [alike, alikeBy, allAlike_eq_isEqv, length_and_isEqv]

theorem isEqv_map (part : Value → Value → Bool) (f : Value → Value) (xs ys : List Value) :
    (xs.map f).isEqv (ys.map f) part = xs.isEqv ys fun x y => part (f x) (f y) := by
  induction xs generalizing ys with
  | nil => cases ys <;> rfl
  | cons x xs ih =>
      cases ys with
      | nil => rfl
      | cons y ys => simp only [List.map_cons, List.isEqv, ih]

/-- To replace the parts first is to compare the parts as they are replaced. -/
theorem alikeBy_mapParts (part : Bool → Value → Value → Bool) (identity : Bool)
    (f : Value → Value) (v w : Value) :
    alikeBy part identity (v.mapParts f) (w.mapParts f) =
      alikeBy (fun identity x y => part identity (f x) (f y)) identity v w := by
  cases v with
  | list _ | tuple _ | named _ | token _ _ | equals _ _ | oneOf _ | noneOf _ | collection _ =>
      cases w <;> simp [alikeBy, mapParts, isEqv_map]
  | _ => cases w <;> simp [alikeBy, mapParts, alike, quantity?, number?]

/-! ## Sameness is reflexive

Equality is not, which is what the identities are kept for. -/

mutual

/-- **Every value is the same as itself.** -/
theorem alike_self : (v : Value) → alike true v v = true
  | null | str _ | bytes _ | member _ | nan _ | equals _ _ | source _
  | shared _ => by simp [alike]
  | bool _ | int _ | intMember _ | float _ => by simp [alike]
  | list xs | tuple xs | oneOf xs | noneOf xs | collection xs => by
    simp only [alike]
    exact allAlike_self xs
  | named v => by
    simp only [alike]
    exact alike_self v
  | token k l => by
    simp only [alike, Bool.and_eq_true]
    exact ⟨alike_self k, alike_self l⟩

/-- Every list of values is the same as itself, position by position. -/
theorem allAlike_self : (vs : List Value) → allAlike vs vs = true
  | [] => rfl
  | v :: vs => by
    simp only [allAlike, Bool.and_eq_true]
    exact ⟨alike_self v, allAlike_self vs⟩

end

@[simp] theorem same_self (v : Value) : v.same v = true := alike_self v

/-- A list finds each of its members. -/
theorem isIn_of_mem {v : Value} {ws : List Value} (h : v ∈ ws) : v.isIn ws = true :=
  List.any_eq_true.mpr ⟨v, h, same_self v⟩

/-- A NaN does not equal itself. -/
theorem eq_nan_self (i : Identity) : (nan i).eq (nan i) = false := rfl

end SymbolMachine.Value
