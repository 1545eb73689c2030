/-
Comparing in a store as comparing what values unroll to.

Values of a store are compared step by step. Each reference is opened when the comparison comes to
it, and one object equals itself without being entered. The same answer is had by unrolling both
values to one depth first and comparing what has come of them, where nothing is known of objects any
more (`alikeTo_eq`). Nobody would compute equality like that, since what goes round in circles
unrolls to large values. But one object unrolls to one value, so whatever is known of equality of
values can be said of equality in a store.
-/
import SymbolMachine.Tokens.Store

set_option autoImplicit false

namespace SymbolMachine

namespace Value

/-- What closed values keep is kept of a closed value whose parts are replaced. -/
theorem mapParts_of_isClosed {f : Value → Value} (hf : ∀ x, x.isClosed = true → f x = x)
    {v : Value} (hv : v.isClosed = true) : v.mapParts f = v := by
  have hmap : ∀ xs, allClosed xs = true → xs.map f = xs := by
    intro xs hxs
    induction xs with
    | nil => rfl
    | cons x xs ih =>
        simp only [allClosed, Bool.and_eq_true] at hxs
        rw [List.map_cons, hf x hxs.1, ih hxs.2]
  cases v with
  | list xs | tuple xs | oneOf xs | noneOf xs | collection xs => simp only [mapParts, hmap xs hv]
  | named x | equals i x => simp only [mapParts, hf x hv]
  | token k l =>
      simp only [isClosed, Bool.and_eq_true] at hv
      simp only [mapParts, hf k hv.1, hf l hv.2]
  | _ => rfl

end Value

namespace TokenStore

variable {s : TokenStore}

/-- A value with what references stand for in their places, to a depth. -/
def unroll (s : TokenStore) : Nat → Value → Value
  | 0, v => v
  | depth + 1, v => (s.opened v).mapParts (s.unroll depth)

/-- A value unrolled as far as values are compared. -/
def whole (s : TokenStore) (v : Value) : Value := s.unroll reach v

/-- A token or collection equals itself. -/
theorem alike_unroll_shared (s : TokenStore) (depth : Nat) (identity : Bool) (r : Reference) :
    Value.alike identity (s.unroll depth (.shared r)) (s.unroll depth (.shared r)) = true := by
  have hself := Value.alike_self (s.unroll depth (.shared r))
  cases depth with
  | zero => exact hself
  | succ depth =>
      -- Its unrolling is none of the two kinds of values that identity makes a difference for.
      unfold unroll at hself ⊢
      cases r with
      | token i =>
          unfold opened at hself ⊢
          dsimp only at hself ⊢
          split at hself <;> exact hself
      | collection c => exact hself

/-- **To compare in a store is to compare what the values unroll to.** -/
theorem alikeTo_eq (s : TokenStore) (depth : Nat) (identity : Bool) (v w : Value) :
    s.alikeTo depth identity v w =
      Value.alike identity (s.unroll depth v) (s.unroll depth w) := by
  induction depth generalizing identity v w with
  | zero => rfl
  | succ depth ih =>
      have hstep : Value.alike identity (s.unroll (depth + 1) v) (s.unroll (depth + 1) w) =
          Value.alikeBy (s.alikeTo depth) identity (s.opened v) (s.opened w) := by
        have hpart : s.alikeTo depth =
            fun identity x y => Value.alike identity (s.unroll depth x) (s.unroll depth y) := by
          funext identity x y
          exact ih identity x y
        rw [Value.alike_eq_alikeBy, unroll, unroll, Value.alikeBy_mapParts, hpart]
      rw [alikeTo, ← hstep]
      cases hone : oneObject v w with
      | false => rfl
      | true =>
          obtain ⟨r, rfl, rfl⟩ : ∃ r, v = .shared r ∧ w = .shared r := by
            unfold oneObject at hone
            split at hone
            · exact ⟨_, rfl, congrArg Value.shared (of_decide_eq_true hone).symm⟩
            · cases hone
          rw [alike_unroll_shared]
          rfl

theorem eq_eq (s : TokenStore) (v w : Value) : s.eq v w = (s.whole v).eq (s.whole w) :=
  s.alikeTo_eq reach false v w

theorem same_eq (s : TokenStore) (v w : Value) : s.same v w = (s.whole v).same (s.whole w) :=
  s.alikeTo_eq reach true v w

theorem isIn_eq (s : TokenStore) (v : Value) (ws : List Value) :
    s.isIn v ws = (s.whole v).isIn (ws.map s.whole) := by
  rw [isIn, Value.isIn, List.any_map]
  exact congrArg ws.any (funext fun w => s.same_eq w v)

/-- A closed value is the same at all times. -/
theorem unroll_of_isClosed (s : TokenStore) (depth : Nat) {v : Value} (h : v.isClosed = true) :
    s.unroll depth v = v := by
  induction depth generalizing v with
  | zero => rfl
  | succ depth ih =>
      have hopened : s.opened v = v := by
        cases v with
        | shared r => cases h
        | _ => rfl
      rw [unroll, hopened]
      exact Value.mapParts_of_isClosed (fun _ => ih) h

theorem whole_of_isClosed (s : TokenStore) {v : Value} (h : v.isClosed = true) : s.whole v = v :=
  s.unroll_of_isClosed reach h

/-- Closed values are compared as they are. -/
theorem eq_of_isClosed (s : TokenStore) {v w : Value} (hv : v.isClosed = true)
    (hw : w.isClosed = true) : s.eq v w = v.eq w := by
  rw [eq_eq, s.whole_of_isClosed hv, s.whole_of_isClosed hw]

theorem same_of_isClosed (s : TokenStore) {v w : Value} (hv : v.isClosed = true)
    (hw : w.isClosed = true) : s.same v w = v.same w := by
  rw [same_eq, s.whole_of_isClosed hv, s.whole_of_isClosed hw]

end TokenStore

end SymbolMachine
