/-
What a list finds, and what equality finds.

A list is searched for a symbol by sameness: a member that is the very object of the symbol is
found even if it does not equal the symbol. Only two kinds of values keep an identity by which this
could be told, a NaN and a rule for a single value, and these are the kinds whose values need not
equal themselves. So what is found is what equals a member, and beyond that only what is one object
with a member (`TokenStore.isIn_iff`).
-/
import SymbolMachine.Proofs.Tokens.Unrolling
import SymbolMachine.Proofs.Value.Equality

set_option autoImplicit false

namespace SymbolMachine

namespace Value

/-- Whether two values are one object, as far as values keep an identity. -/
def identical : Value → Value → Bool
  | nan i, nan j => i = j
  | equals i _, equals j _ => i = j
  | _, _ => false

/-- **To be the same is to be equal, or one object.** -/
theorem same_eq_or (v w : Value) : v.same w = (v.eq w || v.identical w) := by
  unfold same eq
  cases v with
  | nan i | equals i x => cases w <;> simp [alike, identical, Bool.or_comm]
  | _ => simp [alike, identical]

end Value

namespace TokenStore

/-- What a store has in the place of a reference has no identity of its own. -/
theorem identical_unroll_shared (s : TokenStore) (depth : Nat) (r : Reference) (u : Value) :
    (s.unroll depth (.shared r)).identical u = false ∧
      u.identical (s.unroll depth (.shared r)) = false := by
  cases depth with
  | zero => cases u <;> exact ⟨rfl, rfl⟩
  | succ depth =>
      rw [unroll]
      cases r with
      | token i =>
          unfold opened
          dsimp only
          split <;> cases u <;> exact ⟨rfl, rfl⟩
      | collection c => cases u <;> exact ⟨rfl, rfl⟩

/-- Unrolling keeps identities. -/
theorem identical_whole (s : TokenStore) (v w : Value) :
    (s.whole v).identical (s.whole w) = v.identical w := by
  cases v with
  | shared r =>
      have hleft : (Value.shared r).identical w = false := by cases w <;> rfl
      rw [hleft]
      exact (s.identical_unroll_shared reach r _).1
  | _ =>
      cases w with
      | shared r => exact (s.identical_unroll_shared reach r _).2
      | _ => rfl

/-- To be the same is to be equal as things are, or one object. -/
theorem same_eq_or (s : TokenStore) (v w : Value) : s.same v w = (s.eq v w || v.identical w) := by
  rw [same_eq, Value.same_eq_or, ← eq_eq, identical_whole]

/-- Equality is stronger than sameness. -/
theorem same_of_eq (s : TokenStore) {v w : Value} (h : s.eq v w = true) : s.same v w = true := by
  rw [same_eq_or, h, Bool.true_or]

theorem same_comm (s : TokenStore) (v w : Value) : s.same v w = s.same w v := by
  rw [same_eq, same_eq]
  exact Value.alike_comm true _ _

/-- A list finds what equals a member or is one object with it. -/
theorem isIn_iff {s : TokenStore} {x : Value} {ws : List Value} :
    s.isIn x ws = true ↔ ∃ w ∈ ws, s.eq x w = true ∨ x.identical w = true := by
  rw [isIn, List.any_eq_true]
  refine exists_congr fun w => and_congr_right fun _ => ?_
  rw [same_comm, same_eq_or, Bool.or_eq_true]

end TokenStore

end SymbolMachine
