/-
Rules that are asked about characters.

A character is closed: it refers to no token and no collection. So a rule made of characters
answers alike in every store, and what it answers is a question about the characters alone.
-/
import SymbolMachine.Proofs.Tokens.Unrolling
import SymbolMachine.Rule

set_option autoImplicit false

namespace SymbolMachine

namespace Value

theorem alike_ofChar (identity : Bool) (a b : Char) :
    alike identity (ofChar a) (ofChar b) = decide (a = b) := by
  simp [ofChar, alike]

end Value

namespace Rule

variable (s : TokenStore) (x : Char)

/-- A rule for a single character accepts that one. -/
theorem accepts_equals_ofChar (i : Identity) (c : Char) :
    (equals i (.ofChar c)).accepts s (.ofChar x) = decide (x = c) := by
  rw [accepts, s.eq_of_isClosed rfl rfl, Value.eq, Value.alike_ofChar]

/-- A rule for some characters accepts those. -/
theorem accepts_oneOf_map_ofChar (cs : List Char) :
    (oneOf (cs.map .ofChar)).accepts s (.ofChar x) = decide (x ∈ cs) := by
  have hsame : ∀ c, s.same (.ofChar c) (.ofChar x) = decide (c = x) := fun c => by
    rw [s.same_of_isClosed rfl rfl, Value.same, Value.alike_ofChar]
  rw [accepts, TokenStore.isIn, List.any_map]
  simp only [Function.comp_def, hsame]
  rw [List.any_eq, decide_eq_decide]
  simp

end Rule

end SymbolMachine
