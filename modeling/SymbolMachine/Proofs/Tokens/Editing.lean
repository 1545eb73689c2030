/-
Editing a collection by a test that every item answers.

The test behind an edit may fail, and each edit says which items it asks. Where the test
answers for all items, nothing of this is left: an edit is then a function on lists that the
library knows. What an edit does to the collection follows from what its function does to the
items, and reading the items back follows from what they are in the store.
-/
import SymbolMachine.Tokens.Collection
import SymbolMachine.Proofs.Effect
import SymbolMachine.Proofs.Tokens.Unrolling
import Mathlib.Data.List.DropRight

set_option autoImplicit false

namespace SymbolMachine

/-! ## Sequences -/

namespace Sequence

variable {ι : Type} {is : Test ι} {p : ι → Bool} {xs : List ι}

/-- The test answers for every item of a sequence, and says what `p` says. -/
def Decides (is : Test ι) (p : ι → Bool) (xs : List ι) : Prop := ∀ x ∈ xs, is x = .ok (p x)

theorem decides_cons {x : ι} :
    Decides is p (x :: xs) ↔ is x = .ok (p x) ∧ Decides is p xs :=
  List.forall_mem_cons

theorem Decides.without_eq (h : Decides is p xs) :
    without is xs = .ok (xs.filter fun x => !p x) := by
  induction xs with
  | nil => rfl
  | cons x xs ih =>
      obtain ⟨hx, hxs⟩ := decides_cons.mp h
      rw [without, hx, ih hxs, List.filter_cons]
      cases p x <;> rfl

theorem Decides.trimStart_eq (h : Decides is p xs) : trimStart is xs = .ok (xs.dropWhile p) := by
  induction xs with
  | nil => rfl
  | cons x xs ih =>
      obtain ⟨hx, hxs⟩ := decides_cons.mp h
      rw [trimStart, hx, List.dropWhile_cons]
      cases p x
      · rfl
      · exact ih hxs

theorem Decides.trimEnd_eq (h : Decides is p xs) : trimEnd is xs = .ok (xs.rdropWhile p) := by
  have hreverse : Decides is p xs.reverse := fun x hx => h x (List.mem_reverse.mp hx)
  rw [trimEnd, hreverse.trimStart_eq]
  rfl

/-- Trimming takes nothing away that would stay if all passing items were removed. -/
theorem filter_dropWhile (p : ι → Bool) (xs : List ι) :
    (xs.dropWhile p).filter (fun x => !p x) = xs.filter fun x => !p x := by
  induction xs with
  | nil => rfl
  | cons x xs ih =>
      rw [List.dropWhile_cons]
      by_cases hx : p x
      · simp [hx, ih]
      · simp [hx]

theorem filter_rdropWhile (p : ι → Bool) (xs : List ι) :
    (xs.rdropWhile p).filter (fun x => !p x) = xs.filter fun x => !p x := by
  rw [List.rdropWhile, List.filter_reverse, filter_dropWhile, List.filter_reverse,
    List.reverse_reverse]

end Sequence

/-! ## Collections -/

namespace Collection

variable {c : CollectionId} {s : TokenStore} {kind : Value} {p : Value → Bool}

theorem items_apply (c : CollectionId) (s : TokenStore) : items c s = (.ok (s.items c), s) := rfl

theorem kindTest_apply (kind : Value) (s : TokenStore) :
    kindTest kind s = (.ok (s.isOfKind kind), s) := rfl

/-! What asks all items at once asks them as they are now. -/

theorem startsWith_eq_ofExcept (c : CollectionId) (kind : Value) (s : TokenStore) :
    startsWith c kind s =
      Effect.ofExcept (Sequence.startsWith (s.isOfKind kind) (s.items c)) s := rfl

theorem endsWith_eq_ofExcept (c : CollectionId) (kind : Value) (s : TokenStore) :
    endsWith c kind s = Effect.ofExcept (Sequence.endsWith (s.isOfKind kind) (s.items c)) s := rfl

theorem split_eq_bind (c : CollectionId) (kind : Value) (withEmpty : Bool) (s : TokenStore) :
    split c kind withEmpty s =
      (Effect.ofExcept (Sequence.groups (s.isOfKind kind) (s.items c)) >>= fun groups =>
        (if withEmpty then groups else groups.filter fun g => !g.isEmpty).mapM new) s := by
  rw [split, Effect.bind_apply_of_ok s (kindTest_apply kind s),
    Effect.bind_apply_of_ok s (items_apply c s)]

/-- An edit that does not fail changes the items and nothing else. -/
theorem edit_apply_of_ok {f : List Value → Except Fault (List Value)} {ys : List Value}
    (h : f (s.items c) = .ok ys) : edit c f s = (.ok (), s.setItems c ys) := by
  rw [edit, Effect.bind_apply_of_ok s (items_apply c s), h]
  rfl

section Decided

variable (h : Sequence.Decides (s.isOfKind kind) p (s.items c))
include h

theorem removeKind_apply :
    removeKind c kind s = (.ok (), s.setItems c ((s.items c).filter fun x => !p x)) := by
  rw [removeKind, Effect.bind_apply_of_ok s (kindTest_apply kind s)]
  exact edit_apply_of_ok h.without_eq

theorem trimStart_apply :
    trimStart c kind s = (.ok (), s.setItems c ((s.items c).dropWhile p)) := by
  rw [trimStart, Effect.bind_apply_of_ok s (kindTest_apply kind s)]
  exact edit_apply_of_ok h.trimStart_eq

theorem trimEnd_apply :
    trimEnd c kind s = (.ok (), s.setItems c ((s.items c).rdropWhile p)) := by
  rw [trimEnd, Effect.bind_apply_of_ok s (kindTest_apply kind s)]
  exact edit_apply_of_ok h.trimEnd_eq

end Decided

end Collection

/-! ## Items -/

namespace TokenStore

/-- An item that is a token of closed parts reads as them, shared or not. -/
theorem read_of_token? {s : TokenStore} {x : Value} {t : Token} (h : s.token? x = some t)
    (hk : t.kind.isClosed = true) (hl : t.lexeme.isClosed = true) :
    s.read x = .token t.kind t.lexeme := by
  unfold token? at h
  split at h
  · cases h
    exact s.read_of_isClosed (by rw [Value.isClosed, hk, hl]; rfl)
  · exact s.read_token_of_isClosed h hk hl
  · cases h

/-- Only a token is of a kind or not. -/
theorem isOfKind_apply (s : TokenStore) (kind x : Value) :
    s.isOfKind kind x =
      match s.token? x with
      | some t => .ok (s.eq t.kind kind)
      | none => .error (.noAttribute x.typeName "type") := by
  unfold isOfKind kindOf
  cases s.token? x <;> rfl

/-- Whether a token is of a kind, where both kinds are closed. -/
theorem isOfKind_of_token? {s : TokenStore} {x kind : Value} {t : Token}
    (h : s.token? x = some t) (hk : t.kind.isClosed = true) (hkind : kind.isClosed = true) :
    s.isOfKind kind x = .ok (t.kind.eq kind) := by
  rw [isOfKind_apply, h]
  exact congrArg Except.ok (s.eq_of_isClosed hk hkind)

end TokenStore

end SymbolMachine
