/-
Edits of a collection that fail.

A collection may hold items that have no kind. An edit by kind asks the items one after another
and fails on the first of these that it asks. Each of the edits computes the new items before it
puts them in place, so one that fails changes nothing. Trimming at both ends is two edits, and
what the first of them did stays done if the second one fails.
-/
import SymbolMachine.Proofs.Tokens.Editing

set_option autoImplicit false

namespace SymbolMachine

namespace Sequence

variable {ι : Type} {is : Test ι}

/-- What trimming at the start takes away are items that pass, up to one that does not. -/
theorem exists_drop_of_trimStart {xs ys : List ι} (h : trimStart is xs = .ok ys) :
    ∃ n, ys = xs.drop n ∧ (∀ x ∈ xs.take n, is x = .ok true) ∧
      ∀ y ∈ ys.head?, is y = .ok false := by
  induction xs with
  | nil =>
      obtain rfl : [] = ys := Except.ok.inj h
      refine ⟨0, rfl, List.forall_mem_nil _, ?_⟩
      rintro _ ⟨⟩
  | cons x xs ih =>
      rw [trimStart] at h
      rcases hx : is x with f | passes <;> rw [hx] at h
      · cases h
      cases passes with
      | false =>
          obtain rfl : x :: xs = ys := Except.ok.inj h
          refine ⟨0, rfl, List.forall_mem_nil _, ?_⟩
          rintro _ ⟨⟩
          exact hx
      | true =>
          obtain ⟨n, rfl, htaken, hhead⟩ := ih h
          refine ⟨n + 1, rfl, ?_, hhead⟩
          rw [List.take_succ_cons]
          exact List.forall_mem_cons.mpr ⟨hx, htaken⟩

end Sequence

namespace Collection

variable {c : CollectionId} {kind : Value} {s s' : TokenStore} {e : Stop}

/-- The two ways of an edit by kind: it fails and does nothing, or it replaces the items by what
was made of them. -/
theorem editByKind_cases (c : CollectionId) (kind : Value) (s : TokenStore)
    (f : Sequence.Test Value → List Value → Except Fault (List Value)) :
    let edited := (kindTest kind >>= fun is => edit c (f is)) s
    (∃ g, f (s.isOfKind kind) (s.items c) = .error g ∧ edited = (.error (.fault g), s)) ∨
      ∃ ys, f (s.isOfKind kind) (s.items c) = .ok ys ∧ edited = (.ok (), s.setItems c ys) := by
  intro edited
  have hedited : edited = edit c (f (s.isOfKind kind)) s :=
    Effect.bind_apply_of_ok s (kindTest_apply kind s)
  rcases hf : f (s.isOfKind kind) (s.items c) with g | ys
  · refine .inl ⟨g, rfl, ?_⟩
    rw [hedited, edit, Effect.bind_apply_of_ok s (items_apply c s), hf]
    rfl
  · exact .inr ⟨ys, rfl, hedited.trans (edit_apply_of_ok hf)⟩

/-- One edit that fails changes nothing. -/
theorem eq_of_editByKind_eq_error {f : Sequence.Test Value → List Value → Except Fault (List Value)}
    (h : (kindTest kind >>= fun is => edit c (f is)) s = (.error e, s')) : s' = s := by
  rcases editByKind_cases c kind s f with ⟨g, -, heq⟩ | ⟨ys, -, heq⟩ <;> rw [heq] at h <;> cases h
  rfl

/-- Trimming at the start, where it works. -/
theorem exists_drop_of_trimStart (h : trimStart c kind s = (.ok (), s')) :
    ∃ n, s' = s.setItems c ((s.items c).drop n) ∧
      (∀ x ∈ (s.items c).take n, s.isOfKind kind x = .ok true) ∧
      ∀ x ∈ ((s.items c).drop n).head?, s.isOfKind kind x = .ok false := by
  rcases editByKind_cases c kind s Sequence.trimStart with ⟨g, -, heq⟩ | ⟨ys, hys, heq⟩ <;>
    rw [trimStart, heq] at h <;> cases h
  obtain ⟨n, rfl, htaken, hhead⟩ := Sequence.exists_drop_of_trimStart hys
  exact ⟨n, rfl, htaken, hhead⟩

/-- **What a failed edit leaves.** Removing, collapsing and trimming at one end leave the whole
store as it was if they fail, whatever the collection holds. Trimming at both ends does so too if
it fails at the start; if it fails at the end, the collection has lost what trimming at the start
takes away, and nothing else has changed. -/
theorem failed_edit_leaves (c : CollectionId) (kind : Value) (s s' : TokenStore) (e : Stop) :
    (∀ op ∈ [removeKind, collapseKind, trimStart, trimEnd],
      op c kind s = (.error e, s') → s' = s) ∧
    (trim c kind s = (.error e, s') →
      (trimStart c kind s = (.error e, s) ∧ s' = s) ∨
      (trimStart c kind s = (.ok (), s') ∧ trimEnd c kind s' = (.error e, s') ∧
        ∃ n, s' = s.setItems c ((s.items c).drop n) ∧
          (∀ x ∈ (s.items c).take n, s.isOfKind kind x = .ok true) ∧
          ∀ x ∈ ((s.items c).drop n).head?, s.isOfKind kind x = .ok false)) := by
  constructor
  · intro op hop h
    -- Each of the four is `kindTest` and then one edit.
    simp only [List.mem_cons, List.not_mem_nil, or_false] at hop
    rcases hop with rfl | rfl | rfl | rfl <;> exact eq_of_editByKind_eq_error h
  · intro h
    rcases hstart : trimStart c kind s with ⟨e₁ | ⟨⟩, s₁⟩
    · obtain rfl : s₁ = s := eq_of_editByKind_eq_error hstart
      rw [trim, Effect.bind_apply_of_error _ hstart] at h
      cases h
      exact .inl ⟨rfl, rfl⟩
    · rw [trim, Effect.bind_apply_of_ok _ hstart] at h
      obtain rfl : s' = s₁ := eq_of_editByKind_eq_error h
      exact .inr ⟨rfl, h, exists_drop_of_trimStart hstart⟩

/-- A collection of two tokens and a number behind them. -/
def mixedStore : TokenStore :=
  ⟨#[⟨.int 1, .str "a"⟩, ⟨.int 2, .str "b"⟩],
    #[#[.shared (.token 0), .shared (.token 1), .int 5]], []⟩

/-- Removing asks for the kind of the number before anything is changed. -/
theorem failed_edit_leaves_mixedStore :
    (removeKind 0 (.int 1) mixedStore).2 = mixedStore ∧
      ∃ n, (trim 0 (.int 1) mixedStore).2 = mixedStore.setItems 0 ((mixedStore.items 0).drop n) := by
  have hleaves := failed_edit_leaves 0 (.int 1) mixedStore
  refine ⟨(hleaves _ (.fault (.noAttribute "int" "type"))).1 removeKind (List.mem_cons_self ..) rfl,
    ?_⟩
  rcases (hleaves _ (.fault (.noAttribute "int" "type"))).2 rfl with ⟨-, h⟩ | ⟨-, -, n, h, -⟩
  · exact ⟨0, h⟩
  · exact ⟨n, h⟩

/-- Trimming takes the first token away before it fails. -/
theorem trim_not_all_or_nothing :
    ∃ s, trim 0 (.int 1) mixedStore = (.error (.fault (.noAttribute "int" "type")), s) ∧
      s.items 0 = [.shared (.token 1), .int 5] ∧ s.items 0 ≠ mixedStore.items 0 := by
  refine ⟨mixedStore.setItems 0 [.shared (.token 1), .int 5], rfl, rfl, fun h => ?_⟩
  have hlength := congrArg List.length h
  cases hlength

end Collection

end SymbolMachine
