/-
Taking items out of a collection, again and again.

An edit by kind leaves a part of the items, so after some edits the collection holds a part of
what it held at first. Each further edit asks the items that are left for their kind anew, in the
store as it is by then. A kind may be a collection, even the one that is edited, or hold it, so the
answers can change with the items, and in `Collection.loopedStore` they do. `TokenStore.KeepsKind`
says that they do not. There are two reasons why they should not: no reference leads from the kinds
back to the collection (`keepsKind_of_not_leads`), or the tokens are of kinds that hold nothing at
all, as numbers and names do (`keepsKind_of_atoms`). The edits are then functions on lists that can
be put one after another (`TokenStore.Shortens`).
-/
import SymbolMachine.Proofs.Tokens.References
import Mathlib.Logic.Relation

set_option autoImplicit false

namespace SymbolMachine

/-! ## Values that hold no others -/

namespace Value

/-- A value that holds no other values. -/
def isAtom : Value → Bool
  | list _ | tuple _ | named _ | token _ _ | equals _ _ | oneOf _ | noneOf _ | collection _
  | shared _ => false
  | _ => true

variable {v w : Value}

theorem isClosed_of_isAtom (hv : v.isAtom = true) : v.isClosed = true := by
  cases v <;> first | rfl | cases hv

theorem isAtom_mapParts (f : Value → Value) (v : Value) : (v.mapParts f).isAtom = v.isAtom := by
  cases v <;> rfl

/-- No atom equals a value that is none. -/
theorem eq_of_isAtom (hv : v.isAtom = true) (hw : w.isAtom = false) : v.eq w = false := by
  cases v with
  | null | bool _ | int _ | float _ | nan _ | str _ | bytes _ | member _ | intMember _ | source _ =>
      cases w with
      | list _ | tuple _ | named _ | token _ _ | equals _ _ | oneOf _ | noneOf _ | collection _
      | shared _ => simp [eq, alike, quantity?, number?]
      | _ => cases hw
  | _ => cases hv

end Value

namespace TokenStore

variable {s : TokenStore} {c : CollectionId} {kind : Value} {xs : List Value}

/-- A reference stands for a token or a collection, if for anything. -/
theorem isAtom_unroll (s : TokenStore) (depth : Nat) (v : Value) :
    (s.unroll depth v).isAtom = v.isAtom := by
  cases depth with
  | zero => rfl
  | succ depth =>
      rw [unroll, Value.isAtom_mapParts]
      unfold opened
      split
      · split <;> rfl
      · rfl
      · rfl

/-- Whether an atom equals a value does not hang on what is in the store. -/
theorem eq_of_isAtom (s : TokenStore) {v : Value} (hv : v.isAtom = true) (w : Value) :
    s.eq v w = (w.isAtom && v.eq w) := by
  cases hw : w.isAtom with
  | true =>
      exact s.eq_of_isClosed (Value.isClosed_of_isAtom hv) (Value.isClosed_of_isAtom hw)
  | false =>
      rw [s.eq_eq, s.whole_of_isClosed (Value.isClosed_of_isAtom hv)]
      exact Value.eq_of_isAtom hv ((s.isAtom_unroll reach w).trans hw)

/-! ## What the items are good for -/

theorem setItems_setItems (s : TokenStore) (c : CollectionId) (xs ys : List Value) :
    (s.setItems c xs).setItems c ys = s.setItems c ys :=
  congrArg (fun cs => { s with collections := cs }) (Array.setIfInBounds_setIfInBounds _)

theorem setItems_items (s : TokenStore) (c : CollectionId) : s.setItems c (s.items c) = s := by
  refine congrArg (fun cs => { s with collections := cs }) ?_
  by_cases hc : c < s.collections.size
  · simp only [TokenStore.items, Array.getElem?_eq_getElem hc, Option.getD_some, Array.toArray_toList]
    rw [Array.setIfInBounds_def, dif_pos hc, Array.set_getElem_self]
  · exact Array.setIfInBounds_eq_of_size_le (Nat.not_lt.mp hc)

/-- One place leads to another by references, in any number of steps. -/
def Leads (s : TokenStore) : Reference → Reference → Prop :=
  Relation.ReflTransGen fun r r' => r' ∈ s.ahead r

/-- Only what leads to a collection can see its items. -/
theorem agreesOn_setItems (s : TokenStore) (c : CollectionId) (xs : List Value) :
    s.AgreesOn (fun r => ¬s.Leads r (.collection c)) (s.setItems c xs) where
  cells _ _ := rfl
  items d hd := by
    refine items_setItems_of_ne s ?_ xs
    rintro rfl
    exact hd .refl
  ahead _ hr _ hr' hleads := hr (.head hr' hleads)

/-- Taking items out of the collection does not change which of those that are left are of the
kind. A kind that is not made of the collection is of this sort. -/
def KeepsKind (s : TokenStore) (c : CollectionId) (kind : Value) : Prop :=
  ∀ xs : List Value, xs.Sublist (s.items c) →
    ∀ x ∈ xs, (s.setItems c xs).isOfKind kind x = s.isOfKind kind x

/-- **What cannot see the collection does not change with it.** -/
theorem keepsKind_of_not_leads (hkind : ∀ r ∈ kind.references, ¬s.Leads r (.collection c))
    (hitems : ∀ x ∈ s.items c, ∀ t, s.token? x = some t →
      ∀ r ∈ t.kind.references, ¬s.Leads r (.collection c)) : s.KeepsKind c kind := by
  intro xs hxs x hx
  exact (s.agreesOn_setItems c xs).isOfKind_eq hkind (hitems x (hxs.subset hx)) rfl rfl

/-- **Tokens whose kinds are atoms can be asked for any kind**, also for one that the collection is
part of. -/
theorem keepsKind_of_atoms
    (hitems : ∀ x ∈ s.items c, ∀ t, s.token? x = some t → t.kind.isAtom = true) (kind : Value) :
    s.KeepsKind c kind := by
  intro xs hxs x hx
  rw [isOfKind_apply, isOfKind_apply, token?_setItems]
  cases ht : s.token? x with
  | none => rfl
  | some t =>
      have hatom := hitems x (hxs.subset hx) t ht
      simp only [TokenStore.eq_of_isAtom _ hatom]

theorem HasTokens.setItems (h : s.HasTokens c) (hxs : xs.Sublist (s.items c)) :
    (s.setItems c xs).HasTokens c where
  known := by
    change c < (s.collections.setIfInBounds c _).size
    rw [Array.size_setIfInBounds]
    exact h.known
  tokens := by
    rw [items_setItems s h.known]
    exact fun x hx => h.tokens x (hxs.subset hx)

/-- The items that are left are asked with success, and say what they said at first. -/
theorem KeepsKind.decides (hkind : s.KeepsKind c kind) (h : s.HasTokens c)
    (hxs : xs.Sublist (s.items c)) :
    Sequence.Decides ((s.setItems c xs).isOfKind kind) (s.hasKind kind)
      ((s.setItems c xs).items c) := by
  rw [items_setItems s h.known]
  intro x hx
  rw [hkind xs hxs x hx]
  exact h.decides kind x (hxs.subset hx)

/-! ## One edit after another -/

/-- An operation does to the items what a function on lists does, however many of them have been
taken out before. -/
structure Shortens (s : TokenStore) (c : CollectionId) (op : Effect TokenStore Unit)
    (f : List Value → List Value) : Prop where
  sublist : ∀ xs, (f xs).Sublist xs
  apply : ∀ xs : List Value, xs.Sublist (s.items c) →
    op (s.setItems c xs) = (.ok (), s.setItems c (f xs))

namespace Shortens

variable {op op' : Effect TokenStore Unit} {f f' : List Value → List Value}

/-- Nothing has been taken out yet. -/
theorem apply_items (h : s.Shortens c op f) : op s = (.ok (), s.setItems c (f (s.items c))) := by
  have happly := h.apply (s.items c) (List.Sublist.refl _)
  rwa [setItems_items] at happly

/-- Two functions may leave the same of the items. -/
theorem apply_items_of_eq (h : s.Shortens c op f) (hleft : f (s.items c) = xs) :
    op s = (.ok (), s.setItems c xs) :=
  hleft ▸ h.apply_items

theorem bind (h : s.Shortens c op f) (h' : s.Shortens c op' f') :
    s.Shortens c (op >>= fun _ => op') (f' ∘ f) where
  sublist xs := (h'.sublist (f xs)).trans (h.sublist xs)
  apply xs hxs := by
    rw [Effect.bind_apply_of_ok _ (h.apply xs hxs)]
    exact h'.apply (f xs) ((h.sublist xs).trans hxs)

theorem pure : s.Shortens c (Pure.pure ()) id where
  sublist := List.Sublist.refl
  apply _ _ := rfl

/-- An edit of the items that are left, by what is said of their kind. -/
theorem of_edit {edit : Sequence.Test Value → List Value → Except Fault (List Value)}
    (h : s.HasTokens c) (hkind : s.KeepsKind c kind) (hsublist : ∀ xs, (f xs).Sublist xs)
    (hedit : ∀ is xs, Sequence.Decides is (s.hasKind kind) xs → edit is xs = .ok (f xs)) :
    s.Shortens c (Collection.kindTest kind >>= fun is => Collection.edit c (edit is)) f where
  sublist := hsublist
  apply xs hxs := by
    have hedited := hedit _ _ (hkind.decides h hxs)
    rw [Effect.bind_apply_of_ok _ (Collection.kindTest_apply kind _),
      Collection.edit_apply_of_ok hedited, setItems_setItems, items_setItems s h.known]

end Shortens

end TokenStore

namespace Collection

variable {s : TokenStore} {c : CollectionId} {kind : Value}

section Shortens

variable (h : s.HasTokens c) (hkind : s.KeepsKind c kind)
include h hkind

theorem shortens_removeKind :
    s.Shortens c (removeKind c kind) fun xs => xs.filter fun x => !s.hasKind kind x :=
  .of_edit h hkind (fun _ => List.filter_sublist) fun _ _ hdecides => hdecides.without_eq

theorem shortens_trimStart :
    s.Shortens c (trimStart c kind) fun xs => xs.dropWhile (s.hasKind kind) :=
  .of_edit h hkind (fun _ => List.dropWhile_sublist _) fun _ _ hdecides => hdecides.trimStart_eq

theorem shortens_trimEnd :
    s.Shortens c (trimEnd c kind) fun xs => xs.rdropWhile (s.hasKind kind) :=
  .of_edit h hkind (fun _ => (List.rdropWhile_prefix _ _).sublist) fun _ _ hdecides =>
    hdecides.trimEnd_eq

end Shortens

/-- Two words with two commas between them, and a comma on either side. -/
def gappedStore : TokenStore :=
  ⟨#[⟨.int 1, .str ","⟩, ⟨.int 2, .str "word"⟩],
    #[#[.shared (.token 0), .shared (.token 1), .shared (.token 0), .shared (.token 0),
      .shared (.token 1), .shared (.token 0)]], []⟩

theorem gappedStore_items {x : Value} (hx : x ∈ gappedStore.items 0) :
    x = .shared (.token 0) ∨ x = .shared (.token 1) := by
  have hitems : gappedStore.items 0 = [.shared (.token 0), .shared (.token 1), .shared (.token 0),
    .shared (.token 0), .shared (.token 1), .shared (.token 0)] := rfl
  rw [hitems] at hx
  simp only [List.mem_cons, List.not_mem_nil, or_false] at hx
  tauto

theorem gappedStore_hasTokens : gappedStore.HasTokens 0 where
  known := Nat.one_pos
  tokens := by
    intro x hx
    rcases gappedStore_items hx with rfl | rfl
    · exact ⟨0, Nat.two_pos, rfl⟩
    · exact ⟨1, Nat.one_lt_two, rfl⟩

theorem gappedStore_keepsKind (kind : Value) : gappedStore.KeepsKind 0 kind := by
  refine TokenStore.keepsKind_of_atoms (fun x hx t ht => ?_) kind
  rcases gappedStore_items hx with rfl | rfl <;> cases ht <;> rfl

/-! ## Kinds that do change

A kind that is made of the collection may change with it. -/

/-- A list of one token, whose kind is the first collection. -/
def loopedKind : Value := .list [.token (.shared (.collection 0)) (.str "B")]

/-- A collection of two tokens. The first is of the kind above, the second of the kind that the
collection itself is. When the first one is gone, the collection equals the list, and so the second
one is of the kind, too. -/
def loopedStore : TokenStore :=
  ⟨#[⟨loopedKind, .str "A"⟩, ⟨.shared (.collection 0), .str "B"⟩],
    #[#[.shared (.token 0), .shared (.token 1)]], []⟩

theorem loopedStore_items : loopedStore.items 0 = [.shared (.token 0), .shared (.token 1)] := rfl

theorem loopedStore_hasTokens : loopedStore.HasTokens 0 where
  known := Nat.one_pos
  tokens := by
    rw [loopedStore_items]
    simp only [List.forall_mem_cons]
    exact ⟨⟨0, Nat.two_pos, rfl⟩, ⟨1, Nat.one_lt_two, rfl⟩, nofun⟩

theorem loopedStore_hasKind :
    loopedStore.hasKind loopedKind (.shared (.token 0)) = true ∧
      loopedStore.hasKind loopedKind (.shared (.token 1)) = false := by
  decide

/-- The store without the first token in the collection. -/
def loopedStoreLeft : TokenStore := loopedStore.setItems 0 [.shared (.token 1)]

theorem loopedStoreLeft_hasTokens : loopedStoreLeft.HasTokens 0 :=
  loopedStore_hasTokens.setItems (List.sublist_cons_self _ _)

theorem loopedStoreLeft_hasKind :
    loopedStoreLeft.hasKind loopedKind (.shared (.token 1)) = true := by
  decide

theorem loopedStore_trimStart :
    trimStart 0 loopedKind loopedStore = (.ok (), loopedStoreLeft) := by
  obtain ⟨hfirst, hsecond⟩ := loopedStore_hasKind
  rw [trimStart_apply (loopedStore_hasTokens.decides loopedKind), loopedStore_items,
    List.dropWhile_cons_of_pos hfirst, List.dropWhile_cons_of_neg (ne_true_of_eq_false hsecond)]
  rfl

theorem loopedStoreLeft_trimEnd :
    trimEnd 0 loopedKind loopedStoreLeft = (.ok (), loopedStore.setItems 0 []) := by
  have hitems : loopedStoreLeft.items 0 = [] ++ [.shared (.token 1)] := rfl
  rw [trimEnd_apply (loopedStoreLeft_hasTokens.decides loopedKind), hitems,
    List.rdropWhile_concat_pos _ _ _ loopedStoreLeft_hasKind, List.rdropWhile_nil]
  exact congrArg _ (TokenStore.setItems_setItems ..)

/-- The second trim takes what the first one left. -/
theorem loopedStore_trim_apply :
    trim 0 loopedKind loopedStore = (.ok (), loopedStore.setItems 0 []) := by
  rw [trim, Effect.bind_apply_of_ok _ loopedStore_trimStart]
  exact loopedStoreLeft_trimEnd

end Collection

end SymbolMachine
