/-
What a value refers to, and when two stores compare it alike.

A comparison opens references, and what it finds there it compares in turn. It sees only what it
comes to: two stores that have the same at some places, from which no reference leads to other
places, unroll to the same what refers to these places only (`AgreesOn.unroll_eq`), and so whatever
is asked of equality has one answer in both.

A store that has got more tokens and collections is the main case (`Extends`). It needs that each
reference leads to a place (`TokenStore.Sound`), which is true of the empty store and kept by
making tokens and collections. `SymbolMachine.Proofs.Tokens.Soundness` says it of all operations.
-/
import SymbolMachine.Proofs.Tokens.Splitting

set_option autoImplicit false

namespace SymbolMachine

/-! ## References -/

namespace Value

mutual

/-- The references in a value, at any depth. -/
def references : Value → List Reference
  | shared r => [r]
  | list xs | tuple xs | oneOf xs | noneOf xs | collection xs => allReferences xs
  | named v | equals _ v => v.references
  | token k l => k.references ++ l.references
  | _ => []

/-- The references in some values. -/
def allReferences : List Value → List Reference
  | [] => []
  | v :: vs => v.references ++ allReferences vs

end

theorem mem_allReferences {r : Reference} {vs : List Value} :
    r ∈ allReferences vs ↔ ∃ v ∈ vs, r ∈ v.references := by
  induction vs with
  | nil => simp [allReferences]
  | cons v vs ih => simp [allReferences, ih]

/-- A part refers to nothing else than the value that it is a part of. -/
theorem mapParts_congr {f g : Value → Value} {v : Value}
    (h : ∀ x, x.references ⊆ v.references → f x = g x) : v.mapParts f = v.mapParts g := by
  have hmap : ∀ xs : List Value, allReferences xs ⊆ v.references → xs.map f = xs.map g := by
    intro xs hxs
    refine List.map_congr_left fun x hx => h x fun r hr => hxs ?_
    exact mem_allReferences.mpr ⟨x, hx, hr⟩
  cases v with
  | list xs | tuple xs | oneOf xs | noneOf xs | collection xs =>
      simp only [mapParts, hmap xs (List.Subset.refl _)]
  | named x | equals i x => simp only [mapParts, h x (List.Subset.refl _)]
  | token k l =>
      have hkind : k.references ⊆ (token k l).references := List.subset_append_left _ _
      have hlexeme : l.references ⊆ (token k l).references := List.subset_append_right _ _
      simp only [mapParts, h k hkind, h l hlexeme]
  | _ => rfl

end Value

/-! ## Places -/

namespace TokenStore

variable {s : TokenStore}

/-- A place of the store. -/
def Has (s : TokenStore) : Reference → Prop
  | .token i => i < s.cells.size
  | .collection c => c < s.collections.size

/-- A value all of whose references lead to places of the store. -/
def Knows (s : TokenStore) (v : Value) : Prop := ∀ r ∈ v.references, s.Has r

/-- A store that knows its own parts. -/
structure Sound (s : TokenStore) : Prop where
  cells : ∀ (i : Nat) (t : Token), s.cells[i]? = some t → s.Knows t.kind ∧ s.Knows t.lexeme
  items : ∀ c, ∀ x ∈ s.items c, s.Knows x

theorem Knows.mono {s' : TokenStore} (h : ∀ r, s.Has r → s'.Has r) {v : Value} (hv : s.Knows v) :
    s'.Knows v := fun r hr => h r (hv r hr)

/-! ### Making tokens and collections

A store starts without any, and what is made of known values does not refer to anything else. -/

/-- The second store is sound and has all places of the first one. -/
structure Widens (s s' : TokenStore) : Prop where
  has : ∀ r, s.Has r → s'.Has r
  sound : s'.Sound

/-- A store with other cells and items than before, but not with fewer. -/
theorem Widens.of_parts {s' : TokenStore} (hcells : s.cells.size ≤ s'.cells.size)
    (hcollections : s.collections.size ≤ s'.collections.size)
    (cells : ∀ (i : Nat) (t : Token), s'.cells[i]? = some t → s.Knows t.kind ∧ s.Knows t.lexeme)
    (items : ∀ c, ∀ x ∈ s'.items c, s.Knows x) : s.Widens s' := by
  have hhas : ∀ r, s.Has r → s'.Has r := by
    rintro (i | c) hr
    · exact Nat.lt_of_lt_of_le hr hcells
    · exact Nat.lt_of_lt_of_le hr hcollections
  refine ⟨hhas, fun i t ht => ?_, fun c x hx => (items c x hx).mono hhas⟩
  obtain ⟨hkind, hlexeme⟩ := cells i t ht
  exact ⟨hkind.mono hhas, hlexeme.mono hhas⟩

theorem sound_empty : empty.Sound where
  cells := nofun
  items := nofun

theorem Sound.widens_newCell (hs : s.Sound) {t : Token} (hkind : s.Knows t.kind)
    (hlexeme : s.Knows t.lexeme) : s.Widens (s.newCell t).1 := by
  have hsize : s.cells.size ≤ (s.newCell t).1.cells.size := by simp [newCell]
  refine .of_parts hsize (Nat.le_refl _) (fun i u hu => ?_) hs.items
  change (s.cells.push t)[i]? = some u at hu
  rw [Array.getElem?_push] at hu
  split at hu
  · cases hu
    exact ⟨hkind, hlexeme⟩
  · exact hs.cells i u hu

theorem Sound.widens_withCollections (hs : s.Sound) {gs : List (List Value)}
    (hgs : ∀ g ∈ gs, ∀ x ∈ g, s.Knows x) : s.Widens (s.withCollections gs) := by
  have hsize : s.collections.size ≤ (s.withCollections gs).collections.size := by simp
  refine .of_parts (Nat.le_refl _) hsize hs.cells fun c x hx => ?_
  rcases mem_items_withCollections hx with hold | ⟨g, hg, hnew⟩
  · exact hs.items c x hold
  · exact hgs g hg x hnew

/-! ### Ways from place to place -/

/-- The references in what stands at a place. -/
def ahead (s : TokenStore) : Reference → List Reference
  | .token i =>
    match s.cells[i]? with
    | some t => t.kind.references ++ t.lexeme.references
    | none => []
  | .collection c => Value.allReferences (s.items c)

theorem ahead_token {i : Nat} {t : Token} (h : s.cells[i]? = some t) :
    s.ahead (.token i) = t.kind.references ++ t.lexeme.references := by
  rw [ahead, h]

/-- An opened value refers to what the value refers to, or to what is ahead of it. -/
theorem mem_references_opened {v : Value} {r : Reference} (h : r ∈ (s.opened v).references) :
    r ∈ v.references ∨ ∃ r' ∈ v.references, r ∈ s.ahead r' := by
  unfold opened at h
  split at h
  · next i =>
    cases hcell : s.cells[i]? with
    | none =>
        rw [hcell] at h
        exact .inl h
    | some t =>
        rw [hcell] at h
        refine .inr ⟨_, List.mem_singleton_self _, ?_⟩
        rwa [ahead_token hcell]
  · exact .inr ⟨_, List.mem_singleton_self _, h⟩
  · exact .inl h

/-! ### Stores that compare alike -/

/-- The second store has at some places what the first one has there, and what is there refers to
such places only. -/
structure AgreesOn (s : TokenStore) (R : Reference → Prop) (s' : TokenStore) : Prop where
  cells : ∀ i, R (.token i) → s'.cells[i]? = s.cells[i]?
  items : ∀ c, R (.collection c) → s'.items c = s.items c
  ahead : ∀ r, R r → ∀ r' ∈ s.ahead r, R r'

section AgreesOn

variable {s' : TokenStore} {R : Reference → Prop} (h : s.AgreesOn R s')
include h

theorem AgreesOn.opened_eq {v : Value} (hv : ∀ r ∈ v.references, R r) :
    s'.opened v = s.opened v := by
  cases v with
  | shared r =>
      have hr : R r := hv r (List.mem_singleton_self r)
      cases r with
      | token i => simp only [opened, h.cells i hr]
      | collection c => simp only [opened, h.items c hr]
  | _ => rfl

/-- **What refers to places at which two stores agree unrolls to the same in both**, at any
depth. -/
theorem AgreesOn.unroll_eq (depth : Nat) {v : Value} (hv : ∀ r ∈ v.references, R r) :
    s'.unroll depth v = s.unroll depth v := by
  induction depth generalizing v with
  | zero => rfl
  | succ depth ih =>
      have hopened : ∀ r ∈ (s.opened v).references, R r := by
        intro r hr
        rcases mem_references_opened hr with hold | ⟨r', hr', hahead⟩
        · exact hv r hold
        · exact h.ahead r' (hv r' hr') r hahead
      rw [unroll, unroll, h.opened_eq hv]
      exact Value.mapParts_congr fun x hx => ih fun r hr => hopened r (hx hr)

theorem AgreesOn.eq_eq {v w : Value} (hv : ∀ r ∈ v.references, R r)
    (hw : ∀ r ∈ w.references, R r) : s'.eq v w = s.eq v w := by
  rw [eq, eq, alikeTo_eq, alikeTo_eq, h.unroll_eq reach hv, h.unroll_eq reach hw]

/-- Whether an item is of a kind hangs on the kind and on the token that it is. -/
theorem AgreesOn.isOfKind_eq {kind x x' : Value} (hkind : ∀ r ∈ kind.references, R r)
    (hx : ∀ t, s.token? x = some t → ∀ r ∈ t.kind.references, R r)
    (hsame : s'.token? x' = s.token? x) (hname : x'.typeName = x.typeName) :
    s'.isOfKind kind x' = s.isOfKind kind x := by
  rw [isOfKind_apply, isOfKind_apply, hsame, hname]
  cases ht : s.token? x with
  | none => rfl
  | some t => exact congrArg Except.ok (h.eq_eq (hx t ht) hkind)

end AgreesOn

/-! ### Stores with more in them -/

/-- The second store has all that the first one has, at the same places, and maybe more. -/
structure Extends (s s' : TokenStore) : Prop where
  cells : ∀ i < s.cells.size, s'.cells[i]? = s.cells[i]?
  items : ∀ c < s.collections.size, s'.items c = s.items c
  size_cells_le : s.cells.size ≤ s'.cells.size
  size_collections_le : s.collections.size ≤ s'.collections.size

theorem Extends.refl (s : TokenStore) : s.Extends s :=
  ⟨fun _ _ => rfl, fun _ _ => rfl, Nat.le_refl _, Nat.le_refl _⟩

theorem Extends.trans {s' s'' : TokenStore} (h : s.Extends s') (h' : s'.Extends s'') :
    s.Extends s'' where
  cells i hi := (h'.cells i (Nat.lt_of_lt_of_le hi h.size_cells_le)).trans (h.cells i hi)
  items c hc := (h'.items c (Nat.lt_of_lt_of_le hc h.size_collections_le)).trans (h.items c hc)
  size_cells_le := Nat.le_trans h.size_cells_le h'.size_cells_le
  size_collections_le := Nat.le_trans h.size_collections_le h'.size_collections_le

theorem extends_newCell (s : TokenStore) (t : Token) : s.Extends (s.newCell t).1 where
  cells i hi := by
    change (s.cells.push t)[i]? = s.cells[i]?
    rw [Array.getElem?_push, if_neg (Nat.ne_of_lt hi)]
  items _ _ := rfl
  size_cells_le := by simp [newCell]
  size_collections_le := Nat.le_refl _

theorem extends_withCollections (s : TokenStore) (gs : List (List Value)) :
    s.Extends (s.withCollections gs) where
  cells _ _ := rfl
  items _ := items_withCollections gs
  size_cells_le := Nat.le_refl _
  size_collections_le := by simp

theorem Extends.agreesOn {s' : TokenStore} (h : s.Extends s') (hs : s.Sound) :
    s.AgreesOn s.Has s' where
  cells := h.cells
  items := h.items
  ahead := by
    rintro (i | c) hr r' hr'
    · have hcell : s.cells[i]? = some s.cells[i] := Array.getElem?_eq_getElem hr
      obtain ⟨hkind, hlexeme⟩ := hs.cells i _ hcell
      rw [ahead_token hcell] at hr'
      exact (List.mem_append.mp hr').elim (hkind r') (hlexeme r')
    · obtain ⟨x, hx, hxr⟩ := Value.mem_allReferences.mp hr'
      exact hs.items c x hx r' hxr

/-- A token that an item is has a kind that is known. -/
theorem Sound.knows_kind (hs : s.Sound) {x : Value} (hx : s.Knows x) {t : Token}
    (ht : s.token? x = some t) : s.Knows t.kind := by
  unfold token? at ht
  split at ht
  · cases ht
    exact fun r hr => hx r (List.mem_append_left _ hr)
  · exact (hs.cells _ t ht).1
  · cases ht

/-- A known item is the same token in a larger store. -/
theorem Extends.token?_eq {s' : TokenStore} (h : s.Extends s') {x : Value} (hx : s.Knows x) :
    s'.token? x = s.token? x := by
  unfold token?
  split
  · rfl
  · exact h.cells _ (hx _ (List.mem_singleton_self _))
  · rfl

/-- Of a known item it can be said as before whether it is of a known kind. -/
theorem Extends.isOfKind_eq {s' : TokenStore} (h : s.Extends s') (hs : s.Sound) {kind x : Value}
    (hkind : s.Knows kind) (hx : s.Knows x) : s'.isOfKind kind x = s.isOfKind kind x :=
  (h.agreesOn hs).isOfKind_eq hkind (fun _ => hs.knows_kind hx) (h.token?_eq hx) rfl

/-- Of a token it can be said as before whether it is of a kind. -/
theorem isOfKind_withCollections (hs : s.Sound) (gs : List (List Value)) {kind x : Value}
    (hkind : s.Knows kind) (hx : s.IsToken x) :
    (s.withCollections gs).isOfKind kind x = s.isOfKind kind x := by
  refine (s.extends_withCollections gs).isOfKind_eq hs hkind ?_
  obtain ⟨i, hi, rfl⟩ := hx
  intro r hr
  obtain rfl := List.mem_singleton.mp hr
  exact hi

/-- Collections that are made do not change what the collections of tokens hold. -/
theorem HasTokens.withCollections {c : CollectionId} (h : s.HasTokens c)
    (gs : List (List Value)) : (s.withCollections gs).HasTokens c where
  known := by
    rw [size_withCollections]
    exact Nat.lt_add_right _ h.known
  tokens := by
    rw [items_withCollections gs h.known]
    exact h.tokens

theorem HasTokens.decides_withCollections {c : CollectionId} (h : s.HasTokens c) (hs : s.Sound)
    (gs : List (List Value)) {kind : Value} (hkind : s.Knows kind) :
    Sequence.Decides ((s.withCollections gs).isOfKind kind) (s.hasKind kind) (s.items c) := by
  intro x hx
  rw [isOfKind_withCollections hs gs hkind (h.tokens x hx)]
  exact h.decides kind x hx

end TokenStore

end SymbolMachine
