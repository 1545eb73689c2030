/-
No operation of a collection leaves a reference that leads nowhere.

What is put into a store is known to it: the values that an operation is given, the items that it
finds, and the tokens and collections that it makes. So a store that operations build up from
nothing is sound (`TokenStore.Reached.sound`), whether the operations answer or fail, and also if
a collection gets into itself. A store never loses a place, so what was known stays known.

Here the basic changes of a store are gone through; that operations make no others is said in
`SymbolMachine.Proofs.Tokens.Upkeep`.
-/
import SymbolMachine.Proofs.Tokens.References
import SymbolMachine.Proofs.Tokens.Upkeep

set_option autoImplicit false

namespace SymbolMachine

/-! ## What widens a store -/

namespace TokenStore

variable {s s' s'' : TokenStore}

theorem Sound.widens (hs : s.Sound) : s.Widens s := ⟨fun _ => id, hs⟩

theorem Widens.trans (h : s.Widens s') (h' : s'.Widens s'') : s.Widens s'' :=
  ⟨fun r hr => h'.has r (h.has r hr), h'.sound⟩

theorem Widens.knows (h : s.Widens s') {v : Value} (hv : s.Knows v) : s'.Knows v := hv.mono h.has

/-- A token that was made is known. -/
theorem knows_newCell (s : TokenStore) (t : Token) : (s.newCell t).1.Knows (s.newCell t).2 := by
  intro r hr
  obtain rfl := List.mem_singleton.mp hr
  exact Nat.lt_of_lt_of_eq (Nat.lt_succ_self _) (Array.size_push ..).symm

/-- A token has its lexeme in the store. -/
theorem exists_cell_of_lexemeOf {i : Nat} {lexeme : Value}
    (h : s.lexemeOf (.shared (.token i)) = .ok lexeme) :
    ∃ t, s.cells[i]? = some t ∧ t.lexeme = lexeme := by
  have hcell : s.token? (.shared (.token i)) = s.cells[i]? := rfl
  rw [lexemeOf, hcell] at h
  cases ht : s.cells[i]? with
  | none =>
      rw [ht] at h
      cases h
  | some t =>
      rw [ht] at h
      exact ⟨t, rfl, Except.ok.inj h⟩

/-- An item behind a replacement is one of the replacing items, or an old one elsewhere. -/
theorem mem_items_setItems {c d : CollectionId} {xs : List Value} {x : Value}
    (hx : x ∈ (s.setItems c xs).items d) : x ∈ s.items d ∨ x ∈ xs := by
  by_cases hd : c = d
  · subst hd
    by_cases hc : c < s.collections.size
    · rw [items_setItems s hc] at hx
      exact .inr hx
    · rw [setItems, Array.setIfInBounds_eq_of_size_le (Nat.not_lt.mp hc)] at hx
      exact .inl hx
  · rw [items_setItems_of_ne s hd] at hx
    exact .inl hx

theorem mem_items_pushItems {c d : CollectionId} {xs : List Value} {x : Value}
    (hx : x ∈ (s.pushItems c xs).items d) : x ∈ s.items d ∨ x ∈ xs := by
  by_cases hd : c = d
  · subst hd
    by_cases hc : c < s.collections.size
    · rw [items_pushItems s hc] at hx
      exact List.mem_append.mp hx
    · -- There is no such collection, so nothing is pushed.
      have hnone : (s.pushItems c xs).items c = [] := by
        simp [pushItems, TokenStore.items, Nat.not_lt.mp hc]
      rw [hnone] at hx
      cases hx
  · rw [items_pushItems_of_ne s hd] at hx
    exact .inl hx

theorem knows_characters (s : TokenStore) (text : String) :
    ∀ x ∈ Collection.characters text, s.Knows x := by
  intro x hx
  obtain ⟨a, -, rfl⟩ := List.mem_map.mp hx
  exact nofun

/-- A lexeme that grows gets no new references. -/
theorem knows_grown {lexeme lexeme' : Value} {text : String} (hlexeme : s.Knows lexeme)
    (h : Collection.grown lexeme text = .ok lexeme') : s.Knows lexeme' := by
  have hbehind : ∀ xs : List Value, (∀ r ∈ Value.allReferences xs, s.Has r) →
      ∀ r ∈ Value.allReferences (xs ++ Collection.characters text), s.Has r := by
    intro xs hxs r hr
    obtain ⟨v, hv, hvr⟩ := Value.mem_allReferences.mp hr
    rcases List.mem_append.mp hv with hold | hnew
    · exact hxs r (Value.mem_allReferences.mpr ⟨v, hold, hvr⟩)
    · exact knows_characters s text v hnew r hvr
  unfold Collection.grown at h
  split at h <;> cases h
  · exact nofun
  · exact hbehind _ hlexeme
  · exact hbehind _ hlexeme

variable (hs : s.Sound)
include hs

theorem Sound.widens_entering {x : Value} (hx : s.Knows x) :
    s.Widens (s.entering x).1 ∧ (s.entering x).1.Knows (s.entering x).2 := by
  unfold entering
  split
  · next kind lexeme =>
    have hparts : ∀ r, r ∈ kind.references ∨ r ∈ lexeme.references → s.Has r := fun r hr =>
      hx r (List.mem_append.mpr hr)
    have hwidens := hs.widens_newCell (t := ⟨kind, lexeme⟩) (fun r hr => hparts r (.inl hr))
      fun r hr => hparts r (.inr hr)
    exact ⟨hwidens, knows_newCell s _⟩
  · exact ⟨hs.widens, hx⟩

theorem Sound.widens_setItems (c : CollectionId) {xs : List Value} (hxs : ∀ x ∈ xs, s.Knows x) :
    s.Widens (s.setItems c xs) := by
  refine .of_parts (Nat.le_refl _) (Nat.le_of_eq Array.size_setIfInBounds.symm) hs.cells ?_
  exact fun d x hx => (mem_items_setItems hx).elim (hs.items d x) (hxs x)

theorem Sound.widens_pushItems (c : CollectionId) {xs : List Value} (hxs : ∀ x ∈ xs, s.Knows x) :
    s.Widens (s.pushItems c xs) := by
  refine .of_parts (Nat.le_refl _) (Nat.le_of_eq Array.size_modify.symm) hs.cells ?_
  exact fun d x hx => (mem_items_pushItems hx).elim (hs.items d x) (hxs x)

theorem Sound.widens_setLexeme (i : Nat) {lexeme : Value} (hlexeme : s.Knows lexeme) :
    s.Widens (s.setLexeme i lexeme) := by
  refine .of_parts (Nat.le_of_eq Array.size_modify.symm) (Nat.le_refl _) ?_ hs.items
  intro j t ht
  rw [setLexeme, Array.getElem?_modify] at ht
  split at ht
  · rcases hcell : s.cells[j]? with _ | u <;> rw [hcell] at ht <;> cases ht
    exact ⟨(hs.cells j u hcell).1, hlexeme⟩
  · exact hs.cells j t ht

theorem Sound.widens_assignLexeme {x lexeme : Value}
    (hlexeme : ∀ i, x = .shared (.token i) → s.Knows lexeme) :
    s.Widens (s.assignLexeme x lexeme) := by
  unfold assignLexeme
  split
  · exact hs.widens_setLexeme _ (hlexeme _ rfl)
  · -- What is attached to other things is not a place.
    split
    · exact .of_parts (Nat.le_refl _) (Nat.le_refl _) hs.cells hs.items
    · exact hs.widens

end TokenStore

/-! ## Operations -/

namespace Collection

/-- Stores that know their own parts, and values that are known. -/
def soundness : Upkeep where
  Well := TokenStore.Sound
  Comes := TokenStore.Widens
  Arg := TokenStore.Knows
  Item := TokenStore.Knows
  refl hs := hs.widens
  trans h h' := h.trans h'
  well h := h.sound
  arg_mono h := h.knows
  item_mono h := h.knows
  arg_of_item hx := hx
  item_of_mem hs := hs.items
  item_of_mem_characters := TokenStore.knows_characters
  arg_of_lexemeOf hs h := by
    obtain ⟨t, hcell, rfl⟩ := TokenStore.exists_cell_of_lexemeOf h
    exact (hs.cells _ t hcell).2
  arg_of_grown hlexeme h := TokenStore.knows_grown hlexeme h
  newCell hs hkind _ := ⟨hs.widens_newCell hkind nofun, TokenStore.knows_newCell _ _⟩
  entering hs hx := hs.widens_entering hx
  newCollection hs hxs := hs.widens_withCollections (List.forall_mem_singleton.mpr hxs)
  setItems hs c hxs := hs.widens_setItems c hxs
  pushItems hs c hxs := hs.widens_pushItems c hxs
  assignLexeme hs hlexeme := hs.widens_assignLexeme hlexeme

/-- **No operation leaves a reference that leads nowhere**, and none takes a place away. -/
theorem Operation.widens {s : TokenStore} (hs : s.Sound) (op : Operation)
    (hvalues : ∀ v ∈ op.values, s.Knows v) : s.Widens (op.apply s) :=
  soundness.operation hs op hvalues

end Collection

/-! ## Stores that operations build -/

namespace TokenStore

/-- The store comes from the empty one by operations, each with values that are known when it is
called. -/
inductive Reached : TokenStore → Prop
  | empty : Reached empty
  | step {s : TokenStore} (op : Collection.Operation) (reached : Reached s)
      (known : ∀ v ∈ op.values, s.Knows v) : Reached (op.apply s)

/-- **A store that operations build is sound.** -/
theorem Reached.sound {s : TokenStore} (h : Reached s) : s.Sound := by
  induction h with
  | empty => exact sound_empty
  | step op _ known ih => exact (op.widens ih known).sound

end TokenStore

end SymbolMachine
