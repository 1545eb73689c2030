/-
What the operations of a collection keep up.

An operation changes a store by a few basic changes: tokens and collections are made, items are
replaced or put behind, a lexeme is assigned. What is put into the store comes from what the
operation is given, from what it finds there, and from what it makes. So whatever the basic changes
keep up (`Upkeep`), all operations keep up, whether they answer or fail (`Upkeep.operation`).

An edit takes its new items from the old ones, whatever the test says of them and wherever it
fails. This is why nothing is asked of the items here, in contrast to what is said of splitting.
-/
import SymbolMachine.Proofs.Effect
import SymbolMachine.Tokens.Collection

set_option autoImplicit false

namespace SymbolMachine

/-! ## Items come from items -/

namespace Sequence

variable {ι : Type} {is : Test ι} {xs ys : List ι}

theorem sublist_of_without (h : without is xs = .ok ys) : ys.Sublist xs := by
  induction xs generalizing ys with
  | nil =>
      cases h
      exact List.Sublist.refl []
  | cons x xs ih =>
      rw [without] at h
      rcases hx : is x with f | passes <;> rw [hx] at h
      · cases h
      rcases hrest : without is xs with f | rest <;> rw [hrest] at h <;> cases h
      cases passes with
      | true => exact (ih hrest).cons x
      | false => exact (ih hrest).cons_cons x

theorem sublist_of_collapseAfter {last : ι} (h : collapseAfter is last xs = .ok ys) :
    ys.Sublist xs := by
  induction xs generalizing ys last with
  | nil =>
      cases h
      exact List.Sublist.refl []
  | cons x xs ih =>
      -- An item that is not left out is the one that the next ones are held against.
      have hkeep : ∀ {zs : List ι}, (x :: ·) <$> collapseAfter is x xs = .ok zs →
          zs.Sublist (x :: xs) := by
        intro zs hzs
        rcases hrest : collapseAfter is x xs with f | rest <;> rw [hrest] at hzs <;> cases hzs
        exact (ih hrest).cons_cons x
      rw [collapseAfter] at h
      rcases hx : is x with f | _ | _ <;> rw [hx] at h
      · cases h
      · exact hkeep h
      rcases hlast : is last with f | _ | _ <;> rw [hlast] at h
      · cases h
      · exact hkeep h
      · exact (ih h).cons x

theorem sublist_of_collapse (h : collapse is xs = .ok ys) : ys.Sublist xs := by
  cases xs with
  | nil =>
      cases h
      exact List.Sublist.refl []
  | cons x xs =>
      rw [collapse] at h
      rcases hrest : collapseAfter is x xs with f | rest <;> rw [hrest] at h <;> cases h
      exact (sublist_of_collapseAfter hrest).cons_cons x

theorem sublist_of_trimStart (h : trimStart is xs = .ok ys) : ys.Sublist xs := by
  induction xs with
  | nil =>
      cases h
      exact List.Sublist.refl []
  | cons x xs ih =>
      rw [trimStart] at h
      rcases hx : is x with f | _ | _ <;> rw [hx] at h
      · cases h
      · cases h
        exact List.Sublist.refl _
      · exact (ih h).cons x

theorem sublist_of_trimEnd (h : trimEnd is xs = .ok ys) : ys.Sublist xs := by
  rw [trimEnd] at h
  rcases hreversed : trimStart is xs.reverse with f | zs <;> rw [hreversed] at h <;> cases h
  exact List.reverse_sublist.mp (by simpa using sublist_of_trimStart hreversed)

theorem sublist_of_groups {gs : List (List ι)} (h : groups is xs = .ok gs) :
    ∀ g ∈ gs, g.Sublist xs := by
  induction xs generalizing gs with
  | nil =>
      cases h
      exact List.forall_mem_singleton.mpr (List.Sublist.refl [])
  | cons x xs ih =>
      rw [groups] at h
      rcases hx : is x with f | passes <;> rw [hx] at h
      · cases h
      rcases hrest : groups is xs with f | rest <;> rw [hrest] at h <;> cases h
      have hold : ∀ g ∈ rest, g.Sublist (x :: xs) := fun g hg => (ih hrest g hg).cons x
      cases passes with
      | true => exact List.forall_mem_cons.mpr ⟨List.nil_sublist _, hold⟩
      | false =>
          cases rest with
          | nil => exact List.forall_mem_singleton.mpr ((List.nil_sublist xs).cons_cons x)
          | cons g gs =>
              obtain ⟨-, hgs⟩ := List.forall_mem_cons.mp hold
              exact List.forall_mem_cons.mpr ⟨(ih hrest g (List.mem_cons_self ..)).cons_cons x, hgs⟩

end Sequence

namespace Collection

/-! ## What is kept up -/

/-- Something that the basic changes of a store keep up: that all is well with a store (`Well`), and
that one store comes of another (`Comes`). It is said of values, too, that they may be given to an
operation (`Arg`), and that they may stand in a collection (`Item`). -/
structure Upkeep where
  Well : TokenStore → Prop
  Comes : TokenStore → TokenStore → Prop
  Arg : TokenStore → Value → Prop
  Item : TokenStore → Value → Prop
  refl : ∀ {s}, Well s → Comes s s
  trans : ∀ {s s' s''}, Comes s s' → Comes s' s'' → Comes s s''
  well : ∀ {s s'}, Comes s s' → Well s'
  arg_mono : ∀ {s s' x}, Comes s s' → Arg s x → Arg s' x
  item_mono : ∀ {s s' x}, Comes s s' → Item s x → Item s' x
  arg_of_item : ∀ {s x}, Item s x → Arg s x
  item_of_mem : ∀ {s}, Well s → ∀ c, ∀ x ∈ s.items c, Item s x
  item_of_mem_characters : ∀ s text, ∀ x ∈ characters text, Item s x
  arg_of_lexemeOf : ∀ {s i lexeme}, Well s → s.lexemeOf (.shared (.token i)) = .ok lexeme →
    Arg s lexeme
  arg_of_grown : ∀ {s lexeme text lexeme'}, Arg s lexeme → grown lexeme text = .ok lexeme' →
    Arg s lexeme'
  newCell : ∀ {s kind}, Well s → Arg s kind → ∀ lexeme : String,
    Comes s (s.newCell ⟨kind, .str lexeme⟩).1 ∧
      Item (s.newCell ⟨kind, .str lexeme⟩).1 (s.newCell ⟨kind, .str lexeme⟩).2
  entering : ∀ {s x}, Well s → Arg s x →
    Comes s (s.entering x).1 ∧ Item (s.entering x).1 (s.entering x).2
  newCollection : ∀ {s xs}, Well s → (∀ x ∈ xs, Item s x) → Comes s (s.newCollection xs).1
  setItems : ∀ {s xs}, Well s → ∀ c, (∀ x ∈ xs, Item s x) → Comes s (s.setItems c xs)
  pushItems : ∀ {s xs}, Well s → ∀ c, (∀ x ∈ xs, Item s x) → Comes s (s.pushItems c xs)
  assignLexeme : ∀ {s x lexeme}, Well s → (∀ i, x = .shared (.token i) → Arg s lexeme) →
    Comes s (s.assignLexeme x lexeme)

/-- Whether it answers or fails, the computation keeps up what is kept up, and of what it answers
something is true in the store that it leaves. -/
def Upkeep.Sustains (u : Upkeep) {β : Type} (Q : β → TokenStore → Prop) (e : Effect TokenStore β)
    (s : TokenStore) : Prop :=
  u.Comes s (e s).2 ∧ ∀ b, (e s).1 = .ok b → Q b (e s).2

namespace Upkeep.Sustains

variable {u : Upkeep} {β δ : Type} {Q : β → TokenStore → Prop} {Q' : δ → TokenStore → Prop}
  {e : Effect TokenStore β} {f : β → Effect TokenStore δ} {s : TokenStore}

theorem pure (hs : u.Well s) {b : β} (hb : Q b s) : u.Sustains Q (Pure.pure b) s :=
  ⟨u.refl hs, by rintro _ ⟨⟩; exact hb⟩

theorem raise (hs : u.Well s) (x : Fault) : u.Sustains Q (Effect.raise x) s :=
  ⟨u.refl hs, by rintro _ ⟨⟩⟩

theorem ofExcept (hs : u.Well s) {r : Except Fault β} (hr : ∀ b, r = .ok b → Q b s) :
    u.Sustains Q (Effect.ofExcept r) s := by
  rcases r with x | b
  · exact raise hs x
  · exact pure hs (hr b rfl)

theorem get (hs : u.Well s) : u.Sustains (fun s₁ s' => s₁ = s ∧ s' = s) MonadState.get s :=
  ⟨u.refl hs, by rintro _ ⟨⟩; exact ⟨rfl, rfl⟩⟩

theorem modify {g : TokenStore → TokenStore} (hg : u.Comes s (g s)) :
    u.Sustains (fun _ _ => True) (modify g : Effect TokenStore Unit) s :=
  ⟨hg, fun _ _ => trivial⟩

/-- **One computation after another.** -/
theorem bind (he : u.Sustains Q e s)
    (hf : ∀ b s', u.Comes s s' → Q b s' → u.Sustains Q' (f b) s') : u.Sustains Q' (e >>= f) s := by
  obtain ⟨hcomes, hanswer⟩ := he
  rcases h : e s with ⟨x | b, s'⟩ <;> rw [h] at hcomes hanswer
  · unfold Upkeep.Sustains
    rw [Effect.bind_apply_of_error s h]
    exact ⟨hcomes, by rintro _ ⟨⟩⟩
  · unfold Upkeep.Sustains
    rw [Effect.bind_apply_of_ok s h]
    obtain ⟨hrest, hdone⟩ := hf b s' hcomes (hanswer b rfl)
    exact ⟨u.trans hcomes hrest, hdone⟩

end Upkeep.Sustains

/-! ## Operations -/

section Operations

variable {u : Upkeep} {s : TokenStore} (hs : u.Well s) (c : CollectionId)
include hs

theorem sustains_items : u.Sustains (fun xs s' => ∀ x ∈ xs, u.Item s' x) (items c) s :=
  ⟨u.refl hs, by rintro _ ⟨⟩; exact u.item_of_mem hs c⟩

theorem sustains_kindTest (kind : Value) : u.Sustains (fun _ _ => True) (kindTest kind) s :=
  .bind (.get hs) fun _ _ h _ => .pure (u.well h) trivial

theorem sustains_textOf (v : Value) : u.Sustains (fun _ _ => True) (textOf v) s :=
  .bind (.get hs) fun _ _ h _ => .ofExcept (u.well h) fun _ _ => trivial

theorem sustains_last : u.Sustains (fun _ _ => True) (last c) s := by
  refine .bind (.get hs) fun _ _ h _ => ?_
  split
  · exact .pure (u.well h) trivial
  · exact .raise (u.well h) _

theorem sustains_enteringAll {xs : List Value} (hxs : ∀ x ∈ xs, u.Arg s x) :
    u.Comes s (s.enteringAll xs).1 ∧
      ∀ x ∈ (s.enteringAll xs).2, u.Item (s.enteringAll xs).1 x := by
  induction xs generalizing s with
  | nil => exact ⟨u.refl hs, nofun⟩
  | cons x xs ih =>
      obtain ⟨hx, hxs⟩ := List.forall_mem_cons.mp hxs
      obtain ⟨hfirst, hentered⟩ := u.entering hs hx
      obtain ⟨hrest, hall⟩ := ih (u.well hfirst) fun y hy => u.arg_mono hfirst (hxs y hy)
      exact ⟨u.trans hfirst hrest, List.forall_mem_cons.mpr ⟨u.item_mono hrest hentered, hall⟩⟩

theorem sustains_new {xs : List Value} (hxs : ∀ x ∈ xs, u.Arg s x) :
    u.Sustains (fun _ _ => True) (new xs) s := by
  obtain ⟨hentering, hentered⟩ := sustains_enteringAll hs hxs
  have hmade := u.newCollection (u.well hentering) hentered
  exact ⟨u.trans hentering hmade, fun _ _ => trivial⟩

theorem sustains_mapM_new {gs : List (List Value)} (hgs : ∀ g ∈ gs, ∀ x ∈ g, u.Arg s x) :
    u.Sustains (fun _ _ => True) (gs.mapM new) s := by
  induction gs generalizing s with
  | nil => exact .pure hs trivial
  | cons g gs ih =>
      obtain ⟨hg, hgs⟩ := List.forall_mem_cons.mp hgs
      rw [List.mapM_cons]
      refine .bind (sustains_new hs hg) fun d s₁ h₁ _ => ?_
      refine .bind (ih (u.well h₁) fun g hg x hx => u.arg_mono h₁ (hgs g hg x hx))
        fun ds s₂ h₂ _ => ?_
      exact .pure (u.well h₂) trivial

theorem sustains_append {x : Value} (hx : u.Arg s x) :
    u.Sustains (fun _ _ => True) (append c x) s := by
  obtain ⟨hentering, hentered⟩ := u.entering hs hx
  have hpushed := u.pushItems (u.well hentering) c (List.forall_mem_singleton.mpr hentered)
  exact ⟨u.trans hentering hpushed, fun _ _ => trivial⟩

theorem sustains_add {kind : Value} (hkind : u.Arg s kind) (lexeme : String) :
    u.Sustains (fun _ _ => True) (add c kind lexeme) s := by
  obtain ⟨hmade, hitem⟩ := u.newCell hs hkind lexeme
  have hpushed := u.pushItems (u.well hmade) c (List.forall_mem_singleton.mpr hitem)
  exact ⟨u.trans hmade hpushed, fun _ _ => trivial⟩

theorem sustains_pop : u.Sustains (fun _ _ => True) (pop c) s := by
  refine .bind (sustains_items hs c) fun xs s₁ h₁ hxs => ?_
  split
  · refine .bind (.modify (u.setItems (u.well h₁) c fun x hx => ?_)) fun _ _ h₂ _ =>
      .pure (u.well h₂) trivial
    exact hxs x (List.dropLast_subset xs hx)
  · exact .raise (u.well h₁) _

theorem sustains_emit {kind : Value} (hkind : u.Arg s kind) (symbol : Value) :
    u.Sustains (fun _ _ => True) (emit c kind symbol) s :=
  .bind (sustains_textOf hs symbol) fun text _ h₁ _ =>
    .bind (sustains_add (u.well h₁) c (u.arg_mono h₁ hkind) text) fun _ _ h₂ _ =>
      .pure (u.well h₂) trivial

theorem sustains_extend (symbol : Value) : u.Sustains (fun _ _ => True) (extend c symbol) s := by
  refine .bind (sustains_last hs c) fun x s₁ h₁ _ => .bind (.get (u.well h₁)) ?_
  rintro s _ - ⟨rfl, rfl⟩
  have hs := u.well h₁
  -- Only tokens have their lexemes in the store.
  refine .bind (Q := fun lexeme s' => ∀ i, x = .shared (.token i) → u.Arg s' lexeme)
    (.ofExcept hs fun lexeme h i hi => ?_) fun lexeme s₁ h₁ hlexeme => ?_
  · exact u.arg_of_lexemeOf hs (hi ▸ h)
  refine .bind (sustains_textOf (u.well h₁) symbol) fun text s₂ h₂ _ => ?_
  split
  · exact .modify (u.pushItems (u.well h₂) _ (u.item_of_mem_characters s₂ text))
  · refine .bind (Q := fun l s' => ∀ i, x = .shared (.token i) → u.Arg s' l)
      (.ofExcept (u.well h₂) fun l hl i hi => ?_) fun l s₃ h₃ hl => ?_
    · exact u.arg_of_grown (u.arg_mono h₂ (hlexeme i hi)) hl
    · exact .modify (u.assignLexeme (u.well h₃) hl)

theorem sustains_assign (index : Int) {lexeme : Value} (hlexeme : u.Arg s lexeme) :
    u.Sustains (fun _ _ => True) (assign c index lexeme) s := by
  refine .bind (sustains_items hs c) fun xs s₁ h₁ _ => ?_
  dsimp only
  generalize (if 0 ≤ (if index < 0 then index + xs.length else index) then _ else _) = found
  split
  · exact .raise (u.well h₁) _
  · split
    · exact .raise (u.well h₁) _
    · exact .modify (u.assignLexeme (u.well h₁) fun _ _ => u.arg_mono h₁ hlexeme)

/-- An edit that takes its items from the old ones. -/
theorem sustains_edit {kind : Value}
    {f : Sequence.Test Value → List Value → Except Fault (List Value)}
    (hf : ∀ is xs ys, f is xs = .ok ys → ys.Sublist xs) :
    u.Sustains (fun _ _ => True) (kindTest kind >>= fun is => edit c (f is)) s := by
  refine .bind (sustains_kindTest hs kind) fun is s₁ h₁ _ => ?_
  refine .bind (sustains_items (u.well h₁) c) fun xs s₂ h₂ hxs => ?_
  refine .bind (Q := fun ys s' => ∀ y ∈ ys, u.Item s' y)
    (.ofExcept (u.well h₂) fun ys hys y hy => ?_)
    fun ys s₃ h₃ hys => .modify (u.setItems (u.well h₃) c hys)
  exact hxs y ((hf is xs ys hys).subset hy)

theorem sustains_segment (first final : Value) :
    u.Sustains (fun _ _ => True) (segment c first final) s := by
  refine .bind (Q := fun _ _ => True) (.ofExcept hs fun _ _ => trivial) fun window s₁ h₁ _ => ?_
  refine .bind (sustains_items (u.well h₁) c) fun xs s₂ h₂ hxs =>
    sustains_new (u.well h₂) fun x hx => u.arg_of_item (hxs x ?_)
  exact List.mem_of_mem_take (List.mem_of_mem_drop hx)

theorem sustains_split (kind : Value) (withEmpty : Bool) :
    u.Sustains (fun _ _ => True) (split c kind withEmpty) s := by
  refine .bind (sustains_kindTest hs kind) fun is s₁ h₁ _ => ?_
  refine .bind (sustains_items (u.well h₁) c) fun xs s₂ h₂ hxs => ?_
  refine .bind (Q := fun gs s' => ∀ g ∈ gs, ∀ x ∈ g, u.Arg s' x)
    (.ofExcept (u.well h₂) fun gs hgs g hg x hx => ?_) fun gs s₃ h₃ hgs =>
      sustains_mapM_new (u.well h₃) fun g hg => ?_
  · exact u.arg_of_item (hxs x ((Sequence.sublist_of_groups hgs g hg).subset hx))
  · cases withEmpty with
    | true => exact hgs g hg
    | false => exact hgs g (List.mem_filter.mp hg).1

end Operations

/-! ### All of them -/

/-- A call of an operation that may change the store. -/
inductive Operation
  | new (xs : List Value)
  | append (c : CollectionId) (x : Value)
  | add (c : CollectionId) (kind : Value) (lexeme : String)
  | pop (c : CollectionId)
  | emit (c : CollectionId) (kind symbol : Value)
  | extend (c : CollectionId) (symbol : Value)
  | assign (c : CollectionId) (index : Int) (lexeme : Value)
  | removeKind (c : CollectionId) (kind : Value)
  | collapseKind (c : CollectionId) (kind : Value)
  | trimStart (c : CollectionId) (kind : Value)
  | trimEnd (c : CollectionId) (kind : Value)
  | trim (c : CollectionId) (kind : Value)
  | segment (c : CollectionId) (first final : Value)
  | split (c : CollectionId) (kind : Value) (withEmpty : Bool)

/-- The store that the operation leaves, whether it answers or fails. -/
def Operation.apply (s : TokenStore) : Operation → TokenStore
  | new xs => (Collection.new xs s).2
  | append c x => (Collection.append c x s).2
  | add c kind lexeme => (Collection.add c kind lexeme s).2
  | pop c => (Collection.pop c s).2
  | emit c kind symbol => (Collection.emit c kind symbol s).2
  | extend c symbol => (Collection.extend c symbol s).2
  | assign c index lexeme => (Collection.assign c index lexeme s).2
  | removeKind c kind => (Collection.removeKind c kind s).2
  | collapseKind c kind => (Collection.collapseKind c kind s).2
  | trimStart c kind => (Collection.trimStart c kind s).2
  | trimEnd c kind => (Collection.trimEnd c kind s).2
  | trim c kind => (Collection.trim c kind s).2
  | segment c first final => (Collection.segment c first final s).2
  | split c kind withEmpty => (Collection.split c kind withEmpty s).2

/-- The values that the operation puts into the store. -/
def Operation.values : Operation → List Value
  | new xs => xs
  | append _ x => [x]
  | add _ kind _ | emit _ kind _ => [kind]
  | assign _ _ lexeme => [lexeme]
  | _ => []

/-- **What the basic changes keep up, every operation keeps up**, given what it may be given. -/
theorem Upkeep.operation (u : Upkeep) {s : TokenStore} (hs : u.Well s) (op : Operation)
    (hvalues : ∀ v ∈ op.values, u.Arg s v) : u.Comes s (op.apply s) := by
  cases op with
  | new xs => exact (sustains_new hs hvalues).1
  | append c x => exact (sustains_append hs c (List.forall_mem_singleton.mp hvalues)).1
  | add c kind lexeme => exact (sustains_add hs c (List.forall_mem_singleton.mp hvalues) lexeme).1
  | pop c => exact (sustains_pop hs c).1
  | emit c kind symbol => exact (sustains_emit hs c (List.forall_mem_singleton.mp hvalues) symbol).1
  | extend c symbol => exact (sustains_extend hs c symbol).1
  | assign c index lexeme =>
      exact (sustains_assign hs c index (List.forall_mem_singleton.mp hvalues)).1
  | removeKind c kind => exact (sustains_edit hs c fun _ _ _ => Sequence.sublist_of_without).1
  | collapseKind c kind => exact (sustains_edit hs c fun _ _ _ => Sequence.sublist_of_collapse).1
  | trimStart c kind => exact (sustains_edit hs c fun _ _ _ => Sequence.sublist_of_trimStart).1
  | trimEnd c kind => exact (sustains_edit hs c fun _ _ _ => Sequence.sublist_of_trimEnd).1
  | trim c kind =>
      have hstart : u.Sustains (fun _ _ => True) (Collection.trimStart c kind) s :=
        sustains_edit hs c fun _ _ _ => Sequence.sublist_of_trimStart
      have hboth : u.Sustains (fun _ _ => True) (Collection.trim c kind) s :=
        .bind hstart fun _ s₁ h₁ _ =>
          sustains_edit (u.well h₁) c fun _ _ _ => Sequence.sublist_of_trimEnd
      exact hboth.1
  | segment c first final => exact (sustains_segment hs c first final).1
  | split c kind withEmpty => exact (sustains_split hs c kind withEmpty).1

end Collection

end SymbolMachine
