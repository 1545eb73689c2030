/-
Collections that share their tokens.

What is cut out of a collection, split off it or made of its items is a new collection of the same
tokens. So there are two ways in which a call on one collection could be felt in another: through
its list of items, and through a token that both hold. The lists are never shared, whatever is
called (`Operation.spares_apply`), and a token changes only if its lexeme is extended; then it
changes for all collections that hold it, and for no other (`Relexed`).

What is left alone is a preorder on stores (`Spares`), so it is enough to look at what each call
does of its own, and a sequence of calls is an induction on its list.
-/
import SymbolMachine.Proofs.Tokens.Cutting
import SymbolMachine.Proofs.Tokens.Failing
import SymbolMachine.Proofs.Tokens.Gathering
import SymbolMachine.Proofs.Tokens.Searching

set_option autoImplicit false

namespace SymbolMachine

/-! ## What is left alone -/

namespace TokenStore

variable {c : CollectionId} {s s' s'' : TokenStore}

/-- Nothing that was in the first store has changed, but the items of one collection. -/
structure Spares (c : CollectionId) (s s' : TokenStore) : Prop where
  cells : ∀ i < s.cells.size, s'.cells[i]? = s.cells[i]?
  items : ∀ d < s.collections.size, d ≠ c → s'.items d = s.items d
  size_cells_le : s.cells.size ≤ s'.cells.size
  size_collections_le : s.collections.size ≤ s'.collections.size
  attached : s'.attached = s.attached

theorem Extends.spares (h : s.Extends s') (hattached : s'.attached = s.attached) :
    s.Spares c s' where
  cells := h.cells
  items d hd _ := h.items d hd
  size_cells_le := h.size_cells_le
  size_collections_le := h.size_collections_le
  attached := hattached

theorem Spares.refl (c : CollectionId) (s : TokenStore) : s.Spares c s :=
  (Extends.refl s).spares rfl

theorem Spares.trans (h : s.Spares c s') (h' : s'.Spares c s'') : s.Spares c s'' where
  cells i hi := (h'.cells i (Nat.lt_of_lt_of_le hi h.size_cells_le)).trans (h.cells i hi)
  items d hd hne :=
    (h'.items d (Nat.lt_of_lt_of_le hd h.size_collections_le) hne).trans (h.items d hd hne)
  size_cells_le := Nat.le_trans h.size_cells_le h'.size_cells_le
  size_collections_le := Nat.le_trans h.size_collections_le h'.size_collections_le
  attached := h'.attached.trans h.attached

instance (c : CollectionId) : IsPreorder TokenStore (Spares c) where
  refl := Spares.refl c
  trans _ _ _ := Spares.trans

theorem spares_newCell (c : CollectionId) (s : TokenStore) (t : Token) :
    s.Spares c (s.newCell t).1 := (s.extends_newCell t).spares rfl

theorem attached_entering (s : TokenStore) (x : Value) :
    (s.entering x).1.attached = s.attached := by
  unfold entering
  split <;> rfl

theorem attached_enteringAll (s : TokenStore) (xs : List Value) :
    (s.enteringAll xs).1.attached = s.attached := by
  induction xs generalizing s with
  | nil => rfl
  | cons x xs ih => exact (ih _).trans (s.attached_entering x)

theorem spares_entering (c : CollectionId) (s : TokenStore) (x : Value) :
    s.Spares c (s.entering x).1 := (s.extends_entering x).spares (s.attached_entering x)

theorem spares_enteringAll (c : CollectionId) (s : TokenStore) (xs : List Value) :
    s.Spares c (s.enteringAll xs).1 := (s.extends_enteringAll xs).spares (s.attached_enteringAll xs)

theorem spares_setItems (c : CollectionId) (s : TokenStore) (xs : List Value) :
    s.Spares c (s.setItems c xs) where
  cells _ _ := rfl
  items _ _ hd := items_setItems_of_ne s hd.symm xs
  size_cells_le := Nat.le_refl _
  size_collections_le := by simp [setItems]
  attached := rfl

theorem spares_pushItems (c : CollectionId) (s : TokenStore) (xs : List Value) :
    s.Spares c (s.pushItems c xs) where
  cells _ _ := rfl
  items _ _ hd := items_pushItems_of_ne s hd.symm xs
  size_cells_le := Nat.le_refl _
  size_collections_le := by simp [pushItems]
  attached := rfl

/-- What a collection is left with, where that was made of its items. -/
theorem sublist_items_setItems {xs : List Value} (h : xs.Sublist (s.items c)) :
    ((s.setItems c xs).items c).Sublist (s.items c) := by
  by_cases hc : c < s.collections.size
  · rwa [items_setItems s hc]
  · rw [setItems, Array.setIfInBounds_eq_of_size_le (Nat.not_lt.mp hc)]

/-- Besides, the one collection has lost items at most. -/
def Shortened (c : CollectionId) (s s' : TokenStore) : Prop :=
  s.Spares c s' ∧ (s'.items c).Sublist (s.items c)

instance (c : CollectionId) : IsPreorder TokenStore (Shortened c) where
  refl s := ⟨.refl c s, .refl _⟩
  trans _ _ _ h h' := ⟨h.1.trans h'.1, h'.2.trans h.2⟩

end TokenStore

/-! ## Calls -/

namespace Collection

open TokenStore (Spares Shortened)

variable {c : CollectionId} {s s' : TokenStore}

/-- Making a collection spares the old ones. -/
theorem keeps_new (c : CollectionId) (xs : List Value) : Effect.Keeps (Spares c) (new xs) :=
  fun s => (TokenStore.spares_enteringAll c s xs).trans
    ((TokenStore.extends_withCollections _ [(s.enteringAll xs).2]).spares rfl)

theorem keeps_mapM_new (c : CollectionId) (gs : List (List Value)) :
    Effect.Keeps (Spares c) (gs.mapM new) := by
  induction gs with
  | nil => exact .pure []
  | cons g gs ih =>
      rw [List.mapM_cons]
      exact .bind (keeps_new c g) fun d => .bind ih fun ds => .pure (d :: ds)

theorem keeps_add (c : CollectionId) (kind : Value) (lexeme : String) :
    Effect.Keeps (Spares c) (add c kind lexeme) := fun s =>
  (TokenStore.spares_newCell c s ⟨kind, .str lexeme⟩).trans (TokenStore.spares_pushItems c _ _)

/-- An edit that takes its items from the old ones. -/
theorem keeps_editByKind (c : CollectionId) (kind : Value)
    {f : Sequence.Test Value → List Value → Except Fault (List Value)}
    (hf : ∀ is xs ys, f is xs = .ok ys → ys.Sublist xs) :
    Effect.Keeps (Shortened c) (kindTest kind >>= fun is => edit c (f is)) := by
  intro s
  rcases editByKind_cases c kind s f with ⟨g, -, heq⟩ | ⟨ys, hys, heq⟩ <;> rw [heq]
  · exact refl_of (Shortened c) s
  · exact ⟨TokenStore.spares_setItems c s ys, TokenStore.sublist_items_setItems (hf _ _ _ hys)⟩

/-- Looking for a token changes nothing. -/
theorem findKind_world (c : CollectionId) (kind start : Value) (count : Option Value)
    (s : TokenStore) : (findKind c kind start count s).2 = s := by
  have hkeeps : Effect.Keeps (fun s s' : TokenStore => s' = s) (findKind c kind start count) :=
    .bind (.bind .get fun _ => .pure _) fun _ => .bind (.ofExcept _) fun _ =>
      .bind (.bind .get fun _ => .pure _) fun _ => .ofExcept _
  exact hkeeps s

namespace Operation

/-- The operation edits no collection but one, and writes no lexeme. -/
def EditsOnly (c : CollectionId) : Operation → Prop
  | append d _ | add d _ _ | pop d | emit d _ _ | removeKind d _ | collapseKind d _ | trimStart d _
  | trimEnd d _ | trim d _ => d = c
  | new _ | segment _ _ _ | split _ _ _ => True
  | extend _ _ | assign _ _ _ => False

/-- The operation takes items away from a collection by their kind, in place. -/
def TakesAway (c : CollectionId) : Operation → Prop
  | removeKind d _ | collapseKind d _ | trimStart d _ | trimEnd d _ | trim d _ => d = c
  | _ => False

/-- **Taking away in place** keeps the items that stay, in their order. -/
theorem shortened_apply {op : Operation} (hop : op.TakesAway c) (s : TokenStore) :
    s.Shortened c (op.apply s) := by
  cases op with
  | removeKind d kind =>
      obtain rfl : d = c := hop
      exact keeps_editByKind d kind (fun _ _ _ => Sequence.sublist_of_without) s
  | collapseKind d kind =>
      obtain rfl : d = c := hop
      exact keeps_editByKind d kind (fun _ _ _ => Sequence.sublist_of_collapse) s
  | trimStart d kind =>
      obtain rfl : d = c := hop
      exact keeps_editByKind d kind (fun _ _ _ => Sequence.sublist_of_trimStart) s
  | trimEnd d kind =>
      obtain rfl : d = c := hop
      exact keeps_editByKind d kind (fun _ _ _ => Sequence.sublist_of_trimEnd) s
  | trim d kind =>
      obtain rfl : d = c := hop
      have hboth : Effect.Keeps (Shortened d) (Collection.trim d kind) :=
        .bind (keeps_editByKind d kind fun _ _ _ => Sequence.sublist_of_trimStart) fun _ =>
          keeps_editByKind d kind fun _ _ _ => Sequence.sublist_of_trimEnd
      exact hboth s
  | new | append | add | pop | emit | extend | assign | segment | split => exact hop.elim

/-- **One operation** spares all tokens and all other collections. -/
theorem spares_apply {op : Operation} (hop : op.EditsOnly c) (s : TokenStore) :
    s.Spares c (op.apply s) := by
  have hshortened : op.TakesAway c → s.Spares c (op.apply s) := fun hop =>
    (shortened_apply hop s).1
  have hitems : ∀ d, Effect.Keeps (Spares c) (items d) := fun _ => .bind .get fun _ => .pure _
  cases op with
  | new xs => exact keeps_new c xs s
  | append d x =>
      obtain rfl : d = c := hop
      exact (TokenStore.spares_entering d s x).trans (TokenStore.spares_pushItems d _ _)
  | add d kind lexeme =>
      obtain rfl : d = c := hop
      exact keeps_add d kind lexeme s
  | pop d =>
      obtain rfl : d = c := hop
      have hpop : Effect.Keeps (Spares d) (Collection.pop d) := by
        refine .bind (hitems d) fun xs => ?_
        split
        · exact .bind (.modify fun s => TokenStore.spares_setItems d s _) fun _ => .pure _
        · exact .raise _
      exact hpop s
  | emit d kind symbol =>
      obtain rfl : d = c := hop
      have htext : Effect.Keeps (Spares d) (textOf symbol) := .bind .get fun _ => .ofExcept _
      have hemit : Effect.Keeps (Spares d) (Collection.emit d kind symbol) :=
        .bind htext fun text => .bind (keeps_add d kind text) fun _ => .pure _
      exact hemit s
  | removeKind | collapseKind | trimStart | trimEnd | trim => exact hshortened hop
  | extend | assign => exact hop.elim
  | segment d first final =>
      have hsegment : Effect.Keeps (Spares c) (Collection.segment d first final) :=
        .bind (.ofExcept _) fun _ => .bind (hitems d) fun _ => keeps_new c _
      exact hsegment s
  | split d kind withEmpty =>
      have htest : Effect.Keeps (Spares c) (kindTest kind) := .bind .get fun _ => .pure _
      have hsplit : Effect.Keeps (Spares c) (Collection.split d kind withEmpty) :=
        .bind htest fun _ => .bind (hitems d) fun _ => .bind (.ofExcept _) fun _ =>
          keeps_mapM_new c _
      exact hsplit s

/-- **Any number of operations**, one after another. -/
theorem spares_foldl {ops : List Operation} (hops : ∀ op ∈ ops, op.EditsOnly c) (s : TokenStore) :
    s.Spares c (ops.foldl Operation.apply s) :=
  List.foldlRecOn ops Operation.apply (.refl c s) fun _ h op hop =>
    h.trans (spares_apply (hops op hop) _)

theorem shortened_foldl {ops : List Operation} (hops : ∀ op ∈ ops, op.TakesAway c)
    (s : TokenStore) : s.Shortened c (ops.foldl Operation.apply s) :=
  List.foldlRecOn ops Operation.apply (refl_of (Shortened c) s) fun _ h op hop =>
    trans_of (Shortened c) h (shortened_apply (hops op hop) _)

end Operation

end Collection

/-! ## Collections that come of one another -/

namespace TokenStore

/-- A collection is new and holds items of an old one, in their order. No token was made for it, and
what was there is as it was. -/
structure Derives (s : TokenStore) (c d : CollectionId) (s' : TokenStore) : Prop where
  isNew : s.collections.size ≤ d
  items : (s'.items d).Sublist (s.items c)
  others : ∀ e < s.collections.size, s'.items e = s.items e
  cells : s'.cells = s.cells
  attached : s'.attached = s.attached

theorem derives_withCollections {s : TokenStore} {c d : CollectionId} {gs : List (List Value)}
    (hgs : ∀ g ∈ gs, g.Sublist (s.items c)) (hd : d ∈ s.newPlaces gs) :
    s.Derives c d (s.withCollections gs) where
  isNew := (List.mem_range'_1.mp hd).1
  items := by
    have hmem : (s.withCollections gs).items d ∈
        (s.newPlaces gs).map (s.withCollections gs).items := List.mem_map_of_mem hd
    rw [map_items_newPlaces] at hmem
    exact hgs _ hmem
  others _ := items_withCollections gs
  cells := rfl
  attached := rfl

end TokenStore

namespace Collection

variable {c d : CollectionId} {s s' : TokenStore}

theorem derives_segment (hs : s.Settled) {first final : Value}
    (h : segment c first final s = (.ok d, s')) : s.Derives c d s' := by
  rw [segment] at h
  rcases hwindow : Window.ofBounds first final with f | window <;> rw [hwindow] at h
  · cases h
  have hcut : (window.cut (s.items c)).Sublist (s.items c) :=
    (List.drop_sublist _ _).trans (List.take_sublist _ _)
  have hnew : (new (window.cut (s.items c))) s = (.ok d, s') := h
  rw [new_apply fun x hx => hs c x (hcut.subset hx)] at hnew
  cases hnew
  exact TokenStore.derives_withCollections (List.forall_mem_singleton.mpr hcut)
    (List.mem_singleton_self _)

theorem derives_split (hs : s.Settled) {kind : Value} {withEmpty : Bool} {ds : List CollectionId}
    (h : split c kind withEmpty s = (.ok ds, s')) (hd : d ∈ ds) : s.Derives c d s' := by
  rw [split_eq_bind] at h
  rcases hgroups : Sequence.groups (s.isOfKind kind) (s.items c) with f | groups <;>
    rw [hgroups] at h
  · cases h
  let kept := if withEmpty then groups else groups.filter fun g => !g.isEmpty
  have hkept : ∀ g ∈ kept, g.Sublist (s.items c) := by
    intro g hg
    refine Sequence.sublist_of_groups hgroups g ?_
    cases withEmpty with
    | true => exact hg
    | false => exact (List.mem_filter.mp hg).1
  have hnew : kept.mapM new s = (.ok ds, s') := h
  rw [mapM_new_apply fun g hg x hx => hs c x ((hkept g hg).subset hx)] at hnew
  cases hnew
  exact TokenStore.derives_withCollections hkept hd

theorem derives_new (hs : s.Settled) (c : CollectionId) :
    ∃ d s', new (s.items c) s = (.ok d, s') ∧ s'.items d = s.items c ∧ s.Derives c d s' :=
  ⟨_, _, new_apply (hs c), s.items_newPlace _, TokenStore.derives_withCollections
    (List.forall_mem_singleton.mpr (.refl _)) (List.mem_singleton_self _)⟩

end Collection

/-! ## A longer lexeme -/

namespace TokenStore

/-- The lexemes of a collection, as they are seen in it. -/
def lexemes (s : TokenStore) (c : CollectionId) : List (Except Fault Value) :=
  (s.items c).map s.lexemeOf

/-- The second store is the first one with another lexeme for one token. -/
structure Relexed (s : TokenStore) (i : Nat) (lexeme : Value) (s' : TokenStore) : Prop where
  cell : s'.cells[i]? = s.cells[i]?.map ({ · with lexeme })
  cells : ∀ j ≠ i, s'.cells[j]? = s.cells[j]?
  collections : s'.collections = s.collections
  attached : s'.attached = s.attached

theorem relexed_setLexeme (s : TokenStore) (i : Nat) (lexeme : Value) :
    s.Relexed i lexeme (s.setLexeme i lexeme) where
  cell := by
    change (s.cells.modify i _)[i]? = _
    rw [Array.getElem?_modify, if_pos rfl]
  cells _ hj := getElem?_setLexeme_of_ne hj.symm lexeme
  collections := rfl
  attached := rfl

namespace Relexed

variable {s s' : TokenStore} {i : Nat} {lexeme x : Value} {t : Token}

theorem items (h : s.Relexed i lexeme s') (d : CollectionId) : s'.items d = s.items d := by
  rw [TokenStore.items, TokenStore.items, h.collections]

theorem lexemeOf_self (h : s.Relexed i lexeme s') (ht : s.cells[i]? = some t) :
    s'.lexemeOf (.shared (.token i)) = .ok lexeme := by
  rw [lexemeOf, token?, h.cell, ht]
  rfl

theorem lexemeOf_of_ne (h : s.Relexed i lexeme s') (hx : x ≠ .shared (.token i)) :
    s'.lexemeOf x = s.lexemeOf x := by
  have htoken : s'.token? x = s.token? x := by
    unfold token?
    split
    · rfl
    · exact h.cells _ fun hj => hx (congrArg (fun i => Value.shared (.token i)) hj)
    · rfl
  rw [lexemeOf, lexemeOf, htoken, h.attached]

/-- **The longer lexeme is seen where the token is**, and nowhere else. -/
theorem lexemes_ne_iff (h : s.Relexed i lexeme s') (ht : s.cells[i]? = some t)
    (hlexeme : lexeme ≠ t.lexeme) (d : CollectionId) :
    s'.lexemes d ≠ s.lexemes d ↔ .shared (.token i) ∈ s.items d := by
  have hold : s.lexemeOf (.shared (.token i)) = .ok t.lexeme := by
    rw [lexemeOf, token?, ht]
  rw [lexemes, lexemes, h.items, not_iff_comm]
  constructor
  · exact fun hmem => List.map_congr_left fun x hx =>
      h.lexemeOf_of_ne fun heq => hmem (heq ▸ hx)
  · intro hsame hmem
    have heq := List.map_inj_left.mp hsame _ hmem
    rw [h.lexemeOf_self ht, hold] at heq
    exact hlexeme (Except.ok.inj heq)

end Relexed

end TokenStore

namespace Collection

variable {c : CollectionId} {s : TokenStore}

/-- An extend action, where the last item is a token and its lexeme a text. -/
theorem extend_last (hs : s.Settled) {x : Value} {t : Token} {l : String}
    (hlast : (s.items c).getLast? = some x) (ht : s.token? x = some t) (hl : t.lexeme = .str l)
    (symbol : Value) :
    ∃ i, x = .shared (.token i) ∧ s.cells[i]? = some t ∧
      (∀ f, (s.read symbol).text = .error f → extend c symbol s = (.error (.fault f), s)) ∧
      ∀ text, (s.read symbol).text = .ok text →
        extend c symbol s = (.ok (), s.setLexeme i (.str (l ++ text))) := by
  have hx : x.Settled := hs c x (List.mem_of_getLast? hlast)
  -- A token that is no value of its own has a cell.
  obtain ⟨i, rfl⟩ : ∃ i, x = .shared (.token i) := by
    unfold TokenStore.token? at ht
    split at ht
    · exact absurd rfl (hx _ _)
    · exact ⟨_, rfl⟩
    · cases ht
  have htext : textOf symbol s = ((s.read symbol).text.mapError .fault, s) := by
    rw [textOf, Effect.bind_apply_of_ok s (Effect.get_apply s), Effect.ofExcept_apply]
  refine ⟨i, rfl, ht, fun f hf => ?_, fun text hok => ?_⟩
  · rw [hf] at htext
    exact TokenStore.extend_apply hlast ht hl htext
  · rw [hok] at htext
    exact TokenStore.extend_apply hlast ht hl htext

/-- **Edits of one collection reach others only through shared tokens.** Operations that edit one
collection and write no lexeme, however many, leave all tokens and all other collections as they
are, and those that take away in place leave some of the items in their order. A search changes
nothing. What is cut out of a collection, split off it or made of its items has the same tokens in a
list of its own. Extending the last token changes the lexeme of this one token and nothing else, and
the collections in which that is seen are those that hold the token. -/
theorem sharing_only_through_tokens (hs : s.Settled) (c : CollectionId) :
    (∀ ops : List Operation, (∀ op ∈ ops, op.EditsOnly c) →
      s.Spares c (ops.foldl Operation.apply s)) ∧
    (∀ ops : List Operation, (∀ op ∈ ops, op.TakesAway c) →
      ((ops.foldl Operation.apply s).items c).Sublist (s.items c)) ∧
    (∀ kind start count, (findKind c kind start count s).2 = s) ∧
    ((∀ first final d s', segment c first final s = (.ok d, s') → s.Derives c d s') ∧
      (∀ kind withEmpty ds s', split c kind withEmpty s = (.ok ds, s') →
        ∀ d ∈ ds, s.Derives c d s') ∧
      ∃ d s', new (s.items c) s = (.ok d, s') ∧ s'.items d = s.items c ∧ s.Derives c d s') ∧
    ∀ x t l, (s.items c).getLast? = some x → s.token? x = some t → t.lexeme = .str l → ∀ symbol,
      (∀ f, (s.read symbol).text = .error f → extend c symbol s = (.error (.fault f), s)) ∧
      ∀ text, (s.read symbol).text = .ok text →
        ∃ i s', x = .shared (.token i) ∧ extend c symbol s = (.ok (), s') ∧
          s.Relexed i (.str (l ++ text)) s' ∧
          (text ≠ "" → ∀ d, s'.lexemes d ≠ s.lexemes d ↔ x ∈ s.items d) := by
  refine ⟨fun ops hops => Operation.spares_foldl hops s,
    fun ops hops => (Operation.shortened_foldl hops s).2,
    fun kind start count => findKind_world c kind start count s,
    ⟨fun _ _ _ _ h => derives_segment hs h, fun _ _ _ _ h _ hd => derives_split hs h hd,
      derives_new hs c⟩, fun x t l hlast ht hl symbol => ?_⟩
  obtain ⟨i, rfl, hcell, hfail, hextend⟩ := extend_last hs hlast ht hl symbol
  refine ⟨hfail, fun text htext => ?_⟩
  have hrelexed := s.relexed_setLexeme i (.str (l ++ text))
  refine ⟨i, _, rfl, hextend text htext, hrelexed, fun hne d => hrelexed.lexemes_ne_iff hcell ?_ d⟩
  rw [hl]
  intro hsame
  have hlonger : l ++ text = l := Value.str.inj hsame
  exact hne (String.append_eq_left_iff.mp hlonger)

/-- Three tokens and a number, and one collection of the last and one of the first of them. -/
def sharedStore : TokenStore :=
  (Operation.new [.shared (.token 0)]).apply
    ((Operation.new [.shared (.token 2)]).apply numberedStore)

/-- Cutting, splitting and trimming the first collection leaves the others alone. Extending its last
token is seen in the second collection and not in the third. -/
theorem sharedStore_sharing :
    (let ops : List Operation :=
        [.segment 0 (.int 0) (.int 1), .trimStart 0 (.int 1), .split 0 (.int 2) true, .pop 0];
      sharedStore.Spares 0 (ops.foldl Operation.apply sharedStore)) ∧
    ((Operation.apply sharedStore (.trimStart 0 (.int 1))).items 0).Sublist (sharedStore.items 0) ∧
    ∃ s', extend 0 (.str "!") sharedStore = (.ok (), s') ∧
      s'.lexemes 1 ≠ sharedStore.lexemes 1 ∧ s'.lexemes 2 = sharedStore.lexemes 2 := by
  have hsettled : sharedStore.Settled :=
    Operation.settled (Operation.settled numberedStore_reached.settled _) _
  obtain ⟨hspares, hshortens, -, -, hextend⟩ := sharing_only_through_tokens hsettled 0
  refine ⟨hspares _ ?_, hshortens [.trimStart 0 (.int 1)] (List.forall_mem_singleton.mpr rfl), ?_⟩
  · rintro op (_ | ⟨_, _ | ⟨_, _ | ⟨_, _ | ⟨_, ⟨⟩⟩⟩⟩⟩) <;> trivial
  obtain ⟨i, s', -, hcall, -, hseen⟩ := (hextend (.shared (.token 2)) ⟨.int 1, .str "c"⟩ "c" rfl rfl
    rfl (.str "!")).2 "!" rfl
  refine ⟨s', hcall, (hseen (by decide) 1).mpr (List.mem_singleton_self _), ?_⟩
  exact not_not.mp (mt (hseen (by decide) 2).mp (by rintro (_ | ⟨_, ⟨⟩⟩)))

end Collection

end SymbolMachine
