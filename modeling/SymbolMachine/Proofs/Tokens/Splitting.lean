/-
Splitting a collection at the tokens of a kind.

A sequence is groups with a delimiter between each two of them, in exactly one way if the
delimiters pass a test and no item of a group does. So splitting and joining are inverse to each
other, and what else is said of the groups is said of a joined sequence (`Separates`).

Splitting a collection makes a new collection of each group. The new ones stand behind the old
ones in the store, and nothing else changes (`TokenStore.withCollections`).
-/
import SymbolMachine.Proofs.Tokens.Editing

set_option autoImplicit false

namespace SymbolMachine

/-! ## Groups and delimiters -/

namespace Sequence

variable {ι : Type} {is : Test ι} {p : ι → Bool} {xs : List ι}

theorem Decides.groups_eq (h : Decides is p xs) : groups is xs = .ok (xs.splitOnP p) := by
  induction xs with
  | nil => rw [List.splitOnP_nil, groups_nil]
  | cons x xs ih =>
      obtain ⟨hx, hxs⟩ := decides_cons.mp h
      rw [groups, hx, ih hxs, List.splitOnP_cons_eq_if_modifyHead]
      obtain ⟨g, gs, hgs⟩ := List.exists_cons_of_ne_nil (List.splitOnP_ne_nil p xs)
      rw [hgs]
      cases p x <;> rfl

/-- Some groups put together, with a delimiter behind each but the last. -/
def joined : List (List ι) → List ι → List ι
  | [], _ => []
  | g :: _, [] => g
  | g :: gs, d :: ds => g ++ d :: joined gs ds

/-- Some groups and what stands between each two of them, told apart by a test. -/
inductive Separates (p : ι → Bool) : List (List ι) → List ι → Prop
  | single {g : List ι} : (∀ x ∈ g, p x = false) → Separates p [g] []
  | cons {g : List ι} {d : ι} {gs : List (List ι)} {ds : List ι} : (∀ x ∈ g, p x = false) →
      p d = true → Separates p gs ds → Separates p (g :: gs) (d :: ds)

variable {gs : List (List ι)} {ds : List ι}

/-- What it takes: one more group than delimiters, and that the test knows which are which. -/
theorem separates_iff :
    Separates p gs ds ↔ gs.length = ds.length + 1 ∧ (∀ g ∈ gs, ∀ x ∈ g, p x = false) ∧
      ∀ d ∈ ds, p d = true := by
  constructor
  · intro h
    induction h with
    | single hg => exact ⟨rfl, List.forall_mem_singleton.mpr hg, nofun⟩
    | cons hg hd _ ih =>
        obtain ⟨hlength, hgs, hds⟩ := ih
        exact ⟨congrArg (· + 1) hlength, List.forall_mem_cons.mpr ⟨hg, hgs⟩,
          List.forall_mem_cons.mpr ⟨hd, hds⟩⟩
  · rintro ⟨hlength, hgs, hds⟩
    induction ds generalizing gs with
    | nil =>
        obtain ⟨g, rfl⟩ := List.length_eq_one_iff.mp hlength
        exact .single (hgs g (List.mem_singleton_self g))
    | cons d ds ih =>
        obtain ⟨g, gs, rfl⟩ := List.exists_cons_of_length_eq_add_one hlength
        obtain ⟨hg, hgs⟩ := List.forall_mem_cons.mp hgs
        obtain ⟨hd, hds⟩ := List.forall_mem_cons.mp hds
        exact .cons hg hd (ih (Nat.succ.inj hlength) hgs hds)

namespace Separates

/-- **Splitting undoes joining.** -/
theorem splitOnP_joined (h : Separates p gs ds) : (joined gs ds).splitOnP p = gs := by
  induction h with
  | single hg => exact List.splitOnP_eq_singleton hg
  | cons hg hd _ ih => rw [joined, List.splitOnP_append_cons_of_forall_mem hg _ hd, ih]

/-- The delimiters are what passes. -/
theorem filter_joined (h : Separates p gs ds) : (joined gs ds).filter p = ds := by
  have hnone : ∀ {g : List ι}, (∀ x ∈ g, p x = false) → g.filter p = [] := fun hg =>
    List.filter_eq_nil_iff.mpr fun x hx => Bool.eq_false_iff.mp (hg x hx)
  induction h with
  | single hg => exact hnone hg
  | cons hg hd _ ih =>
      rw [joined, List.filter_append, hnone hg, List.filter_cons_of_pos hd, ih, List.nil_append]

/-- What does not pass is in the groups. -/
theorem filter_not_joined (h : Separates p gs ds) :
    (joined gs ds).filter (fun x => !p x) = gs.flatten := by
  have hall : ∀ {g : List ι}, (∀ x ∈ g, p x = false) → g.filter (fun x => !p x) = g := fun hg =>
    List.filter_eq_self.mpr fun x hx => by rw [hg x hx, Bool.not_false]
  induction h with
  | single hg => rw [joined, List.flatten_singleton, hall hg]
  | @cons g d gs ds hg hd _ ih =>
      have hdrop : ((d :: joined gs ds).filter fun x => !p x) = gs.flatten := by
        rw [← ih, List.filter_cons, hd, Bool.not_true, if_neg Bool.false_ne_true]
      rw [joined, List.filter_append, hall hg, hdrop, List.flatten_cons]

end Separates

/-- Every sequence is such an arrangement. -/
theorem exists_separates (p : ι → Bool) (xs : List ι) :
    ∃ gs ds, Separates p gs ds ∧ joined gs ds = xs := by
  induction xs with
  | nil => exact ⟨[[]], [], .single nofun, rfl⟩
  | cons x xs ih =>
      obtain ⟨gs, ds, h, rfl⟩ := ih
      cases hx : p x with
      | true => exact ⟨[] :: gs, x :: ds, .cons nofun hx h, rfl⟩
      | false =>
          -- The item joins the first group.
          cases h with
          | single hg => exact ⟨_, _, .single (List.forall_mem_cons.mpr ⟨hx, hg⟩), rfl⟩
          | cons hg hd hrest => exact ⟨_, _, .cons (List.forall_mem_cons.mpr ⟨hx, hg⟩) hd hrest, rfl⟩

/-- **Joining undoes splitting**: a sequence is its groups with its passing items between them. -/
theorem separates_splitOnP (p : ι → Bool) (xs : List ι) :
    Separates p (xs.splitOnP p) (xs.filter p) ∧ joined (xs.splitOnP p) (xs.filter p) = xs := by
  obtain ⟨gs, ds, h, rfl⟩ := exists_separates p xs
  rw [h.splitOnP_joined, h.filter_joined]
  exact ⟨h, rfl⟩

end Sequence

/-! ## New collections -/

/-- The value is no token by itself. -/
def Value.Settled (x : Value) : Prop := ∀ kind lexeme, x ≠ .token kind lexeme

namespace TokenStore

variable {s : TokenStore}

/-- The store with a new collection of each list of items. -/
def withCollections (s : TokenStore) (gs : List (List Value)) : TokenStore :=
  { s with collections := s.collections ++ (gs.map List.toArray).toArray }

/-- The places that new collections get. -/
def newPlaces (s : TokenStore) (gs : List (List Value)) : List CollectionId :=
  List.range' s.collections.size gs.length

@[simp] theorem withCollections_nil (s : TokenStore) : s.withCollections [] = s := by
  rw [withCollections, List.map_nil, Array.append_empty]

theorem withCollections_append (s : TokenStore) (gs hs : List (List Value)) :
    s.withCollections (gs ++ hs) = (s.withCollections gs).withCollections hs := by
  simp [withCollections, Array.append_assoc]

theorem newPlaces_append (s : TokenStore) (gs hs : List (List Value)) :
    s.newPlaces (gs ++ hs) = s.newPlaces gs ++ (s.withCollections gs).newPlaces hs := by
  simp [newPlaces, withCollections]

theorem withCollections_cons (s : TokenStore) (g : List Value) (gs : List (List Value)) :
    s.withCollections (g :: gs) = (s.withCollections [g]).withCollections gs :=
  s.withCollections_append [g] gs

theorem newPlaces_cons (s : TokenStore) (g : List Value) (gs : List (List Value)) :
    s.newPlaces (g :: gs) = s.collections.size :: (s.withCollections [g]).newPlaces gs :=
  s.newPlaces_append [g] gs

@[simp] theorem size_withCollections (s : TokenStore) (gs : List (List Value)) :
    (s.withCollections gs).collections.size = s.collections.size + gs.length := by
  simp [withCollections]

/-- The old collections are as they were. -/
theorem items_withCollections (gs : List (List Value)) {c : CollectionId}
    (hc : c < s.collections.size) : (s.withCollections gs).items c = s.items c := by
  simp [withCollections, items, Array.getElem?_append_left hc]

/-- What is in a collection then was there before, or is in one of the lists. -/
theorem mem_items_withCollections {gs : List (List Value)} {c : CollectionId} {x : Value}
    (hx : x ∈ (s.withCollections gs).items c) : x ∈ s.items c ∨ ∃ g ∈ gs, x ∈ g := by
  by_cases hold : c < s.collections.size
  · rw [items_withCollections gs hold] at hx
    exact .inl hx
  · -- The place is behind the old collections: one of the new ones is there, or none.
    have hnew : (s.withCollections gs).items c = gs[c - s.collections.size]?.getD [] := by
      simp only [withCollections, items, Array.getElem?_append_right (Nat.not_lt.mp hold),
        List.getElem?_toArray, List.getElem?_map]
      cases gs[c - s.collections.size]? <;> rfl
    rw [hnew] at hx
    rcases hg : gs[c - s.collections.size]? with _ | g <;> rw [hg] at hx
    · cases hx
    · exact .inr ⟨g, List.mem_of_getElem? hg, hx⟩

/-- A new one has its items. -/
theorem items_newPlace (s : TokenStore) (g : List Value) :
    (s.withCollections [g]).items s.collections.size = g := by
  simp [withCollections, items]

/-- The new ones have their items. -/
theorem map_items_newPlaces (s : TokenStore) (gs : List (List Value)) :
    (s.newPlaces gs).map (s.withCollections gs).items = gs := by
  induction gs using List.reverseRecOn with
  | nil => rfl
  | append_singleton gs g ih =>
      -- The last collection is made when the others are there, and does not disturb them.
      have hold : ∀ c ∈ s.newPlaces gs, (s.withCollections (gs ++ [g])).items c =
          (s.withCollections gs).items c := by
        intro c hc
        rw [withCollections_append]
        refine items_withCollections [g] ?_
        rw [size_withCollections]
        exact (List.mem_range'_1.mp hc).2
      have hnew : (s.withCollections (gs ++ [g])).items (s.withCollections gs).collections.size =
          g := by
        rw [withCollections_append]
        exact items_newPlace _ g
      rw [newPlaces_append, List.map_append, List.map_congr_left hold, ih]
      exact congrArg (fun x => gs ++ [x]) hnew

/-- An item that refers to a token. -/
def IsToken (s : TokenStore) (x : Value) : Prop := ∃ i < s.cells.size, x = .shared (.token i)

/-- A collection of the store, all of whose items are tokens. -/
structure HasTokens (s : TokenStore) (c : CollectionId) : Prop where
  known : c < s.collections.size
  tokens : ∀ x ∈ s.items c, s.IsToken x

/-- Whether an item is a token of a kind. -/
def hasKind (s : TokenStore) (kind x : Value) : Bool := (s.isOfKind kind x).toOption.getD false

theorem hasKind_of_isOfKind {kind x : Value} {b : Bool} (h : s.isOfKind kind x = .ok b) :
    s.hasKind kind x = b := by
  rw [hasKind, h]
  rfl

/-- Of a token it can always be said. -/
theorem IsToken.isOfKind_eq {x : Value} (h : s.IsToken x) (kind : Value) :
    s.isOfKind kind x = .ok (s.hasKind kind x) := by
  obtain ⟨i, hi, rfl⟩ := h
  have hcell : s.token? (.shared (.token i)) = some s.cells[i] := Array.getElem?_eq_getElem hi
  rw [hasKind, isOfKind_apply, hcell]
  rfl

theorem IsToken.isOfKind_eq_ok_iff {x kind : Value} {b : Bool} (h : s.IsToken x) :
    s.isOfKind kind x = .ok b ↔ s.hasKind kind x = b := by
  rw [h.isOfKind_eq kind, Except.ok.injEq]

theorem HasTokens.decides {c : CollectionId} (h : s.HasTokens c) (kind : Value) :
    Sequence.Decides (s.isOfKind kind) (s.hasKind kind) (s.items c) :=
  fun x hx => (h.tokens x hx).isOfKind_eq kind

theorem IsToken.settled {x : Value} (h : s.IsToken x) : x.Settled := by
  obtain ⟨i, -, rfl⟩ := h
  exact nofun

/-- What is in a collection is not made again when it enters another one. -/
theorem entering_of_settled {x : Value} (h : x.Settled) : s.entering x = (s, x) := by
  unfold entering
  split
  · next kind lexeme => exact absurd rfl (h kind lexeme)
  · rfl

theorem enteringAll_of_settled {xs : List Value} (h : ∀ x ∈ xs, x.Settled) :
    s.enteringAll xs = (s, xs) := by
  induction xs with
  | nil => rfl
  | cons x xs ih =>
      obtain ⟨hx, hxs⟩ := List.forall_mem_cons.mp h
      simp only [enteringAll, entering_of_settled hx, ih hxs]

end TokenStore

namespace Collection

variable {c : CollectionId} {s : TokenStore}

theorem new_apply {xs : List Value} (h : ∀ x ∈ xs, x.Settled) :
    new xs s = (.ok s.collections.size, s.withCollections [xs]) := by
  rw [new, Effect.bind_apply_of_ok s (Effect.get_apply s), TokenStore.enteringAll_of_settled h]
  rfl

theorem mapM_new_apply {gs : List (List Value)} (h : ∀ g ∈ gs, ∀ x ∈ g, x.Settled) :
    gs.mapM new s = (.ok (s.newPlaces gs), s.withCollections gs) := by
  induction gs generalizing s with
  | nil => rw [TokenStore.withCollections_nil]; rfl
  | cons g gs ih =>
      obtain ⟨hg, hgs⟩ := List.forall_mem_cons.mp h
      rw [List.mapM_cons, Effect.bind_apply_of_ok s (new_apply hg),
        Effect.bind_apply_of_ok _ (ih hgs), s.newPlaces_cons g gs, s.withCollections_cons g gs]
      rfl

/-- Splitting makes a collection of each group. -/
theorem split_apply (h : s.HasTokens c) (kind : Value) (withEmpty : Bool) :
    let groups := (s.items c).splitOnP (s.hasKind kind)
    let kept := if withEmpty then groups else groups.filter fun g => !g.isEmpty
    split c kind withEmpty s = (.ok (s.newPlaces kept), s.withCollections kept) := by
  intro groups kept
  have htokens : ∀ g ∈ groups, ∀ x ∈ g, s.IsToken x := by
    intro g hg x hx
    -- What is in a group does not pass, and was in the collection before.
    obtain ⟨hseparates, hjoined⟩ := Sequence.separates_splitOnP (s.hasKind kind) (s.items c)
    have hflat : x ∈ groups.flatten := List.mem_flatten.mpr ⟨g, hg, hx⟩
    rw [← hseparates.filter_not_joined, hjoined] at hflat
    exact h.tokens x (List.mem_filter.mp hflat).1
  have hkept : ∀ g ∈ kept, ∀ x ∈ g, s.IsToken x := by
    intro g hg
    refine htokens g ?_
    cases withEmpty with
    | true => exact hg
    | false => exact (List.mem_filter.mp hg).1
  have hgroups : Sequence.groups (s.isOfKind kind) (s.items c) = .ok groups :=
    (h.decides kind).groups_eq
  rw [split_eq_bind, hgroups, Effect.ofExcept_ok, pure_bind]
  exact mapM_new_apply fun g hg x hx => (hkept g hg x hx).settled

/-- **Splitting loses and invents nothing, and inverts joining.** -/
theorem split_inverts_joining (h : s.HasTokens c) (kind : Value) :
    let delimiters := (s.items c).filter (s.hasKind kind)
    (∃ groups : List (List Value),
      split c kind true s = (.ok (s.newPlaces groups), s.withCollections groups) ∧
      (s.newPlaces groups).map (s.withCollections groups).items = groups ∧
      (∀ d < s.collections.size, (s.withCollections groups).items d = s.items d) ∧
      groups.length = delimiters.length + 1 ∧
      (∀ g ∈ groups, ∀ x ∈ g, s.isOfKind kind x = .ok false) ∧
      Sequence.joined groups delimiters = s.items c ∧
      removeKind c kind s = (.ok (), s.setItems c groups.flatten) ∧
      let kept := groups.filter fun g => !g.isEmpty
      split c kind false s = (.ok (s.newPlaces kept), s.withCollections kept)) ∧
    ∀ (gs : List (List Value)) (ds : List Value), gs.length = ds.length + 1 →
      (∀ g ∈ gs, ∀ x ∈ g, s.isOfKind kind x = .ok false) →
      (∀ d ∈ ds, s.isOfKind kind d = .ok true) → s.items c = Sequence.joined gs ds →
      split c kind true s = (.ok (s.newPlaces gs), s.withCollections gs) := by
  intro delimiters
  obtain ⟨hseparates, hjoined⟩ := Sequence.separates_splitOnP (s.hasKind kind) (s.items c)
  obtain ⟨hlength, hgroups, -⟩ := Sequence.separates_iff.mp hseparates
  have hflatten := hseparates.filter_not_joined
  rw [hjoined] at hflatten
  refine ⟨⟨(s.items c).splitOnP (s.hasKind kind), split_apply h kind true,
    s.map_items_newPlaces _, fun d => TokenStore.items_withCollections _, hlength, ?_, hjoined, ?_,
    split_apply h kind false⟩, ?_⟩
  · intro g hg x hx
    have hitem : x ∈ (s.items c).filter fun x => !s.hasKind kind x :=
      hflatten ▸ List.mem_flatten.mpr ⟨g, hg, hx⟩
    rw [(h.tokens x (List.mem_filter.mp hitem).1).isOfKind_eq, hgroups g hg x hx]
  · rw [← hflatten]
    exact removeKind_apply (h.decides kind)
  · intro gs ds hcount hfree hpass hitems
    have hgiven : Sequence.Separates (s.hasKind kind) gs ds :=
      Sequence.separates_iff.mpr ⟨hcount,
        fun g hg x hx => TokenStore.hasKind_of_isOfKind (hfree g hg x hx),
        fun d hd => TokenStore.hasKind_of_isOfKind (hpass d hd)⟩
    have hsplit := split_apply h kind true
    rw [hitems, hgiven.splitOnP_joined] at hsplit
    exact hsplit

/-- A comma, a word and again the comma. -/
def commaStore : TokenStore :=
  ⟨#[⟨.int 1, .str ","⟩, ⟨.int 2, .str "word"⟩],
    #[#[.shared (.token 0), .shared (.token 1), .shared (.token 0)]], []⟩

theorem commaStore_hasTokens : commaStore.HasTokens 0 where
  known := Nat.one_pos
  tokens := by
    have hitems : commaStore.items 0 =
      [.shared (.token 0), .shared (.token 1), .shared (.token 0)] := rfl
    rw [hitems]
    intro x hx
    simp only [List.mem_cons, List.not_mem_nil, or_false] at hx
    rcases hx with rfl | rfl | rfl
    · exact ⟨0, Nat.two_pos, rfl⟩
    · exact ⟨1, Nat.one_lt_two, rfl⟩
    · exact ⟨0, Nat.two_pos, rfl⟩

/-- In front of the first comma and behind the last one there is nothing. -/
theorem commaStore_split :
    split 0 (.int 1) true commaStore =
      (.ok [1, 2, 3], commaStore.withCollections [[], [.shared (.token 1)], []]) := by
  obtain ⟨-, hunique⟩ := split_inverts_joining commaStore_hasTokens (.int 1)
  have hcomma : commaStore.isOfKind (.int 1) (.shared (.token 0)) = .ok true := rfl
  have hword : commaStore.isOfKind (.int 1) (.shared (.token 1)) = .ok false := rfl
  refine hunique [[], [.shared (.token 1)], []] [.shared (.token 0), .shared (.token 0)] rfl ?_ ?_
    rfl
  · simp [hword]
  · simp [hcomma]

end Collection

end SymbolMachine
