/-
Cutting a collection between two places.

The bounds of a cut are whole numbers of any size and sign, and what is cut out is told by the
places alone: the items whose place is at least the first bound and at most the last one
(`Sequence.between`). Nothing is counted from the end. A cut is made by leaving out items at both
ends, and the work is to see that this comes to the same (`Sequence.cut_eq_between`); how cuts lie
side by side and inside each other is then arithmetic of the bounds.

A cut has the very items of the collection. An item that stands in a collection is never a token by
itself, always a reference to one (`TokenStore.Settled`), so it is put into the new collection as it
is. That this is so in every store that operations build is shown on the way
(`TokenStore.Reached.settled`).
-/
import SymbolMachine.Proofs.Tokens.Scanning
import SymbolMachine.Proofs.Tokens.Soundness

set_option autoImplicit false

namespace SymbolMachine

/-! ## Places -/

namespace Sequence

variable {ι : Type}

/-- The items whose place is neither before `first` nor behind `last`. -/
def between (first last : Int) (xs : List ι) : List ι :=
  (xs.zipIdx.filter fun x => first ≤ x.2 ∧ x.2 ≤ last).map Prod.fst

/-- What the items at given places are, when the places are counted from `n`. -/
theorem map_fst_filter_zipIdx (first last : Int) (xs : List ι) (n : Nat) :
    ((xs.zipIdx n).filter fun x => first ≤ x.2 ∧ x.2 ≤ last).map Prod.fst =
      (xs.take (last + 1 - n).toNat).drop (first - n).toNat := by
  induction xs generalizing n with
  | nil => simp
  | cons x xs ih =>
      rw [List.zipIdx_cons, List.filter_cons]
      have hrest := ih (n + 1)
      by_cases hlast : (n : Int) ≤ last
      · have htake : (last + 1 - n).toNat = (last + 1 - (n + 1 : Nat)).toNat + 1 := by omega
        rw [htake, List.take_succ_cons]
        by_cases hfirst : first ≤ n
        · -- From here on no item is left out at the start.
          have hdrop : (first - n).toNat = 0 := by omega
          have hdrop' : (first - (n + 1 : Nat)).toNat = 0 := by omega
          rw [hdrop', List.drop_zero] at hrest
          rw [if_pos (decide_eq_true ⟨hfirst, hlast⟩), List.map_cons, hrest, hdrop, List.drop_zero]
        · have hdrop : (first - n).toNat = (first - (n + 1 : Nat)).toNat + 1 := by omega
          rw [if_neg (by simp [hfirst]), hrest, hdrop, List.drop_succ_cons]
      · -- Behind the last bound nothing comes any more.
        have htake : (last + 1 - n).toNat = 0 := by omega
        have htake' : (last + 1 - (n + 1 : Nat)).toNat = 0 := by omega
        rw [htake', List.take_zero, List.drop_nil] at hrest
        rw [if_neg (by simp [hlast]), hrest, htake, List.take_zero, List.drop_nil]

/-- **A window is cut out by places.** -/
theorem cut_eq_between (first last : Int) (xs : List ι) :
    (Window.Range.mk first.toNat (last + 1).toNat).cut xs = between first last xs := by
  have hplaces := map_fst_filter_zipIdx first last xs 0
  simp only [Int.cast_ofNat_Int, Int.sub_zero] at hplaces
  exact hplaces.symm

theorem subset_of_between (first last : Int) (xs : List ι) : between first last xs ⊆ xs := by
  rw [← cut_eq_between]
  exact fun x hx => List.mem_of_mem_take (List.mem_of_mem_drop hx)

/-- Windows side by side make up the whole one. -/
theorem between_append_between (xs : List ι) {a b d : Int} (hab : a ≤ b + 1) (hbd : b ≤ d) :
    between a b xs ++ between (b + 1) d xs = between a d xs := by
  have hfirst : a.toNat ≤ (b + 1).toNat := by omega
  have hlast : (b + 1).toNat ≤ (d + 1).toNat := by omega
  simp only [← cut_eq_between, Window.Range.cut]
  generalize a.toNat = l, (b + 1).toNat = m, (d + 1).toNat = n at hfirst hlast
  calc (xs.take m).drop l ++ (xs.take n).drop m
      = ((xs.take n).take m).drop l ++ (xs.take n).drop m := by
        rw [List.take_take, Nat.min_eq_left hlast]
    _ = ((xs.take n).drop l).take (m - l) ++ ((xs.take n).drop l).drop (m - l) := by
        rw [List.drop_take, List.drop_drop, Nat.add_sub_cancel' hfirst]
    _ = (xs.take n).drop l := List.take_append_drop _ _

/-- A window of a window is a window. -/
theorem between_between (xs : List ι) (a b x y : Int) :
    between x y (between a b xs) =
      between (max 0 a + max 0 x) (min (max 0 (b + 1)) (max 0 a + max 0 (y + 1)) - 1) xs := by
  have hclamp : ∀ z : Int, max 0 z = z.toNat := fun z => by omega
  have hfirst : (max 0 a + max 0 x).toNat = a.toNat + x.toNat := by
    rw [hclamp, hclamp]
    omega
  have hlast : (min (max 0 (b + 1)) (max 0 a + max 0 (y + 1)) - 1 + 1).toNat =
      min (a.toNat + (y + 1).toNat) (b + 1).toNat := by
    rw [Int.sub_add_cancel, hclamp, hclamp, hclamp]
    generalize (b + 1).toNat = n, a.toNat = k, (y + 1).toNat = l
    omega
  simp only [← cut_eq_between, Window.Range.cut, hfirst, hlast]
  rw [List.take_drop, List.take_take, List.drop_drop]

end Sequence

/-! ## Items that are put into a collection as they are -/

namespace TokenStore

variable {s : TokenStore}

/-- No item of a collection is a token by itself: each token has a cell. -/
def Settled (s : TokenStore) : Prop := ∀ c, ∀ x ∈ s.items c, x.Settled

theorem Settled.withCollections (hs : s.Settled) {gs : List (List Value)}
    (hgs : ∀ g ∈ gs, ∀ x ∈ g, x.Settled) : (s.withCollections gs).Settled := by
  intro c x hx
  rcases mem_items_withCollections hx with hold | ⟨g, hg, hnew⟩
  · exact hs c x hold
  · exact hgs g hg x hnew

theorem Settled.entering (hs : s.Settled) (x : Value) :
    (s.entering x).1.Settled ∧ (s.entering x).2.Settled := by
  unfold TokenStore.entering
  split
  · refine ⟨hs, ?_⟩
    rintro _ _ ⟨⟩
  · next hx => exact ⟨hs, hx⟩

theorem Settled.setItems (hs : s.Settled) (c : CollectionId) {xs : List Value}
    (hxs : ∀ x ∈ xs, x.Settled) : (s.setItems c xs).Settled :=
  fun d x hx => (mem_items_setItems hx).elim (hs d x) (hxs x)

theorem Settled.pushItems (hs : s.Settled) (c : CollectionId) {xs : List Value}
    (hxs : ∀ x ∈ xs, x.Settled) : (s.pushItems c xs).Settled :=
  fun d x hx => (mem_items_pushItems hx).elim (hs d x) (hxs x)

/-- A lexeme is no item. -/
theorem Settled.assignLexeme (hs : s.Settled) (x lexeme : Value) :
    (s.assignLexeme x lexeme).Settled := by
  unfold TokenStore.assignLexeme
  split
  · exact hs
  · split <;> exact hs

end TokenStore

/-! ## Operations leave settled items -/

namespace Collection

/-- Stores in which all items are settled, whatever values are given. -/
def settlement : Upkeep where
  Well := TokenStore.Settled
  Comes _ s' := s'.Settled
  Arg _ _ := True
  Item _ x := x.Settled
  refl hs := hs
  trans _ h' := h'
  well h := h
  arg_mono _ h := h
  item_mono _ h := h
  arg_of_item _ := trivial
  item_of_mem hs := hs
  item_of_mem_characters _ text x hx := by
    obtain ⟨a, -, rfl⟩ := List.mem_map.mp hx
    rintro _ _ ⟨⟩
  arg_of_lexemeOf _ _ := trivial
  arg_of_grown _ _ := trivial
  newCell hs _ _ := by
    refine ⟨hs, ?_⟩
    rintro _ _ ⟨⟩
  entering hs _ := hs.entering _
  newCollection hs hxs := by
    have hgrown := hs.withCollections (List.forall_mem_singleton.mpr hxs)
    exact hgrown
  setItems hs c hxs := hs.setItems c hxs
  pushItems hs c hxs := hs.pushItems c hxs
  assignLexeme hs _ := hs.assignLexeme _ _

/-- **No operation puts a token by itself into a collection.** -/
theorem Operation.settled {s : TokenStore} (hs : s.Settled) (op : Operation) :
    (op.apply s).Settled :=
  settlement.operation hs op fun _ _ => trivial

end Collection

/-- **In a store that operations build, items are settled.** -/
theorem TokenStore.Reached.settled {s : TokenStore} (h : s.Reached) : s.Settled := by
  induction h with
  | empty => exact nofun
  | step op _ _ ih => exact op.settled ih

/-! ## Cuts -/

namespace Collection

variable {c : CollectionId} {s : TokenStore}

/-- What a cut makes, and that it makes nothing else. -/
theorem segment_apply_of_settled (hs : s.Settled) (c : CollectionId) (first final : Int) :
    segment c (.int first) (.int final) s =
      (.ok s.collections.size, s.withCollections [Sequence.between first final (s.items c)]) := by
  have hitems : ∀ x ∈ Sequence.between first final (s.items c), x.Settled := fun x hx =>
    hs c x (Sequence.subset_of_between first final _ hx)
  rw [segment, Window.ofBounds_int, Effect.ofExcept_ok, pure_bind,
    Effect.bind_apply_of_ok s (items_apply c s), Sequence.cut_eq_between, new_apply hitems]

/-- A cut as it is used when more is cut afterwards. -/
theorem exists_between (hs : s.Settled) (c : CollectionId) (first final : Int) :
    ∃ d s', segment c (.int first) (.int final) s = (.ok d, s') ∧ s'.Settled ∧ s.Extends s' ∧
      d < s'.collections.size ∧ s'.items d = Sequence.between first final (s.items c) := by
  refine ⟨_, _, segment_apply_of_settled hs c first final, ?_, s.extends_withCollections _, ?_,
    s.items_newPlace _⟩
  · refine hs.withCollections (List.forall_mem_singleton.mpr fun x hx => ?_)
    exact hs c x (Sequence.subset_of_between first final _ hx)
  · rw [TokenStore.size_withCollections]
    exact Nat.lt_succ_self _

/-- **Cutting is by place.** For all whole numbers as bounds a cut comes about, is a new collection
of exactly the items whose place is within the bounds, in their order, and changes nothing else.
Cuts side by side make up the cut between the outer bounds. A cut of a cut is the cut with the
bounds taken together, all of them with what is below zero put to zero. -/
theorem segment_by_place (hs : s.Settled) (hc : c < s.collections.size) :
    (∀ a b : Int, ∃ d s', segment c (.int a) (.int b) s = (.ok d, s') ∧
      s'.items d = Sequence.between a b (s.items c) ∧ s.collections.size ≤ d ∧
      (∀ e < s.collections.size, s'.items e = s.items e) ∧ s'.cells = s.cells ∧
      s'.attached = s.attached) ∧
    (∀ a b b' : Int, a ≤ b + 1 → b + 1 ≤ b' + 1 → ∃ d₁ d₂ d s',
      (do
        let d₁ ← segment c (.int a) (.int b)
        let d₂ ← segment c (.int (b + 1)) (.int b')
        let d ← segment c (.int a) (.int b')
        pure (d₁, d₂, d)) s = (.ok (d₁, d₂, d), s') ∧
      s'.items d₁ ++ s'.items d₂ = s'.items d) ∧
    ∀ a b x y : Int, ∃ inner d s',
      (do
        let outer ← segment c (.int a) (.int b)
        let inner ← segment outer (.int x) (.int y)
        let d ← segment c (.int (max 0 a + max 0 x))
          (.int (min (max 0 (b + 1)) (max 0 a + max 0 (y + 1)) - 1))
        pure (inner, d)) s = (.ok (inner, d), s') ∧
      s'.items inner = s'.items d := by
  refine ⟨fun a b => ?_, fun a b b' hab hbb' => ?_, fun a b x y => ?_⟩
  · exact ⟨_, _, segment_apply_of_settled hs c a b, s.items_newPlace _, Nat.le_refl _,
      (s.extends_withCollections _).items, rfl, rfl⟩
  · obtain ⟨d₁, s₁, hcut₁, hs₁, hext₁, hd₁, hitems₁⟩ := exists_between hs c a b
    obtain ⟨d₂, s₂, hcut₂, hs₂, hext₂, hd₂, hitems₂⟩ := exists_between hs₁ c (b + 1) b'
    obtain ⟨d, s₃, hcut, -, hext, -, hitems⟩ := exists_between hs₂ c a b'
    refine ⟨d₁, d₂, d, s₃, ?_, ?_⟩
    · rw [Effect.bind_apply_of_ok s hcut₁, Effect.bind_apply_of_ok s₁ hcut₂,
        Effect.bind_apply_of_ok s₂ hcut]
      rfl
    · -- The collection and the first two cuts are as they were when the last one is made.
      rw [hext.items d₂ hd₂, (hext₂.trans hext).items d₁ hd₁, hitems₁, hitems₂, hitems,
        (hext₁.trans hext₂).items c hc, hext₁.items c hc]
      exact Sequence.between_append_between _ hab (Int.le_of_add_le_add_right hbb')
  · obtain ⟨outer, s₁, hcut₁, hs₁, hext₁, -, hitems₁⟩ := exists_between hs c a b
    obtain ⟨inner, s₂, hcut₂, hs₂, hext₂, hd₂, hitems₂⟩ := exists_between hs₁ outer x y
    obtain ⟨d, s₃, hcut, -, hext, -, hitems⟩ := exists_between hs₂ c (max 0 a + max 0 x)
      (min (max 0 (b + 1)) (max 0 a + max 0 (y + 1)) - 1)
    refine ⟨inner, d, s₃, ?_, ?_⟩
    · rw [Effect.bind_apply_of_ok s hcut₁, Effect.bind_apply_of_ok s₁ hcut₂,
        Effect.bind_apply_of_ok s₂ hcut]
      rfl
    · rw [hext.items inner hd₂, hitems₂, hitems₁, hitems, (hext₁.trans hext₂).items c hc]
      exact Sequence.between_between _ a b x y

/-- A store with one collection: three tokens, and a number before the last of them. -/
def numberedStore : TokenStore :=
  (Operation.new [.token (.int 1) (.str "a"), .token (.int 2) (.str "b"), .int 5,
    .token (.int 1) (.str "c")]).apply .empty

theorem numberedStore_reached : numberedStore.Reached := by
  refine .step _ .empty fun v hv => ?_
  simp only [Operation.values, List.mem_cons, List.not_mem_nil, or_false] at hv
  rcases hv with rfl | rfl | rfl | rfl <;> exact nofun

/-- A bound below zero is before the start, and one above the length is behind the end. -/
theorem numberedStore_segments :
    (∃ d s', segment 0 (.int (-3)) (.int 1) numberedStore = (.ok d, s') ∧
      s'.items d = [.shared (.token 0), .shared (.token 1)] ∧
      s'.items 0 = numberedStore.items 0) ∧
    (∃ d₁ d₂ d s',
      (do
        let d₁ ← segment 0 (.int (-3)) (.int (-1))
        let d₂ ← segment 0 (.int (-1 + 1)) (.int 99)
        let d ← segment 0 (.int (-3)) (.int 99)
        pure (d₁, d₂, d)) numberedStore = (.ok (d₁, d₂, d), s') ∧
      s'.items d₁ ++ s'.items d₂ = s'.items d) ∧
    ∃ inner d s',
      (do
        let outer ← segment 0 (.int 1) (.int 99)
        let inner ← segment outer (.int (-2)) (.int 1)
        let d ← segment 0 (.int (max 0 1 + max 0 (-2)))
          (.int (min (max 0 (99 + 1)) (max 0 1 + max 0 (1 + 1)) - 1))
        pure (inner, d)) numberedStore = (.ok (inner, d), s') ∧
      s'.items inner = s'.items d := by
  obtain ⟨hcut, hside, hinside⟩ :=
    segment_by_place numberedStore_reached.settled (c := 0) Nat.one_pos
  obtain ⟨d, s', hd, hitems, -, hold, -⟩ := hcut (-3) 1
  exact ⟨⟨d, s', hd, hitems, hold 0 Nat.one_pos⟩, hside (-3) (-1) 99 (by decide) (by decide),
    hinside 1 99 (-2) 1⟩

end Collection

end SymbolMachine
