/-
Searching a window, and searching what is cut out of it.

The window of a search has a start and a count, and that of a cut has a first and a last place. A
count may be negative or lead far behind the end; both windows are then clamped, but not at the same
numbers. What they let through is the same (`cut_ofCount`).

The cut makes a new collection. A token that was nobody's is shared from then on, so the items may
be others than before, in a store that has grown. But each of them says of its kind what the item in
its place said, also where that is a fault (`enteringAll_map_isOfKind`), and that is all that a
search sees of the items.
-/
import SymbolMachine.Proofs.Tokens.Scanning
import SymbolMachine.Proofs.Tokens.Soundness
import Mathlib.Order.Bounds.Basic

set_option autoImplicit false

namespace SymbolMachine

/-! ## Windows -/

namespace Window

variable {ι : Type}

/-- Where the window of a search ends. -/
def stopOf (length start : Nat) (count : Option Int) : Int :=
  count.elim length fun n => min length (start + max 0 n)

/-- The last place of the cut that goes with a search. -/
def lastOf (length start : Nat) (count : Option Int) : Int :=
  count.elim (length - 1) fun n => start + n - 1

theorem atMost_whole (length : Nat) (n : Int) :
    atMost length (.whole n) = .whole (min length n) := by
  rw [atMost, Number.quantity, Quantity.lt_ofInt]
  by_cases hn : n < length
  · rw [if_pos (decide_eq_true hn), Int.min_eq_right (Int.le_of_lt hn)]
  · rw [if_neg (by simpa using hn), Int.min_eq_left (Int.not_lt.mp hn)]

theorem ofCount_int (length start : Nat) (count : Option Int) :
    ofCount length (.int start) (count.map .int) =
      .ok ⟨start, (stopOf length start count).toNat⟩ := by
  cases count with
  | none => exact ofCount_of_nat length start
  | some n =>
      have hstart : comparable "<" (.int start) = .ok (.whole start) := rfl
      have hcount : comparable ">" (.int n) = .ok (.whole n) := rfl
      have hstop : atMost length <$> sum (.whole start) (atLeastZero (.whole n)) =
          .ok (.whole (stopOf length start (some n))) := by
        rw [atLeastZero_whole]
        exact congrArg Except.ok (atMost_whole length _)
      rw [Option.map_some, ofCount, hstart]
      change (if (Number.whole start).quantity.lt (.ofInt 0) = true then _ else _) = _
      rw [natCast_lt_zero, if_neg Bool.false_ne_true, hcount]
      change (atMost length <$> sum (.whole start) (atLeastZero (.whole n)) >>= fun _ => _) = _
      rw [hstop]
      rfl

/-- Two windows with the same start let through the same if they end at the same places of the
sequence. -/
theorem Range.cut_congr {first stop stop' : Nat} {xs : List ι}
    (h : ∀ i, first ≤ i → i < xs.length → (i < stop ↔ i < stop')) :
    (Range.mk first stop).cut xs = (Range.mk first stop').cut xs := by
  refine List.ext_getElem? fun i => ?_
  rw [getElem?_cut, getElem?_cut]
  dsimp only
  by_cases hi : first + i < xs.length
  · rw [if_congr (h _ (Nat.le_add_right _ _) hi) rfl rfl]
  · rw [List.getElem?_eq_none (Nat.not_lt.mp hi), ite_self, ite_self]

/-- **What a search looks at is what the cut with its bounds lets through.** -/
theorem cut_ofCount (start : Nat) (count : Option Int) (xs : List ι) :
    (Range.mk start (stopOf xs.length start count).toNat).cut xs =
      (Range.mk start (lastOf xs.length start count + 1).toNat).cut xs := by
  refine Range.cut_congr fun i hstart hi => ?_
  cases count with
  | none => simp [stopOf, lastOf]
  | some n =>
      simp only [stopOf, lastOf, Option.elim_some]
      omega

end Window

/-! ## Sequences -/

namespace Sequence

variable {ι : Type} {p : ι → Bool}

/-- A search sees of the items what the test says of them. -/
theorem findFrom_map (is : Test ι) (i : Nat) (xs : List ι) :
    findFrom is i xs = findFrom id i (xs.map is) := by
  induction xs generalizing i with
  | nil => rfl
  | cons x xs ih => rw [List.map_cons, findFrom, findFrom, ih, id]

/-- The places are counted from where the search starts. -/
theorem findFrom_add (is : Test ι) (k i : Nat) (xs : List ι) :
    findFrom is (k + i) xs = Option.map (k + ·) <$> findFrom is i xs := by
  induction xs generalizing i with
  | nil => rfl
  | cons x xs ih =>
      rw [findFrom, findFrom, Nat.add_assoc, ih]
      rcases is x with f | _ | _ <;> rfl

/-- What is found in a window is the first place in it of an item that passes. -/
theorem findIdx?_cut {first stop : Nat} {xs : List ι} :
    let places := {i | first ≤ i ∧ i < stop ∧ ∃ x ∈ xs[i]?, p x = true}
    let found := (((Window.Range.mk first stop).cut xs).findIdx? p).map (first + ·)
    (found = none ∧ places = ∅) ∨ ∃ i, found = some i ∧ IsLeast places i := by
  intro places found
  have hplaces : ∀ k, (first + k ∈ places ↔
      ∃ x ∈ ((Window.Range.mk first stop).cut xs)[k]?, p x = true) := by
    intro k
    rw [Window.Range.getElem?_cut]
    dsimp only
    by_cases hk : first + k < stop
    · rw [if_pos hk]
      exact ⟨fun h => h.2.2, fun h => ⟨Nat.le_add_right _ _, hk, h⟩⟩
    · rw [if_neg hk]
      exact ⟨fun h => absurd h.2.1 hk, nofun⟩
  have hshift : ∀ i ∈ places, ∃ k, i = first + k := fun i hi => Nat.exists_eq_add_of_le hi.1
  cases hfound : ((Window.Range.mk first stop).cut xs).findIdx? p with
  | none =>
      refine .inl ⟨by simp [found, hfound], Set.eq_empty_iff_forall_notMem.mpr fun i hi => ?_⟩
      obtain ⟨k, rfl⟩ := hshift i hi
      obtain ⟨x, hx, hpx⟩ := (hplaces k).mp hi
      rw [List.findIdx?_eq_none_iff.mp hfound x (List.mem_of_getElem? hx)] at hpx
      cases hpx
  | some k =>
      obtain ⟨hk, hpass, hbefore⟩ := List.findIdx?_eq_some_iff_getElem.mp hfound
      refine .inr ⟨first + k, by simp [found, hfound], ?_, fun i hi => ?_⟩
      · exact (hplaces k).mpr ⟨_, List.getElem?_eq_getElem hk, hpass⟩
      · obtain ⟨j, rfl⟩ := hshift i hi
        obtain ⟨x, hx, hpx⟩ := (hplaces j).mp hi
        by_contra hlt
        obtain ⟨hj, rfl⟩ := List.getElem?_eq_some_iff.mp hx
        exact hbefore j (by omega) hpx

end Sequence

/-! ## Stores -/

namespace TokenStore

variable {s s' : TokenStore} {kind x : Value}

theorem extends_entering (s : TokenStore) (x : Value) : s.Extends (s.entering x).1 := by
  unfold entering
  split
  · exact s.extends_newCell _
  · exact .refl s

theorem extends_enteringAll (s : TokenStore) (xs : List Value) :
    s.Extends (s.enteringAll xs).1 := by
  induction xs generalizing s with
  | nil => exact .refl s
  | cons x xs ih => exact (s.extends_entering x).trans (ih _)

/-- An item that has entered is of the kinds that it was of before. -/
theorem isOfKind_entering (hs : s.Sound) (hkind : s.Knows kind) (hx : s.Knows x) :
    (s.entering x).1.isOfKind kind (s.entering x).2 = s.isOfKind kind x := by
  unfold entering
  split
  · next k l =>
    exact ((s.extends_newCell ⟨k, l⟩).agreesOn hs).isOfKind_eq hkind (fun _ => hs.knows_kind hx)
      (s.token?_newCell _) rfl
  · rfl

/-- **Items that have entered say of their kind what they said before**, also in a store that has
grown since then. -/
theorem enteringAll_map_isOfKind {xs : List Value} (hs : s.Sound) (hkind : s.Knows kind)
    (hxs : ∀ x ∈ xs, s.Knows x) (h : (s.enteringAll xs).1.Extends s') :
    (s.enteringAll xs).2.map (s'.isOfKind kind) = xs.map (s.isOfKind kind) := by
  induction xs generalizing s with
  | nil => simp only [enteringAll_nil, List.map_nil]
  | cons x xs ih =>
      obtain ⟨hx, hxs⟩ := List.forall_mem_cons.mp hxs
      obtain ⟨hwidens, hentered⟩ := hs.widens_entering hx
      have hextends := s.extends_entering x
      have hrest : ((s.entering x).1.enteringAll xs).2.map (s'.isOfKind kind) =
          xs.map (s.isOfKind kind) := by
        rw [ih hwidens.sound (hwidens.knows hkind) (fun y hy => hwidens.knows (hxs y hy)) h]
        exact List.map_congr_left fun y hy => hextends.isOfKind_eq hs hkind (hxs y hy)
      have hfirst : s'.isOfKind kind (s.entering x).2 = s.isOfKind kind x :=
        (((extends_enteringAll _ xs).trans h).isOfKind_eq hwidens.sound (hwidens.knows hkind)
          hentered).trans (isOfKind_entering hs hkind hx)
      exact congrArg₂ List.cons hfirst hrest

end TokenStore

/-! ## Collections -/

namespace Collection

variable {c : CollectionId} {s : TokenStore} {kind : Value}

/-- A search asks the items in its window. -/
theorem findKind_apply_int (c : CollectionId) (kind : Value) (s : TokenStore) (start : Nat)
    (count : Option Int) :
    findKind c kind (.int start) (count.map .int) s =
      ((Sequence.findFrom (s.isOfKind kind) start
        ((Window.Range.mk start (Window.stopOf (s.items c).length start count).toNat).cut
          (s.items c))).mapError .fault, s) := by
  rw [findKind, Effect.bind_apply_of_ok s (items_apply c s), Window.ofCount_int,
    Effect.ofExcept_ok, pure_bind, Effect.bind_apply_of_ok s (kindTest_apply kind s),
    Effect.ofExcept_apply]

/-- A cut answers a collection of items that say of their kind what the old ones said. -/
theorem exists_segment_int (hs : s.Sound) (c : CollectionId) (first final : Int) :
    ∃ d s', segment c (.int first) (.int final) s = (.ok d, s') ∧
      ∀ kind, s.Knows kind → (s'.items d).map (s'.isOfKind kind) =
        ((Window.Range.mk first.toNat (final + 1).toNat).cut (s.items c)).map (s.isOfKind kind) := by
  let xs := (Window.Range.mk first.toNat (final + 1).toNat).cut (s.items c)
  let grown := (s.enteringAll xs).1
  refine ⟨grown.collections.size, grown.withCollections [(s.enteringAll xs).2], ?_,
    fun kind hkind => ?_⟩
  · rw [segment, Window.ofBounds_int, Effect.ofExcept_ok, pure_bind,
      Effect.bind_apply_of_ok s (items_apply c s)]
    rfl
  · rw [TokenStore.items_newPlace]
    refine TokenStore.enteringAll_map_isOfKind hs hkind (fun x hx => ?_)
      (grown.extends_withCollections _)
    exact hs.items c x (List.mem_of_mem_take (List.mem_of_mem_drop hx))

/-- A search of the cut answers for the search of the window, or fails for it. -/
theorem exists_findKind_segment (hs : s.Sound) (hkind : s.Knows kind) (c : CollectionId)
    (start : Nat) (count : Option Int) :
    ∃ (d : CollectionId) (s' : TokenStore) (answer : Except Fault (Option Nat)),
      segment c (.int start) (.int (Window.lastOf (s.items c).length start count)) s =
        (.ok d, s') ∧
      findKind d kind (.int 0) none s' = (answer.mapError .fault, s') ∧
      findKind c kind (.int start) (count.map .int) s =
        ((Option.map (start + ·) <$> answer).mapError .fault, s) := by
  let length := (s.items c).length
  obtain ⟨d, s', hsegment, hsame⟩ :=
    exists_segment_int hs c start (Window.lastOf length start count)
  have hwindow := findKind_apply_int c kind s start count
  have hwhole := findKind_apply_int d kind s' 0 none
  have hall : (Window.Range.mk 0 (Window.stopOf (s'.items d).length 0 none).toNat).cut
      (s'.items d) = s'.items d := List.take_length
  rw [hall] at hwhole
  have hanswer : Sequence.findFrom (s.isOfKind kind) start
      ((Window.Range.mk start (Window.stopOf length start count).toNat).cut (s.items c)) =
      Option.map (start + ·) <$> Sequence.findFrom (s'.isOfKind kind) 0 (s'.items d) := by
    rw [Sequence.findFrom_map (s'.isOfKind kind), hsame kind hkind, ← Sequence.findFrom_map,
      ← Sequence.findFrom_add, Window.cut_ofCount, Int.toNat_natCast]
    rfl
  rw [hanswer] at hwindow
  exact ⟨d, s', _, hsegment, hwhole, hwindow⟩

/-- Among tokens a search answers the first place of the kind in its window. -/
theorem exists_isLeast_findKind (htokens : ∀ x ∈ s.items c, s.IsToken x) (kind : Value)
    (start : Nat) (count : Option Int) :
    let places := {i : Nat | start ≤ i ∧ (i : Int) < Window.stopOf (s.items c).length start count ∧
      ∃ x ∈ (s.items c)[i]?, s.isOfKind kind x = .ok true}
    ∃ found, findKind c kind (.int start) (count.map .int) s = (.ok found, s) ∧
      ((found = none ∧ places = ∅) ∨ ∃ i, found = some i ∧ IsLeast places i) := by
  intro places
  let stop := Window.stopOf (s.items c).length start count
  have hwindow := findKind_apply_int c kind s start count
  have hdecides : Sequence.Decides (s.isOfKind kind) (s.hasKind kind)
      ((Window.Range.mk start stop.toNat).cut (s.items c)) := fun x hx =>
    (htokens x (List.mem_of_mem_take (List.mem_of_mem_drop hx))).isOfKind_eq kind
  have hplaces : places = {i | start ≤ i ∧ i < stop.toNat ∧
      ∃ x ∈ (s.items c)[i]?, s.hasKind kind x = true} := by
    refine Set.ext fun i => and_congr_right fun _ => and_congr Int.lt_toNat.symm ?_
    exact exists_congr fun x => and_congr_right fun hx =>
      (htokens x (List.mem_of_getElem? hx)).isOfKind_eq_ok_iff
  rw [hdecides.findFrom_eq] at hwindow
  exact ⟨_, hwindow, hplaces ▸ Sequence.findIdx?_cut⟩

/-- **Searching a window is searching what is cut out of it.** A search that starts at a place of
the collection and is given any number of items to look at answers what a search of the cut with
these bounds answers, counted from its start, or fails with the same fault. If all items are tokens,
it finds the first one of the kind in the window, if there is one. -/
theorem findKind_eq_findKind_segment (hs : s.Sound) (hkind : s.Knows kind) (c : CollectionId)
    (start : Nat) (count : Option Int) :
    let length := (s.items c).length
    (∃ (d : CollectionId) (s' : TokenStore) (answer : Except Fault (Option Nat)),
      segment c (.int start) (.int (Window.lastOf length start count)) s = (.ok d, s') ∧
      findKind d kind (.int 0) none s' = (answer.mapError .fault, s') ∧
      findKind c kind (.int start) (count.map .int) s =
        ((Option.map (start + ·) <$> answer).mapError .fault, s)) ∧
    ((∀ x ∈ s.items c, s.IsToken x) →
      let places := {i : Nat | start ≤ i ∧ (i : Int) < Window.stopOf length start count ∧
        ∃ x ∈ (s.items c)[i]?, s.isOfKind kind x = .ok true}
      ∃ found, findKind c kind (.int start) (count.map .int) s = (.ok found, s) ∧
        ((found = none ∧ places = ∅) ∨ ∃ i, found = some i ∧ IsLeast places i)) :=
  ⟨exists_findKind_segment hs hkind c start count,
    fun htokens => exists_isLeast_findKind htokens kind start count⟩

/-- Behind the first comma the next one is two places on, which is the second place of the cut. -/
theorem commaStore_findKind :
    findKind 0 (.int 1) (.int 1) (some (.int 5)) commaStore = (.ok (some 2), commaStore) ∧
      ∃ d s', segment 0 (.int 1) (.int 5) commaStore = (.ok d, s') ∧
        findKind d (.int 1) (.int 0) none s' = (.ok (some 1), s') := by
  have hcomma : commaStore.isOfKind (.int 1) (.shared (.token 0)) = .ok true := rfl
  have hword : commaStore.isOfKind (.int 1) (.shared (.token 1)) = .ok false := rfl
  have hkind : commaStore.Knows (.int 1) := nofun
  obtain ⟨⟨d, s', answer, hsegment, hcut, hsearch⟩, htokens⟩ :=
    findKind_eq_findKind_segment commaStore_sound hkind 0 1 (some 5)
  obtain ⟨found, hfound, hplace⟩ := htokens commaStore_hasTokens.tokens
  have htwo : 2 ∈ {i : Nat | 1 ≤ i ∧ (i : Int) < Window.stopOf (commaStore.items 0).length 1 (some 5) ∧
      ∃ x ∈ (commaStore.items 0)[i]?, commaStore.isOfKind (.int 1) x = .ok true} :=
    ⟨Nat.le_succ 1, by decide, _, rfl, hcomma⟩
  obtain ⟨-, hnone⟩ | ⟨i, rfl, hi⟩ := hplace
  · exact absurd htwo (Set.eq_empty_iff_forall_notMem.mp hnone 2)
  obtain rfl : i = 2 := by
    refine Nat.le_antisymm (hi.2 htwo) (Nat.lt_of_le_of_ne hi.1.1 ?_)
    rintro rfl
    obtain ⟨x, hx, hpass⟩ := hi.1.2.2
    cases hx
    exact nomatch hword.symm.trans hpass
  have hanswer : answer = .ok (some 1) := by
    have hshift : (Option.map (1 + ·) <$> answer).mapError Stop.fault = .ok (some 2) :=
      congrArg Prod.fst (hsearch.symm.trans hfound)
    rcases answer with f | _ | k
    · cases hshift
    · cases hshift
    · have hk : 1 + k = 1 + 1 := Option.some.inj (Except.ok.inj hshift)
      rw [Nat.add_left_cancel hk]
  rw [hanswer] at hcut
  exact ⟨hfound, d, s', hsegment, hcut⟩

end Collection

end SymbolMachine
