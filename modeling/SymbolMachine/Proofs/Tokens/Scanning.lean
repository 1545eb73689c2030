/-
Splitting a collection by hand.

Instead of asking for all groups at once, a program can look for the next delimiter, cut out what
stands before it, and go on behind it (`Collection.scan`). The bounds are ordinary numbers, and
they get as low as minus one: in front of a delimiter at the very start there is nothing to cut
out. The scan comes to its end, and what it makes is what splitting makes (`scan_eq_split`).

The induction is on the arrangement of groups and delimiters that is still ahead
(`Sequence.Separates`). Cutting makes new collections on the way, so each step is taken in a store
that has grown, and finds there what it would have found at the start.
-/
import SymbolMachine.Proofs.Tokens.References
import Mathlib.Data.List.Nodup

set_option autoImplicit false

namespace SymbolMachine

/-! ## Windows between whole numbers -/

/-- Whole numbers are ordered as quantities as they are as numbers. -/
theorem Quantity.lt_ofInt (m n : Int) : (ofInt m).lt (ofInt n) = decide (m < n) := by
  have hrat : ∀ k : Int, (Dyadic.ofInt k).toRat = k := Dyadic.toRat_intCast
  rw [ofInt, ofInt, lt]
  refine decide_eq_decide.mpr ?_
  rw [← Dyadic.toRat_lt_toRat_iff, hrat, hrat, Rat.intCast_lt_intCast]

namespace Window

theorem atLeastZero_whole (n : Int) : atLeastZero (.whole n) = .whole (max 0 n) := by
  rw [atLeastZero, Number.quantity, Quantity.lt_ofInt]
  by_cases hn : 0 < n
  · rw [if_pos (decide_eq_true hn), Int.max_eq_right (Int.le_of_lt hn)]
  · rw [if_neg (by simpa using hn), Int.max_eq_left (Int.not_lt.mp hn)]

/-- A place is not below zero. -/
theorem natCast_lt_zero (n : Nat) : (Number.whole n).quantity.lt (.ofInt 0) = false := by
  rw [Number.quantity, Quantity.lt_ofInt, decide_eq_false_iff_not]
  exact Int.not_lt.mpr (Int.natCast_nonneg n)

/-- A search without a count goes to the end. -/
theorem ofCount_of_nat (length start : Nat) :
    ofCount length (.int start) none = .ok ⟨start, length⟩ := by
  have hcomparable : comparable "<" (.int start) = .ok (.whole start) := rfl
  rw [ofCount, hcomparable]
  change (if (Number.whole start).quantity.lt (.ofInt 0) = true then _ else _) = _
  rw [natCast_lt_zero]
  rfl

/-- What is before the start of a sequence is cut off a window. -/
theorem ofBounds_int (first final : Int) :
    ofBounds (.int first) (.int final) = .ok ⟨first.toNat, (final + 1).toNat⟩ := by
  have hcomparable : comparable ">" (.int first) = .ok (.whole first) := rfl
  have hsuccessor : successor (.int final) = .ok (.whole (final + 1)) := rfl
  rw [ofBounds, hcomparable, hsuccessor]
  change (do
    let a := atLeastZero (.whole first)
    let b := atLeastZero (.whole (final + 1))
    pure (⟨← place .fractionalBound a, ← place .fractionalBound b⟩ : Range) : Except Fault Range) = _
  rw [atLeastZero_whole, atLeastZero_whole]
  have htoNat : ∀ n : Int, (max 0 n).toNat = n.toNat := by
    intro n
    omega
  simp only [place, htoNat]
  rfl

end Window

/-! ## Looking for the next delimiter -/

namespace Sequence

variable {ι : Type} {is : Test ι} {p : ι → Bool}

/-- A search finds the first item that passes, and counts from where it starts. -/
theorem Decides.findFrom_eq {xs : List ι} (h : Decides is p xs) (i : Nat) :
    findFrom is i xs = .ok ((xs.findIdx? p).map (i + ·)) := by
  induction xs generalizing i with
  | nil => rfl
  | cons x xs ih =>
      obtain ⟨hx, hxs⟩ := decides_cons.mp h
      rw [findFrom, hx, List.findIdx?_cons]
      cases p x with
      | true => rfl
      | false =>
          have hcount : (i + 1 + ·) = (i + ·) ∘ (· + 1) := by
            funext k
            exact (Nat.add_assoc i 1 k).trans (congrArg (i + ·) (Nat.add_comm 1 k))
          refine (ih hxs (i + 1)).trans ?_
          rw [hcount, ← Option.map_map]
          rfl

theorem findIdx?_append_cons {g : List ι} (hg : ∀ x ∈ g, p x = false) {d : ι} (hd : p d = true)
    (xs : List ι) : (g ++ d :: xs).findIdx? p = some g.length := by
  rw [List.findIdx?_append, List.findIdx?_eq_none_iff.mpr hg, List.findIdx?_cons, if_pos hd]
  simp

end Sequence

/-! ## The scan -/

namespace Collection

/-- Looks for one token of a kind after another behind a place, and cuts out what is between them
and what is behind the last. -/
def scan (c : CollectionId) (kind : Value) :
    Nat → Int → Effect TokenStore (List Nat × List CollectionId)
  | 0, _ => Effect.stall
  | fuel + 1, p => do
    match ← findKind c kind (.int (p + 1)) none with
    | some q =>
      let g ← segment c (.int (p + 1)) (.int (q - 1))
      let (qs, gs) ← scan c kind fuel q
      pure (q :: qs, g :: gs)
    | none =>
      let length := (← items c).length
      let g ← segment c (.int (p + 1)) (.int (length - 1))
      pure ([], [g])

variable {c : CollectionId} {s : TokenStore} {kind : Value}

/-- A search from a place on asks the items that are still ahead. -/
theorem findKind_apply {start : Nat} {found : Option Nat}
    (h : Sequence.findFrom (s.isOfKind kind) start ((s.items c).drop start) = .ok found) :
    findKind c kind (.int start) none s = (.ok found, s) := by
  have hcut : (Window.Range.mk start (s.items c).length).cut (s.items c) =
      (s.items c).drop start := by
    rw [Window.Range.cut, List.take_length]
  rw [findKind, Effect.bind_apply_of_ok s (items_apply c s), Window.ofCount_of_nat,
    Effect.ofExcept_ok, pure_bind, Effect.bind_apply_of_ok s (kindTest_apply kind s), hcut, h]
  rfl

/-- A cut makes one new collection. -/
theorem segment_apply (h : s.HasTokens c) (first final : Int) :
    segment c (.int first) (.int final) s =
      (.ok s.collections.size,
        s.withCollections [((s.items c).take (final + 1).toNat).drop first.toNat]) := by
  have htokens : ∀ x ∈ ((s.items c).take (final + 1).toNat).drop first.toNat, s.IsToken x :=
    fun x hx => h.tokens x (List.mem_of_mem_take (List.mem_of_mem_drop hx))
  rw [segment, Window.ofBounds_int, Effect.ofExcept_ok, pure_bind,
    Effect.bind_apply_of_ok s (items_apply c s)]
  exact new_apply fun x hx => (htokens x hx).settled

/-! ### One step -/

section Step

variable {fuel : Nat} {p : Int} {g : CollectionId} {s₁ s₂ : TokenStore}

theorem scan_of_none (hfind : findKind c kind (.int (p + 1)) none s = (.ok none, s))
    (hcut : segment c (.int (p + 1)) (.int ((s.items c).length - 1)) s = (.ok g, s₁)) :
    scan c kind (fuel + 1) p s = (.ok ([], [g]), s₁) := by
  rw [scan, Effect.bind_apply_of_ok s hfind]
  change (items c >>= _) s = _
  rw [Effect.bind_apply_of_ok s (items_apply c s), Effect.bind_apply_of_ok s hcut]
  rfl

theorem scan_of_some {q : Nat} {qs : List Nat} {gs : List CollectionId}
    (hfind : findKind c kind (.int (p + 1)) none s = (.ok (some q), s))
    (hcut : segment c (.int (p + 1)) (.int (q - 1)) s = (.ok g, s₁))
    (hrest : scan c kind fuel q s₁ = (.ok (qs, gs), s₂)) :
    scan c kind (fuel + 1) p s = (.ok (q :: qs, g :: gs), s₂) := by
  rw [scan, Effect.bind_apply_of_ok s hfind]
  change (segment c _ _ >>= _) s = _
  rw [Effect.bind_apply_of_ok s hcut, Effect.bind_apply_of_ok s₁ hrest]
  rfl

end Step

/-! ### All steps -/

section Tokens

variable (hs : s.Sound) (h : s.HasTokens c) (hkind : s.Knows kind)
include h

/-- What is cut out of a store that has grown. -/
theorem segment_ahead {before g rest : List Value} (hitems : s.items c = before ++ (g ++ rest))
    (done : List (List Value)) :
    segment c (.int before.length) (.int ((before ++ g).length - 1)) (s.withCollections done) =
      (.ok (s.withCollections done).collections.size,
        (s.withCollections done).withCollections [g]) := by
  have hcut := segment_apply (h.withCollections done) before.length ((before ++ g).length - 1)
  rw [Int.sub_add_cancel, Int.toNat_natCast, Int.toNat_natCast,
    TokenStore.items_withCollections done h.known, hitems, ← List.append_assoc, List.take_left,
    List.drop_left] at hcut
  exact hcut

include hs hkind

/-- What is found in a store that has grown. -/
theorem findKind_ahead {before ahead : List Value} (hitems : s.items c = before ++ ahead)
    (done : List (List Value)) :
    findKind c kind (.int before.length) none (s.withCollections done) =
      (.ok ((ahead.findIdx? (s.hasKind kind)).map (before.length + ·)),
        s.withCollections done) := by
  have hdecides := h.decides_withCollections hs done hkind
  rw [hitems] at hdecides
  refine findKind_apply ?_
  rw [TokenStore.items_withCollections done h.known, hitems, List.drop_left]
  exact Sequence.Decides.findFrom_eq (fun x hx => hdecides x (List.mem_append_right _ hx)) _

/-- **What a scan does from some place on**, in a store that has grown by the collections made so
far, tells from the groups and delimiters that are ahead. -/
theorem scan_ahead {gs : List (List Value)} {ds : List Value}
    (ahead : Sequence.Separates (s.hasKind kind) gs ds) {before : List Value}
    (hitems : s.items c = before ++ Sequence.joined gs ds) (done : List (List Value)) {fuel : Nat}
    (hfuel : ds.length < fuel) :
    let grown := s.withCollections done
    scan c kind fuel (before.length - 1) grown =
      (.ok ((Sequence.joined gs ds).findIdxs (s.hasKind kind) before.length, grown.newPlaces gs),
        grown.withCollections gs) := by
  induction ahead generalizing before done fuel with
  | @single g hg =>
      intro grown
      obtain ⟨fuel, rfl⟩ := Nat.exists_eq_add_one.mpr hfuel
      rw [Sequence.joined] at hitems ⊢
      -- Nothing is found, and the last cut goes to the end.
      have hfind := findKind_ahead hs h hkind hitems done
      rw [List.findIdx?_eq_none_iff.mpr hg] at hfind
      have hall : s.items c = before ++ (g ++ []) := by rw [hitems, List.append_nil]
      have hcut := segment_ahead h hall done
      rw [← hitems, ← TokenStore.items_withCollections done h.known] at hcut
      rw [← Int.sub_add_cancel before.length 1] at hfind hcut
      rw [List.findIdxs_eq_nil_iff.mpr hg]
      exact scan_of_none hfind hcut
  | @cons g d gs ds hg hd ahead ih =>
      intro grown
      obtain ⟨fuel, rfl⟩ := Nat.exists_eq_add_one.mpr (Nat.zero_lt_of_lt hfuel)
      rw [Sequence.joined] at hitems ⊢
      -- The delimiter is found, and the cut goes up to it.
      have hfind := findKind_ahead hs h hkind hitems done
      rw [Sequence.findIdx?_append_cons hg hd, Option.map_some, ← List.length_append] at hfind
      have hcut := segment_ahead h hitems done
      -- Behind the delimiter it goes on.
      have hsplit : s.items c = (before ++ g ++ [d]) ++ Sequence.joined gs ds := by simp [hitems]
      have hrest := ih hsplit (done ++ [g]) (Nat.lt_of_succ_lt_succ hfuel)
      have hlength : (before ++ g ++ [d]).length = (before ++ g).length + 1 := List.length_append
      have hplace : ((before ++ g ++ [d]).length : Int) - 1 = (before ++ g).length := by
        rw [hlength]
        omega
      rw [hplace, TokenStore.withCollections_append] at hrest
      rw [← Int.sub_add_cancel before.length 1] at hfind hcut
      have hindices : (g ++ d :: Sequence.joined gs ds).findIdxs (s.hasKind kind) before.length =
          (before ++ g).length ::
            (Sequence.joined gs ds).findIdxs (s.hasKind kind) (before ++ g ++ [d]).length := by
        rw [List.findIdxs_append, List.findIdxs_eq_nil_iff.mpr hg, List.nil_append,
          List.findIdxs_cons, if_pos hd, ← List.length_append, hlength]
      rw [hindices, grown.newPlaces_cons g gs, grown.withCollections_cons g gs]
      exact scan_of_some hfind hcut hrest

end Tokens

/-- **Scanning is splitting.** With more fuel than there are tokens of the kind the scan comes to
an end. It has visited the places of these tokens, in increasing order, and has made the very
collections that splitting makes. -/
theorem scan_eq_split (hs : s.Sound) (h : s.HasTokens c) (hkind : s.Knows kind) :
    ∃ (places : List Nat) (made : List CollectionId) (s' : TokenStore),
      (∀ fuel > places.length, scan c kind fuel (-1) s = (.ok (places, made), s')) ∧
      split c kind true s = (.ok made, s') ∧ places.Pairwise (· < ·) ∧
      ∀ i, i ∈ places ↔ ∃ x, (s.items c)[i]? = some x ∧ s.isOfKind kind x = .ok true := by
  obtain ⟨hseparates, hjoined⟩ := Sequence.separates_splitOnP (s.hasKind kind) (s.items c)
  refine ⟨(s.items c).findIdxs (s.hasKind kind), _, _, fun fuel hfuel => ?_,
    split_apply h kind true, List.pairwise_findIdxs, fun i => ?_⟩
  · rw [List.length_findIdxs, List.countP_eq_length_filter] at hfuel
    have hsplit : s.items c = [] ++ Sequence.joined _ _ := hjoined.symm
    have hscan := scan_ahead hs h hkind hseparates hsplit [] hfuel
    rw [hjoined, TokenStore.withCollections_nil] at hscan
    exact hscan
  · rw [List.mem_findIdxs_iff_exists_getElem_pos]
    constructor
    · rintro ⟨hi, hpass⟩
      refine ⟨_, List.getElem?_eq_getElem hi, ?_⟩
      rw [h.decides kind _ (List.getElem_mem hi), hpass]
    · rintro ⟨x, hx, hpass⟩
      obtain ⟨hi, rfl⟩ := List.getElem?_eq_some_iff.mp hx
      exact ⟨hi, TokenStore.hasKind_of_isOfKind hpass⟩

/-- The store is made of two tokens and a collection of them. -/
theorem commaStore_sound : commaStore.Sound := by
  let cell : TokenStore := (TokenStore.empty.newCell ⟨.int 1, .str ","⟩).1
  let cells : TokenStore := (cell.newCell ⟨.int 2, .str "word"⟩).1
  have hcell : TokenStore.empty.Widens cell := TokenStore.sound_empty.widens_newCell nofun nofun
  have hcells : cell.Widens cells := hcell.sound.widens_newCell nofun nofun
  have hknown : ∀ g ∈ [commaStore.items 0], ∀ x ∈ g, cells.Knows x := by
    intro g hg x hx
    obtain rfl := List.mem_singleton.mp hg
    obtain ⟨i, hi, rfl⟩ := commaStore_hasTokens.tokens x hx
    intro r hr
    obtain rfl := List.mem_singleton.mp hr
    exact hi
  exact (hcells.sound.widens_withCollections hknown).sound

/-- Both commas are found, and the word is not. -/
theorem commaStore_scan :
    ∃ (places : List Nat) (made : List CollectionId) (s' : TokenStore),
      scan 0 (.int 1) (places.length + 1) (-1) commaStore = (.ok (places, made), s') ∧
      split 0 (.int 1) true commaStore = (.ok made, s') ∧ 0 ∈ places ∧ 1 ∉ places ∧ 2 ∈ places := by
  have hkind : commaStore.Knows (.int 1) := nofun
  obtain ⟨places, made, s', hscan, hsplit, -, hplaces⟩ :=
    scan_eq_split commaStore_sound commaStore_hasTokens hkind
  have hcomma : commaStore.isOfKind (.int 1) (.shared (.token 0)) = .ok true := rfl
  have hword : commaStore.isOfKind (.int 1) (.shared (.token 1)) = .ok false := rfl
  refine ⟨places, made, s', hscan _ (Nat.lt_succ_self _), hsplit, (hplaces 0).mpr ⟨_, rfl, hcomma⟩,
    fun hmem => ?_, (hplaces 2).mpr ⟨_, rfl, hcomma⟩⟩
  obtain ⟨x, hx, hpass⟩ := (hplaces 1).mp hmem
  cases hx
  rw [hword] at hpass
  cases hpass

end Collection

end SymbolMachine
