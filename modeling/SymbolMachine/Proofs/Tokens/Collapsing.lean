/-
Runs of tokens cut down to their first.

Collapsing goes through a collection once and compares each token with the last one that it has
kept. What this says of the collection as it was is simpler: a token goes if it is of the kind and
the token right before it is too (`Sequence.heads`). The two agree since a token that goes is of the
kind as well as the kept one that it was compared with; this is the invariant behind
`Decides.collapseAfter_eq`. The rest is about `heads`, as a list without two neighbours of the kind
(`heads_eq_destutter`) and as the items at certain places (`heads_eq_filterMap`).
-/
import SymbolMachine.Proofs.Tokens.Shortening
import Mathlib.Data.List.Destutter

set_option autoImplicit false

namespace SymbolMachine

/-! ## Heads of runs -/

namespace Sequence

variable {ι : Type} {is : Test ι} {p q : ι → Bool} {xs : List ι}

/-- The items but those that pass right behind one that passes. Whether the item in front of them
all passes is given. -/
def headsAfter (p : ι → Bool) : Bool → List ι → List ι
  | _, [] => []
  | b, x :: xs => if b && p x then headsAfter p (p x) xs else x :: headsAfter p (p x) xs

/-- The items but those that pass right behind one that passes. -/
def heads (p : ι → Bool) (xs : List ι) : List ι := headsAfter p false xs

@[simp] theorem headsAfter_nil (b : Bool) : headsAfter p b [] = [] := rfl

@[simp] theorem heads_cons (x : ι) : heads p (x :: xs) = x :: headsAfter p (p x) xs := rfl

/-- The last kept item passes if and only if the item before the next one does. -/
theorem Decides.collapseAfter_eq (h : Decides is p xs) {last : ι} (hlast : is last = .ok (p last)) :
    collapseAfter is last xs = .ok (headsAfter p (p last) xs) := by
  induction xs generalizing last with
  | nil => rfl
  | cons x xs ih =>
      obtain ⟨hx, hxs⟩ := decides_cons.mp h
      have hkeep : (x :: ·) <$> collapseAfter is x xs = .ok (x :: headsAfter p (p x) xs) := by
        rw [ih hxs hx]
        rfl
      have hskip := ih hxs hlast
      rw [collapseAfter, hx, headsAfter]
      cases hpx : p x with
      | false =>
          rw [hpx] at hkeep
          rw [Bool.and_false]
          exact hkeep
      | true =>
          change (is last >>= fun b => if b = true then collapseAfter is last xs
            else (x :: ·) <$> collapseAfter is x xs) = _
          rw [hpx] at hkeep
          rw [hlast]
          cases hpl : p last with
          | false => exact hkeep
          | true =>
              rw [hpl] at hskip
              exact hskip

theorem Decides.collapse_eq (h : Decides is p xs) : collapse is xs = .ok (heads p xs) := by
  cases xs with
  | nil => rfl
  | cons x xs =>
      obtain ⟨hx, hxs⟩ := decides_cons.mp h
      rw [collapse, hxs.collapseAfter_eq hx]
      rfl

/-! ### No two neighbours -/

/-- Not both of two items pass. -/
def NotBoth (p : ι → Bool) (x y : ι) : Prop := ¬(p x ∧ p y)

instance (p : ι → Bool) : DecidableRel (NotBoth p) := fun _ _ => inferInstanceAs (Decidable (¬_))

theorem cons_headsAfter_eq_destutter' (x : ι) :
    x :: headsAfter p (p x) xs = xs.destutter' (NotBoth p) x := by
  induction xs generalizing x with
  | nil => rfl
  | cons y xs ih =>
      rw [List.destutter'_cons, headsAfter, ← ih y, ← ih x]
      by_cases hapart : NotBoth p x y
      · rw [if_pos hapart, if_neg (mt Bool.and_eq_true_iff.mp hapart)]
      · obtain ⟨hx, hy⟩ := not_not.mp hapart
        rw [if_neg hapart, hx, hy]
        rfl

/-- The heads are what is left if each item is held against the last one that was kept. -/
theorem heads_eq_destutter : heads p xs = xs.destutter (NotBoth p) := by
  cases xs with
  | nil => rfl
  | cons x xs => exact cons_headsAfter_eq_destutter' x

theorem heads_sublist (xs : List ι) : (heads p xs).Sublist xs :=
  heads_eq_destutter ▸ xs.destutter_sublist (NotBoth p)

theorem isChain_heads (xs : List ι) : (heads p xs).IsChain (NotBoth p) :=
  heads_eq_destutter ▸ xs.isChain_destutter (NotBoth p)

theorem heads_heads (xs : List ι) : heads p (heads p xs) = heads p xs := by
  rw [heads_eq_destutter, heads_eq_destutter, List.destutter_idem]

/-! ### Two kinds of runs -/

/-- What goes would be removed anyway. -/
theorem filter_headsAfter (b : Bool) :
    (headsAfter p b xs).filter (fun x => !p x) = xs.filter fun x => !p x := by
  induction xs generalizing b with
  | nil => rfl
  | cons x xs ih =>
      rw [headsAfter]
      split
      · next hgoes =>
        have hpx : p x = true := (Bool.and_eq_true_iff.mp hgoes).2
        rw [ih, List.filter_cons_of_neg (by simp [hpx])]
      · rw [List.filter_cons, List.filter_cons, ih]

/-- **Runs of two kinds do not come in each other's way**, if nothing is of both. An item that goes
with its run is not of the other kind, and neither is the one before it. -/
theorem headsAfter_comm (h : ∀ x ∈ xs, ¬(p x ∧ q x)) {a b : Bool} (hab : ¬(a ∧ b)) :
    headsAfter q b (headsAfter p a xs) = headsAfter p a (headsAfter q b xs) := by
  induction xs generalizing a b with
  | nil => rfl
  | cons x xs ih =>
      obtain ⟨hx, hxs⟩ := List.forall_mem_cons.mp h
      have hrest := ih hxs hx
      rcases hp : p x <;> rcases hq : q x <;> rw [hp, hq] at hx hrest <;>
        cases a <;> cases b <;> simp_all [headsAfter]

theorem heads_comm (h : ∀ x ∈ xs, ¬(p x ∧ q x)) : heads q (heads p xs) = heads p (heads q xs) :=
  headsAfter_comm h (by simp)

/-! ### Places -/

/-- What becomes of one more item at the end tells from the item that was the last. -/
theorem headsAfter_concat (b : Bool) (xs : List ι) (x : ι) :
    headsAfter p b (xs ++ [x]) =
      headsAfter p b xs ++ if (xs.getLast?.map p).getD b && p x then [] else [x] := by
  induction xs generalizing b with
  | nil => rfl
  | cons y xs ih =>
      have hlast : ((y :: xs).getLast?.map p).getD b = (xs.getLast?.map p).getD (p y) := by
        rw [List.getLast?_cons]
        cases xs.getLast? <;> rfl
      rw [hlast, List.cons_append, headsAfter, headsAfter, ih]
      split <;> rfl

/-- Whether the item at a place stays. -/
def stays (p : ι → Bool) (xs : List ι) : Nat → Bool
  | 0 => true
  | i + 1 => !(xs[i]?.any p && xs[i + 1]?.any p)

theorem stays_append {i : Nat} (hi : i < xs.length) (ys : List ι) :
    stays p (xs ++ ys) i = stays p xs i := by
  cases i with
  | zero => rfl
  | succ i =>
      rw [stays, stays, List.getElem?_append_left hi,
        List.getElem?_append_left (Nat.lt_of_succ_lt hi)]

/-- A place is one where an item stays if there is an item, and not both this one and the one before
it pass. -/
theorem mem_filter_stays {i : Nat} :
    i ∈ (List.range xs.length).filter (stays p xs) ↔
      ∃ x ∈ xs[i]?, ¬(p x ∧ ∃ j, j + 1 = i ∧ ∃ y ∈ xs[j]?, p y) := by
  rw [List.mem_filter, List.mem_range]
  constructor
  · rintro ⟨hi, hstays⟩
    refine ⟨xs[i], List.getElem?_eq_getElem hi, ?_⟩
    rintro ⟨hx, j, rfl, y, hy, hpy⟩
    rw [stays, Option.mem_def.mp hy, List.getElem?_eq_getElem hi] at hstays
    simp [hx, hpy] at hstays
  · rintro ⟨x, hx, hnot⟩
    refine ⟨(List.getElem?_eq_some_iff.mp hx).1, ?_⟩
    cases i with
    | zero => rfl
    | succ j =>
        rw [stays, Option.mem_def.mp hx, Bool.not_eq_true', Bool.and_eq_false_iff]
        by_contra hboth
        obtain ⟨hj, hpx⟩ := not_or.mp hboth
        obtain ⟨y, hy, hpy⟩ := (Option.any_eq_true _ _).mp (eq_true_of_ne_false hj)
        exact hnot ⟨by simpa using hpx, j, rfl, y, hy, hpy⟩

/-- **The heads are the items at the places where an item stays.** -/
theorem heads_eq_filterMap (xs : List ι) :
    heads p xs = ((List.range xs.length).filter (stays p xs)).filterMap (xs[·]?) := by
  induction xs using List.reverseRecOn with
  | nil => rfl
  | append_singleton xs x ih =>
      -- The places before the last one are as if it were not there.
      have hold : ((List.range xs.length).filter (stays p (xs ++ [x]))).filterMap
          ((xs ++ [x])[·]?) = heads p xs := by
        rw [ih, List.filter_congr fun i hi => stays_append (List.mem_range.mp hi) [x]]
        refine List.filterMap_congr fun i hi => List.getElem?_append_left ?_
        exact List.mem_range.mp (List.mem_filter.mp hi).1
      have hstays : stays p (xs ++ [x]) xs.length = !((xs.getLast?.map p).getD false && p x) := by
        rcases List.eq_nil_or_concat' xs with rfl | ⟨ys, y, rfl⟩
        · rfl
        · simp [stays]
      rw [heads, headsAfter_concat, List.length_append, List.length_singleton, List.range_succ,
        List.filter_append, List.filterMap_append, hold, List.filter_singleton, hstays]
      cases ((xs.getLast?.map p).getD false && p x) <;> simp [heads]

end Sequence

/-! ## Collapsing -/

namespace Collection

variable {s : TokenStore} {c : CollectionId} {kind : Value}

theorem collapseKind_apply (h : s.HasTokens c) (kind : Value) :
    collapseKind c kind s = (.ok (), s.setItems c (Sequence.heads (s.hasKind kind) (s.items c))) := by
  rw [collapseKind, Effect.bind_apply_of_ok s (kindTest_apply kind s)]
  exact edit_apply_of_ok (h.decides kind).collapse_eq

theorem shortens_collapseKind (h : s.HasTokens c) (hkind : s.KeepsKind c kind) :
    s.Shortens c (collapseKind c kind) (Sequence.heads (s.hasKind kind)) :=
  .of_edit h hkind Sequence.heads_sublist fun _ _ hdecides => hdecides.collapse_eq

/-- The places that stay, by what is said of the tokens there and before. -/
theorem mem_filter_stays_iff (h : s.HasTokens c) (kind : Value) {i : Nat} :
    i ∈ (List.range (s.items c).length).filter (Sequence.stays (s.hasKind kind) (s.items c)) ↔
      ∃ x ∈ (s.items c)[i]?, ¬(s.isOfKind kind x = .ok true ∧
        ∃ j, j + 1 = i ∧ ∃ y ∈ (s.items c)[j]?, s.isOfKind kind y = .ok true) := by
  have htokens : ∀ j, ∀ x ∈ (s.items c)[j]?,
      (s.hasKind kind x = true ↔ s.isOfKind kind x = .ok true) := fun j x hx =>
    (h.tokens x (List.mem_of_getElem? hx)).isOfKind_eq_ok_iff.symm
  rw [Sequence.mem_filter_stays]
  refine exists_congr fun x => and_congr_right fun hx => not_congr ?_
  refine and_congr (htokens i x hx) (exists_congr fun j => and_congr_right fun _ => ?_)
  exact exists_congr fun y => and_congr_right fun hy => htokens j y hy

/-- **Collapsing keeps the heads of runs.** Of a collection of tokens those go that are of the kind
and stand right behind one of the kind; the others stay as they are, in their order.

After that no two tokens of the kind are neighbours, collapsing again changes nothing, and removing
the kind leaves what it would have left at once. If no token is of the kind and of another one, it
makes no difference which of the two is collapsed first. All this is said of kinds that are not made
of the collection (`TokenStore.keepsKind_of_atoms`, `TokenStore.keepsKind_of_not_leads`). -/
theorem collapse_keeps_heads (h : s.HasTokens c) (kind : Value) :
    ∃ kept : List Nat, kept.Pairwise (· < ·) ∧
      (∀ i, i ∈ kept ↔ ∃ x ∈ (s.items c)[i]?, ¬(s.isOfKind kind x = .ok true ∧
        ∃ j, j + 1 = i ∧ ∃ y ∈ (s.items c)[j]?, s.isOfKind kind y = .ok true)) ∧
      let s' := s.setItems c (kept.filterMap ((s.items c)[·]?))
      collapseKind c kind s = (.ok (), s') ∧
      (s.KeepsKind c kind →
        (s'.items c).IsChain (fun x y =>
          ¬(s'.isOfKind kind x = .ok true ∧ s'.isOfKind kind y = .ok true)) ∧
        collapseKind c kind s' = (.ok (), s') ∧
        (∃ s'', removeKind c kind s' = (.ok (), s'') ∧ removeKind c kind s = (.ok (), s'')) ∧
        ∀ other, s.KeepsKind c other →
          (∀ x ∈ s.items c, ¬(s.isOfKind kind x = .ok true ∧ s.isOfKind other x = .ok true)) →
          ∃ s'', (collapseKind c kind >>= fun _ => collapseKind c other) s = (.ok (), s'') ∧
            (collapseKind c other >>= fun _ => collapseKind c kind) s = (.ok (), s'')) := by
  refine ⟨(List.range (s.items c).length).filter (Sequence.stays (s.hasKind kind) (s.items c)),
    List.pairwise_lt_range.filter _, fun i => mem_filter_stays_iff h kind, ?_⟩
  intro s'
  have hs' : s' = s.setItems c (Sequence.heads (s.hasKind kind) (s.items c)) := by
    rw [Sequence.heads_eq_filterMap]
  have hcollapse : collapseKind c kind s = (.ok (), s') := by rw [hs', collapseKind_apply h kind]
  refine ⟨hcollapse, fun hkind => ?_⟩
  have hleft := Sequence.heads_sublist (p := s.hasKind kind) (s.items c)
  have hcollapsing := shortens_collapseKind h hkind
  have hremoving := shortens_removeKind h hkind
  rw [hs']
  refine ⟨?_, ?_, ⟨_, hremoving.apply _ hleft,
    hremoving.apply_items_of_eq (Sequence.filter_headsAfter _).symm⟩, fun other hother hapart => ?_⟩
  · have hdecides := hkind.decides h hleft
    rw [TokenStore.items_setItems s h.known] at hdecides ⊢
    refine (Sequence.isChain_heads _).imp_of_mem_imp fun x y hx hy hnot => ?_
    rintro ⟨hpx, hpy⟩
    rw [hdecides x hx] at hpx
    rw [hdecides y hy] at hpy
    exact hnot ⟨Except.ok.inj hpx, Except.ok.inj hpy⟩
  · rw [hcollapsing.apply _ hleft, Sequence.heads_heads]
  · have hcomm := Sequence.heads_comm (p := s.hasKind kind) (q := s.hasKind other)
      fun x hx hboth => hapart x hx ⟨(h.tokens x hx).isOfKind_eq_ok_iff.mpr hboth.1,
        (h.tokens x hx).isOfKind_eq_ok_iff.mpr hboth.2⟩
    have hcollapsing' := shortens_collapseKind h hother
    exact ⟨_, (hcollapsing.bind hcollapsing').apply_items,
      (hcollapsing'.bind hcollapsing).apply_items_of_eq hcomm.symm⟩

/-- The third comma goes since it is right behind the second, and words can be collapsed before or
after. -/
theorem gappedStore_collapse :
    ∃ (kept : List Nat) (s' s'' : TokenStore),
      2 ∈ kept ∧ 3 ∉ kept ∧
      s' = gappedStore.setItems 0 (kept.filterMap ((gappedStore.items 0)[·]?)) ∧
      collapseKind 0 (.int 1) gappedStore = (.ok (), s') ∧
      collapseKind 0 (.int 1) s' = (.ok (), s') ∧
      (collapseKind 0 (.int 1) >>= fun _ => collapseKind 0 (.int 2)) gappedStore = (.ok (), s'') ∧
      (collapseKind 0 (.int 2) >>= fun _ => collapseKind 0 (.int 1)) gappedStore = (.ok (), s'') := by
  have hcomma : gappedStore.isOfKind (.int 1) (.shared (.token 0)) = .ok true := rfl
  have hword : gappedStore.isOfKind (.int 1) (.shared (.token 1)) = .ok false := rfl
  have hcomma' : gappedStore.isOfKind (.int 2) (.shared (.token 0)) = .ok false := rfl
  obtain ⟨kept, -, hkept, hcollapse, hedits⟩ := collapse_keeps_heads gappedStore_hasTokens (.int 1)
  obtain ⟨-, hagain, -, hboth⟩ := hedits (gappedStore_keepsKind (.int 1))
  have hapart : ∀ x ∈ gappedStore.items 0, ¬(gappedStore.isOfKind (.int 1) x = .ok true ∧
      gappedStore.isOfKind (.int 2) x = .ok true) := by
    intro x hx hkinds
    rcases gappedStore_items hx with rfl | rfl
    · exact nomatch hcomma'.symm.trans hkinds.2
    · exact nomatch hword.symm.trans hkinds.1
  obtain ⟨s'', hfirst, hsecond⟩ := hboth (.int 2) (gappedStore_keepsKind (.int 2)) hapart
  refine ⟨kept, _, s'', (hkept 2).mpr ⟨_, rfl, ?_⟩, fun hmem => ?_, rfl, hcollapse, hagain, hfirst,
    hsecond⟩
  · rintro ⟨-, j, hj, y, hy, hpass⟩
    obtain rfl := Nat.succ.inj hj
    cases hy
    exact nomatch hword.symm.trans hpass
  · obtain ⟨x, hx, hnot⟩ := (hkept 3).mp hmem
    cases hx
    exact hnot ⟨hcomma, 2, rfl, _, rfl, hcomma⟩

/-- Two collections of two tokens, with the first one twice in the first collection. The first token
is of the kind that the second collection is, the second token is of the kind that the first
collection is. Without the repetition the two collections are equal. -/
def entangledStore : TokenStore :=
  ⟨#[⟨.shared (.collection 1), .str "A"⟩, ⟨.shared (.collection 0), .str "B"⟩],
    #[#[.shared (.token 0), .shared (.token 0), .shared (.token 1)],
      #[.shared (.token 0), .shared (.token 1)]], []⟩

/-- The kind that the second collection is. -/
def entangledKind : Value := .shared (.collection 1)

theorem entangledStore_items :
    entangledStore.items 0 = [.shared (.token 0), .shared (.token 0), .shared (.token 1)] := rfl

theorem entangledStore_hasTokens : entangledStore.HasTokens 0 where
  known := Nat.two_pos
  tokens := by
    rw [entangledStore_items]
    simp only [List.forall_mem_cons]
    exact ⟨⟨0, Nat.two_pos, rfl⟩, ⟨0, Nat.two_pos, rfl⟩, ⟨1, Nat.one_lt_two, rfl⟩, nofun⟩

/-- **After a collapse by a kind that changes with the collection there can be more to collapse.** Of
three tokens the first two are of the kind, so the second one goes. Now the last one is of the kind,
too, right behind another. A second collapse takes it, and so does a removal, which would have left
it at first. -/
theorem entangledStore_collapse :
    entangledStore.HasTokens 0 ∧
      ∃ s', collapseKind 0 entangledKind entangledStore = (.ok (), s') ∧
        s'.items 0 = [.shared (.token 0), .shared (.token 1)] ∧
        (∀ x ∈ s'.items 0, s'.isOfKind entangledKind x = .ok true) ∧
        (∃ s'', collapseKind 0 entangledKind s' = (.ok (), s'') ∧
          s''.items 0 = [.shared (.token 0)]) ∧
        (∃ s'', removeKind 0 entangledKind s' = (.ok (), s'') ∧ s''.items 0 = []) ∧
        ∃ s'', removeKind 0 entangledKind entangledStore = (.ok (), s'') ∧
          s''.items 0 = [.shared (.token 1)] := by
  let s' : TokenStore := entangledStore.setItems 0 [.shared (.token 0), .shared (.token 1)]
  have hfirst : entangledStore.hasKind entangledKind (.shared (.token 0)) = true := by decide
  have hlast : entangledStore.hasKind entangledKind (.shared (.token 1)) = false := by decide
  have hfirst' : s'.hasKind entangledKind (.shared (.token 0)) = true := by decide
  have hlast' : s'.hasKind entangledKind (.shared (.token 1)) = true := by decide
  have hitems' : s'.items 0 = [.shared (.token 0), .shared (.token 1)] := rfl
  have htokens' : s'.HasTokens 0 :=
    entangledStore_hasTokens.setItems (List.sublist_cons_self _ _)
  have hcollapse : collapseKind 0 entangledKind entangledStore = (.ok (), s') := by
    rw [collapseKind_apply entangledStore_hasTokens, entangledStore_items]
    simp [Sequence.heads, Sequence.headsAfter, hfirst, hlast, s']
  refine ⟨entangledStore_hasTokens, s', hcollapse, hitems', ?_,
    ⟨_, collapseKind_apply htokens' _, ?_⟩, ⟨_, removeKind_apply (htokens'.decides _), ?_⟩,
    _, removeKind_apply (entangledStore_hasTokens.decides _), ?_⟩
  · rw [hitems', List.forall_mem_cons, List.forall_mem_singleton]
    exact ⟨(htokens'.tokens _ (.head _)).isOfKind_eq_ok_iff.mpr hfirst',
      (htokens'.tokens _ (.tail _ (.head _))).isOfKind_eq_ok_iff.mpr hlast'⟩
  · rw [TokenStore.items_setItems _ htokens'.known, hitems']
    simp [Sequence.heads, Sequence.headsAfter, hfirst', hlast']
  · rw [TokenStore.items_setItems _ htokens'.known, hitems']
    simp [hfirst', hlast']
  · rw [TokenStore.items_setItems _ entangledStore_hasTokens.known, entangledStore_items]
    simp [hfirst, hlast]

end Collection

end SymbolMachine
