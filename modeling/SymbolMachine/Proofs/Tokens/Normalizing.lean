/-
Delimiters with nothing between them.

Splitting gives an empty group for each delimiter at an end of a collection and between each two
neighbours. These groups can be left out afterwards, or the delimiters that make them can be
trimmed and collapsed before. Both come to the same: no edit of delimiters touches the groups that
are not empty (`filled_trimmed`, `filled_heads`), and after both edits there are no others
(`splitOnP_heads_trimmed`). That the two edits commute (`trimmed_heads`) saves one of the two
orders.
-/
import SymbolMachine.Proofs.Tokens.Collapsing
import SymbolMachine.Proofs.Tokens.Trimming

set_option autoImplicit false

namespace SymbolMachine

namespace Sequence

variable {ι : Type} {p : ι → Bool} {xs : List ι} {gs : List (List ι)} {ds : List ι}

/-! ## Groups that are not empty -/

/-- The groups between passing items that are not empty. -/
def filled (p : ι → Bool) (xs : List ι) : List (List ι) :=
  (xs.splitOnP p).filter fun g => !g.isEmpty

@[simp] theorem filled_nil : filled p [] = [] := by
  rw [filled, List.splitOnP_nil]
  rfl

theorem filled_append_cons (xs ys : List ι) {d : ι} (hd : p d = true) :
    filled p (xs ++ d :: ys) = filled p xs ++ filled p ys := by
  rw [filled, List.splitOnP_append_cons xs ys hd, List.filter_append]
  rfl

theorem filled_cons {d : ι} (hd : p d = true) (xs : List ι) : filled p (d :: xs) = filled p xs := by
  rw [← List.nil_append (d :: xs), filled_append_cons [] xs hd, filled_nil, List.nil_append]

theorem filled_dropWhile (xs : List ι) : filled p (xs.dropWhile p) = filled p xs := by
  induction xs with
  | nil => rfl
  | cons x xs ih =>
      cases hx : p x with
      | true => rw [List.dropWhile_cons_of_pos hx, ih, filled_cons hx]
      | false => rw [List.dropWhile_cons_of_neg (Bool.eq_false_iff.mp hx)]

theorem filled_rdropWhile (xs : List ι) : filled p (xs.rdropWhile p) = filled p xs := by
  induction xs using List.reverseRecOn with
  | nil => rfl
  | append_singleton xs x ih =>
      cases hx : p x with
      | true =>
          rw [List.rdropWhile_concat_pos p xs x hx, ih, filled_append_cons xs [] hx, filled_nil,
            List.append_nil]
      | false => rw [List.rdropWhile_concat_neg p xs x (Bool.eq_false_iff.mp hx)]

theorem filled_trimmed (xs : List ι) : filled p (trimmed p xs) = filled p xs := by
  rw [trimmed, filled_rdropWhile, filled_dropWhile]

/-- Items that do not pass stay, and behind them it does not matter what was before. -/
theorem headsAfter_append_of_free (b : Bool) {g : List ι} (hg : ∀ x ∈ g, p x = false)
    (ys : List ι) : headsAfter p b (g ++ ys) = g ++ headsAfter p (b && g.isEmpty) ys := by
  induction g generalizing b with
  | nil => rw [List.nil_append, List.nil_append, List.isEmpty_nil, Bool.and_true]
  | cons x g ih =>
      obtain ⟨hx, hg⟩ := List.forall_mem_cons.mp hg
      rw [List.cons_append, headsAfter, hx, Bool.and_false, if_neg Bool.false_ne_true, ih false hg,
        Bool.false_and, List.isEmpty_cons, Bool.and_false, List.cons_append]

/-- The delimiters are between the groups, so what goes of them leaves the groups alone. -/
theorem Separates.filled_headsAfter (h : Separates p gs ds) (b : Bool) :
    filled p (headsAfter p b (joined gs ds)) = filled p (joined gs ds) := by
  induction h generalizing b with
  | @single g hg =>
      have hall := headsAfter_append_of_free b hg []
      rw [List.append_nil, headsAfter_nil, List.append_nil] at hall
      rw [joined, hall]
  | @cons g d gs ds hg hd _ ih =>
      rw [joined, headsAfter_append_of_free b hg, headsAfter, hd, Bool.and_true,
        filled_append_cons g _ hd]
      split
      · next hgoes =>
        -- There is nothing before the delimiter.
        have hempty : g = [] := List.isEmpty_iff.mp (Bool.and_eq_true_iff.mp hgoes).2
        rw [hempty, filled_nil, List.nil_append, List.nil_append, ih]
      · rw [filled_append_cons g _ hd, ih]

theorem filled_heads (xs : List ι) : filled p (heads p xs) = filled p xs := by
  obtain ⟨gs, ds, h, rfl⟩ := exists_separates p xs
  exact h.filled_headsAfter false

/-! ## No other groups -/

/-- Without delimiters at the ends and without two of them next to each other, no group is empty. -/
theorem Separates.ne_nil_of_mem (h : Separates p gs ds) (hne : joined gs ds ≠ [])
    (hfirst : (joined gs ds).head?.any p = false)
    (hlast : (joined gs ds).getLast?.any p = false)
    (hchain : (joined gs ds).IsChain (NotBoth p)) : ∀ g ∈ gs, g ≠ [] := by
  induction h with
  | single _ => exact List.forall_mem_singleton.mpr hne
  | @cons g d gs ds _ hd _ ih =>
      rw [joined] at hfirst hlast hchain
      have hbehind := hchain.right_of_append
      have hgroup : g ≠ [] := by
        rintro rfl
        exact Bool.false_ne_true (hfirst.symm.trans hd)
      have hrest : joined gs ds ≠ [] := by
        intro hnone
        rw [hnone, List.getLast?_concat] at hlast
        exact Bool.false_ne_true (hlast.symm.trans hd)
      refine List.forall_mem_cons.mpr ⟨hgroup, ih hrest ?_ ?_ hbehind.tail⟩
      · refine Bool.eq_false_iff.mpr fun hpass => ?_
        obtain ⟨y, hy, hpy⟩ := (Option.any_eq_true _ _).mp hpass
        exact hbehind.rel_head? hy ⟨hd, hpy⟩
      · rwa [List.getLast?_append_of_ne_nil _ (List.cons_ne_nil _ _),
          List.getLast?_cons_of_ne_nil hrest] at hlast

/-- A delimiter goes with its run or at the start, whatever comes first. -/
theorem dropWhile_headsAfter (b : Bool) (xs : List ι) :
    (headsAfter p b xs).dropWhile p = heads p (xs.dropWhile p) := by
  induction xs generalizing b with
  | nil => rfl
  | cons x xs ih =>
      rw [headsAfter]
      cases hx : p x with
      | true =>
          rw [List.dropWhile_cons_of_pos hx, ← ih true, Bool.and_true]
          split
          · rfl
          · rw [List.dropWhile_cons_of_pos hx]
      | false =>
          have hneg : ¬p x = true := Bool.eq_false_iff.mp hx
          rw [Bool.and_false, if_neg Bool.false_ne_true, List.dropWhile_cons_of_neg hneg,
            List.dropWhile_cons_of_neg hneg, heads_cons, hx]

theorem rdropWhile_heads (xs : List ι) :
    (heads p xs).rdropWhile p = heads p (xs.rdropWhile p) := by
  induction xs using List.reverseRecOn with
  | nil => rfl
  | append_singleton xs x ih =>
      rw [heads, headsAfter_concat]
      cases hx : p x with
      | true =>
          rw [List.rdropWhile_concat_pos p xs x hx, ← ih, Bool.and_true]
          split
          · rw [List.append_nil]
            rfl
          · rw [List.rdropWhile_concat_pos p _ x hx]
            rfl
      | false =>
          have hneg : ¬p x = true := Bool.eq_false_iff.mp hx
          rw [Bool.and_false, if_neg Bool.false_ne_true, List.rdropWhile_concat_neg p _ x hneg,
            List.rdropWhile_concat_neg p _ x hneg, heads, headsAfter_concat, hx, Bool.and_false,
            if_neg Bool.false_ne_true]

/-- **Trimming and collapsing commute.** -/
theorem trimmed_heads (xs : List ι) : trimmed p (heads p xs) = heads p (trimmed p xs) := by
  rw [trimmed, heads, dropWhile_headsAfter, rdropWhile_heads, trimmed]

/-- **After both, the groups are those that were not empty before**, if there are any items
left. -/
theorem splitOnP_heads_trimmed (hne : ∃ x ∈ xs, p x = false) :
    (heads p (trimmed p xs)).splitOnP p = filled p xs := by
  obtain ⟨hseparates, hjoined⟩ := separates_splitOnP p (heads p (trimmed p xs))
  have hleft : heads p (trimmed p xs) ≠ [] := by
    rw [heads_eq_destutter, ne_eq, List.destutter_eq_nil, trimmed_eq_nil_iff]
    obtain ⟨x, hx, hpx⟩ := hne
    exact fun hall => Bool.false_ne_true (hpx.symm.trans (hall x hx))
  have hfull := hseparates.ne_nil_of_mem
  rw [hjoined] at hfull
  have hends : heads p (trimmed p xs) = trimmed p (heads p xs) := (trimmed_heads xs).symm
  have hgroups := hfull hleft (hends ▸ any_head?_trimmed p _) (hends ▸ any_getLast?_trimmed p _)
    (isChain_heads _)
  rw [← filled_trimmed, ← filled_heads, filled]
  refine (List.filter_eq_self.mpr fun g hg => ?_).symm
  rw [Bool.not_eq_true', List.isEmpty_eq_false_iff]
  exact hgroups g hg

end Sequence

/-! ## Collections -/

namespace Collection

variable {s : TokenStore} {c : CollectionId} {kind : Value}

section Edits

variable (h : s.HasTokens c) (hkind : s.KeepsKind c kind)
include h hkind

/-- What is left after some edits is split at the tokens that were of the kind from the first. -/
theorem split_setItems {xs : List Value} (hxs : xs.Sublist (s.items c)) (withEmpty : Bool) :
    let groups := xs.splitOnP (s.hasKind kind)
    let kept := if withEmpty then groups else groups.filter fun g => !g.isEmpty
    let s' := s.setItems c xs
    split c kind withEmpty s' = (.ok (s'.newPlaces kept), s'.withCollections kept) := by
  intro groups kept s'
  have hsplit := split_apply (h.setItems hxs) kind withEmpty
  -- Both tests decide the groups, so these are the same.
  have hgroups := (hkind.decides h hxs).groups_eq.symm.trans
    ((h.setItems hxs).decides kind).groups_eq
  rw [← Except.ok.inj hgroups, TokenStore.items_setItems s h.known] at hsplit
  exact hsplit

/-- Each edit of delimiters is a function on lists that leaves the groups alone. -/
theorem exists_shortens {op : CollectionId → Value → Effect TokenStore Unit}
    (hop : op ∈ [trimStart, trimEnd, trim, collapseKind]) :
    ∃ f, s.Shortens c (op c kind) f ∧
      ∀ xs, Sequence.filled (s.hasKind kind) (f xs) = Sequence.filled (s.hasKind kind) xs := by
  simp only [List.mem_cons, List.not_mem_nil, or_false] at hop
  rcases hop with rfl | rfl | rfl | rfl
  · exact ⟨_, shortens_trimStart h hkind, Sequence.filled_dropWhile⟩
  · exact ⟨_, shortens_trimEnd h hkind, Sequence.filled_rdropWhile⟩
  · exact ⟨_, shortens_trim h hkind, Sequence.filled_trimmed⟩
  · exact ⟨_, shortens_collapseKind h hkind, Sequence.filled_heads⟩

/-- So is one edit after another. -/
theorem exists_shortens_forM (ops : List (CollectionId → Value → Effect TokenStore Unit))
    (hops : ∀ op ∈ ops, op ∈ [trimStart, trimEnd, trim, collapseKind]) :
    ∃ f, s.Shortens c (ops.forM fun op => op c kind) f ∧
      ∀ xs, Sequence.filled (s.hasKind kind) (f xs) = Sequence.filled (s.hasKind kind) xs := by
  induction ops with
  | nil => exact ⟨id, .pure, fun _ => rfl⟩
  | cons op ops ih =>
      obtain ⟨hop, hops⟩ := List.forall_mem_cons.mp hops
      obtain ⟨f, hf, hkeeps⟩ := exists_shortens h hkind hop
      obtain ⟨f', hf', hkeeps'⟩ := ih hops
      refine ⟨f' ∘ f, ?_, fun xs => (hkeeps' (f xs)).trans (hkeeps xs)⟩
      exact hf.bind hf'

/-- Trimming and collapsing, in either order, make the same of the items. -/
theorem shortens_normalize {ops : List (CollectionId → Value → Effect TokenStore Unit)}
    (hops : ops ∈ [[trim, collapseKind], [collapseKind, trim]]) :
    s.Shortens c (ops.forM fun op => op c kind) fun xs =>
      Sequence.heads (s.hasKind kind) (Sequence.trimmed (s.hasKind kind) xs) := by
  have htrim := shortens_trim h hkind
  have hcollapse := shortens_collapseKind h hkind
  simp only [List.mem_cons, List.not_mem_nil, or_false] at hops
  rcases hops with rfl | rfl
  · exact htrim.bind (hcollapse.bind .pure)
  · have hboth := hcollapse.bind (htrim.bind .pure)
    exact {
      sublist := fun xs => Sequence.trimmed_heads xs ▸ hboth.sublist xs
      apply := fun xs hxs => Sequence.trimmed_heads xs ▸ hboth.apply xs hxs }

end Edits

/-- **Normalising delimiters is dropping empty groups.** Splitting without the empty groups gives
the same groups, token by token, after any edits of the delimiters by trimming and collapsing. After
trimming and collapsing, in either order, splitting with the empty groups gives just these groups,
or one empty group if there was no token of another kind. The kind is one that does not change with
the collection. -/
theorem split_normalized (h : s.HasTokens c) (hkind : s.KeepsKind c kind) :
    ∃ groups : List (List Value),
      split c kind false s = (.ok (s.newPlaces groups), s.withCollections groups) ∧
      (∀ ops : List (CollectionId → Value → Effect TokenStore Unit),
        (∀ op ∈ ops, op ∈ [trimStart, trimEnd, trim, collapseKind]) →
        ∃ s', (ops.forM fun op => op c kind) s = (.ok (), s') ∧
          split c kind false s' = (.ok (s'.newPlaces groups), s'.withCollections groups)) ∧
      ∀ ops ∈ [[trim, collapseKind], [collapseKind, trim]],
        ∃ s', (ops.forM fun op => op c kind) s = (.ok (), s') ∧
          ((∃ x ∈ s.items c, s.isOfKind kind x = .ok false) →
            split c kind true s' = (.ok (s'.newPlaces groups), s'.withCollections groups)) ∧
          ((¬∃ x ∈ s.items c, s.isOfKind kind x = .ok false) →
            split c kind true s' = (.ok (s'.newPlaces [[]]), s'.withCollections [[]])) := by
  have hother : ∀ x ∈ s.items c, (s.isOfKind kind x = .ok false ↔ s.hasKind kind x = false) :=
    fun x hx => (h.tokens x hx).isOfKind_eq_ok_iff
  refine ⟨Sequence.filled (s.hasKind kind) (s.items c), split_apply h kind false,
    fun ops hops => ?_, fun ops hops => ?_⟩
  · obtain ⟨f, hf, hkeeps⟩ := exists_shortens_forM h hkind ops hops
    have hsplit := split_setItems h hkind (hf.sublist (s.items c)) false
    refine ⟨_, hf.apply_items, ?_⟩
    rw [← hkeeps (s.items c)]
    exact hsplit
  · have hnormalize := shortens_normalize h hkind hops
    have hsplit := split_setItems h hkind (hnormalize.sublist (s.items c)) true
    refine ⟨_, hnormalize.apply_items, fun hsome => ?_, fun hnone => ?_⟩
    · obtain ⟨x, hx, hkindx⟩ := hsome
      rw [Sequence.splitOnP_heads_trimmed ⟨x, hx, (hother x hx).mp hkindx⟩] at hsplit
      exact hsplit
    · have hall : ∀ x ∈ s.items c, s.hasKind kind x = true := fun x hx =>
        eq_true_of_ne_false fun hkindx => hnone ⟨x, hx, (hother x hx).mpr hkindx⟩
      rw [Sequence.trimmed_eq_nil_iff.mpr hall] at hsplit ⊢
      exact hsplit

/-- There are words, so collapsing and then trimming the commas leaves no empty groups. -/
theorem gappedStore_split_normalized :
    ∃ (groups : List (List Value)) (s' : TokenStore),
      split 0 (.int 1) false gappedStore =
        (.ok (gappedStore.newPlaces groups), gappedStore.withCollections groups) ∧
      ([collapseKind, trim].forM fun op => op 0 (.int 1)) gappedStore = (.ok (), s') ∧
      split 0 (.int 1) true s' = (.ok (s'.newPlaces groups), s'.withCollections groups) := by
  have hword : gappedStore.isOfKind (.int 1) (.shared (.token 1)) = .ok false := rfl
  obtain ⟨groups, hsplit, -, hnormalized⟩ :=
    split_normalized gappedStore_hasTokens (gappedStore_keepsKind (.int 1))
  obtain ⟨s', hedits, hsome, -⟩ := hnormalized [collapseKind, trim] (by simp)
  exact ⟨groups, s', hsplit, hedits, hsome ⟨_, List.mem_of_getElem? (i := 1) rfl, hword⟩⟩

/-- **A kind that changes with the collection loses groups.** The second of two tokens is not of the
kind, and makes a group without the empty ones. After the start is trimmed it is a delimiter, so
there is no such group any more; after trimming and collapsing there is only an empty one. -/
theorem loopedStore_split :
    loopedStore.HasTokens 0 ∧
      (∃ x ∈ loopedStore.items 0, loopedStore.isOfKind loopedKind x = .ok false) ∧
      split 0 loopedKind false loopedStore = (.ok (loopedStore.newPlaces [[.shared (.token 1)]]),
        loopedStore.withCollections [[.shared (.token 1)]]) ∧
      (∃ s', trimStart 0 loopedKind loopedStore = (.ok (), s') ∧
        split 0 loopedKind false s' = (.ok (s'.newPlaces []), s'.withCollections [])) ∧
      ∃ s', ([trim, collapseKind].forM fun op => op 0 loopedKind) loopedStore = (.ok (), s') ∧
        split 0 loopedKind true s' = (.ok (s'.newPlaces [[]]), s'.withCollections [[]]) := by
  obtain ⟨hfirst, hsecond⟩ := loopedStore_hasKind
  have hother : loopedStore.isOfKind loopedKind (.shared (.token 1)) = .ok false :=
    (loopedStore_hasTokens.tokens _ (List.mem_of_getElem? (i := 1) rfl)).isOfKind_eq_ok_iff.mpr
      hsecond
  have hempty : (loopedStore.setItems 0 []).HasTokens 0 :=
    loopedStore_hasTokens.setItems (List.nil_sublist _)
  have hcollapse : collapseKind 0 loopedKind (loopedStore.setItems 0 []) =
      (.ok (), loopedStore.setItems 0 []) := by
    rw [collapseKind_apply hempty, TokenStore.setItems_setItems]
    rfl
  refine ⟨loopedStore_hasTokens, ⟨_, List.mem_of_getElem? (i := 1) rfl, hother⟩, ?_,
    ⟨_, loopedStore_trimStart, ?_⟩, loopedStore.setItems 0 [], ?_, ?_⟩
  · rw [split_apply loopedStore_hasTokens, loopedStore_items]
    simp only [List.splitOnP_cons_eq_if_modifyHead, List.splitOnP_nil, hfirst, hsecond]
    rfl
  · have hitems : loopedStoreLeft.items 0 = [.shared (.token 1)] := rfl
    rw [split_apply loopedStoreLeft_hasTokens, hitems]
    simp only [List.splitOnP_cons_eq_if_modifyHead, List.splitOnP_nil, loopedStoreLeft_hasKind]
    rfl
  · change (trim 0 loopedKind >>= fun _ => collapseKind 0 loopedKind >>= fun _ => pure ())
      loopedStore = _
    rw [Effect.bind_apply_of_ok _ loopedStore_trim_apply, Effect.bind_apply_of_ok _ hcollapse]
    rfl
  · rw [split_apply hempty]
    rfl

end Collection

end SymbolMachine
