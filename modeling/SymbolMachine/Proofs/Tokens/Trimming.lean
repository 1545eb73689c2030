/-
Tokens of a kind at the ends of a collection.

Trimming removes them at the start and then at the end, each with a scan of its own. What is left
is one stretch of the collection, from the first token of another kind to the last
(`exists_append_trimmed`, `isLeast_place`, `isGreatest_place`), or nothing if there is none. Neither
scan takes anything away from the other (`rdropWhile_dropWhile`), also if the first one empties the
collection, so their order does not matter.
-/
import SymbolMachine.Proofs.Tokens.Scanning
import SymbolMachine.Proofs.Tokens.Shortening
import Mathlib.Order.Bounds.Basic

set_option autoImplicit false

namespace SymbolMachine

/-! ## Sequences -/

namespace Sequence

variable {ι : Type} {is : Test ι} {p : ι → Bool} {xs : List ι}

theorem Decides.startsWith_eq (h : Decides is p xs) : startsWith is xs = .ok (xs.head?.any p) := by
  cases xs with
  | nil => rfl
  | cons x xs => exact (decides_cons.mp h).1

theorem Decides.endsWith_eq (h : Decides is p xs) : endsWith is xs = .ok (xs.getLast?.any p) := by
  have hreverse : Decides is p xs.reverse := fun x hx => h x (List.mem_reverse.mp hx)
  rw [endsWith, hreverse.startsWith_eq, List.head?_reverse]

/-- The items without those that pass at the two ends. -/
def trimmed (p : ι → Bool) (xs : List ι) : List ι := (xs.dropWhile p).rdropWhile p

/-- **The two ends are independent.** -/
theorem rdropWhile_dropWhile (p : ι → Bool) (xs : List ι) :
    (xs.dropWhile p).rdropWhile p = (xs.rdropWhile p).dropWhile p := by
  induction xs using List.reverseRecOn with
  | nil => rfl
  | append_singleton xs x ih =>
      cases hx : p x with
      | true =>
          rw [List.rdropWhile_concat_pos p xs x hx, ← ih, List.dropWhile_append]
          split
          · next hempty =>
            rw [List.isEmpty_iff.mp hempty, List.dropWhile_cons_of_pos hx]
            rfl
          · rw [List.rdropWhile_concat_pos p _ x hx]
      | false =>
          have hneg : ¬p x = true := Bool.eq_false_iff.mp hx
          rw [List.rdropWhile_concat_neg p xs x hneg, List.dropWhile_append]
          split
          · rw [List.dropWhile_cons_of_neg hneg, List.rdropWhile_singleton, if_neg hneg]
          · rw [List.rdropWhile_concat_neg p _ x hneg]

theorem trimmed_trimmed (p : ι → Bool) (xs : List ι) :
    trimmed p (trimmed p xs) = trimmed p xs := by
  rw [trimmed, trimmed, ← rdropWhile_dropWhile p (xs.dropWhile p), List.dropWhile_idempotent,
    List.rdropWhile_idempotent]

theorem filter_trimmed (p : ι → Bool) (xs : List ι) :
    (trimmed p xs).filter (fun x => !p x) = xs.filter fun x => !p x := by
  rw [trimmed, filter_rdropWhile, filter_dropWhile]

/-- There is nothing left if all items pass. -/
theorem trimmed_eq_nil_iff : trimmed p xs = [] ↔ ∀ x ∈ xs, p x = true := by
  rw [trimmed, List.rdropWhile_eq_nil_iff, ← List.dropWhile_eq_nil_iff, List.dropWhile_idempotent,
    List.dropWhile_eq_nil_iff]

theorem any_head?_trimmed (p : ι → Bool) (xs : List ι) : (trimmed p xs).head?.any p = false := by
  rw [trimmed, rdropWhile_dropWhile]
  have hhead := List.head?_dropWhile_not p (xs.rdropWhile p)
  cases hx : ((xs.rdropWhile p).dropWhile p).head? with
  | none => rfl
  | some x =>
      rw [hx] at hhead
      exact hhead

theorem any_getLast?_trimmed (p : ι → Bool) (xs : List ι) :
    (trimmed p xs).getLast?.any p = false := by
  cases hx : (trimmed p xs).getLast? with
  | none => rfl
  | some x =>
      have hne : trimmed p xs ≠ [] := List.getLast?_isSome.mp (hx ▸ rfl)
      obtain rfl := Option.some.inj ((List.getLast?_eq_some_getLast hne).symm.trans hx)
      exact Bool.eq_false_iff.mpr (List.rdropWhile_last_not p _ hne)

/-- What was taken away at either end passes. -/
theorem exists_append_trimmed (p : ι → Bool) (xs : List ι) :
    ∃ before behind, xs = before ++ (trimmed p xs ++ behind) ∧ (∀ x ∈ before, p x = true) ∧
      ∀ x ∈ behind, p x = true := by
  refine ⟨xs.takeWhile p, (xs.dropWhile p).rtakeWhile p, ?_, fun x hx => ?_, fun x hx => ?_⟩
  · rw [trimmed, List.rdropWhile_append_rtakeWhile, List.takeWhile_append_dropWhile]
  · exact List.mem_takeWhile_imp hx
  · exact List.mem_rtakeWhile_imp hx

/-- The first place of an item that does not pass. -/
theorem isLeast_place {before : List ι} (hbefore : ∀ y ∈ before, p y = true) {x : ι}
    (hx : p x = false) (behind : List ι) :
    IsLeast {i | ∃ y ∈ (before ++ x :: behind)[i]?, p y = false} before.length := by
  refine ⟨⟨x, by simp, hx⟩, ?_⟩
  rintro i ⟨y, hy, hpy⟩
  by_contra hlt
  rw [List.getElem?_append_left (Nat.not_le.mp hlt)] at hy
  rw [hbefore y (List.mem_of_getElem? hy)] at hpy
  cases hpy

/-- The last place of an item that does not pass. -/
theorem isGreatest_place {behind : List ι} (hbehind : ∀ y ∈ behind, p y = true) {x : ι}
    (hx : p x = false) (before : List ι) :
    IsGreatest {i | ∃ y ∈ (before ++ x :: behind)[i]?, p y = false} before.length := by
  refine ⟨⟨x, by simp, hx⟩, ?_⟩
  rintro i ⟨y, hy, hpy⟩
  by_contra hlt
  obtain ⟨k, rfl⟩ := Nat.exists_eq_add_of_lt (Nat.not_le.mp hlt)
  rw [List.getElem?_append_right (by omega)] at hy
  have hplace : before.length + k + 1 - before.length = k + 1 := by omega
  rw [hplace, List.getElem?_cons_succ] at hy
  rw [hbehind y (List.mem_of_getElem? hy)] at hpy
  cases hpy

/-- **What trimming leaves is one stretch**: from the first item that does not pass to the last. -/
theorem exists_stretch (hne : trimmed p xs ≠ []) :
    ∃ i j, IsLeast {i | ∃ x ∈ xs[i]?, p x = false} i ∧
      IsGreatest {i | ∃ x ∈ xs[i]?, p x = false} j ∧ trimmed p xs = (xs.take (j + 1)).drop i := by
  obtain ⟨before, behind, hxs, hbefore, hbehind⟩ := exists_append_trimmed p xs
  obtain ⟨x, rest, hfirst⟩ := List.exists_cons_of_ne_nil hne
  obtain ⟨init, y, hlast⟩ := (List.eq_nil_or_concat' _).resolve_left hne
  have hx : p x = false := by
    have hhead := any_head?_trimmed p xs
    rwa [hfirst] at hhead
  have hy : p y = false := by
    have hend := any_getLast?_trimmed p xs
    rwa [hlast, List.getLast?_concat] at hend
  have hleast := isLeast_place hbefore hx (rest ++ behind)
  have hgreatest := isGreatest_place hbehind hy (before ++ init)
  have hxs' : xs = before ++ init ++ y :: behind := by rw [hxs, hlast]; simp
  rw [← List.cons_append, ← hfirst, ← hxs] at hleast
  rw [← hxs'] at hgreatest
  refine ⟨_, _, hleast, hgreatest, ?_⟩
  have hlength : (before ++ init).length + 1 = (before ++ trimmed p xs).length := by
    rw [hlast]
    simp only [List.length_append, List.length_singleton]
    omega
  have hcut : ∀ core, xs = before ++ (core ++ behind) →
      (xs.take (before ++ core).length).drop before.length = core := by
    intro core h
    rw [h, ← List.append_assoc, List.take_left, List.drop_left]
  rw [hlength, hcut _ hxs]

end Sequence

/-! ## Collections -/

namespace Collection

variable {s : TokenStore} {c : CollectionId} {kind : Value} {p : Value → Bool}

theorem startsWith_apply (h : Sequence.Decides (s.isOfKind kind) p (s.items c)) :
    startsWith c kind s = (.ok ((s.items c).head?.any p), s) := by
  rw [startsWith_eq_ofExcept, h.startsWith_eq]
  rfl

theorem endsWith_apply (h : Sequence.Decides (s.isOfKind kind) p (s.items c)) :
    endsWith c kind s = (.ok ((s.items c).getLast?.any p), s) := by
  rw [endsWith_eq_ofExcept, h.endsWith_eq]
  rfl

theorem shortens_trim (h : s.HasTokens c) (hkind : s.KeepsKind c kind) :
    s.Shortens c (trim c kind) (Sequence.trimmed (s.hasKind kind)) :=
  (shortens_trimStart h hkind).bind (shortens_trimEnd h hkind)

/-- A cut from one place to another makes a collection of the items in between. -/
theorem exists_segment (h : s.HasTokens c) (i j : Nat) :
    ∃ d s₁, segment c (.int i) (.int j) s = (.ok d, s₁) ∧
      s₁.items d = ((s.items c).take (j + 1)).drop i := by
  refine ⟨_, _, segment_apply h i j, ?_⟩
  rw [TokenStore.items_newPlace, Int.toNat_natCast, Int.toNat_natCast_add_one]

/-- What trimming leaves is what a cut between the outermost other tokens makes. -/
theorem trimmed_cases (h : s.HasTokens c) (kind : Value) :
    let others := {i : Nat | ∃ x ∈ (s.items c)[i]?, s.isOfKind kind x = .ok false}
    (others = ∅ ∧ Sequence.trimmed (s.hasKind kind) (s.items c) = []) ∨
      ∃ i j d s₁, IsLeast others i ∧ IsGreatest others j ∧
        segment c (.int i) (.int j) s = (.ok d, s₁) ∧
        Sequence.trimmed (s.hasKind kind) (s.items c) = s₁.items d := by
  intro others
  have hothers : others = {i : Nat | ∃ x ∈ (s.items c)[i]?, s.hasKind kind x = false} :=
    Set.ext fun i => exists_congr fun x => and_congr_right fun hx =>
      (h.tokens x (List.mem_of_getElem? hx)).isOfKind_eq_ok_iff
  by_cases hne : Sequence.trimmed (s.hasKind kind) (s.items c) = []
  · refine .inl ⟨?_, hne⟩
    rw [hothers, Set.eq_empty_iff_forall_notMem]
    rintro i ⟨x, hx, hother⟩
    rw [Sequence.trimmed_eq_nil_iff.mp hne x (List.mem_of_getElem? hx)] at hother
    cases hother
  · obtain ⟨i, j, hi, hj, hstretch⟩ := Sequence.exists_stretch hne
    obtain ⟨d, s₁, hsegment, hitems⟩ := exists_segment h i j
    rw [← hothers] at hi hj
    exact .inr ⟨i, j, d, s₁, hi, hj, hsegment, by rw [hitems, hstretch]⟩

/-- **Trimming keeps the stretch between the outermost other tokens.** What is left of a collection
of tokens is what a cut from the first token that is not of the kind to the last one makes, and
nothing if all tokens are of the kind. Which end is trimmed first makes no difference; trimming again
changes nothing; no token of the kind is left at an end; and removing the kind afterwards leaves what
it would have left at once. The kind is one that does not change with the collection. -/
theorem trim_keeps_stretch (h : s.HasTokens c) (hkind : s.KeepsKind c kind) :
    let others := {i : Nat | ∃ x ∈ (s.items c)[i]?, s.isOfKind kind x = .ok false}
    ∃ s', trim c kind s = (.ok (), s') ∧
      ((others = ∅ ∧ s' = s.setItems c []) ∨
        ∃ i j d s₁, IsLeast others i ∧ IsGreatest others j ∧
          segment c (.int i) (.int j) s = (.ok d, s₁) ∧ s' = s.setItems c (s₁.items d)) ∧
      (trimStart c kind >>= fun _ => trimEnd c kind) s = (.ok (), s') ∧
      (trimEnd c kind >>= fun _ => trimStart c kind) s = (.ok (), s') ∧
      trim c kind s' = (.ok (), s') ∧
      startsWith c kind s' = (.ok false, s') ∧ endsWith c kind s' = (.ok false, s') ∧
      ∃ s'', (trim c kind >>= fun _ => removeKind c kind) s = (.ok (), s'') ∧
        removeKind c kind s = (.ok (), s'') := by
  intro others
  have hstart := shortens_trimStart h hkind
  have hend := shortens_trimEnd h hkind
  have htrim := shortens_trim h hkind
  have hremove := shortens_removeKind h hkind
  have hleft := htrim.sublist (s.items c)
  have hdecides := hkind.decides h hleft
  refine ⟨_, htrim.apply_items, ?_, (hstart.bind hend).apply_items,
    (hend.bind hstart).apply_items_of_eq (Sequence.rdropWhile_dropWhile _ _).symm, ?_, ?_, ?_, _,
    (htrim.bind hremove).apply_items,
    hremove.apply_items_of_eq (Sequence.filter_trimmed _ _).symm⟩
  · rcases trimmed_cases h kind with ⟨hnone, hleft⟩ | ⟨i, j, d, s₁, hi, hj, hsegment, hleft⟩
    · exact .inl ⟨hnone, by rw [hleft]⟩
    · exact .inr ⟨i, j, d, s₁, hi, hj, hsegment, by rw [hleft]⟩
  · rw [htrim.apply _ hleft, Sequence.trimmed_trimmed]
  · rw [startsWith_apply hdecides, TokenStore.items_setItems s h.known,
      Sequence.any_head?_trimmed]
  · rw [endsWith_apply hdecides, TokenStore.items_setItems s h.known,
      Sequence.any_getLast?_trimmed]

/-- From the first word to the second. -/
theorem gappedStore_trim :
    ∃ d s₁ s', segment 0 (.int 1) (.int 4) gappedStore = (.ok d, s₁) ∧
      trim 0 (.int 1) gappedStore = (.ok (), s') ∧ s' = gappedStore.setItems 0 (s₁.items d) ∧
      startsWith 0 (.int 1) s' = (.ok false, s') ∧ endsWith 0 (.int 1) s' = (.ok false, s') := by
  have hcomma : gappedStore.isOfKind (.int 1) (.shared (.token 0)) = .ok true := rfl
  have hword : gappedStore.isOfKind (.int 1) (.shared (.token 1)) = .ok false := rfl
  obtain ⟨s', htrim, hstretch, -, -, -, hstart, hend, -⟩ :=
    trim_keeps_stretch gappedStore_hasTokens (gappedStore_keepsKind (.int 1))
  have hone : 1 ∈ {i : Nat | ∃ x ∈ (gappedStore.items 0)[i]?,
      gappedStore.isOfKind (.int 1) x = .ok false} := ⟨_, rfl, hword⟩
  have hfour : 4 ∈ {i : Nat | ∃ x ∈ (gappedStore.items 0)[i]?,
      gappedStore.isOfKind (.int 1) x = .ok false} := ⟨_, rfl, hword⟩
  obtain ⟨hnone, -⟩ | ⟨i, j, d, s₁, hfirst, hlast, hsegment, hs'⟩ := hstretch
  · exact absurd hone (Set.eq_empty_iff_forall_notMem.mp hnone 1)
  obtain rfl : i = 1 := by
    refine Nat.le_antisymm (hfirst.2 hone) (Nat.one_le_iff_ne_zero.mpr ?_)
    rintro rfl
    obtain ⟨x, hx, hother⟩ := hfirst.1
    cases hx
    exact nomatch hcomma.symm.trans hother
  obtain rfl : j = 4 := by
    obtain ⟨x, hx, hother⟩ := hlast.1
    have hlt : j < 6 := (List.getElem?_eq_some_iff.mp hx).1
    have hne : j ≠ 5 := by
      rintro rfl
      cases hx
      exact nomatch hcomma.symm.trans hother
    have hle : 4 ≤ j := hlast.2 hfour
    omega
  exact ⟨d, s₁, s', hsegment, htrim, hs', hstart, hend⟩

/-- **A kind that changes with the collection can leave nothing of the stretch.** Only the second of
two tokens is not of the kind, so a cut from it to itself has this token in it. But once the first
token is gone the second one is of the kind, and trimming takes it as well. -/
theorem loopedStore_trim :
    loopedStore.HasTokens 0 ∧
      {i : Nat | ∃ x ∈ (loopedStore.items 0)[i]?, loopedStore.isOfKind loopedKind x = .ok false} =
        {1} ∧
      (∃ d s₁, segment 0 (.int 1) (.int 1) loopedStore = (.ok d, s₁) ∧
        s₁.items d = [.shared (.token 1)]) ∧
      ∃ s', trim 0 loopedKind loopedStore = (.ok (), s') ∧ s'.items 0 = [] := by
  obtain ⟨hfirst, hsecond⟩ := loopedStore_hasKind
  have hof : ∀ x ∈ loopedStore.items 0, (loopedStore.isOfKind loopedKind x = .ok false ↔
      loopedStore.hasKind loopedKind x = false) := fun x hx =>
    (loopedStore_hasTokens.tokens x hx).isOfKind_eq_ok_iff
  refine ⟨loopedStore_hasTokens, Set.ext fun i => ?_, exists_segment loopedStore_hasTokens 1 1,
    _, loopedStore_trim_apply, rfl⟩
  rw [Set.mem_singleton_iff]
  constructor
  · rintro ⟨x, hx, hother⟩
    rw [hof x (List.mem_of_getElem? hx)] at hother
    match i with
    | 0 =>
        cases hx
        exact nomatch hfirst.symm.trans hother
    | 1 => rfl
    | i + 2 => cases hx
  · rintro rfl
    exact ⟨_, rfl, (hof _ (List.mem_of_getElem? (i := 1) rfl)).mpr hsecond⟩

end Collection

end SymbolMachine
