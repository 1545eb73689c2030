/-
When an item without a kind is noticed.

A collection may hold items that are no tokens. Such an item has no kind, and an operation by kind
fails as soon as it asks for it. But each operation goes along the items in its own way: removing
and splitting ask all of them, searching stops where it finds something, trimming where something
stays, and collapsing asks the item that it kept last only behind a token of the kind, so that the
very first item may never be asked.

The condition under which an operation fails is therefore another one for each of them. It is
proved for the loop, where the test is any test that may fail (`FailsWhen`), by induction on the
sequence.
-/
import SymbolMachine.Proofs.Tokens.Failing
import SymbolMachine.Proofs.Tokens.Searching

set_option autoImplicit false

namespace SymbolMachine

/-! ## Sequences -/

namespace Sequence

variable {ι α β : Type} {is : Test ι} {xs ys : List ι} {x : ι} {f : Fault}

/-- The test fails on the item. -/
def Lacks (is : Test ι) (x : ι) : Prop := ∃ f, is x = .error f

theorem not_lacks_of_ok {b : Bool} (h : is x = .ok b) : ¬Lacks is x := by
  rintro ⟨f, hf⟩
  cases h.symm.trans hf

/-- Along the sequence, through items that have `p`, one comes to an item that has `q`. -/
def Reaches (p q : ι → Prop) (xs : List ι) : Prop :=
  ∃ before x after, xs = before ++ x :: after ∧ (∀ y ∈ before, p y) ∧ q x

section Reaches

variable {p q : ι → Prop}

theorem not_reaches_nil : ¬Reaches p q [] := by
  rintro ⟨before, x, after, h, -⟩
  cases before <;> cases h

theorem reaches_cons : Reaches p q (x :: xs) ↔ q x ∨ p x ∧ Reaches p q xs := by
  constructor
  · rintro ⟨_ | ⟨y, before⟩, z, after, h, hbefore, hz⟩ <;> cases h
    · exact .inl hz
    · obtain ⟨hy, hbefore⟩ := List.forall_mem_cons.mp hbefore
      exact .inr ⟨hy, before, z, after, rfl, hbefore, hz⟩
  · rintro (hx | ⟨hx, before, y, after, rfl, hbefore, hy⟩)
    · exact ⟨[], x, xs, rfl, List.forall_mem_nil _, hx⟩
    · exact ⟨x :: before, y, after, rfl, List.forall_mem_cons.mpr ⟨hx, hbefore⟩, hy⟩

end Reaches

/-- Under a condition the outcome is what the test says of one of the items that it fails on, and
otherwise it is an answer. -/
def FailsWhen (is : Test ι) (xs : List ι) (condition : Prop) (r : Except Fault α) : Prop :=
  (condition ∧ ∃ x ∈ xs, ∃ f, is x = .error f ∧ r = .error f) ∨ (¬condition ∧ ∃ a, r = .ok a)

namespace FailsWhen

variable {condition condition' : Prop} {r : Except Fault α}

theorem fail (hcondition : condition) (hmem : x ∈ xs) (hx : is x = .error f) :
    FailsWhen is xs condition (.error f : Except Fault α) :=
  .inl ⟨hcondition, x, hmem, f, hx, rfl⟩

theorem answer (hcondition : ¬condition) (a : α) :
    FailsWhen is xs condition (.ok a : Except Fault α) :=
  .inr ⟨hcondition, a, rfl⟩

/-- What is made of the answer does not matter. -/
theorem map (h : FailsWhen is xs condition r) (g : α → β) :
    FailsWhen is xs condition (g <$> r) := by
  rcases h with ⟨hcondition, x, hmem, f, hx, rfl⟩ | ⟨hcondition, a, rfl⟩
  · exact fail hcondition hmem hx
  · exact answer hcondition (g a)

theorem mono (h : FailsWhen is xs condition r) (hsub : xs ⊆ ys)
    (hcondition : condition ↔ condition') : FailsWhen is ys condition' r := by
  rcases h with ⟨hc, x, hmem, hx⟩ | ⟨hc, ha⟩
  · exact .inl ⟨hcondition.mp hc, x, hsub hmem, hx⟩
  · exact .inr ⟨mt hcondition.mpr hc, ha⟩

end FailsWhen

/-! ### One lemma for each loop -/

/-- Behind an item that answers, only the others can be among those that do not. -/
theorem exists_lacks_cons {b : Bool} (h : is x = .ok b) :
    (∃ y ∈ x :: xs, Lacks is y) ↔ ∃ y ∈ xs, Lacks is y := by
  rw [List.exists_mem_cons_iff, or_iff_right (not_lacks_of_ok h)]

theorem failsWhen_without (is : Test ι) (xs : List ι) :
    FailsWhen is xs (∃ x ∈ xs, Lacks is x) (without is xs) := by
  induction xs with
  | nil => exact .answer (fun ⟨_, h, _⟩ => List.not_mem_nil h) []
  | cons x xs ih =>
      rw [without]
      rcases hx : is x with f | b
      · exact .fail ⟨x, List.mem_cons_self .., f, hx⟩ (List.mem_cons_self ..) hx
      · exact (ih.mono (List.subset_cons_self ..) (exists_lacks_cons hx).symm).map _

theorem failsWhen_groups (is : Test ι) (xs : List ι) :
    FailsWhen is xs (∃ x ∈ xs, Lacks is x) (groups is xs) := by
  induction xs with
  | nil => exact .answer (fun ⟨_, h, _⟩ => List.not_mem_nil h) [[]]
  | cons x xs ih =>
      rw [groups]
      rcases hx : is x with f | b
      · exact .fail ⟨x, List.mem_cons_self .., f, hx⟩ (List.mem_cons_self ..) hx
      · exact (ih.mono (List.subset_cons_self ..) (exists_lacks_cons hx).symm).map _

/-- A search goes on behind the items that do not pass. -/
theorem failsWhen_findFrom (is : Test ι) (i : Nat) (xs : List ι) :
    FailsWhen is xs (Reaches (fun x => is x ≠ .ok true) (Lacks is) xs) (findFrom is i xs) := by
  induction xs generalizing i with
  | nil => exact .answer not_reaches_nil none
  | cons x xs ih =>
      rw [findFrom]
      rcases hx : is x with f | _ | _
      · exact .fail (reaches_cons.mpr (.inl ⟨f, hx⟩)) (List.mem_cons_self ..) hx
      · refine (ih (i + 1)).mono (List.subset_cons_self ..) ?_
        rw [reaches_cons, or_iff_right (not_lacks_of_ok hx), hx]
        exact (and_iff_right (by rintro ⟨⟩)).symm
      · refine .answer (fun h => ?_) (some i)
        rcases reaches_cons.mp h with hlacks | ⟨hpass, -⟩
        · exact not_lacks_of_ok hx hlacks
        · exact hpass hx

/-- Trimming goes on behind the items that pass. -/
theorem failsWhen_trimStart (is : Test ι) (xs : List ι) :
    FailsWhen is xs (Reaches (fun x => is x = .ok true) (Lacks is) xs) (trimStart is xs) := by
  induction xs with
  | nil => exact .answer not_reaches_nil []
  | cons x xs ih =>
      rw [trimStart]
      rcases hx : is x with f | _ | _
      · exact .fail (reaches_cons.mpr (.inl ⟨f, hx⟩)) (List.mem_cons_self ..) hx
      · refine .answer (fun h => ?_) (x :: xs)
        rcases reaches_cons.mp h with hlacks | ⟨hpass, -⟩
        · exact not_lacks_of_ok hx hlacks
        · cases hx.symm.trans hpass
      · refine ih.mono (List.subset_cons_self ..) ?_
        rw [reaches_cons, or_iff_right (not_lacks_of_ok hx), and_iff_right hx]

theorem failsWhen_trimEnd (is : Test ι) (xs : List ι) :
    FailsWhen is xs (Reaches (fun x => is x = .ok true) (Lacks is) xs.reverse) (trimEnd is xs) :=
  ((failsWhen_trimStart is xs.reverse).map _).mono (List.reverse_subset.mpr (List.Subset.refl xs))
    Iff.rfl

/-- The kept item `last` is asked only if the first item behind it passes; what is kept later has
been asked before. -/
theorem failsWhen_collapseAfter (is : Test ι) (last : ι) (xs : List ι) :
    FailsWhen is (last :: xs)
      ((∃ x ∈ xs, Lacks is x) ∨ Lacks is last ∧ ∃ x ∈ xs.head?, is x = .ok true)
      (collapseAfter is last xs) := by
  induction xs generalizing last with
  | nil =>
      refine .answer ?_ []
      rintro (⟨_, ⟨⟩, _⟩ | ⟨_, _, ⟨⟩, _⟩)
  | cons x xs ih =>
      -- Behind an item that answers, the others decide.
      have hrest : ∀ {z : ι} {b : Bool}, is z = .ok b →
          FailsWhen is (z :: xs) (∃ y ∈ xs, Lacks is y) (collapseAfter is z xs) := fun hz =>
        (ih _).mono (List.Subset.refl _) (or_iff_left fun h => not_lacks_of_ok hz h.1)
      have hmem : x ∈ last :: x :: xs := List.mem_cons_of_mem _ (List.mem_cons_self ..)
      rw [collapseAfter]
      rcases hx : is x with f | _ | _
      · exact .fail (.inl ⟨x, List.mem_cons_self .., f, hx⟩) hmem hx
      · refine ((hrest hx).map _).mono (List.subset_cons_self ..) ?_
        rw [exists_lacks_cons hx, or_iff_left]
        rintro ⟨-, y, ⟨⟩, hy⟩
        cases hx.symm.trans hy
      · have hhead : ∃ y ∈ (x :: xs).head?, is y = .ok true := ⟨x, rfl, hx⟩
        have hcondition : ∀ {b : Bool}, is last = .ok b →
            ((∃ y ∈ xs, Lacks is y) ↔ (∃ y ∈ x :: xs, Lacks is y) ∨
              Lacks is last ∧ ∃ y ∈ (x :: xs).head?, is y = .ok true) := fun hlast => by
          rw [exists_lacks_cons hx, or_iff_left fun h => not_lacks_of_ok hlast h.1]
        rcases hlast : is last with f | _ | _
        · exact .fail (.inr ⟨⟨f, hlast⟩, hhead⟩) (List.mem_cons_self ..) hlast
        · exact ((hrest hx).map _).mono (List.subset_cons_self ..) (hcondition hlast)
        · exact (hrest hlast).mono (List.cons_subset_cons _ (List.subset_cons_self ..))
            (hcondition hlast)

theorem failsWhen_collapse (is : Test ι) (xs : List ι) :
    FailsWhen is xs
      ((∃ x ∈ xs.tail, Lacks is x) ∨
        ∃ x y rest, xs = x :: y :: rest ∧ Lacks is x ∧ is y = .ok true)
      (collapse is xs) := by
  cases xs with
  | nil =>
      refine .answer ?_ []
      rintro (⟨_, ⟨⟩, _⟩ | ⟨_, _, _, ⟨⟩, _⟩)
  | cons x xs =>
      refine ((failsWhen_collapseAfter is x xs).map _).mono (List.Subset.refl _)
        (or_congr Iff.rfl ⟨?_, ?_⟩)
      · rintro ⟨hlacks, y, hy, hpass⟩
        cases xs with
        | nil => cases hy
        | cons z rest =>
            obtain rfl : z = y := Option.some.inj hy
            exact ⟨x, z, rest, rfl, hlacks, hpass⟩
      · rintro ⟨_, y, rest, ⟨⟩, hlacks, hpass⟩
        exact ⟨hlacks, y, rfl, hpass⟩

theorem failsWhen_startsWith (is : Test ι) (xs : List ι) :
    FailsWhen is xs (∃ x ∈ xs.head?, Lacks is x) (startsWith is xs) := by
  cases xs with
  | nil => exact .answer (by rintro ⟨_, ⟨⟩, _⟩) false
  | cons x xs =>
      rw [startsWith]
      rcases hx : is x with f | b
      · exact .fail ⟨x, rfl, f, hx⟩ (List.mem_cons_self ..) hx
      · refine .answer ?_ b
        rintro ⟨_, ⟨⟩, hlacks⟩
        exact not_lacks_of_ok hx hlacks

theorem failsWhen_endsWith (is : Test ι) (xs : List ι) :
    FailsWhen is xs (∃ x ∈ xs.getLast?, Lacks is x) (endsWith is xs) := by
  have hreverse := failsWhen_startsWith is xs.reverse
  rw [List.head?_reverse] at hreverse
  exact hreverse.mono (List.reverse_subset.mpr (List.Subset.refl xs)) Iff.rfl

end Sequence

/-! ## Items without a kind -/

namespace TokenStore

variable {s : TokenStore} {kind x : Value} {f : Fault}

/-- What is no token is asked in vain for its kind. -/
theorem isOfKind_eq_error_iff :
    s.isOfKind kind x = .error f ↔ s.token? x = none ∧ f = .noAttribute x.typeName "type" := by
  rw [isOfKind_apply]
  cases s.token? x with
  | none =>
      exact ⟨fun h => ⟨rfl, (Except.error.inj h).symm⟩, fun h => congrArg Except.error h.2.symm⟩
  | some t => exact ⟨by rintro ⟨⟩, by rintro ⟨⟨⟩, -⟩⟩

theorem lacks_isOfKind : Sequence.Lacks (s.isOfKind kind) = fun x => s.token? x = none := by
  funext x
  refine propext ⟨fun ⟨f, hf⟩ => (isOfKind_eq_error_iff.mp hf).1, fun h => ?_⟩
  exact ⟨.noAttribute x.typeName "type", isOfKind_eq_error_iff.mpr ⟨h, rfl⟩⟩

end TokenStore

/-! ## Collections -/

namespace Collection

variable {α : Type} {c : CollectionId} {s : TokenStore} {kind : Value}

/-- Exactly under a condition the computation raises the error of a missing attribute. It blames an
item that is no token, and there is nothing else that it could fail of. -/
structure Notices (s : TokenStore) (xs : List Value) (condition : Prop)
    (e : Effect TokenStore α) : Prop where
  raises_iff : (∃ f, (e s).1 = .error (.fault f) ∧ f.kind = "AttributeError") ↔ condition
  answers : ¬condition → ∃ a, (e s).1 = .ok a
  blames : ∀ stop, (e s).1 = .error stop →
    ∃ x ∈ xs, s.token? x = none ∧ stop = .fault (.noAttribute x.typeName "type")

/-- The operation fails where its loop fails. -/
theorem Notices.of_failsWhen {β : Type} {xs : List Value} {condition : Prop} {r : Except Fault β}
    {e : Effect TokenStore α} (h : Sequence.FailsWhen (s.isOfKind kind) xs condition r)
    (hanswer : ∀ b, r = .ok b → ∃ a, (e s).1 = .ok a)
    (hfail : ∀ f, r = .error f → (e s).1 = .error (.fault f)) : Notices s xs condition e := by
  rcases h with ⟨hcondition, x, hmem, f, hx, hr⟩ | ⟨hcondition, b, hr⟩
  · obtain ⟨hkindless, rfl⟩ := TokenStore.isOfKind_eq_error_iff.mp hx
    have hfault := hfail _ hr
    refine ⟨iff_of_true ⟨_, hfault, rfl⟩ hcondition, absurd hcondition, fun stop hstop => ?_⟩
    exact ⟨x, hmem, hkindless, (Except.error.inj (hfault.symm.trans hstop)).symm⟩
  · obtain ⟨a, ha⟩ := hanswer b hr
    refine ⟨iff_of_false ?_ hcondition, fun _ => ⟨a, ha⟩, fun stop hstop => ?_⟩
    · rintro ⟨f, hf, -⟩
      cases ha.symm.trans hf
    · cases ha.symm.trans hstop

theorem notices_editByKind {f : Sequence.Test Value → List Value → Except Fault (List Value)}
    {condition : Prop}
    (h : Sequence.FailsWhen (s.isOfKind kind) (s.items c) condition
      (f (s.isOfKind kind) (s.items c))) :
    Notices s (s.items c) condition (kindTest kind >>= fun is => edit c (f is)) := by
  refine .of_failsWhen h (fun ys hys => ?_) fun g hg => ?_ <;>
    rcases editByKind_cases c kind s f with ⟨g', hg', heq⟩ | ⟨ys', hys', heq⟩ <;> rw [heq]
  · cases hys.symm.trans hg'
  · exact ⟨(), rfl⟩
  · cases hg.symm.trans hg'
    rfl
  · cases hg.symm.trans hys'

/-- An operation that asks the items and changes nothing. -/
theorem notices_of_looking {r : Except Fault α} {condition : Prop} {e : Effect TokenStore α}
    {xs : List Value} (h : Sequence.FailsWhen (s.isOfKind kind) xs condition r)
    (he : e s = (r.mapError .fault, s)) : Notices s xs condition e := by
  refine .of_failsWhen h (fun a ha => ⟨a, ?_⟩) fun f hf => ?_
  · rw [he, ha]
    rfl
  · rw [he, hf]
    rfl

/-- Whatever they hold, collections can be made. -/
theorem exists_mapM_new (gs : List (List Value)) (s : TokenStore) :
    ∃ ds, (gs.mapM new s).1 = .ok ds := by
  induction gs generalizing s with
  | nil => exact ⟨[], rfl⟩
  | cons g gs ih =>
      rw [List.mapM_cons]
      obtain ⟨d, s₁, hnew⟩ : ∃ d s₁, new g s = (.ok d, s₁) := ⟨_, _, rfl⟩
      obtain ⟨ds, hds⟩ := ih s₁
      have hrest : gs.mapM new s₁ = (.ok ds, (gs.mapM new s₁).2) := Prod.ext hds rfl
      refine ⟨d :: ds, ?_⟩
      rw [Effect.bind_apply_of_ok s hnew, Effect.bind_apply_of_ok s₁ hrest]
      rfl

theorem notices_split (c : CollectionId) (kind : Value) (withEmpty : Bool) (s : TokenStore) :
    Notices s (s.items c) (∃ x ∈ s.items c, s.token? x = none) (split c kind withEmpty) := by
  have hloop := Sequence.failsWhen_groups (s.isOfKind kind) (s.items c)
  rw [TokenStore.lacks_isOfKind] at hloop
  refine .of_failsWhen hloop (fun gs hgs => ?_) fun f hf => ?_
  · rw [split_eq_bind, hgs]
    exact exists_mapM_new _ s
  · rw [split_eq_bind, hf]
    rfl

/-- **When an item that is no token is noticed.** Removing and splitting notice any such item. A
search notices the first one in its window, if no token of the kind is before it. Trimming notices
it if only tokens of the kind are before it, from the side where it trims. Collapsing notices all
but the first item, and the first one if the second is a token of the kind. Whether a collection
starts or ends with a kind depends on one item. In all other cases there is an answer. -/
theorem notices_kindless (c : CollectionId) (kind : Value) (s : TokenStore) :
    let xs := s.items c
    let kindless := fun x => s.token? x = none
    let ofKind := fun x => s.isOfKind kind x = .ok true
    Notices s xs (∃ x ∈ xs, kindless x) (removeKind c kind) ∧
    (∀ withEmpty, Notices s xs (∃ x ∈ xs, kindless x) (split c kind withEmpty)) ∧
    (∀ (start : Nat) (count : Option Int),
      let stop := (Window.stopOf xs.length start count).toNat
      Notices s xs
        (Sequence.Reaches (fun x => ¬ofKind x) kindless ((Window.Range.mk start stop).cut xs))
        (findKind c kind (.int start) (count.map .int))) ∧
    Notices s xs (Sequence.Reaches ofKind kindless xs) (trimStart c kind) ∧
    Notices s xs (Sequence.Reaches ofKind kindless xs.reverse) (trimEnd c kind) ∧
    Notices s xs
      ((∃ x ∈ xs.tail, kindless x) ∨ ∃ x y rest, xs = x :: y :: rest ∧ kindless x ∧ ofKind y)
      (collapseKind c kind) ∧
    Notices s xs (∃ x ∈ xs.head?, kindless x) (startsWith c kind) ∧
    Notices s xs (∃ x ∈ xs.getLast?, kindless x) (endsWith c kind) := by
  intro xs kindless ofKind
  have hkindless : Sequence.Lacks (s.isOfKind kind) = kindless := TokenStore.lacks_isOfKind
  refine ⟨?remove, fun withEmpty => notices_split c kind withEmpty s, fun start count => ?find,
    ?trimStart, ?trimEnd, ?collapse, ?starts, ?ends⟩
  case remove => exact notices_editByKind (hkindless ▸ Sequence.failsWhen_without _ _)
  case find =>
    intro stop
    have hloop := Sequence.failsWhen_findFrom (s.isOfKind kind) start
      ((Window.Range.mk start stop).cut xs)
    rw [hkindless] at hloop
    have hwindow : (Window.Range.mk start stop).cut xs ⊆ xs := fun x hx =>
      List.mem_of_mem_take (List.mem_of_mem_drop hx)
    exact notices_of_looking (hloop.mono hwindow Iff.rfl) (findKind_apply_int c kind s start count)
  case trimStart => exact notices_editByKind (hkindless ▸ Sequence.failsWhen_trimStart _ _)
  case trimEnd => exact notices_editByKind (hkindless ▸ Sequence.failsWhen_trimEnd _ _)
  case collapse => exact notices_editByKind (hkindless ▸ Sequence.failsWhen_collapse _ _)
  case starts =>
    refine notices_of_looking (hkindless ▸ Sequence.failsWhen_startsWith _ _) ?_
    rw [startsWith_eq_ofExcept, Effect.ofExcept_apply]
  case ends =>
    refine notices_of_looking (hkindless ▸ Sequence.failsWhen_endsWith _ _) ?_
    rw [endsWith_eq_ofExcept, Effect.ofExcept_apply]

end Collection

end SymbolMachine
