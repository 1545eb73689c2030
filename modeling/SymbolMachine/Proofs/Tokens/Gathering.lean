/-
Gathering text in a collection of tokens.

Two actions collect what a machine reads: one starts a token with a symbol, the other puts the
symbol behind the lexeme of the last token. Here they are edits of a list of pieces, and
`Gathering.apply` says which. The collection itself holds references to cells of a store that
others may refer to as well, so besides the edit it has to be said what else changes: nothing
but the lexeme of the token that was the last (`TokenStore.Gathered`).
-/
import SymbolMachine.Tokens.Collection
import SymbolMachine.Proofs.Effect
import Mathlib.Data.List.Nodup

set_option autoImplicit false

namespace SymbolMachine

/-! ## Symbols -/

namespace Value

/-- The plain text of a value that is no collection. -/
def shown : Value → String
  | str s => s
  | member m => m.text
  | intMember m => toString m.number
  | v => v.quoted

/-- A symbol whose text is always there and always the same. -/
structure Steady (x : Value) : Prop where
  closed : x.isClosed = true
  plain : ∀ xs, x ≠ .collection xs

theorem Steady.text_eq {x : Value} (hx : x.Steady) : x.text = .ok x.shown := by
  cases x with
  | collection xs => exact absurd rfl (hx.plain xs)
  | _ => rfl

/-- In no store anything is put in the place of a part of it. -/
theorem Steady.textOf_apply {x : Value} (hx : x.Steady) (s : TokenStore) :
    Collection.textOf x s = (.ok x.shown, s) := by
  rw [Collection.textOf, Effect.bind_apply_of_ok s (Effect.get_apply s),
    s.read_of_isClosed hx.closed, hx.text_eq]
  rfl

end Value

/-! ## Pieces -/

/-- A token whose lexeme is a text. -/
structure Piece where
  kind : Value
  lexeme : String

namespace Piece

/-- The token in its cell. -/
def token (t : Piece) : Token := ⟨t.kind, .str t.lexeme⟩

/-- The piece with more text. -/
def grow (t : Piece) (text : String) : Piece := { t with lexeme := t.lexeme ++ text }

/-- The text that is gathered in some pieces. -/
def textOf (ts : List Piece) : String := String.join (ts.map lexeme)

theorem textOf_append (ts us : List Piece) : textOf (ts ++ us) = textOf ts ++ textOf us := by
  rw [textOf, List.map_append, String.join_append]
  rfl

theorem textOf_singleton (t : Piece) : textOf [t] = t.lexeme := by
  rw [textOf, List.map_singleton, String.join_cons, String.join_nil, String.append_empty]

end Piece

/-- What an action does with its symbol: it starts a token, or extends the last. -/
inductive Gathering
  | emit (kind : Value)
  | extend

namespace Gathering

/-- Performs the action on a collection. -/
def perform (c : CollectionId) : Gathering → Value → Effect TokenStore Unit
  | emit kind => Collection.emit c kind
  | extend => Collection.extend c

/-- Whatever the store holds, the action comes to an end. -/
theorem settles_perform (c : CollectionId) (g : Gathering) (x : Value) :
    (g.perform c x).Settles := by
  have htext : (Collection.textOf x).Settles := .bind .get fun _ => .ofExcept _
  cases g with
  | emit kind =>
      have hadd : ∀ text, (Collection.add c kind text).Settles := fun text =>
        .bind .get fun _ => .bind (.set _) fun _ => .pure _
      exact .bind htext fun text => .bind (hadd text) fun _ => .pure _
  | extend =>
      have hlast : (Collection.last c).Settles := by
        refine .bind .get fun s => ?_
        cases s.last? c with
        | none => exact .raise _
        | some x => exact .pure x
      refine .bind hlast fun y => .bind .get fun s => .bind (.ofExcept _) fun lexeme =>
        .bind htext fun text => ?_
      split
      · exact .modify _
      · exact .bind (.ofExcept _) fun _ => .modify _

/-- What the action makes of the pieces so far. -/
def apply (text : String) (ts : List Piece) : Gathering → List Piece
  | emit kind => ts ++ [⟨kind, text⟩]
  | extend => ts.dropLast ++ (ts.getLast?.map (·.grow text)).toList

/-- The kinds of the tokens that are started. -/
def kinds : Gathering → List Value
  | emit kind => [kind]
  | extend => []

/-- Whether a token is started. -/
def starts : Gathering → Bool
  | emit _ => true
  | extend => false

theorem apply_extend (ts : List Piece) (t : Piece) (text : String) :
    extend.apply text (ts ++ [t]) = ts ++ [t.grow text] := by
  rw [apply, List.dropLast_concat, List.getLast?_concat]
  rfl

/-- The two ways of an action that has what it needs. -/
theorem apply_cases {g : Gathering} {ts : List Piece} (hg : g = .extend → ts ≠ [])
    (text : String) :
    (∃ kind, g = .emit kind ∧ g.apply text ts = ts ++ [⟨kind, text⟩]) ∨
      ∃ us t, g = .extend ∧ ts = us ++ [t] ∧ g.apply text ts = us ++ [t.grow text] := by
  cases g with
  | emit kind => exact .inl ⟨kind, rfl, rfl⟩
  | extend =>
      obtain ⟨us, t, rfl⟩ := (List.eq_nil_or_concat' ts).resolve_left (hg rfl)
      exact .inr ⟨us, t, rfl, rfl, apply_extend us t text⟩

section Apply

variable {g : Gathering} {ts : List Piece} (hg : g = .extend → ts ≠ []) (text : String)
include hg

theorem apply_ne_nil : g.apply text ts ≠ [] := by
  obtain ⟨_, -, heq⟩ | ⟨_, _, -, -, heq⟩ := apply_cases hg text
  · rw [heq]
    exact List.append_ne_nil_of_right_ne_nil _ (List.cons_ne_nil _ _)
  · rw [heq]
    exact List.append_ne_nil_of_right_ne_nil _ (List.cons_ne_nil _ _)

/-- No text is lost. -/
theorem textOf_apply : Piece.textOf (g.apply text ts) = Piece.textOf ts ++ text := by
  obtain ⟨_, -, heq⟩ | ⟨us, t, -, rfl, heq⟩ := apply_cases hg text
  · rw [heq, Piece.textOf_append, Piece.textOf_singleton]
  · rw [heq, Piece.textOf_append, Piece.textOf_append, Piece.textOf_singleton,
      Piece.textOf_singleton, String.append_assoc]
    rfl

theorem kinds_apply : (g.apply text ts).map Piece.kind = ts.map Piece.kind ++ g.kinds := by
  obtain ⟨kind, rfl, heq⟩ | ⟨us, t, rfl, rfl, heq⟩ := apply_cases hg text
  · rw [heq, List.map_append]
    rfl
  · rw [heq, List.map_append, List.map_append, kinds, List.append_nil]
    rfl

end Apply

end Gathering

/-! ## One action after another -/

/-- What some actions with their texts make of some pieces. -/
def gather (ts : List Piece) (steps : List (Gathering × String)) : List Piece :=
  steps.foldl (fun ts step => step.1.apply step.2 ts) ts

/-- The first action would extend the last of no pieces. -/
def StartsBare (ts : List Piece) (steps : List (Gathering × String)) : Prop :=
  ts = [] ∧ ∃ text, steps.head? = some (.extend, text)

section Gather

variable {ts : List Piece} {g : Gathering} {text : String} {steps : List (Gathering × String)}

@[simp] theorem gather_nil : gather ts [] = ts := rfl

@[simp] theorem gather_cons :
    gather ts ((g, text) :: steps) = gather (g.apply text ts) steps := rfl

theorem gather_append (later : List (Gathering × String)) :
    gather ts (steps ++ later) = gather (gather ts steps) later :=
  List.foldl_append

theorem not_startsBare_of_ne_nil (hts : ts ≠ []) : ¬StartsBare ts steps := fun h => hts h.1

theorem not_startsBare_cons_iff :
    ¬StartsBare ts ((g, text) :: steps) ↔ (g = .extend → ts ≠ []) := by
  constructor
  · intro hbare hg hts
    exact hbare ⟨hts, text, by rw [hg]; rfl⟩
  · rintro hg ⟨hts, text', hhead⟩
    cases hhead
    exact hg rfl hts

/-- Behind the first piece there is always a last one. -/
theorem gather_ne_nil (hsteps : ¬StartsBare ts steps) (hne : ts ≠ [] ∨ steps ≠ []) :
    gather ts steps ≠ [] := by
  induction steps generalizing ts with
  | nil => exact hne.resolve_right fun h => h rfl
  | cons step steps ih =>
      have happly := Gathering.apply_ne_nil (not_startsBare_cons_iff.mp hsteps) step.2
      exact ih (not_startsBare_of_ne_nil happly) (.inl happly)

theorem not_startsBare_append_iff {later : List (Gathering × String)} :
    ¬StartsBare ts (steps ++ later) ↔
      ¬StartsBare ts steps ∧ ¬StartsBare (gather ts steps) later := by
  cases steps with
  | nil =>
      have hnone : ¬StartsBare ts [] := by rintro ⟨-, _, ⟨⟩⟩
      exact (and_iff_right hnone).symm
  | cons step steps =>
      rw [List.cons_append, not_startsBare_cons_iff]
      constructor
      · intro hstep
        have hsteps : ¬StartsBare ts (step :: steps) := not_startsBare_cons_iff.mpr hstep
        exact ⟨hsteps, not_startsBare_of_ne_nil
          (gather_ne_nil hsteps (.inr (List.cons_ne_nil _ _)))⟩
      · rintro ⟨hsteps, -⟩
        exact not_startsBare_cons_iff.mp hsteps

/-- **No text is lost**, and none is gathered twice. -/
theorem textOf_gather (hsteps : ¬StartsBare ts steps) :
    Piece.textOf (gather ts steps) = Piece.textOf ts ++ String.join (steps.map Prod.snd) := by
  induction steps generalizing ts with
  | nil => rw [gather_nil, List.map_nil, String.join_nil, String.append_empty]
  | cons step steps ih =>
      have hstep := not_startsBare_cons_iff.mp hsteps
      have hrest := ih (not_startsBare_of_ne_nil (Gathering.apply_ne_nil hstep step.2))
      rw [gather_cons, hrest, Gathering.textOf_apply hstep, List.map_cons, String.join_cons,
        String.append_assoc]

/-- Kinds are only added. -/
theorem kinds_gather (hsteps : ¬StartsBare ts steps) :
    (gather ts steps).map Piece.kind = ts.map Piece.kind ++ steps.flatMap (·.1.kinds) := by
  induction steps generalizing ts with
  | nil => rw [gather_nil, List.flatMap_nil, List.append_nil]
  | cons step steps ih =>
      have hstep := not_startsBare_cons_iff.mp hsteps
      have hrest := ih (not_startsBare_of_ne_nil (Gathering.apply_ne_nil hstep step.2))
      rw [gather_cons, hrest, Gathering.kinds_apply hstep, List.flatMap_cons, List.append_assoc]

theorem length_gather (hsteps : ¬StartsBare ts steps) :
    (gather ts steps).length = ts.length + steps.countP (·.1.starts) := by
  have hcount : ∀ steps : List (Gathering × String),
      (steps.flatMap (·.1.kinds)).length = steps.countP (·.1.starts) := by
    intro steps
    induction steps with
    | nil => rfl
    | cons step steps ih =>
        obtain ⟨kind | _, _⟩ := step
        · rw [List.flatMap_cons, List.length_append, ih, List.countP_cons_of_pos rfl, Nat.add_comm]
          rfl
        · rw [List.flatMap_cons, List.length_append, ih, List.countP_cons_of_neg Bool.false_ne_true]
          exact Nat.zero_add _
  have hlength := congrArg List.length (kinds_gather hsteps)
  rwa [List.length_append, List.length_map, List.length_map, hcount] at hlength

end Gather

/-! ## Pieces in a store -/

namespace TokenStore

/-- A collection holds some pieces: its items refer to their cells, each to another. -/
structure Holds (s : TokenStore) (c : CollectionId) (is : List Nat) (ts : List Piece) : Prop where
  known : c < s.collections.size
  items : s.items c = is.map fun i => .shared (.token i)
  distinct : is.Nodup
  cells : is.map (s.cells[·]?) = ts.map fun t => some t.token

/-- What is left of a store when text was gathered in one of its collections. Behind its old
items are new ones, which have new cells. Of the old cells no kind has changed, and no lexeme
but that of the last item. Nothing else has changed. -/
structure Gathered (s₀ : TokenStore) (c : CollectionId) (is : List Nat) (s : TokenStore)
    (js : List Nat) (ts : List Piece) : Prop where
  holds : s.Holds c (is ++ js) ts
  size_le : s₀.cells.size ≤ s.cells.size
  new : ∀ j ∈ js, s₀.cells.size ≤ j
  kinds : ∀ (i : Nat) (t : Token), s₀.cells[i]? = some t →
    ∃ lexeme, s.cells[i]? = some { t with lexeme }
  spared : ∀ i < s₀.cells.size, is.getLast? ≠ some i → s.cells[i]? = s₀.cells[i]?
  others : ∀ d ≠ c, s.items d = s₀.items d
  attached : s.attached = s₀.attached

section Holds

variable {s : TokenStore} {c : CollectionId} {is : List Nat} {ts : List Piece}

theorem Holds.length_eq (hs : s.Holds c is ts) : is.length = ts.length := by
  have hlength := congrArg List.length hs.cells
  rwa [List.length_map, List.length_map] at hlength

theorem Holds.lt_size (hs : s.Holds c is ts) {i : Nat} (hi : i ∈ is) : i < s.cells.size := by
  have hcell : s.cells[i]? ∈ ts.map fun t => some t.token :=
    hs.cells ▸ List.mem_map_of_mem hi
  obtain ⟨t, -, ht⟩ := List.mem_map.mp hcell
  exact (Array.getElem?_eq_some_iff.mp ht.symm).1

/-- The last piece has the last of the cells. -/
theorem Holds.exists_last {t : Piece} (hs : s.Holds c is (ts ++ [t])) :
    ∃ init l, is = init ++ [l] ∧ l ∉ init ∧ s.cells[l]? = some t.token ∧
      init.map (s.cells[·]?) = ts.map fun t => some t.token := by
  have hlength := hs.length_eq
  rw [List.length_append, List.length_singleton] at hlength
  have hne : is ≠ [] := by
    rintro rfl
    cases hlength
  obtain ⟨init, l, rfl⟩ := (List.eq_nil_or_concat' is).resolve_left hne
  have hcells := hs.cells
  rw [List.map_append, List.map_append] at hcells
  obtain ⟨hinit, hlast⟩ := List.append_inj' hcells rfl
  have hdistinct := List.nodup_append.mp hs.distinct
  refine ⟨init, l, rfl, fun hl => ?_, (List.cons.inj hlast).1, hinit⟩
  exact hdistinct.2.2 l hl l (List.mem_singleton_self l) rfl

/-- A new token that is added is one more piece, in a cell of its own. -/
theorem Holds.push (hs : s.Holds c is ts) (t : Piece) :
    ((s.newCell t.token).1.pushItems c [(s.newCell t.token).2]).Holds c (is ++ [s.cells.size])
      (ts ++ [t]) where
  known := by
    change c < (s.collections.modify c _).size
    rw [Array.size_modify]
    exact hs.known
  items := by
    have hknown : c < (s.newCell t.token).1.collections.size := hs.known
    rw [items_pushItems _ hknown, items_newCell, hs.items, List.map_append]
    rfl
  distinct := by
    refine List.nodup_append.mpr ⟨hs.distinct, List.nodup_singleton _, ?_⟩
    rintro i hi _ hj rfl
    have hlt := hs.lt_size hi
    rw [List.mem_singleton.mp hj] at hlt
    exact Nat.lt_irrefl _ hlt
  cells := by
    have hold : is.map ((s.cells.push t.token)[·]?) = is.map (s.cells[·]?) := by
      apply List.map_congr_left
      intro i hi
      rw [Array.getElem?_push, if_neg (Nat.ne_of_lt (hs.lt_size hi))]
    change (is ++ [s.cells.size]).map ((s.cells.push t.token)[·]?) = _
    rw [List.map_append, List.map_append, hold, hs.cells, List.map_singleton,
      Array.getElem?_push_size]
    rfl

theorem getElem?_setLexeme_self {l : Nat} {t : Token} (hl : s.cells[l]? = some t)
    (lexeme : Value) : (s.setLexeme l lexeme).cells[l]? = some { t with lexeme } := by
  change (s.cells.modify l _)[l]? = _
  rw [Array.getElem?_modify, if_pos rfl, hl]
  rfl

theorem getElem?_setLexeme_of_ne {l i : Nat} (hi : l ≠ i) (lexeme : Value) :
    (s.setLexeme l lexeme).cells[i]? = s.cells[i]? := by
  change (s.cells.modify l _)[i]? = _
  rw [Array.getElem?_modify, if_neg hi]

/-- Growing the lexeme in the last cell grows the last piece. -/
theorem Holds.grow {init : List Nat} {l : Nat} {t : Piece}
    (hs : s.Holds c (init ++ [l]) (ts ++ [t])) (text : String) :
    (s.setLexeme l (.str (t.lexeme ++ text))).Holds c (init ++ [l]) (ts ++ [t.grow text]) where
  known := hs.known
  items := hs.items
  distinct := hs.distinct
  cells := by
    obtain ⟨_, _, heq, hl, hlast, hinit⟩ := hs.exists_last
    obtain ⟨rfl, hsingle⟩ := List.append_inj' heq rfl
    obtain rfl := (List.cons.inj hsingle).1
    have hold : init.map ((s.setLexeme l (.str (t.lexeme ++ text))).cells[·]?) =
        init.map (s.cells[·]?) := by
      apply List.map_congr_left
      intro i hi
      refine getElem?_setLexeme_of_ne ?_ _
      rintro rfl
      exact hl hi
    rw [List.map_append, List.map_append, hold, hinit, List.map_singleton,
      getElem?_setLexeme_self hlast]
    rfl

/-! ## What the actions do -/

/-- There is no last item in an empty collection. -/
theorem Holds.perform_extend_nil (hs : s.Holds c is []) (x : Value) :
    Gathering.extend.perform c x s = (.error (.fault .emptyCollection), s) := by
  have hempty : is = [] := List.length_eq_zero_iff.mp hs.length_eq
  have hlast : Collection.last c s = (.error (.fault .emptyCollection), s) := by
    rw [Collection.last, Effect.bind_apply_of_ok s (Effect.get_apply s), last?_eq_getLast?_items,
      hs.items, hempty]
    rfl
  rw [Gathering.perform, Collection.extend, Effect.bind_apply_of_error s hlast]

theorem perform_emit {x : Value} (hx : x.Steady) (kind : Value) :
    (Gathering.emit kind).perform c x s =
      (.ok (), (s.newCell (Piece.mk kind x.shown).token).1.pushItems c
        [(s.newCell (Piece.mk kind x.shown).token).2]) := by
  rw [Gathering.perform, Collection.emit, Effect.bind_apply_of_ok s (hx.textOf_apply s)]
  rfl

/-- The last token of a collection gets the text of the symbol behind its own. If the symbol has no
text, nothing is changed. -/
theorem extend_apply {i : Nat} {t : Token} {l : String}
    (hlast : (s.items c).getLast? = some (.shared (.token i))) (hcell : s.cells[i]? = some t)
    (hlexeme : t.lexeme = .str l) {symbol : Value} {r : Except Stop String}
    (htext : Collection.textOf symbol s = (r, s)) :
    Collection.extend c symbol s =
      match r with
      | .ok text => (.ok (), s.setLexeme i (.str (l ++ text)))
      | .error stop => (.error stop, s) := by
  have hitem : Collection.last c s = (.ok (.shared (.token i)), s) := by
    rw [Collection.last, Effect.bind_apply_of_ok s (Effect.get_apply s), last?_eq_getLast?_items,
      hlast]
    rfl
  have hfound : s.lexemeOf (.shared (.token i)) = .ok (.str l) := by
    rw [lexemeOf, token?, hcell, ← hlexeme]
  rw [Collection.extend, Effect.bind_apply_of_ok s hitem,
    Effect.bind_apply_of_ok s (Effect.get_apply s), hfound, Effect.ofExcept_ok,
    Effect.bind_apply_of_ok s (Effect.pure_apply s _)]
  cases r with
  | ok text =>
      rw [Effect.bind_apply_of_ok s htext]
      rfl
  | error stop => rw [Effect.bind_apply_of_error s htext]

theorem Holds.perform_extend {init : List Nat} {l : Nat} {t : Piece}
    (hs : s.Holds c (init ++ [l]) (ts ++ [t])) {x : Value} (hx : x.Steady) :
    Gathering.extend.perform c x s = (.ok (), s.setLexeme l (.str (t.lexeme ++ x.shown))) := by
  obtain ⟨_, _, heq, -, hcell, -⟩ := hs.exists_last
  obtain rfl := (List.cons.inj (List.append_inj' heq rfl).2).1
  have hlast : (s.items c).getLast? = some (.shared (.token l)) := by
    rw [hs.items, List.map_append, List.map_singleton, List.getLast?_concat]
  exact extend_apply hlast hcell rfl (hx.textOf_apply s)

end Holds

/-! ## What a collection gathers -/

namespace Gathered

variable {s₀ s : TokenStore} {c : CollectionId} {is js : List Nat} {ts : List Piece}

/-- Nothing is gathered yet. -/
theorem refl (hs : s.Holds c is ts) : s.Gathered c is s [] ts where
  holds := by rwa [List.append_nil]
  size_le := Nat.le_refl _
  new := nofun
  kinds _ t ht := ⟨t.lexeme, ht⟩
  spared _ _ _ := rfl
  others _ _ := rfl
  attached := rfl

theorem push (hs : s₀.Gathered c is s js ts) (t : Piece) :
    s₀.Gathered c is ((s.newCell t.token).1.pushItems c [(s.newCell t.token).2])
      (js ++ [s.cells.size]) (ts ++ [t]) := by
  have hcells : ∀ i, i < s₀.cells.size → (s.cells.push t.token)[i]? = s.cells[i]? := by
    intro i hi
    have hlt := Nat.lt_of_lt_of_le hi hs.size_le
    rw [Array.getElem?_push, if_neg (Nat.ne_of_lt hlt)]
  refine ⟨?_, ?_, ?_, ?_, ?_, ?_, hs.attached⟩
  · rw [← List.append_assoc]
    exact hs.holds.push t
  · have hsize := hs.size_le
    change s₀.cells.size ≤ (s.cells.push t.token).size
    rw [Array.size_push]
    omega
  · intro j hj
    rcases List.mem_append.mp hj with hj | hj
    · exact hs.new j hj
    · rw [List.mem_singleton.mp hj]
      exact hs.size_le
  · intro i u hu
    have hi := (Array.getElem?_eq_some_iff.mp hu).1
    obtain ⟨lexeme, hlexeme⟩ := hs.kinds i u hu
    exact ⟨lexeme, (hcells i hi).trans hlexeme⟩
  · intro i hi hlast
    exact (hcells i hi).trans (hs.spared i hi hlast)
  · intro d hd
    rw [items_pushItems_of_ne _ (Ne.symm hd), items_newCell, hs.others d hd]

/-- The last item is the last of the old ones, or it is new. -/
theorem grow {t : Piece} (hs : s₀.Gathered c is s js (ts ++ [t])) {init : List Nat} {l : Nat}
    (hl : is ++ js = init ++ [l]) (text : String) :
    s₀.Gathered c is (s.setLexeme l (.str (t.lexeme ++ text))) js (ts ++ [t.grow text]) := by
  have hholds := hs.holds
  rw [hl] at hholds
  refine ⟨?_, ?_, hs.new, ?_, ?_, hs.others, hs.attached⟩
  · rw [hl]
    exact hholds.grow text
  · change s₀.cells.size ≤ (s.cells.modify l _).size
    rw [Array.size_modify]
    exact hs.size_le
  · intro i u hu
    obtain ⟨lexeme, hlexeme⟩ := hs.kinds i u hu
    by_cases hi : l = i
    · subst hi
      exact ⟨_, getElem?_setLexeme_self hlexeme _⟩
    · exact ⟨lexeme, (getElem?_setLexeme_of_ne hi _).trans hlexeme⟩
  · intro i hi hlast
    rw [← hs.spared i hi hlast]
    refine getElem?_setLexeme_of_ne ?_ _
    rintro rfl
    rcases List.eq_nil_or_concat' js with rfl | ⟨js', j, rfl⟩
    · rw [List.append_nil] at hl
      exact hlast (by rw [hl, List.getLast?_concat])
    · rw [← List.append_assoc] at hl
      have hj : j = l := (List.cons.inj (List.append_inj' hl rfl).2).1
      have hnew := hs.new j (List.mem_append_right js' (List.mem_singleton_self j))
      omega

/-- **An action gathers its symbol**, if it has what it needs. -/
theorem exists_perform (hs : s₀.Gathered c is s js ts) {x : Value} (hx : x.Steady) {g : Gathering}
    (hg : g = .extend → ts ≠ []) :
    ∃ s' js', g.perform c x s = (.ok (), s') ∧ s₀.Gathered c is s' js' (g.apply x.shown ts) := by
  obtain ⟨kind, rfl, heq⟩ | ⟨us, t, rfl, rfl, heq⟩ := Gathering.apply_cases hg x.shown
  · refine ⟨_, js ++ [s.cells.size], perform_emit hx kind, ?_⟩
    rw [heq]
    exact hs.push _
  · obtain ⟨init, l, hl, -, -, -⟩ := hs.holds.exists_last
    have hholds := hs.holds
    rw [hl] at hholds
    refine ⟨_, js, hholds.perform_extend hx, ?_⟩
    rw [heq]
    exact hs.grow hl x.shown

end Gathered

end TokenStore

end SymbolMachine
