/-
What the lexer's actions do to the store.

The tokens that a run has collected so far are a list, and the store that holds them is a
function of that list and of the store from before the run: the cells of the tokens stand
behind the old cells, and references to them behind the old items of the collection. An
action then is an edit of the list, and nothing is said about cells and references again.
What the collection held before does not matter.
-/
import SymbolMachine.Arithmetic.Lexer
import Mathlib.Data.List.Basic

set_option autoImplicit false

namespace SymbolMachine

/-! ## Stores with more tokens in them -/

namespace TokenStore

/-- References to some cells in a row. -/
def references (first count : Nat) : List Value :=
  (List.range count).map fun i => .shared (.token (first + i))

theorem length_references (first count : Nat) : (references first count).length = count := by
  rw [references, List.length_map, List.length_range]

theorem references_succ (first count : Nat) :
    references first (count + 1) =
      references first count ++ [.shared (.token (first + count))] := by
  rw [references, List.range_succ, List.map_append]
  rfl

/-- The store with new tokens, which are added to a collection. -/
def withTokens (s : TokenStore) (c : CollectionId) (ts : List Token) : TokenStore :=
  { s with cells := s.cells ++ ts.toArray }.pushItems c (references s.cells.size ts.length)

variable (s : TokenStore) (c : CollectionId) (ts : List Token)

theorem pushItems_nil : s.pushItems c [] = s := by
  have hmodify : s.collections.modify c (· ++ ([] : List Value)) = s.collections := by
    apply Array.ext'
    rw [Array.toList_modify]
    have hid : (fun xs : Array Value => xs ++ ([] : List Value)) = id := by
      funext xs
      apply Array.ext'
      simp
    rw [hid, List.modify_id]
  rw [pushItems, hmodify]

theorem pushItems_pushItems (xs ys : List Value) :
    (s.pushItems c xs).pushItems c ys = s.pushItems c (xs ++ ys) := by
  have hmodify : (s.collections.modify c (· ++ xs)).modify c (· ++ ys) =
      s.collections.modify c (· ++ (xs ++ ys)) := by
    apply Array.ext'
    rw [Array.toList_modify, Array.toList_modify, Array.toList_modify, List.modify_modify_eq]
    congr 1
    funext zs
    apply Array.ext'
    simp
  rw [pushItems, pushItems, pushItems, hmodify]

theorem withTokens_nil : s.withTokens c [] = s := by
  have hcells : s.cells ++ ([] : List Token).toArray = s.cells := Array.append_empty
  rw [withTokens, hcells]
  exact s.pushItems_nil c

theorem size_cells_withTokens : (s.withTokens c ts).cells.size = s.cells.size + ts.length := by
  change (s.cells ++ ts.toArray).size = _
  simp

theorem items_withTokens {c : CollectionId} (hc : c < s.collections.size) :
    (s.withTokens c ts).items c = s.items c ++ references s.cells.size ts.length :=
  items_pushItems { s with cells := s.cells ++ ts.toArray } hc _

/-- Each of the new tokens is in its cell. -/
theorem cells_withTokens (i : Nat) : (s.withTokens c ts).cells[s.cells.size + i]? = ts[i]? := by
  change (s.cells ++ ts.toArray)[s.cells.size + i]? = _
  rw [Array.getElem?_append_right (Nat.le_add_right _ _), Nat.add_sub_cancel_left,
    List.getElem?_toArray]

/-- Making a token and adding it to the collection is having one token more. -/
theorem withTokens_newCell (t : Token) :
    ((s.withTokens c ts).newCell t).1.pushItems c [((s.withTokens c ts).newCell t).2] =
      s.withTokens c (ts ++ [t]) := by
  have hcells : (s.cells ++ ts.toArray).push t = s.cells ++ (ts ++ [t]).toArray := by
    apply Array.ext'
    simp
  have hreference : ((s.withTokens c ts).newCell t).2 =
      .shared (.token (s.cells.size + ts.length)) := by
    rw [← s.size_cells_withTokens c ts]
    rfl
  change (({ s with cells := (s.cells ++ ts.toArray).push t } : TokenStore).pushItems c
    (references s.cells.size ts.length)).pushItems c [_] = _
  rw [pushItems_pushItems, hreference, ← references_succ, hcells, withTokens, List.length_append,
    List.length_singleton]

/-- Changing the last token changes nothing else. -/
theorem withTokens_setLexeme (t : Token) (lexeme : Value) :
    (s.withTokens c (ts ++ [t])).setLexeme (s.cells.size + ts.length) lexeme =
      s.withTokens c (ts ++ [{ t with lexeme }]) := by
  have hlast : ∀ (xs : List Token) (f : Token → Token),
      (xs ++ [t]).modify xs.length f = xs ++ [f t] := by
    intro xs f
    induction xs with
    | nil => rfl
    | cons x xs ih =>
        rw [List.cons_append, List.length_cons, List.modify_succ_cons, ih]
        rfl
  -- The cell that is changed is the last of all, old and new.
  have hcells : (s.cells ++ (ts ++ [t]).toArray).modify (s.cells.size + ts.length)
      (fun t => { t with lexeme }) = s.cells ++ (ts ++ [{ t with lexeme }]).toArray := by
    apply Array.ext'
    have hlength : s.cells.size + ts.length = (s.cells.toList ++ ts).length := by simp
    rw [Array.toList_modify, Array.toList_append, Array.toList_append, List.toList_toArray,
      List.toList_toArray, ← List.append_assoc, ← List.append_assoc, hlength, hlast]
  have hlength : (ts ++ [t]).length = (ts ++ [{ t with lexeme }]).length := by
    rw [List.length_append, List.length_append]
    rfl
  have hset : (s.withTokens c (ts ++ [t])).setLexeme (s.cells.size + ts.length) lexeme =
      pushItems ⟨(s.cells ++ (ts ++ [t]).toArray).modify (s.cells.size + ts.length)
          (fun t => { t with lexeme }), s.collections, s.attached⟩ c
        (references s.cells.size (ts ++ [t]).length) := rfl
  rw [hset, hcells, hlength, withTokens]

theorem last?_withTokens {c : CollectionId} (hc : c < s.collections.size) (t : Token) :
    (s.withTokens c (ts ++ [t])).last? c = some (.shared (.token (s.cells.size + ts.length))) := by
  have hlength : (ts ++ [t]).length = ts.length + 1 := List.length_append
  rw [last?_eq_getLast?_items, s.items_withTokens _ hc, hlength, references_succ,
    ← List.append_assoc, List.getLast?_append]
  rfl

theorem lexemeOf_withTokens (t : Token) :
    (s.withTokens c (ts ++ [t])).lexemeOf (.shared (.token (s.cells.size + ts.length))) =
      .ok t.lexeme := by
  have hcell : (s.withTokens c (ts ++ [t])).cells[s.cells.size + ts.length]? = some t := by
    rw [cells_withTokens, List.getElem?_append_right (Nat.le_refl _), Nat.sub_self]
    rfl
  rw [lexemeOf, token?, hcell]

end TokenStore

namespace Arithmetic

/-! ## Lexemes and actions -/

/-- A token as the lexer makes it: a kind, and some characters. -/
structure Lexeme where
  kind : Kind
  text : List Char
deriving DecidableEq

namespace Lexeme

/-- The token in its cell. -/
def token (t : Lexeme) : Token := ⟨t.kind.toValue, .str (String.ofList t.text)⟩

/-- The token as it is read. -/
def toValue (t : Lexeme) : Value := .token t.kind.toValue (.str (String.ofList t.text))

/-- The token with a character more. -/
def extend (t : Lexeme) (x : Char) : Lexeme := { t with text := t.text ++ [x] }

end Lexeme

/-- What an action makes of the lexemes so far. -/
def TokenAction.edit (ts : List Lexeme) (x : Char) : TokenAction → List Lexeme
  | emit kind => ts ++ [⟨kind, [x]⟩]
  | extend => ts.dropLast ++ (ts.getLast?.map (·.extend x)).toList

theorem edit_extend (ts : List Lexeme) (t : Lexeme) (x : Char) :
    TokenAction.extend.edit (ts ++ [t]) x = ts ++ [t.extend x] := by
  rw [TokenAction.edit, List.dropLast_concat, List.getLast?_concat]
  rfl

/-- The store with some lexemes collected. -/
def collected (s : TokenStore) (c : CollectionId) (ts : List Lexeme) : TokenStore :=
  s.withTokens c (ts.map Lexeme.token)

variable (s : TokenStore) {c : CollectionId}

theorem collected_append (c : CollectionId) (ts : List Lexeme) (t : Lexeme) :
    collected s c (ts ++ [t]) = s.withTokens c (ts.map Lexeme.token ++ [t.token]) := by
  rw [collected, List.map_append, List.map_singleton]

theorem perform_emit (c : CollectionId) (ts : List Lexeme) (kind : Kind) (x : Char) :
    (TokenAction.emit kind).perform c (.ofChar x) (collected s c ts) =
      (.ok (), collected s c (ts ++ [⟨kind, [x]⟩])) := by
  rw [collected_append, ← TokenStore.withTokens_newCell]
  rfl

theorem ofList_append_singleton (cs : List Char) (x : Char) :
    String.ofList cs ++ String.singleton x = String.ofList (cs ++ [x]) := by
  rw [String.ofList_append]
  rfl

/-- Extending changes the last token, which is the last item of the collection. -/
theorem perform_extend (hc : c < s.collections.size) (ts : List Lexeme) (t : Lexeme) (x : Char) :
    TokenAction.extend.perform c (.ofChar x) (collected s c (ts ++ [t])) =
      (.ok (), collected s c (ts ++ [t.extend x])) := by
  rw [collected_append, collected_append]
  -- The token is not passed on from the time it was made: the action looks at the last item.
  have hlast : Collection.last c (s.withTokens c (ts.map Lexeme.token ++ [t.token])) =
      (.ok (.shared (.token (s.cells.size + (ts.map Lexeme.token).length))),
        s.withTokens c (ts.map Lexeme.token ++ [t.token])) := by
    rw [Collection.last, Effect.bind_apply_of_ok _ (Effect.get_apply _),
      TokenStore.last?_withTokens s _ hc]
    rfl
  rw [TokenAction.perform, Collection.extend, Effect.bind_apply_of_ok _ hlast,
    Effect.bind_apply_of_ok _ (Effect.get_apply _), TokenStore.lexemeOf_withTokens]
  change (Except.ok (), (s.withTokens c (ts.map Lexeme.token ++ [t.token])).setLexeme
    (s.cells.size + (ts.map Lexeme.token).length)
    (.str (String.ofList t.text ++ String.singleton x))) = _
  rw [TokenStore.withTokens_setLexeme, ofList_append_singleton]
  rfl

/-- **An action edits the lexemes that are collected.** An action that extends needs one. -/
theorem perform_collected (hc : c < s.collections.size) (ts : List Lexeme) (x : Char)
    (a : TokenAction) (ha : a = .extend → ts ≠ []) :
    a.perform c (.ofChar x) (collected s c ts) = (.ok (), collected s c (a.edit ts x)) := by
  cases a with
  | emit kind => exact perform_emit s c ts kind x
  | extend =>
      obtain ⟨init, t, rfl⟩ := (List.eq_nil_or_concat' ts).resolve_left (ha rfl)
      rw [edit_extend]
      exact perform_extend s hc init t x

/-- What the collection holds behind its old items are the lexemes. -/
theorem contents_collected (hc : c < s.collections.size) (ts : List Lexeme) :
    (collected s c ts).contents c =
      (s.items c).map (collected s c ts).read ++ ts.map Lexeme.toValue := by
  -- The lexemes have the last cells of the store, in their order.
  have hread : ∀ i (hi : i < ts.length),
      (collected s c ts).read (.shared (.token (s.cells.size + i))) = ts[i].toValue := by
    intro i hi
    have hcell : (collected s c ts).cells[s.cells.size + i]? = some ts[i].token := by
      rw [collected, TokenStore.cells_withTokens, List.getElem?_map, List.getElem?_eq_getElem hi]
      rfl
    exact TokenStore.read_token_of_isClosed _ hcell rfl rfl
  have hreferences : (TokenStore.references s.cells.size ts.length).map (collected s c ts).read =
      ts.map Lexeme.toValue := by
    apply List.ext_getElem
    · rw [List.length_map, List.length_map, TokenStore.length_references]
    · intro i hi _
      rw [List.length_map, TokenStore.length_references] at hi
      simp only [TokenStore.references, List.getElem_map, List.getElem_range]
      exact hread i hi
  have hitems : (collected s c ts).items c =
      s.items c ++ TokenStore.references s.cells.size ts.length := by
    rw [collected, TokenStore.items_withTokens s _ hc, List.length_map]
  rw [TokenStore.contents, hitems, List.map_append, hreferences]

end Arithmetic

end SymbolMachine
