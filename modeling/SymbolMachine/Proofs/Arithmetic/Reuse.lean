/-
A lexer that is used again.

The lexer keeps no state of its own, but it shares its collection with whoever has it, and an
action that extends a token takes whatever item is last. So a run could spoil the last token of
the run before it, or an item that was there from the start. It does not: what a run adds are new
tokens, in new cells behind all old ones (`collected`), and it extends none but these. Hence runs
one after another add what each of them would have added alone (`lexer_reusable`), in any history:
whether the runs before succeeded, ended behind a point or failed, and whatever was in the
collection.
-/
import SymbolMachine.Proofs.Arithmetic.Tokenization

set_option autoImplicit false

namespace SymbolMachine

/-! ## More tokens, twice -/

namespace TokenStore

variable (s : TokenStore) (c : CollectionId)

theorem references_add (first m n : Nat) :
    references first (m + n) = references first m ++ references (first + m) n := by
  simp only [references, List.range_add, List.map_append, List.map_map, Nat.add_assoc]
  rfl

/-- New tokens on top of new tokens are new tokens. -/
theorem withTokens_withTokens (ts us : List Token) :
    (s.withTokens c ts).withTokens c us = s.withTokens c (ts ++ us) := by
  have hcells : (s.cells ++ ts.toArray) ++ us.toArray = s.cells ++ (ts ++ us).toArray := by
    apply Array.ext'
    simp
  rw [withTokens, withTokens.eq_def s c (ts ++ us), ← hcells, List.length_append, references_add,
    ← pushItems_pushItems, ← s.size_cells_withTokens c ts]
  rfl

theorem size_collections_withTokens (ts : List Token) :
    (s.withTokens c ts).collections.size = s.collections.size := Array.size_modify

/-- The old cells are as they were. -/
theorem cells_withTokens_of_lt (ts : List Token) {i : Nat} (hi : i < s.cells.size) :
    (s.withTokens c ts).cells[i]? = s.cells[i]? :=
  Array.getElem?_append_left hi

/-- So are the other collections. -/
theorem items_withTokens_of_ne {c' : CollectionId} (hne : c ≠ c') (ts : List Token) :
    (s.withTokens c ts).items c' = s.items c' :=
  items_pushItems_of_ne { s with cells := s.cells ++ ts.toArray } hne _

end TokenStore

namespace Arithmetic

theorem collected_collected (s : TokenStore) (c : CollectionId) (ts us : List Lexeme) :
    collected (collected s c ts) c us = collected s c (ts ++ us) := by
  rw [collected, collected, collected, TokenStore.withTokens_withTokens, List.map_append]

/-! ## One run after another -/

/-- The symbols of a text. -/
def symbolsOf (text : String) : List Value := text.toList.map Value.ofChar

/-- Runs the lexer over some texts, one after another. -/
def lexEach (c : CollectionId) (texts : List String) :
    Effect Desk (List (Outcome StateId Value Nat)) :=
  texts.mapM fun text => lex c true (symbolsOf text)

/-- What a fresh lexer makes of a text: its answer, and the tokens that it leaves. -/
def lexFresh (threshold : Level) (text : String) :
    Except Stop (Outcome StateId Value Nat) × List Value :=
  let (answer, d) := lex Desk.collection true (symbolsOf text) (Desk.new threshold)
  (answer, d.tokens.contents Desk.collection)

/-- The lexemes of a text, as far as it can be read. -/
def lexemesOf (text : String) : List Lexeme := (Lexing.initial.read text.toList).1.lexemes

/-- Where the reading of a text ends. -/
def endOf (text : String) : Outcome StateId Value Nat :=
  outcomeOf 1 text.toList.length (Lexing.initial.read text.toList)

/-- A run with its actions, from whatever it finds in the collection. -/
theorem exists_lex (c : CollectionId) (text : String) (d : Desk)
    (hc : c < d.tokens.collections.size) :
    ∃ log, lex c true (symbolsOf text) d = (.ok (endOf text),
      { d with tokens := collected d.tokens c (lexemesOf text), log := log }) :=
  lex_eq c true d hc text.toList

theorem lexFresh_eq (threshold : Level) (text : String) :
    lexFresh threshold text = (.ok (endOf text), (lexemesOf text).map Lexeme.toValue) := by
  have hc : Desk.collection < (Desk.new threshold).tokens.collections.size := Nat.one_pos
  obtain ⟨log, hlex⟩ := exists_lex Desk.collection text (Desk.new threshold) hc
  have hcontents := contents_collected_of_empty hc rfl (lexemesOf text)
  rw [lexFresh, hlex]
  exact Prod.ext rfl hcontents

/-- **Each run adds its own lexemes**, whatever the runs before it have added. -/
theorem exists_lexEach (c : CollectionId) (texts : List String) (d : Desk)
    (hc : c < d.tokens.collections.size) :
    ∃ log, lexEach c texts d = (.ok (texts.map endOf),
      { d with tokens := collected d.tokens c (texts.flatMap lexemesOf), log := log }) := by
  induction texts generalizing d with
  | nil =>
      have hnone : collected d.tokens c [] = d.tokens := d.tokens.withTokens_nil c
      refine ⟨d.log, ?_⟩
      rw [List.flatMap_nil, hnone]
      rfl
  | cons text texts ih =>
      obtain ⟨log, hlex⟩ := exists_lex c text d hc
      have hc' : c < (collected d.tokens c (lexemesOf text)).collections.size := by
        rwa [collected, TokenStore.size_collections_withTokens]
      obtain ⟨log', hrest⟩ := ih
        { d with tokens := collected d.tokens c (lexemesOf text), log := log } hc'
      refine ⟨log', ?_⟩
      rw [lexEach] at hrest ⊢
      rw [List.mapM_cons, Effect.bind_apply_of_ok _ hlex, Effect.bind_apply_of_ok _ hrest,
        collected_collected]
      rfl

/-- **A lexer can be used again.** Take a lexer whose tokens go to a collection with anything in
it, and run it over some texts, one after another, with its actions; each run may succeed, end in
the state that does not accept, or fail. Each answers what a fresh lexer answers. The collection
then holds the items that it held, and behind them the tokens that a fresh lexer leaves for the
first text, then those for the second, and so on; these are tokens of their own, in cells behind
the old ones. The old tokens, the other collections and the lexemes of what is no token are as
they were. -/
theorem lexer_reusable (threshold : Level) {d : Desk} {c : CollectionId}
    (hc : c < d.tokens.collections.size) (texts : List String) :
    ∃ answers d' added, lexEach c texts d = (.ok answers, d') ∧
      answers.map Except.ok = texts.map (fun text => (lexFresh threshold text).1) ∧
      d'.tokens.items c = d.tokens.items c ++ added ∧
      added.map d'.tokens.read = texts.flatMap (fun text => (lexFresh threshold text).2) ∧
      added = TokenStore.references d.tokens.cells.size added.length ∧
      (∀ i < d.tokens.cells.size, d'.tokens.cells[i]? = d.tokens.cells[i]?) ∧
      (∀ c', c' ≠ c → d'.tokens.items c' = d.tokens.items c') ∧
      d'.tokens.attached = d.tokens.attached := by
  obtain ⟨log, heach⟩ := exists_lexEach c texts d hc
  let ts := texts.flatMap lexemesOf
  have hitems : (collected d.tokens c ts).items c =
      d.tokens.items c ++ TokenStore.references d.tokens.cells.size ts.length := by
    rw [collected, TokenStore.items_withTokens _ _ hc, List.length_map]
  -- The contents are the old items and the lexemes; the old items take the same share of both.
  have hadded : (TokenStore.references d.tokens.cells.size ts.length).map
      (collected d.tokens c ts).read = ts.map Lexeme.toValue := by
    have hcontents := contents_collected d.tokens hc ts
    rw [TokenStore.contents, hitems, List.map_append] at hcontents
    exact List.append_cancel_left hcontents
  refine ⟨_, _, TokenStore.references d.tokens.cells.size ts.length, heach, ?_, hitems, ?_, ?_, ?_,
    ?_, rfl⟩
  · simp only [lexFresh_eq, List.map_map]
    rfl
  · rw [hadded]
    simp only [ts, lexFresh_eq, List.map_flatMap]
  · rw [TokenStore.length_references]
  · exact fun i hi => TokenStore.cells_withTokens_of_lt _ _ _ hi
  · exact fun c' hne => TokenStore.items_withTokens_of_ne _ _ hne.symm _

/-- A desk whose second collection holds an unfinished number and something that is no token. -/
def usedDesk : Desk :=
  ⟨⟨#[⟨Kind.number.toValue, .str "7."⟩], #[#[], #[.shared (.token 0), .str "x"]], []⟩, .warning, []⟩

/-- The first text ends behind a point, the last one fails; the unfinished numbers stay as they
are, the old one and the new one. -/
theorem usedDesk_lexer_reusable :
    ∃ d' added, lexEach 1 ["1.", "+", "2$"] usedDesk =
        (.ok [.success (.number 2), .success (.number 0),
          .failure (.number 1) (.str "$") 2 (.number 1)], d') ∧
      d'.tokens.items 1 = [.shared (.token 0), .str "x"] ++ added ∧
      added.map d'.tokens.read = [.token Kind.number.toValue (.str "1."),
        .token Kind.operator.toValue (.str "+"), .token Kind.number.toValue (.str "2")] ∧
      d'.tokens.cells[0]? = some ⟨Kind.number.toValue, .str "7."⟩ := by
  have hc : 1 < usedDesk.tokens.collections.size := Nat.one_lt_two
  obtain ⟨answers, d', added, heach, hanswers, hitems, hadded, -, hcells, -, -⟩ :=
    lexer_reusable .warning hc ["1.", "+", "2$"]
  simp only [lexFresh_eq] at hanswers hadded
  have hinjective : Function.Injective (Except.ok : _ → Except Stop (Outcome StateId Value Nat)) :=
    fun _ _ => Except.ok.inj
  have hknown : answers = [.success (.number 2), .success (.number 0),
      .failure (.number 1) (.str "$") 2 (.number 1)] :=
    hinjective.list_map (hanswers.trans rfl)
  exact ⟨d', added, hknown ▸ heach, hitems, hadded.trans rfl, hcells 0 Nat.one_pos⟩

end Arithmetic

end SymbolMachine
