/-
The lexer and its tokens determine each other.

One half follows the lexer forward, character by character: the lexemes so far always spell
the characters read, no two neighbours clash, and all but the last are well-formed
(`Lexing.Follows`). The other half starts from the tokens and shows that the lexer reads one
after the other, each to its end: the rest of a token is read as going on with it, and the
first character of the next one is not, because the kinds do not clash.
-/
import SymbolMachine.Proofs.Arithmetic.Grammar

set_option autoImplicit false

namespace SymbolMachine.Arithmetic

/-! ## From characters to tokens -/

namespace Lexing

/-- What the lexemes of a lexing say about the characters that were read. -/
structure Follows (p : Lexing) (xs : List Char) : Prop where
  text : textOf p.lexemes = xs
  separated : Separated p.lexemes
  /-- All but the last are well-formed, and of the last the phase says what there is of it. -/
  lexemes : (p.phase = .start ∧ p.lexemes = []) ∨
    ∃ init t, p.lexemes = init ++ [t] ∧ (∀ u ∈ init, u.WellFormed) ∧ p.phase.Shape t

theorem follows_initial : initial.Follows [] where
  text := rfl
  separated := .nil
  lexemes := .inl ⟨rfl, rfl⟩

/-- Everywhere but behind a point all lexemes are well-formed. -/
theorem Follows.wellFormed {p : Lexing} {xs : List Char} (h : p.Follows xs)
    (hph : p.phase ≠ .point) : ∀ t ∈ p.lexemes, t.WellFormed := by
  rcases h.lexemes with ⟨-, hnil⟩ | ⟨init, t, hlexemes, hinit, hshape⟩
  · rw [hnil]
    exact nofun
  · rw [hlexemes]
    intro u hu
    rcases List.mem_append.mp hu with hu | hu
    · exact hinit u hu
    · rw [List.mem_singleton.mp hu]
      exact hshape.wellFormed hph

theorem separated_concat {init : List Lexeme} {t : Lexeme} :
    Separated (init ++ [t]) ↔
      Separated init ∧ ∀ u ∈ init.getLast?, u.kind.clashes t.kind = false := by
  unfold Separated
  rw [List.isChain_append]
  simp

/-- A character that goes on with the last token. -/
theorem Follows.extend {ph ph' : Phase} {init : List Lexeme} {t : Lexeme} {xs : List Char}
    (h : Follows ⟨ph, init ++ [t]⟩ xs) (hinit : ∀ u ∈ init, u.WellFormed) (ht : ph.Shape t)
    {x : Char} (hx : ph.extension x = some ph') :
    Follows ⟨ph', init ++ [t.extend x]⟩ (xs ++ [x]) where
  text := by
    rw [← h.text, textOf_append, textOf_append, textOf_singleton, textOf_singleton,
      List.append_assoc]
    rfl
  separated := by
    have hseparated : Separated (init ++ [t]) := h.separated
    rw [separated_concat] at hseparated ⊢
    exact hseparated
  lexemes := .inr ⟨init, t.extend x, rfl, hinit, ht.extend hx⟩

/-- A character that begins a token. -/
theorem Follows.emit {p : Lexing} {xs : List Char} (h : p.Follows xs) (hph : p.phase ≠ .point)
    {x : Char} (hextension : p.phase.extension x = none) {k : Kind}
    (hx : Kind.starting x = some k) :
    Follows ⟨k.phase, p.lexemes ++ [⟨k, [x]⟩]⟩ (xs ++ [x]) where
  text := by rw [← h.text, textOf_append, textOf_singleton]
  separated := by
    refine separated_concat.mpr ⟨h.separated, fun u hu => ?_⟩
    rcases h.lexemes with ⟨-, hnil⟩ | ⟨init, t, hlexemes, -, hshape⟩
    · rw [hnil] at hu
      cases hu
    · rw [hlexemes, List.getLast?_concat] at hu
      cases hu
      have hclash := isSome_extension hshape hph hx
      rw [hextension] at hclash
      exact hclash.symm
  lexemes := .inr ⟨p.lexemes, ⟨k, [x]⟩, rfl, h.wellFormed hph, shape_of_starting hx⟩

/-- **One character.** -/
theorem Follows.next {p p' : Lexing} {xs : List Char} (h : p.Follows xs) {x : Char}
    (hx : p.next x = some p') : p'.Follows (xs ++ [x]) := by
  obtain ⟨⟨ph', a⟩, hnext, rfl⟩ := Option.map_eq_some_iff.mp hx
  unfold Phase.next at hnext
  split at hnext
  · next ph'' hextension =>
    cases hnext
    rcases h.lexemes with ⟨hstart, -⟩ | ⟨init, t, hlexemes, hinit, hshape⟩
    · rw [hstart] at hextension
      cases hextension
    · obtain ⟨ph, ts⟩ := p
      change ts = _ at hlexemes
      subst hlexemes
      rw [edit_extend]
      exact h.extend hinit hshape hextension
  · next hextension =>
    split at hnext
    · cases hnext
    · next hph =>
      obtain ⟨k, hk, heq⟩ := Option.map_eq_some_iff.mp hnext
      cases heq
      exact h.emit hph hextension hk

/-- **Some characters, as far as they are read.** -/
theorem Follows.read {p : Lexing} {xs : List Char} (h : p.Follows xs) (ys : List Char) :
    ∃ zs, ys = zs ++ (p.read ys).2 ∧ (p.read ys).1.Follows (xs ++ zs) := by
  induction ys generalizing p xs with
  | nil => exact ⟨[], rfl, by rwa [List.append_nil]⟩
  | cons y ys ih =>
      cases hy : p.next y with
      | none =>
          rw [read_cons_of_none hy]
          exact ⟨[], rfl, by rwa [List.append_nil]⟩
      | some p' =>
          obtain ⟨zs, hzs, hfollows⟩ := ih (h.next hy)
          rw [read_cons_of_some hy]
          refine ⟨y :: zs, congrArg (y :: ·) hzs, ?_⟩
          rwa [List.append_assoc] at hfollows

/-! ## From tokens to characters -/

theorem next_of_extension {p : Lexing} {x : Char} {ph : Phase}
    (hx : p.phase.extension x = some ph) :
    p.next x = some ⟨ph, TokenAction.extend.edit p.lexemes x⟩ := by
  rw [next, Phase.next, hx]
  rfl

theorem next_of_starting {p : Lexing} (hph : p.phase ≠ .point) {x : Char} {k : Kind}
    (hx : p.phase.extension x = none) (hk : Kind.starting x = some k) :
    p.next x = some ⟨k.phase, p.lexemes ++ [⟨k, [x]⟩]⟩ := by
  rw [next, Phase.next, hx]
  simp only [if_neg hph, hk]
  rfl

/-- A character that goes on with the last token. -/
theorem read_extend {ph ph' : Phase} {x : Char} (hx : ph.extension x = some ph')
    (init : List Lexeme) (k : Kind) (text ys : List Char) :
    Lexing.read ⟨ph, init ++ [⟨k, text⟩]⟩ (x :: ys) =
      Lexing.read ⟨ph', init ++ [⟨k, text ++ [x]⟩]⟩ ys := by
  have hnext := next_of_extension (p := ⟨ph, init ++ [⟨k, text⟩]⟩) hx
  rw [read_cons_of_some hnext, edit_extend]
  rfl

/-- Characters that go on with the last token and stay in the phase. -/
theorem read_extensions {ph : Phase} {xs : List Char} (hxs : ∀ x ∈ xs, ph.extension x = some ph)
    (init : List Lexeme) (k : Kind) (text ys : List Char) :
    Lexing.read ⟨ph, init ++ [⟨k, text⟩]⟩ (xs ++ ys) =
      Lexing.read ⟨ph, init ++ [⟨k, text ++ xs⟩]⟩ ys := by
  induction xs generalizing text with
  | nil => rw [List.append_nil, List.nil_append]
  | cons x xs ih =>
      have hrest : ∀ y ∈ xs, ph.extension y = some ph := fun y hy =>
        hxs y (List.mem_cons_of_mem x hy)
      rw [List.cons_append, read_extend (hxs x (List.mem_cons_self ..)), ih hrest,
        List.append_assoc]
      rfl

theorem extension_digit {ph ph' : Phase} (hph : ph = .integer ∧ ph' = .integer ∨
    (ph = .point ∨ ph = .fraction) ∧ ph' = .fraction) {x : Char} (hx : x ∈ digits) :
    ph.extension x = some ph' := by
  rcases hph with ⟨rfl, rfl⟩ | ⟨rfl | rfl, rfl⟩ <;> exact if_pos hx

theorem extension_point : Phase.integer.extension '.' = some .point := by decide

/-- The rest of a token behind its first character is read to its end, and the phase then has
the shape of the token. -/
theorem read_rest {x : Char} {rest : List Char} {k : Kind}
    (ht : (Lexeme.mk k (x :: rest)).WellFormed) (init : List Lexeme) (ys : List Char) :
    ∃ ph, ph ≠ .point ∧ ph.Shape ⟨k, x :: rest⟩ ∧
      Lexing.read ⟨k.phase, init ++ [⟨k, [x]⟩]⟩ (rest ++ ys) =
        Lexing.read ⟨ph, init ++ [⟨k, x :: rest⟩]⟩ ys := by
  cases k with
  | number =>
      obtain ⟨whole, hwhole, htext⟩ := ht
      obtain ⟨x', digits₁, rfl, hx', hdigits₁⟩ := hwhole.exists_cons
      have hinteger := fun y hy => extension_digit (.inl ⟨rfl, rfl⟩) (hdigits₁ y hy)
      rcases htext with htext | ⟨fraction, hfraction, htext⟩
      · cases htext
        refine ⟨.integer, nofun, ⟨rfl, hwhole⟩, ?_⟩
        exact read_extensions hinteger init .number [x] ys
      · rw [List.cons_append, List.cons.injEq] at htext
        obtain ⟨rfl, rfl⟩ := htext
        obtain ⟨y, digits₂, rfl, hy, hdigits₂⟩ := hfraction.exists_cons
        have hfirst := extension_digit (.inr ⟨.inl rfl, rfl⟩) hy
        have hfractions := fun z hz => extension_digit (.inr ⟨.inr rfl, rfl⟩) (hdigits₂ z hz)
        refine ⟨.fraction, nofun, ⟨rfl, x :: digits₁, y :: digits₂, hwhole, hfraction, rfl⟩, ?_⟩
        have htext : [x] ++ digits₁ ++ ['.'] ++ [y] ++ digits₂ =
            x :: (digits₁ ++ '.' :: y :: digits₂) := by simp
        rw [← htext, List.append_assoc]
        -- The digits before the point, the point, the first digit behind it, and the others.
        calc Lexing.read ⟨.integer, init ++ [⟨.number, [x]⟩]⟩
              (digits₁ ++ ('.' :: y :: digits₂ ++ ys))
          _ = Lexing.read ⟨.integer, init ++ [⟨.number, [x] ++ digits₁⟩]⟩
                ('.' :: y :: digits₂ ++ ys) := read_extensions hinteger ..
          _ = Lexing.read ⟨.point, init ++ [⟨.number, [x] ++ digits₁ ++ ['.']⟩]⟩
                (y :: digits₂ ++ ys) := read_extend extension_point ..
          _ = Lexing.read ⟨.fraction, init ++ [⟨.number, [x] ++ digits₁ ++ ['.'] ++ [y]⟩]⟩
                (digits₂ ++ ys) := read_extend hfirst ..
          _ = _ := read_extensions hfractions ..
  | name =>
      obtain ⟨x', rest', -, hrest, htext⟩ := id ht
      cases htext
      have hextensions : ∀ y ∈ rest, Phase.name.extension y = some .name := fun y hy =>
        if_pos (hrest y hy)
      exact ⟨.name, nofun, ⟨rfl, ht⟩, read_extensions hextensions init .name [x] ys⟩
  | space =>
      have hextensions : ∀ y ∈ rest, Phase.space.extension y = some .space := fun y hy =>
        if_pos (ht.2 y (List.mem_cons_of_mem x hy))
      exact ⟨.space, nofun, ⟨rfl, ht⟩, read_extensions hextensions init .space [x] ys⟩
  | operator =>
      obtain ⟨x', -, htext⟩ := id ht
      cases htext
      exact ⟨.start, nofun, ⟨ht, rfl⟩, rfl⟩
  | leftParen | rightParen =>
      cases id ht
      exact ⟨.start, nofun, ⟨ht, rfl⟩, rfl⟩

/-- **One token.** It is read to its end if its first character does not go on with the token
before it. -/
theorem read_lexeme {p : Lexing} (hph : p.phase ≠ .point) {t : Lexeme} (ht : t.WellFormed)
    (hfirst : ∀ x, Kind.starting x = some t.kind → p.phase.extension x = none) (ys : List Char) :
    ∃ ph, ph ≠ .point ∧ ph.Shape t ∧
      p.read (t.text ++ ys) = Lexing.read ⟨ph, p.lexemes ++ [t]⟩ ys := by
  obtain ⟨x, rest, htext, hx⟩ := exists_starting ht
  obtain ⟨k, text⟩ := t
  change text = _ at htext
  subst htext
  have hnext := next_of_starting hph (hfirst x hx) hx
  rw [List.cons_append, read_cons_of_some hnext]
  exact read_rest ht p.lexemes ys

/-- **Some tokens.** They are read one after the other if no neighbours clash and the first
does not go on with the token before it. -/
theorem read_lexemes {p : Lexing} (hph : p.phase ≠ .point) {ts : List Lexeme}
    (hts : ∀ t ∈ ts, t.WellFormed) (hseparated : Separated ts)
    (hfirst : ∀ t ∈ ts.head?, ∀ x, Kind.starting x = some t.kind → p.phase.extension x = none) :
    ∃ ph, ph ≠ .point ∧ p.read (textOf ts) = (⟨ph, p.lexemes ++ ts⟩, []) := by
  induction ts generalizing p with
  | nil =>
      refine ⟨p.phase, hph, ?_⟩
      rw [List.append_nil]
      rfl
  | cons t ts ih =>
      obtain ⟨ph, hpoint, hshape, hread⟩ :=
        read_lexeme hph (hts t (List.mem_cons_self ..)) (hfirst t rfl) (textOf ts)
      obtain ⟨hneighbour, hrest⟩ := List.isChain_cons.mp hseparated
      have hnext : ∀ u ∈ ts.head?, ∀ x, Kind.starting x = some u.kind → ph.extension x = none := by
        -- Going on with this token would mean that its kind and the next clash.
        intro u hu x hx
        have hclash := isSome_extension hshape hpoint hx
        rw [hneighbour u hu] at hclash
        exact Option.isSome_eq_false_iff.mp hclash |> Option.isNone_iff_eq_none.mp
      obtain ⟨ph', hpoint', hread'⟩ := ih (p := ⟨ph, p.lexemes ++ [t]⟩) hpoint
        (fun u hu => hts u (List.mem_cons_of_mem t hu)) hrest hnext
      refine ⟨ph', hpoint', ?_⟩
      change p.read (t.text ++ textOf ts) = _
      rw [hread, hread', List.append_assoc]
      rfl

end Lexing

/-! ## Both directions -/

/-- A state in which an expression may end. -/
def Accepting (s : StateId) : Prop :=
  ∃ state, lexer.state? s.toInt = some state ∧ state.accepting.truthy = true

theorem accepting_id_iff (ph : Phase) : Accepting ph.id ↔ ph ≠ .point := by
  have htruthy : ph.state.accepting.truthy = true ↔ ph ≠ .point := by
    cases ph <;> decide
  constructor
  · rintro ⟨state, hstate, haccepting⟩
    rw [lexer_state?] at hstate
    cases hstate
    exact htruthy.mp haccepting
  · intro hph
    exact ⟨ph.state, lexer_state? ph, htruthy.mpr hph⟩

/-- Without old items the collection holds the lexemes and nothing else. -/
theorem contents_collected_of_empty {s : TokenStore} {c : CollectionId}
    (hc : c < s.collections.size) (hempty : s.items c = []) (ts : List Lexeme) :
    (collected s c ts).contents c = ts.map Lexeme.toValue := by
  rw [contents_collected s hc, hempty]
  rfl

/-- **Lexing is a bijection between accepted expressions and token lists.** Take a collection
that is empty before the run. If the lexer reads an expression to its end and accepts, then the
collection holds well-formed tokens of which no two neighbours clash, and their texts in order
are the expression. And for all such tokens the lexer reads their texts in order to the end,
accepts, and leaves just these tokens in the collection. -/
theorem lex_bijective {d : Desk} {c : CollectionId} (hc : c < d.tokens.collections.size)
    (hempty : d.tokens.items c = []) :
    (∀ (e : String) (s : StateId) (d' : Desk),
      lex c true (e.toList.map Value.ofChar) d = (.ok (.success s), d') → Accepting s →
      ∃ ts : List Lexeme, d'.tokens.contents c = ts.map Lexeme.toValue ∧
        (∀ t ∈ ts, t.WellFormed) ∧ Separated ts ∧ String.ofList (textOf ts) = e) ∧
    (∀ ts : List Lexeme, (∀ t ∈ ts, t.WellFormed) → Separated ts →
      ∃ s d', lex c true ((String.ofList (textOf ts)).toList.map Value.ofChar) d =
          (.ok (.success s), d') ∧
        Accepting s ∧ d'.tokens.contents c = ts.map Lexeme.toValue) := by
  constructor
  · intro e s d' hlex haccepting
    obtain ⟨log, hrun⟩ := lex_eq c true d hc e.toList
    obtain ⟨zs, hzs, hfollows⟩ := Lexing.follows_initial.read e.toList
    rw [hrun] at hlex
    rcases hread : Lexing.initial.read e.toList with ⟨p, _ | ⟨x, rest⟩⟩
    · rw [hread] at hlex hzs hfollows
      cases hlex
      have hph := (accepting_id_iff p.phase).mp haccepting
      refine ⟨p.lexemes, contents_collected_of_empty hc hempty _, hfollows.wellFormed hph,
        hfollows.separated, ?_⟩
      rw [List.append_nil] at hzs
      rw [hfollows.text, List.nil_append, ← hzs, String.ofList_toList]
    -- With characters left over the run is a failure.
    · rw [hread] at hlex
      cases hlex
  · intro ts hts hseparated
    obtain ⟨ph, hph, hread⟩ := Lexing.read_lexemes (p := Lexing.initial) nofun hts hseparated
      (fun _ _ _ _ => rfl)
    obtain ⟨log, hrun⟩ := lex_eq c true d hc (textOf ts)
    rw [hread] at hrun
    refine ⟨ph.id, { d with tokens := collected d.tokens c ts, log := log }, ?_,
      (accepting_id_iff ph).mpr hph, contents_collected_of_empty hc hempty ts⟩
    rw [String.toList_ofList, hrun]
    rfl

/-- A name, an operator and a number. -/
def sampleTokens : List Lexeme :=
  [⟨.name, ['x', '1']⟩, ⟨.operator, ['+']⟩, ⟨.number, ['2', '.', '5']⟩]

theorem sampleTokens_wellFormed : ∀ t ∈ sampleTokens, t.WellFormed := by
  have hname : Lexeme.WellFormed ⟨.name, ['x', '1']⟩ :=
    ⟨'x', ['1'], by decide, fun y hy => by rw [List.mem_singleton.mp hy]; decide, rfl⟩
  have hoperator : Lexeme.WellFormed ⟨.operator, ['+']⟩ := ⟨'+', by decide, rfl⟩
  have hnumber : Lexeme.WellFormed ⟨.number, ['2', '.', '5']⟩ :=
    ⟨['2'], .singleton (by decide), .inr ⟨['5'], .singleton (by decide), rfl⟩⟩
  intro t ht
  rcases ht with _ | ⟨_, _ | ⟨_, _ | ⟨_, ⟨⟩⟩⟩⟩
  · exact hname
  · exact hoperator
  · exact hnumber

/-- Both directions for the expression `x1+2.5` on a new desk. -/
theorem sampleTokens_lex_bijective :
    ∃ s d', lex Desk.collection true
        ((String.ofList (textOf sampleTokens)).toList.map Value.ofChar) (Desk.new .warning) =
          (.ok (.success s), d') ∧
      Accepting s ∧ d'.tokens.contents Desk.collection = sampleTokens.map Lexeme.toValue ∧
      ∃ ts : List Lexeme, d'.tokens.contents Desk.collection = ts.map Lexeme.toValue ∧
        (∀ t ∈ ts, t.WellFormed) ∧ Separated ts ∧ String.ofList (textOf ts) = "x1+2.5" := by
  have hc : Desk.collection < (Desk.new .warning).tokens.collections.size := Nat.one_pos
  have hseparated : Separated sampleTokens := by
    unfold Separated sampleTokens
    decide
  have hboth := lex_bijective hc rfl
  obtain ⟨s, d', hlex, haccepting, hcontents⟩ :=
    hboth.2 sampleTokens sampleTokens_wellFormed hseparated
  exact ⟨s, d', hlex, haccepting, hcontents, hboth.1 _ s d' hlex haccepting⟩

end SymbolMachine.Arithmetic
