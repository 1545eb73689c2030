/-
What the program answers, as a function of how far its expression is read.

Between the run and the printed lines the tokens pass through a store: they are trimmed,
stripped of white space and shown. Here the store is left behind once more. A collection that
lists some lexemes and nothing else still does so after an edit, with the lexemes edited
(`Listed`), and what it shows is a line for each. So the answer of a request is a case
distinction over the reading of its expression, `verdict`; nothing later looks at a desk.
-/
import SymbolMachine.Arithmetic.CommandLine
import SymbolMachine.Proofs.Arithmetic.Tokenization
import SymbolMachine.Proofs.Tokens.Editing

set_option autoImplicit false

namespace SymbolMachine.Arithmetic

/-! ## Lexemes that are shown -/

/-- The line of a token: its kind and its text. -/
def Lexeme.line (t : Lexeme) : String :=
  t.kind.label ++ " | " ++ String.ofList t.text ++ "\n"

/-- The tokens that are no white space. -/
def shown (ts : List Lexeme) : List Lexeme := ts.filter fun t => t.kind ≠ .space

/-- The lines of some tokens. -/
def linesOf (ts : List Lexeme) : String := String.join (ts.map Lexeme.line)

theorem shown_append (ts us : List Lexeme) : shown (ts ++ us) = shown ts ++ shown us :=
  List.filter_append ..

theorem mem_shown {ts : List Lexeme} {t : Lexeme} : t ∈ shown ts ↔ t ∈ ts ∧ t.kind ≠ .space := by
  simp [shown]

theorem shown_singleton_of_ne {t : Lexeme} (h : t.kind ≠ .space) : shown [t] = [t] := by
  simp [shown, h]

theorem shown_singleton_of_eq {t : Lexeme} (h : t.kind = .space) : shown [t] = [] := by
  simp [shown, h]

/-- The plain text of a collection of lexemes is their lines. -/
theorem lines_map_toValue (ts : List Lexeme) :
    Value.lines (ts.map Lexeme.toValue) = .ok (linesOf ts) := by
  induction ts with
  | nil => rfl
  | cons t ts ih =>
      have hname : t.kind.toValue.displayName = .ok t.kind.label := rfl
      have hlines : linesOf (t :: ts) = t.line ++ linesOf ts := by
        rw [linesOf, List.map_cons, String.join_cons]
        rfl
      rw [List.map_cons, Lexeme.toValue, Value.lines_cons, hname, ih, hlines]
      rfl

/-! ## Collections of lexemes -/

theorem eq_toValue (k k' : Kind) : k.toValue.eq k'.toValue = decide (k = k') := by
  cases k <;> cases k' <;> rfl

/-- A collection that holds some lexemes and nothing else. -/
structure Listed (s : TokenStore) (c : CollectionId) (ts : List Lexeme) : Prop where
  inRange : c < s.collections.size
  tokens : (s.items c).map s.token? = ts.map fun t => some t.token

namespace Listed

variable {s : TokenStore} {c : CollectionId} {ts : List Lexeme}

/-- Whether an item has been found to be a token of a kind. -/
def isOf (k : Kind) : Option Token → Bool := Option.any fun t => t.kind.eq k.toValue

theorem isOf_comp (k : Kind) :
    (isOf k ∘ fun t : Lexeme => some t.token) = fun t => decide (t.kind = k) :=
  funext fun t => eq_toValue t.kind k

/-- Each item is one of the lexemes in its cell. -/
theorem exists_token (h : Listed s c ts) {x : Value} (hx : x ∈ s.items c) :
    ∃ t : Lexeme, s.token? x = some t.token := by
  have hmem : s.token? x ∈ ts.map fun t => some t.token := h.tokens ▸ List.mem_map_of_mem hx
  obtain ⟨t, -, ht⟩ := List.mem_map.mp hmem
  exact ⟨t, ht.symm⟩

/-- Each item is asked for its kind with success. -/
theorem decides (h : Listed s c ts) (k : Kind) :
    Sequence.Decides (s.isOfKind k.toValue) (isOf k ∘ s.token?) (s.items c) := by
  intro x hx
  obtain ⟨t, ht⟩ := h.exists_token hx
  rw [TokenStore.isOfKind_of_token? ht rfl rfl, Function.comp_apply, ht]
  rfl

/-- With other items the collection holds other lexemes. -/
theorem setItems (h : Listed s c ts) {xs : List Value} {us : List Lexeme}
    (hxs : xs.map s.token? = us.map fun t => some t.token) : Listed (s.setItems c xs) c us where
  inRange := by simpa [TokenStore.setItems] using h.inRange
  tokens := by
    rw [s.items_setItems h.inRange]
    exact hxs

theorem exists_trimStart (h : Listed s c ts) (k : Kind) :
    ∃ s', Collection.trimStart c k.toValue s = (.ok (), s') ∧
      Listed s' c (ts.dropWhile fun t => decide (t.kind = k)) := by
  refine ⟨_, Collection.trimStart_apply (h.decides k), h.setItems ?_⟩
  rw [← List.dropWhile_map, h.tokens, List.dropWhile_map, isOf_comp]

theorem exists_trimEnd (h : Listed s c ts) (k : Kind) :
    ∃ s', Collection.trimEnd c k.toValue s = (.ok (), s') ∧
      Listed s' c (ts.rdropWhile fun t => decide (t.kind = k)) := by
  refine ⟨_, Collection.trimEnd_apply (h.decides k), h.setItems ?_⟩
  rw [List.rdropWhile, List.map_reverse, ← List.dropWhile_map, List.map_reverse, h.tokens,
    ← List.map_reverse, List.dropWhile_map, ← List.map_reverse, isOf_comp]
  rfl

theorem exists_removeKind (h : Listed s c ts) (k : Kind) :
    ∃ s', Collection.removeKind c k.toValue s = (.ok (), s') ∧
      Listed s' c (ts.filter fun t => !decide (t.kind = k)) := by
  refine ⟨_, Collection.removeKind_apply (h.decides k), h.setItems ?_⟩
  have hcomp : (fun x => !(isOf k ∘ s.token?) x) = (fun o => !isOf k o) ∘ s.token? := rfl
  rw [hcomp, ← List.filter_map, h.tokens, List.filter_map]
  exact congrArg (fun p => (ts.filter p).map fun t : Lexeme => some t.token)
    (congrArg (fun (p : Lexeme → Bool) t => !p t) (isOf_comp k))

/-- What the collection shows are the lexemes. -/
theorem contents (h : Listed s c ts) : s.contents c = ts.map Lexeme.toValue := by
  -- Reading an item is a function of the token that it is.
  let reading : Option Token → Value := fun o => o.elim .null fun t => .token t.kind t.lexeme
  have hread : ∀ x ∈ s.items c, s.read x = reading (s.token? x) := by
    intro x hx
    obtain ⟨t, ht⟩ := h.exists_token hx
    rw [TokenStore.read_of_token? ht rfl rfl, ht]
    rfl
  calc s.contents c
    _ = (s.items c).map (reading ∘ s.token?) := List.map_congr_left hread
    _ = ((s.items c).map s.token?).map reading := List.map_map.symm
    _ = (ts.map fun t => some t.token).map reading := by rw [h.tokens]
    _ = ts.map Lexeme.toValue := List.map_map

end Listed

/-- What the lexer has collected in an empty collection. -/
theorem listed_collected {s : TokenStore} {c : CollectionId} (hc : c < s.collections.size)
    (hempty : s.items c = []) (ts : List Lexeme) : Listed (collected s c ts) c ts where
  inRange := by
    change c < (s.collections.modify c _).size
    rwa [Array.size_modify]
  tokens := by
    have hcells : ∀ i, (collected s c ts).token? (.shared (.token (s.cells.size + i))) =
        (ts.map Lexeme.token)[i]? := fun i => s.cells_withTokens c (ts.map Lexeme.token) i
    have hitems : (collected s c ts).items c = TokenStore.references s.cells.size ts.length := by
      rw [collected, TokenStore.items_withTokens s _ hc, hempty, List.length_map]
      rfl
    rw [hitems, TokenStore.references, List.map_map]
    apply List.ext_getElem
    · simp
    · intro i hi _
      have hlt : i < ts.length := by simpa using hi
      simp only [List.getElem_map, List.getElem_range, Function.comp_apply, hcells]
      rw [List.getElem?_map, List.getElem?_eq_getElem hlt]
      rfl

/-! ## The listing -/

/-- Trimming first does not change which tokens are shown. -/
theorem filter_trimmed (ts : List Lexeme) :
    (((ts.dropWhile fun t => decide (t.kind = .space)).rdropWhile fun t =>
        decide (t.kind = .space)).filter fun t => !decide (t.kind = .space)) = shown ts := by
  rw [Sequence.filter_rdropWhile, Sequence.filter_dropWhile]
  simp [shown]

/-- What is printed of a collection of lexemes: a line for each that is no white space. -/
theorem exists_listing {d : Desk} {ts : List Lexeme}
    (h : Listed d.tokens Desk.collection ts) :
    ∃ d', listing d = (.ok (linesOf (shown ts)), d') := by
  obtain ⟨s₁, hstart, h₁⟩ := h.exists_trimStart .space
  obtain ⟨s₂, hend, h₂⟩ := h₁.exists_trimEnd .space
  obtain ⟨s₃, hremove, h₃⟩ := h₂.exists_removeKind .space
  rw [filter_trimmed] at h₃
  have htrim : Collection.trim Desk.collection Kind.space.toValue d.tokens = (.ok (), s₂) := by
    rw [Collection.trim, Effect.bind_apply_of_ok _ hstart, hend]
  have hlines : Collection.lines Desk.collection s₃ = (.ok (linesOf (shown ts)), s₃) := by
    have hsnapshot : Collection.snapshot Desk.collection s₃ =
        (.ok (.collection ((shown ts).map Lexeme.toValue)), s₃) := by
      rw [← h₃.contents]
      rfl
    rw [Collection.lines, Effect.bind_apply_of_ok _ hsnapshot, Value.text, lines_map_toValue]
    rfl
  rw [listing, Effect.bind_apply, Effect.within_apply, Effect.bind_apply_of_ok _ htrim,
    Effect.bind_apply_of_ok _ hremove, Effect.bind_apply_of_ok _ hlines]
  exact ⟨_, rfl⟩

/-! ## The answer -/

/-- What a request is answered, by how far its expression is read: the exit code with what is
printed on either channel, the log left aside. -/
def verdict (r : Request) : Lexing × List Char → Nat × String × String
  | (p, x :: rest) =>
    let position := 1 + (r.expression.toList.length - (rest.length + 1))
    (1, "", rejection r.expression
      (.unmatched (.ofChar x) (.int position) p.phase.id.toValue) position)
  | (p, []) =>
    if p.phase = .point then (1, "", earlyEnd p.phase.id)
    else if r.validateOnly then (0, "ok\n", "")
    else (0, linesOf (shown p.lexemes), "")

theorem truthy_accepting (ph : Phase) : ph.state.accepting.truthy = decide (ph ≠ .point) := by
  cases ph <;> rfl

/-- **The answer is read off the reading.** A request that only validates leaves the tokens as
they are. -/
theorem exists_respond (r : Request) (threshold : Level) :
    ∃ d, respond r (Desk.new threshold) =
        (.ok (verdict r (Lexing.initial.read r.expression.toList)), d) ∧
      (r.validateOnly = true → d.tokens = (Desk.new threshold).tokens) := by
  have hc : Desk.collection < (Desk.new threshold).tokens.collections.size := Nat.one_pos
  obtain ⟨log, hlex⟩ := lex_eq Desk.collection (!r.validateOnly) (Desk.new threshold) hc
    r.expression.toList
  have hkept : ∀ ts, r.validateOnly = true →
      kept Desk.collection (!r.validateOnly) (Desk.new threshold).tokens ts =
        (Desk.new threshold).tokens := fun _ hvalidate => by rw [hvalidate]; rfl
  rw [respond, Effect.bind_apply_of_ok _ hlex]
  rcases Lexing.initial.read r.expression.toList with ⟨p, _ | ⟨x, rest⟩⟩
  · have hstate : ∀ d : Desk, (host Desk.collection).stateNow p.phase.id d =
        (.ok p.phase.state, d) := fun d => by
      rw [Host.stateNow_apply, show (host Desk.collection).machine d = lexer from rfl,
        lexer_state?]
    simp only [outcomeOf]
    rw [Effect.bind_apply_of_ok _ (hstate _), truthy_accepting, verdict]
    by_cases hpoint : p.phase = .point
    · simp only [hpoint, ne_eq, not_true, decide_false, Bool.not_false, if_true]
      exact ⟨_, rfl, hkept _⟩
    · simp only [hpoint, ne_eq, not_false_eq_true, decide_true, Bool.not_true, Bool.false_eq_true,
        if_false]
      by_cases hvalidate : r.validateOnly
      · simp only [hvalidate, if_true]
        exact ⟨_, rfl, fun _ => rfl⟩
      · have hcollected := listed_collected hc rfl p.lexemes
        obtain ⟨d, hlisting⟩ := exists_listing
          (d := { Desk.new threshold with tokens := collected _ _ p.lexemes, log := log })
          hcollected
        simp only [hvalidate, Bool.false_eq_true, if_false]
        exact ⟨d, Effect.bind_apply_of_ok _ hlisting, False.elim⟩
  · simp only [outcomeOf]
    rw [Effect.bind_apply_of_ok _ (Effect.get_apply _)]
    exact ⟨_, rfl, hkept _⟩

/-- The exit code and the output of a request, without the log. -/
theorem answer_eq (r : Request) :
    (answer r).exitCode = (verdict r (Lexing.initial.read r.expression.toList)).1 ∧
      (answer r).out = (verdict r (Lexing.initial.read r.expression.toList)).2.1 := by
  obtain ⟨d, hrespond, -⟩ := exists_respond r (if r.verbose then .debug else .warning)
  rw [answer, hrespond]
  exact ⟨rfl, rfl⟩

/-! ## The modes -/

/-- **The modes of the program agree on an expression.** There is one exit code for the expression,
0 or 1, with error lines and a listing of its own. Whether it is only to be validated and whether
the log is detailed, the program exits with that code, prints those error lines behind its log
(none if the code is 0), and prints nothing if the code is 1. If the code is 0 it prints that all
is well where it only validates, and otherwise the listing. The collection of a program that only
validates is still empty at its end. -/
theorem modes_agree (expression : String) :
    ∃ (code : Nat) (errors listing : String),
      (code = 0 ∧ errors = "" ∨ code = 1) ∧
      ∀ validateOnly verbose : Bool,
        let r : Request := ⟨expression, validateOnly, verbose⟩
        let out := if code = 1 then "" else if validateOnly then "ok\n" else listing
        ∃ d, respond r (Desk.new (if verbose then .debug else .warning)) =
            (.ok (code, out, errors), d) ∧
          answer r = ⟨code, out, d.printedLog ++ errors⟩ ∧
          (validateOnly = true → d.tokens.items Desk.collection = []) := by
  -- The verdict does not look at the log, and at whether to validate only where the code is 0.
  obtain ⟨code, errors, listing, hcode, hverdict⟩ : ∃ (code : Nat) (errors listing : String),
      (code = 0 ∧ errors = "" ∨ code = 1) ∧ ∀ validateOnly verbose : Bool,
        verdict ⟨expression, validateOnly, verbose⟩ (Lexing.initial.read expression.toList) =
          (code, if code = 1 then "" else if validateOnly then "ok\n" else listing, errors) := by
    rcases Lexing.initial.read expression.toList with ⟨p, _ | ⟨x, rest⟩⟩
    · by_cases hpoint : p.phase = .point
      · refine ⟨1, earlyEnd p.phase.id, "", .inr rfl, fun _ _ => ?_⟩
        rw [verdict, if_pos hpoint]
        rfl
      · refine ⟨0, "", linesOf (shown p.lexemes), .inl ⟨rfl, rfl⟩, fun validateOnly _ => ?_⟩
        rw [verdict, if_neg hpoint]
        cases validateOnly <;> rfl
    · exact ⟨1, (verdict ⟨expression, false, false⟩ (p, x :: rest)).2.2, "", .inr rfl,
        fun _ _ => rfl⟩
  refine ⟨code, errors, listing, hcode, fun validateOnly verbose => ?_⟩
  obtain ⟨d, hrespond, htokens⟩ := exists_respond ⟨expression, validateOnly, verbose⟩
    (if verbose then .debug else .warning)
  rw [hverdict] at hrespond
  refine ⟨d, hrespond, by rw [answer, hrespond], fun hvalidate => ?_⟩
  rw [htokens hvalidate]
  rfl

end SymbolMachine.Arithmetic
