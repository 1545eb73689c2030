/-
The tokens of an arithmetic expression, and what the lexer says of a character that begins one.

This is the language that the lexer reads, told without it: which texts a token of a kind may
have, and which kinds cannot stand side by side because the second token would be read as
part of the first. The two meet in `isSome_extension`: what the lexer does with a character
that could begin a token depends on the kinds alone.
-/
import SymbolMachine.Proofs.Arithmetic.Reading
import Mathlib.Data.List.Chain

set_option autoImplicit false

namespace SymbolMachine.Arithmetic

/-! ## Well-formed tokens -/

/-- One or more of some characters. -/
def OneOrMore (cs : List Char) (text : List Char) : Prop := text ≠ [] ∧ ∀ x ∈ text, x ∈ cs

/-- The texts of each kind. -/
def Lexeme.WellFormed (t : Lexeme) : Prop :=
  match t.kind with
  | .number =>
    ∃ whole, OneOrMore digits whole ∧
      (t.text = whole ∨ ∃ fraction, OneOrMore digits fraction ∧ t.text = whole ++ '.' :: fraction)
  | .name => ∃ x rest, x ∈ nameStart ∧ (∀ y ∈ rest, y ∈ nameChars) ∧ t.text = x :: rest
  | .space => OneOrMore whitespace t.text
  | .operator => ∃ x ∈ operators, t.text = [x]
  | .leftParen => t.text = ['(']
  | .rightParen => t.text = [')']

/-- Kinds that cannot stand side by side. -/
def Kind.clashes : Kind → Kind → Bool
  | number, number | name, name | name, number | space, space => true
  | _, _ => false

/-- No two neighbours clash. -/
def Separated (ts : List Lexeme) : Prop :=
  ts.IsChain fun t u => t.kind.clashes u.kind = false

/-- The text of some tokens. -/
def textOf (ts : List Lexeme) : List Char := ts.flatMap Lexeme.text

theorem textOf_append (ts us : List Lexeme) : textOf (ts ++ us) = textOf ts ++ textOf us :=
  List.flatMap_append

theorem textOf_singleton (t : Lexeme) : textOf [t] = t.text := List.flatMap_singleton ..

namespace OneOrMore

variable {cs text : List Char}

theorem singleton {x : Char} (hx : x ∈ cs) : OneOrMore cs [x] :=
  ⟨List.cons_ne_nil x [], fun y hy => by rwa [List.mem_singleton.mp hy]⟩

theorem append_singleton (h : OneOrMore cs text) {x : Char} (hx : x ∈ cs) :
    OneOrMore cs (text ++ [x]) := by
  refine ⟨List.append_ne_nil_of_left_ne_nil h.1 [x], fun y hy => ?_⟩
  rcases List.mem_append.mp hy with hy | hy
  · exact h.2 y hy
  · rw [List.mem_singleton.mp hy]
    exact hx

theorem exists_cons (h : OneOrMore cs text) :
    ∃ x rest, text = x :: rest ∧ x ∈ cs ∧ ∀ y ∈ rest, y ∈ cs := by
  obtain ⟨x, rest, rfl⟩ := List.exists_cons_of_ne_nil h.1
  exact ⟨x, rest, rfl, h.2 x (List.mem_cons_self ..), fun y hy => h.2 y (List.mem_cons_of_mem x hy)⟩

end OneOrMore

/-! ## Characters that begin a token -/

/-- The classes of characters that begin a token have none in common. -/
theorem classes_disjoint :
    (∀ x ∈ nameStart, x ∉ digits) ∧ (∀ x ∈ whitespace, x ∉ digits ∧ x ∉ nameStart) ∧
      ∀ x ∈ '(' :: ')' :: operators, x ∉ digits ∧ x ∉ nameStart ∧ x ∉ whitespace := by
  -- The members of the lists are tried, not all characters.
  have hname : nameStart.all (fun x => decide (x ∉ digits)) = true := by decide
  have hspace : whitespace.all (fun x => decide (x ∉ digits ∧ x ∉ nameStart)) = true := by decide
  have hsingle : ('(' :: ')' :: operators).all
      (fun x => decide (x ∉ digits ∧ x ∉ nameStart ∧ x ∉ whitespace)) = true := by decide
  simp only [List.all_eq_true, decide_eq_true_iff] at hname hspace hsingle
  exact ⟨hname, hspace, hsingle⟩

theorem starting_point : Kind.starting '.' = none := by decide

/-- What the kind of token that a character begins says about the character. -/
theorem classes_of_starting {x : Char} {k : Kind} (h : Kind.starting x = some k) :
    (x ∈ digits ↔ k = .number) ∧ (x ∈ nameStart ↔ k = .name) ∧ (x ∈ whitespace ↔ k = .space) := by
  obtain ⟨hname, hspace, hsingle⟩ := classes_disjoint
  have hother := hsingle x
  rw [List.mem_cons, List.mem_cons] at hother
  -- Each class is known from the condition that holds, and the others from their being disjoint.
  unfold Kind.starting at h
  split_ifs at h with h₁ h₂ h₃ h₄ h₅ h₆ <;> cases h <;> grind

/-- A character alone is a token of the kind that it begins. -/
theorem wellFormed_of_starting {x : Char} {k : Kind} (h : Kind.starting x = some k) :
    (Lexeme.mk k [x]).WellFormed := by
  unfold Kind.starting at h
  split_ifs at h with h₁ h₂ h₃ h₄ h₅ h₆ <;> cases h
  · exact ⟨[x], .singleton h₁, .inl rfl⟩
  · exact ⟨x, [], h₂, nofun, rfl⟩
  · exact OneOrMore.singleton h₃
  · exact ⟨x, h₄, rfl⟩
  · exact congrArg (fun y => [y]) h₅
  · exact congrArg (fun y => [y]) h₆

/-- A token starts with a character that begins one of its kind. -/
theorem exists_starting {t : Lexeme} (ht : t.WellFormed) :
    ∃ x rest, t.text = x :: rest ∧ Kind.starting x = some t.kind := by
  obtain ⟨hname, hspace, hsingle⟩ := classes_disjoint
  obtain ⟨k, text⟩ := t
  cases k with
  | number =>
      obtain ⟨whole, hwhole, htext⟩ := ht
      obtain ⟨x, rest, rfl, hx, -⟩ := hwhole.exists_cons
      have hstarting : Kind.starting x = some .number := if_pos hx
      rcases htext with htext | ⟨fraction, -, htext⟩
      · exact ⟨x, rest, htext, hstarting⟩
      · exact ⟨x, rest ++ '.' :: fraction, htext, hstarting⟩
  | name =>
      obtain ⟨x, rest, hx, -, htext⟩ := ht
      refine ⟨x, rest, htext, ?_⟩
      rw [Kind.starting, if_neg (hname x hx), if_pos hx]
  | space =>
      obtain ⟨x, rest, htext, hx, -⟩ := OneOrMore.exists_cons ht
      refine ⟨x, rest, htext, ?_⟩
      rw [Kind.starting, if_neg (hspace x hx).1, if_neg (hspace x hx).2, if_pos hx]
  | operator =>
      obtain ⟨x, hx, htext⟩ := ht
      obtain ⟨h₁, h₂, h₃⟩ := hsingle x (List.mem_cons_of_mem _ (List.mem_cons_of_mem _ hx))
      refine ⟨x, [], htext, ?_⟩
      rw [Kind.starting, if_neg h₁, if_neg h₂, if_neg h₃, if_pos hx]
  | leftParen => exact ⟨'(', [], ht, (by decide : Kind.starting '(' = some .leftParen)⟩
  | rightParen => exact ⟨')', [], ht, (by decide : Kind.starting ')' = some .rightParen)⟩

/-! ## The last token, by phase -/

/-- What the phase says about the token that was read last. -/
def Phase.Shape : Phase → Lexeme → Prop
  | start, t => t.WellFormed ∧ t.kind.phase = .start
  | integer, t => t.kind = .number ∧ OneOrMore digits t.text
  | point, t => t.kind = .number ∧ ∃ whole, OneOrMore digits whole ∧ t.text = whole ++ ['.']
  | fraction, t =>
    t.kind = .number ∧ ∃ whole fraction, OneOrMore digits whole ∧ OneOrMore digits fraction ∧
      t.text = whole ++ '.' :: fraction
  | name, t => t.kind = .name ∧ t.WellFormed
  | space, t => t.kind = .space ∧ t.WellFormed

/-- Everywhere but behind a point the last token is complete. -/
theorem Phase.Shape.wellFormed {ph : Phase} {t : Lexeme} (ht : ph.Shape t) (hph : ph ≠ .point) :
    t.WellFormed := by
  obtain ⟨k, text⟩ := t
  cases ph with
  | start => exact ht.1
  | integer =>
      obtain ⟨rfl, htext⟩ := ht
      exact ⟨text, htext, .inl rfl⟩
  | point => exact absurd rfl hph
  | fraction =>
      obtain ⟨rfl, whole, fraction, hwhole, hfraction, htext⟩ := ht
      exact ⟨whole, hwhole, .inr ⟨fraction, hfraction, htext⟩⟩
  | name => exact ht.2
  | space => exact ht.2

/-- Going on with a token leads to the shape of the next phase. -/
theorem Phase.Shape.extend {ph ph' : Phase} {t : Lexeme} (ht : ph.Shape t) {x : Char}
    (hx : ph.extension x = some ph') : ph'.Shape (t.extend x) := by
  obtain ⟨k, text⟩ := t
  cases ph with
  | start => cases hx
  | integer =>
      obtain ⟨hk, htext⟩ := ht
      rw [extension] at hx
      split_ifs at hx with hdigit hpoint
      · cases hx
        exact ⟨hk, htext.append_singleton hdigit⟩
      · cases hx
        subst hpoint
        exact ⟨hk, text, htext, rfl⟩
  | point =>
      obtain ⟨hk, whole, hwhole, htext⟩ := ht
      rw [extension] at hx
      split_ifs at hx with hdigit
      cases hx
      refine ⟨hk, whole, [x], hwhole, .singleton hdigit, ?_⟩
      change text = _ at htext
      change text ++ [x] = _
      rw [htext, List.append_assoc]
      rfl
  | fraction =>
      obtain ⟨hk, whole, fraction, hwhole, hfraction, htext⟩ := ht
      rw [extension] at hx
      split_ifs at hx with hdigit
      cases hx
      refine ⟨hk, whole, fraction ++ [x], hwhole, hfraction.append_singleton hdigit, ?_⟩
      change text = _ at htext
      change text ++ [x] = _
      rw [htext, List.append_assoc]
      rfl
  | name =>
      obtain ⟨rfl, y, rest, hy, hrest, htext⟩ := ht
      rw [extension] at hx
      split_ifs at hx with hchar
      cases hx
      refine ⟨rfl, y, rest ++ [x], hy, fun z hz => ?_, ?_⟩
      · rcases List.mem_append.mp hz with hz | hz
        · exact hrest z hz
        · rw [List.mem_singleton.mp hz]
          exact hchar
      · change text = _ at htext
        change text ++ [x] = _
        rw [htext]
        rfl
  | space =>
      obtain ⟨rfl, htext⟩ := ht
      rw [extension] at hx
      split_ifs at hx with hspace
      cases hx
      exact ⟨rfl, OneOrMore.append_singleton htext hspace⟩

/-- The first character of a token leads to the shape of its phase. -/
theorem shape_of_starting {x : Char} {k : Kind} (hx : Kind.starting x = some k) :
    k.phase.Shape ⟨k, [x]⟩ := by
  have hwell := wellFormed_of_starting hx
  have hclasses := classes_of_starting hx
  cases k with
  | number => exact ⟨rfl, .singleton (hclasses.1.mpr rfl)⟩
  | name => exact ⟨rfl, hwell⟩
  | space => exact ⟨rfl, hwell⟩
  | operator | leftParen | rightParen => exact ⟨hwell, rfl⟩

theorem isSome_ite_some (p : Prop) [Decidable p] (ph : Phase) :
    (if p then some ph else none).isSome = decide p := by
  by_cases h : p
  · rw [if_pos h, decide_eq_true h]
    rfl
  · rw [if_neg h, decide_eq_false h]
    rfl

/-- **A character that could begin a token goes on with the last one exactly if the kinds
clash.** -/
theorem isSome_extension {ph : Phase} {t : Lexeme} (ht : ph.Shape t) (hph : ph ≠ .point)
    {x : Char} {k : Kind} (hx : Kind.starting x = some k) :
    (ph.extension x).isSome = t.kind.clashes k := by
  obtain ⟨hdigit, hname, hspace⟩ := classes_of_starting hx
  have hnumber : Kind.number.clashes k = decide (x ∈ digits) := by
    rw [decide_eq_decide.mpr hdigit]
    cases k <;> rfl
  obtain ⟨k', text⟩ := t
  cases ph with
  | start =>
      obtain ⟨-, hstart⟩ := ht
      cases k' with
      | number | name | space => cases hstart
      | operator | leftParen | rightParen => rfl
  | integer =>
      obtain ⟨rfl, -⟩ := ht
      -- A point goes on with an integer too, but it begins no token.
      have hpoint : x ≠ '.' := by
        rintro rfl
        rw [starting_point] at hx
        cases hx
      rw [hnumber, Phase.extension, if_neg hpoint]
      exact isSome_ite_some _ _
  | point => exact absurd rfl hph
  | fraction =>
      obtain ⟨rfl, -⟩ := ht
      rw [hnumber, Phase.extension]
      exact isSome_ite_some _ _
  | name =>
      obtain ⟨rfl, -⟩ := ht
      have hchar : x ∈ nameChars ↔ k = .name ∨ k = .number := by
        rw [nameChars, List.mem_append, hname, hdigit]
      have hclash : Kind.name.clashes k = decide (x ∈ nameChars) := by
        rw [decide_eq_decide.mpr hchar]
        cases k <;> rfl
      rw [hclash, Phase.extension]
      exact isSome_ite_some _ _
  | space =>
      obtain ⟨rfl, -⟩ := ht
      have hclash : Kind.space.clashes k = decide (x ∈ whitespace) := by
        rw [decide_eq_decide.mpr hspace]
        cases k <;> rfl
      rw [hclash, Phase.extension]
      exact isSome_ite_some _ _

end SymbolMachine.Arithmetic
