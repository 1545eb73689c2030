/-
The output of the program is a normal form of its expression.

What an accepted expression shows are its tokens without the white space (`outline`). This file
is about what can be told from the output alone. Since no token that is shown has white space in
it, the texts of these tokens are the expression with its white space deleted, and the printed
lines can be taken apart again. And the tokens with single spaces between them are tokens too,
no two neighbours of which clash, so lexing them anew finds them again, whichever kinds meet.
-/
import SymbolMachine.Proofs.Arithmetic.Spacing

set_option autoImplicit false

namespace SymbolMachine.Arithmetic

/-! ## Tokens without white space -/

/-- The characters of a text that are no white space. -/
def deleteBlank (xs : List Char) : List Char := xs.filter fun x => x ∉ whitespace

theorem deleteBlank_append (xs ys : List Char) :
    deleteBlank (xs ++ ys) = deleteBlank xs ++ deleteBlank ys := List.filter_append ..

/-- Only tokens of white space contain any. -/
theorem Lexeme.WellFormed.not_mem_whitespace {t : Lexeme} (ht : t.WellFormed)
    (hkind : t.kind ≠ .space) : ∀ x ∈ t.text, x ∉ whitespace := by
  obtain ⟨-, hspace, hsingle⟩ := classes_disjoint
  have hdigit : ∀ x ∈ digits, x ∉ whitespace := fun x hx hblank => (hspace x hblank).1 hx
  have hname : ∀ x ∈ nameChars, x ∉ whitespace := by
    intro x hx hblank
    rcases List.mem_append.mp hx with hx | hx
    · exact (hspace x hblank).2 hx
    · exact (hspace x hblank).1 hx
  have hoperator : ∀ x ∈ operators, x ∉ whitespace := by
    intro x hx
    have hmem : x ∈ '(' :: ')' :: operators := List.mem_cons_of_mem _ (List.mem_cons_of_mem _ hx)
    exact (hsingle x hmem).2.2
  obtain ⟨k, text⟩ := t
  intro x hx
  cases k with
  | number =>
      obtain ⟨whole, hwhole, rfl | ⟨fraction, hfraction, rfl⟩⟩ := ht
      · exact hdigit x (hwhole.2 x hx)
      · rcases List.mem_append.mp hx with hx | hx
        · exact hdigit x (hwhole.2 x hx)
        rcases List.mem_cons.mp hx with rfl | hx
        · decide
        · exact hdigit x (hfraction.2 x hx)
  | name =>
      obtain ⟨y, rest, hy, hrest, rfl⟩ := ht
      rcases List.mem_cons.mp hx with rfl | hx
      · exact hname x (List.mem_append_left _ hy)
      · exact hname x (hrest x hx)
  | operator =>
      obtain ⟨y, hy, rfl⟩ := ht
      rw [List.mem_singleton.mp hx]
      exact hoperator y hy
  | leftParen | rightParen =>
      cases id ht
      rw [List.mem_singleton.mp hx]
      decide
  | space => exact absurd rfl hkind

/-- The tokens that are shown spell the text without its white space. -/
theorem textOf_shown {ts : List Lexeme} (hts : ∀ t ∈ ts, t.WellFormed) :
    textOf (shown ts) = deleteBlank (textOf ts) := by
  induction ts with
  | nil => rfl
  | cons t ts ih =>
      obtain ⟨ht, hrest⟩ := List.forall_mem_cons.mp hts
      have hcons : ∀ us : List Lexeme, textOf (t :: us) = t.text ++ textOf us := fun _ => rfl
      by_cases hkind : t.kind = .space
      · have htext : deleteBlank t.text = [] := by
          refine List.filter_eq_nil_iff.mpr fun x hx => ?_
          have hblank : OneOrMore whitespace t.text := by
            rw [Lexeme.WellFormed, hkind] at ht
            exact ht
          simpa using hblank.2 x hx
        rw [← List.singleton_append, shown_append, shown_singleton_of_eq hkind,
          List.singleton_append, hcons, deleteBlank_append, htext]
        exact ih hrest
      · have htext : deleteBlank t.text = t.text := by
          refine List.filter_eq_self.mpr fun x hx => ?_
          simpa using ht.not_mem_whitespace hkind x hx
        rw [← List.singleton_append, shown_append, shown_singleton_of_ne hkind,
          List.singleton_append, List.singleton_append, hcons, hcons, deleteBlank_append, htext,
          ih hrest]

/-! ## Taking the output apart -/

/-- What stands before the first of some marks can be told from what stands behind it. -/
theorem append_mark_injective {ι : Type} [DecidableEq ι] {mark : ι} {xs ys zs ws : List ι}
    (hxs : mark ∉ xs) (hys : mark ∉ ys) (h : xs ++ mark :: zs = ys ++ mark :: ws) :
    xs = ys ∧ zs = ws := by
  have htake : ∀ {us : List ι}, mark ∉ us → ∀ vs,
      (us ++ mark :: vs).takeWhile (fun x => x ≠ mark) = us := by
    intro us hus vs
    have hall : ∀ x ∈ us, decide (x ≠ mark) = true := fun x hx =>
      decide_eq_true fun heq => hus (heq ▸ hx)
    rw [List.takeWhile_append_of_pos hall, List.takeWhile_cons]
    simp
  have heq : xs = ys := by rw [← htake hxs zs, h, htake hys ws]
  refine ⟨heq, ?_⟩
  rw [heq] at h
  exact (List.cons.inj (List.append_cancel_left h)).2

theorem label_injective {k k' : Kind} (h : k.label = k'.label) : k = k' := by
  revert h
  cases k <;> cases k' <;> decide

/-- The name of a kind, the bar, the text, and the end of the line. -/
theorem toList_line (t : Lexeme) :
    t.line.toList = t.kind.label.toList ++ ' ' :: '|' :: ' ' :: (t.text ++ ['\n']) := by
  simp [Lexeme.line]

/-- A line tells its token, and where it ends. -/
theorem line_append_injective {t u : Lexeme} {rest rest' : List Char} (ht : '\n' ∉ t.text)
    (hu : '\n' ∉ u.text) (h : t.line.toList ++ rest = u.line.toList ++ rest') :
    t = u ∧ rest = rest' := by
  have hlabel : ∀ k : Kind, ' ' ∉ k.label.toList := by
    intro k
    cases k <;> decide
  simp only [toList_line, List.append_assoc, List.cons_append, List.nil_append] at h
  obtain ⟨hkind, htail⟩ := append_mark_injective (hlabel t.kind) (hlabel u.kind) h
  simp only [List.cons.injEq, true_and] at htail
  obtain ⟨htext, hrest⟩ := append_mark_injective ht hu htail
  have hkind' : t.kind = u.kind := label_injective (String.toList_inj.mp hkind)
  refine ⟨?_, hrest⟩
  obtain ⟨k, text⟩ := t
  obtain ⟨k', text'⟩ := u
  simp only at hkind' htext
  rw [hkind', htext]

/-- **The lines tell the tokens.** -/
theorem linesOf_injective {ts us : List Lexeme} (hts : ∀ t ∈ ts, '\n' ∉ t.text)
    (hus : ∀ u ∈ us, '\n' ∉ u.text) (h : linesOf ts = linesOf us) : ts = us := by
  have hchars : ∀ ts : List Lexeme,
      (linesOf ts).toList = ts.flatMap fun t => t.line.toList := by
    intro ts
    rw [linesOf, String.toList_join, List.flatMap_map]
  have hflat := congrArg String.toList h
  rw [hchars, hchars] at hflat
  -- No line is empty, so neither list ends before the other.
  have hne : ∀ (t : Lexeme) (rest : List Char), t.line.toList ++ rest ≠ [] := by
    intro t rest
    simp [toList_line]
  clear h
  induction ts generalizing us with
  | nil =>
      cases us with
      | nil => rfl
      | cons u us => exact absurd hflat.symm (hne u _)
  | cons t ts ih =>
      cases us with
      | nil => exact absurd hflat (hne t _)
      | cons u us =>
          obtain ⟨ht, hts'⟩ := List.forall_mem_cons.mp hts
          obtain ⟨hu, hus'⟩ := List.forall_mem_cons.mp hus
          obtain ⟨rfl, hrest⟩ := line_append_injective ht hu hflat
          rw [ih hts' hus' hrest]

/-! ## Tokens with single spaces between them -/

/-- One space as a token. -/
def oneSpace : Lexeme := ⟨.space, [' ']⟩

/-- The tokens with a space between each two. -/
def spaced (ts : List Lexeme) : List Lexeme := ts.intersperse oneSpace

/-- The texts of some tokens, joined by single spaces. -/
def spelled (ts : List Lexeme) : String := " ".intercalate (ts.map fun t => String.ofList t.text)

theorem spaced_singleton (t : Lexeme) : spaced [t] = [t] := rfl

theorem spaced_cons_cons (t u : Lexeme) (ts : List Lexeme) :
    spaced (t :: u :: ts) = t :: oneSpace :: spaced (u :: ts) := rfl

theorem textOf_spaced : (ts : List Lexeme) →
    textOf (spaced ts) = [' '].intercalate (ts.map Lexeme.text)
  | [] => rfl
  | [t] => by rw [spaced_singleton, textOf_singleton, List.map_singleton, List.intercalate_singleton]
  | t :: u :: ts => by
      have ih := textOf_spaced (u :: ts)
      rw [List.map_cons] at ih
      rw [spaced_cons_cons, List.map_cons, List.map_cons, List.intercalate_cons_cons, ← ih,
        List.append_assoc]
      rfl

theorem toList_spelled (ts : List Lexeme) : (spelled ts).toList = textOf (spaced ts) := by
  rw [textOf_spaced, spelled, String.toList_intercalate, List.map_map]
  simp only [Function.comp_def, String.toList_ofList]
  rfl

theorem mem_spaced : (ts : List Lexeme) → ∀ t ∈ spaced ts, t = oneSpace ∨ t ∈ ts
  | [], _, h => .inr h
  | [_], _, h => .inr h
  | t :: u :: ts, v, h => by
      rw [spaced_cons_cons, List.mem_cons, List.mem_cons] at h
      rcases h with rfl | rfl | h
      · exact .inr (List.mem_cons_self ..)
      · exact .inl rfl
      · exact (mem_spaced (u :: ts) v h).imp_right (List.mem_cons_of_mem t)

theorem wellFormed_spaced {ts : List Lexeme} (hts : ∀ t ∈ ts, t.WellFormed) :
    ∀ t ∈ spaced ts, t.WellFormed := by
  intro t ht
  rcases mem_spaced ts t ht with rfl | ht
  · exact OneOrMore.singleton (by decide)
  · exact hts t ht

/-- A space clashes with no token that is none. -/
theorem clashes_space {k : Kind} (hk : k ≠ .space) :
    k.clashes .space = false ∧ Kind.space.clashes k = false := by
  cases k with
  | space => exact absurd rfl hk
  | _ => exact ⟨rfl, rfl⟩

theorem separated_spaced : (ts : List Lexeme) → (∀ t ∈ ts, t.kind ≠ .space) → Separated (spaced ts)
  | [], _ => .nil
  | [t], _ => .singleton t
  | t :: u :: ts, h => by
      obtain ⟨ht, hrest⟩ := List.forall_mem_cons.mp h
      have ih := separated_spaced (u :: ts) hrest
      have hu := hrest u (List.mem_cons_self ..)
      rw [spaced_cons_cons]
      refine List.isChain_cons_cons.mpr ⟨(clashes_space ht).1, ?_⟩
      -- The first of the others is the next token, which follows the space.
      cases ts with
      | nil => exact .cons_cons (clashes_space hu).2 ih
      | cons v ts => exact .cons_cons (clashes_space hu).2 ih

theorem shown_spaced : (ts : List Lexeme) → (∀ t ∈ ts, t.kind ≠ .space) → shown (spaced ts) = ts
  | [], _ => rfl
  | [t], h => shown_singleton_of_ne (h t (List.mem_cons_self ..))
  | t :: u :: ts, h => by
      obtain ⟨ht, hrest⟩ := List.forall_mem_cons.mp h
      have happend : spaced (t :: u :: ts) = [t] ++ ([oneSpace] ++ spaced (u :: ts)) := rfl
      rw [happend, shown_append, shown_append, shown_singleton_of_ne ht,
        shown_singleton_of_eq rfl, List.nil_append, shown_spaced (u :: ts) hrest]
      rfl

/-! ## What an expression is made of -/

/-- The lexer accepts an expression, and these are the tokens that it collects. -/
def Tokenizes (e : String) (ts : List Lexeme) : Prop :=
  ∃ s d, lex Desk.collection true (e.toList.map Value.ofChar) (Desk.new .warning) =
      (.ok (.success s), d) ∧
    Accepting s ∧ d.tokens.contents Desk.collection = ts.map Lexeme.toValue

theorem toValue_injective : Function.Injective Lexeme.toValue := by
  rintro ⟨k, text⟩ ⟨k', text'⟩ h
  simp only [Lexeme.toValue, Value.token.injEq, Value.str.injEq] at h
  obtain ⟨hkind, htext⟩ := h
  have hkind' : k = k' := by
    revert hkind
    cases k <;> cases k' <;> simp [Kind.toValue, Kind.label]
  rw [hkind', String.ofList_injective htext]

/-- An expression is accepted if it is read to its end and not left behind a point, and then its
tokens are those that were read. -/
theorem tokenizes_iff {e : String} {ts : List Lexeme} :
    Tokenizes e ts ↔ ∃ ph, Lexing.initial.read e.toList = (⟨ph, ts⟩, []) ∧ ph ≠ .point := by
  have hc : Desk.collection < (Desk.new .warning).tokens.collections.size := Nat.one_pos
  obtain ⟨log, hlex⟩ := lex_eq Desk.collection true (Desk.new .warning) hc e.toList
  rw [Tokenizes, hlex]
  rcases Lexing.initial.read e.toList with ⟨⟨ph, us⟩, _ | ⟨x, rest⟩⟩
  · have hcontents := contents_collected_of_empty hc rfl us
    constructor
    · rintro ⟨s, d, heq, haccepting, hts⟩
      cases heq
      have hus : us.map Lexeme.toValue = ts.map Lexeme.toValue := hcontents.symm.trans hts
      rw [(List.map_injective_iff.mpr toValue_injective) hus]
      exact ⟨ph, rfl, (accepting_id_iff ph).mp haccepting⟩
    · rintro ⟨ph', heq, hph⟩
      cases heq
      exact ⟨_, _, rfl, (accepting_id_iff ph).mpr hph, hcontents⟩
  -- With characters left over there is no success.
  · constructor
    · rintro ⟨s, d, heq, -⟩
      cases heq
    · rintro ⟨ph', heq, -⟩
      cases heq

theorem Tokenizes.outline_eq {e : String} {ts : List Lexeme} (h : Tokenizes e ts) :
    outline e.toList = some (shown ts) := by
  obtain ⟨ph, hread, hph⟩ := tokenizes_iff.mp h
  rw [outline, hread]
  exact if_neg hph

/-- What an expression shows are its tokens, which are well-formed and spell it. -/
theorem exists_tokenizes {e : String} {us : List Lexeme} (h : outline e.toList = some us) :
    ∃ ts, Tokenizes e ts ∧ shown ts = us ∧ (∀ t ∈ ts, t.WellFormed) ∧ textOf ts = e.toList := by
  obtain ⟨zs, hzs, hfollows⟩ := Lexing.follows_initial.read e.toList
  rw [outline] at h
  rcases hread : Lexing.initial.read e.toList with ⟨p, _ | ⟨x, rest⟩⟩
  · rw [hread] at h hzs hfollows
    by_cases hph : p.phase = .point
    · simp [hph] at h
    · simp only [hph, if_false, Option.some.injEq] at h
      rw [List.append_nil] at hzs
      refine ⟨p.lexemes, tokenizes_iff.mpr ⟨p.phase, hread, hph⟩, h, hfollows.wellFormed hph, ?_⟩
      rw [hfollows.text, List.nil_append, hzs]
  · rw [hread] at h
    cases h

/-- Tokens that are no white space are found again when they are spelled with spaces between. -/
theorem outline_spelled {us : List Lexeme} (hwell : ∀ u ∈ us, u.WellFormed)
    (hus : ∀ u ∈ us, u.kind ≠ .space) : outline (spelled us).toList = some us := by
  obtain ⟨ph, hph, hread⟩ := Lexing.read_lexemes (p := Lexing.initial) nofun
    (wellFormed_spaced hwell) (separated_spaced us hus) (fun _ _ _ _ => rfl)
  rw [outline, toList_spelled, hread]
  change (if ph = .point then none else some (shown (spaced us))) = some us
  rw [if_neg hph, shown_spaced us hus]

/-! ## The output as a normal form -/

/-- With exit code 0 the expression has an outline, and the output are its lines. -/
theorem exists_outline {r : Request} (hemit : r.validateOnly = false)
    (hcode : (answer r).exitCode = 0) :
    ∃ us, outline r.expression.toList = some us ∧ (answer r).out = linesOf us := by
  have hreport := report_answer r
  rw [Printed.report, hcode] at hreport
  cases houtline : outline r.expression.toList with
  | none =>
      rw [houtline] at hreport
      cases hreport
  | some us =>
      rw [houtline, hemit] at hreport
      exact ⟨us, rfl, congrArg Prod.snd hreport⟩

/-- The exit code and the output for an expression, by the options. -/
def commandReport (validateOnly verbose : Bool) (e : List Char) : Nat × String :=
  (answer ⟨String.ofList e, validateOnly, verbose⟩).report

/-- **The output is a normal form of the expression that does not see white space.** Where the
program emits tokens and exits with 0, its output has a line for each token of the expression
that is no white space, in order; the texts of these tokens are the expression with its white
space deleted; and the program answers the same for these texts joined by single spaces. From
the output these tokens can be told. And for all expressions and options, whether the
expression is accepted or not, neither exit code nor output changes if a run of white space is
replaced by another, or if white space is added at either end. -/
theorem answer_normal_form :
    (∀ r : Request, r.validateOnly = false → (answer r).exitCode = 0 →
      ∃ ts, Tokenizes r.expression ts ∧ (answer r).out = linesOf (shown ts) ∧
        textOf (shown ts) = deleteBlank r.expression.toList ∧
        ∀ verbose, (answer ⟨spelled (shown ts), false, verbose⟩).report = (0, (answer r).out)) ∧
    (∀ r r' : Request, r.validateOnly = false → r'.validateOnly = false →
      (answer r).exitCode = 0 → (answer r').exitCode = 0 → (answer r).out = (answer r').out →
      ∀ ts ts', Tokenizes r.expression ts → Tokenizes r'.expression ts' → shown ts = shown ts') ∧
    ∀ (validateOnly verbose : Bool) (xs ys blank blank' : List Char),
      (OneOrMore whitespace blank → OneOrMore whitespace blank' →
        commandReport validateOnly verbose (xs ++ blank ++ ys) =
          commandReport validateOnly verbose (xs ++ blank' ++ ys)) ∧
      ((∀ x ∈ blank, x ∈ whitespace) →
        commandReport validateOnly verbose (blank ++ xs) = commandReport validateOnly verbose xs ∧
        commandReport validateOnly verbose (xs ++ blank) = commandReport validateOnly verbose xs) := by
  -- The tokens that an accepted expression shows, with what is known of them.
  have htokens : ∀ r : Request, r.validateOnly = false → (answer r).exitCode = 0 →
      ∃ ts, Tokenizes r.expression ts ∧ (answer r).out = linesOf (shown ts) ∧
        (∀ t ∈ ts, t.WellFormed) ∧ textOf ts = r.expression.toList := by
    intro r hemit hcode
    obtain ⟨us, houtline, hout⟩ := exists_outline hemit hcode
    obtain ⟨ts, hts, rfl, hwell, htext⟩ := exists_tokenizes houtline
    exact ⟨ts, hts, hout, hwell, htext⟩
  refine ⟨?_, ?_, ?_⟩
  · intro r hemit hcode
    obtain ⟨ts, hts, hout, hwell, htext⟩ := htokens r hemit hcode
    refine ⟨ts, hts, hout, ?_, fun verbose => ?_⟩
    · rw [textOf_shown hwell, htext]
    · have hagain : outline (spelled (shown ts)).toList = some (shown ts) :=
        outline_spelled (fun u hu => hwell u (mem_shown.mp hu).1) fun u hu => (mem_shown.mp hu).2
      rw [report_answer, hagain, hout]
      rfl
  · intro r r' hemit hemit' hcode hcode' heq us us' hus hus'
    obtain ⟨ts, hts, hout, hwell, -⟩ := htokens r hemit hcode
    obtain ⟨ts', hts', hout', hwell', -⟩ := htokens r' hemit' hcode'
    have hline : ∀ {ts : List Lexeme}, (∀ t ∈ ts, t.WellFormed) →
        ∀ t ∈ shown ts, '\n' ∉ t.text := by
      intro ts hwell t ht hnewline
      obtain ⟨hmem, hkind⟩ := mem_shown.mp ht
      exact (hwell t hmem).not_mem_whitespace hkind '\n' hnewline (by decide)
    have hshown : shown ts = shown ts' :=
      linesOf_injective (hline hwell) (hline hwell') (by rw [← hout, ← hout', heq])
    have hus₁ := hus.outline_eq.symm.trans hts.outline_eq
    have hus₂ := hus'.outline_eq.symm.trans hts'.outline_eq
    rw [Option.some.inj hus₁, Option.some.inj hus₂, hshown]
  · intro validateOnly verbose xs ys blank blank'
    have hreport : ∀ {e e' : List Char}, outline e = outline e' →
        commandReport validateOnly verbose e = commandReport validateOnly verbose e' := by
      intro e e' houtline
      simp only [commandReport, report_answer, String.toList_ofList, houtline]
    refine ⟨fun hblank hblank' => ?_, fun hblank => ⟨?_, ?_⟩⟩
    · exact hreport (outline_replace hblank hblank' xs ys)
    · exact hreport (outline_prepend hblank xs)
    · exact hreport (outline_append hblank xs)

/-- A name, an operator and a number with white space here and there, and without it; and the
number `1.`, which breaks off behind its point with white space as without. -/
theorem normal_form_of_sum :
    let r : Request := ⟨" x1 +\t2.5", false, false⟩
    (∃ ts, Tokenizes r.expression ts ∧ (answer r).out = linesOf (shown ts) ∧
      textOf (shown ts) = "x1+2.5".toList ∧
      (answer ⟨spelled (shown ts), false, true⟩).report = (0, (answer r).out)) ∧
    (∀ ts ts', Tokenizes r.expression ts → Tokenizes "x1+2.5" ts' → shown ts = shown ts') ∧
    commandReport true false "x1 \n+".toList = commandReport true false "x1\t+".toList ∧
    commandReport false true " 1.".toList = commandReport false true "1.".toList ∧
    commandReport false true "1. ".toList = commandReport false true "1.".toList := by
  intro r
  have houtline : outline r.expression.toList = some sampleTokens := by decide
  have houtline' : outline "x1+2.5".toList = some sampleTokens := by decide
  have hreport : (answer r).report = (0, linesOf sampleTokens) := by
    rw [report_answer, houtline]
    rfl
  have hreport' : (answer ⟨"x1+2.5", false, false⟩).report = (0, linesOf sampleTokens) := by
    rw [report_answer, houtline']
    rfl
  obtain ⟨hcode, hout⟩ := Printed.report_eq_iff.mp hreport
  obtain ⟨hcode', hout'⟩ := Printed.report_eq_iff.mp hreport'
  obtain ⟨hprinted, hrecovered, hblank⟩ := answer_normal_form
  obtain ⟨ts, hts, hlines, htext, hagain⟩ := hprinted r rfl hcode
  have hdeleted : deleteBlank r.expression.toList = "x1+2.5".toList := by decide
  have hspace : ∀ x ∈ [' '], x ∈ whitespace := by
    intro x hx
    rw [List.mem_singleton.mp hx]
    decide
  have hline : ∀ x ∈ [' ', '\n'], x ∈ whitespace := by
    have hall : [' ', '\n'].all (fun x => decide (x ∈ whitespace)) = true := by decide
    simpa only [List.all_eq_true, decide_eq_true_iff] using hall
  have htab : ∀ x ∈ ['\t'], x ∈ whitespace := by
    intro x hx
    rw [List.mem_singleton.mp hx]
    decide
  have hpoint := (hblank false true ['1', '.'] [] [' '] []).2 hspace
  refine ⟨⟨ts, hts, hlines, htext.trans hdeleted, hagain true⟩, ?_, ?_, hpoint.1, hpoint.2⟩
  · exact hrecovered r ⟨"x1+2.5", false, false⟩ rfl rfl hcode hcode' (hout.trans hout'.symm)
  · exact (hblank true false ['x', '1'] ['+'] [' ', '\n'] ['\t']).1
      ⟨nofun, hline⟩ ⟨nofun, htab⟩

end SymbolMachine.Arithmetic
