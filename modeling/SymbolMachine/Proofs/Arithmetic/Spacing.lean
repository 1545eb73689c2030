/-
White space between tokens.

A character of white space ends the token before it and leaves no trace among the tokens that
are shown. So of a lexing only its bare part matters for what is shown in the end: the phase,
with white space counting as the start, and the tokens that are no white space. What the next
character does to the bare part depends on the bare part alone (`Follows.map_bare_next`), so
two texts that lead to the same bare part can be continued alike, and blank runs of any length
and make lead to the same. What a text shows (`Lexing.outline`) is all that the program's exit
code and output depend on.
-/
import SymbolMachine.Proofs.Arithmetic.Answering
import SymbolMachine.Proofs.Arithmetic.Earliest

set_option autoImplicit false

namespace SymbolMachine.Arithmetic

/-! ## Characters of white space -/

/-- A character does what it does because it goes on with the token, or because it begins one. -/
theorem Phase.next_eq_some_iff {ph ph' : Phase} {x : Char} {a : TokenAction} :
    ph.next x = some (ph', a) ↔
      ph.extension x = some ph' ∧ a = .extend ∨
        ph.extension x = none ∧ ph ≠ .point ∧
          ∃ k, Kind.starting x = some k ∧ k.phase = ph' ∧ .emit k = a := by
  unfold Phase.next
  cases ph.extension x with
  | some ph'' => simp [eq_comm]
  | none =>
      by_cases hpoint : ph = .point
      · simp [hpoint]
      · simp [hpoint]

theorem starting_of_blank {x : Char} (hx : x ∈ whitespace) : Kind.starting x = some .space := by
  obtain ⟨-, hspace, -⟩ := classes_disjoint
  rw [Kind.starting, if_neg (hspace x hx).1, if_neg (hspace x hx).2, if_pos hx]

theorem extension_space {x : Char} (hx : x ∈ whitespace) :
    Phase.space.extension x = some .space := if_pos hx

/-- White space goes on with nothing but white space. -/
theorem extension_of_blank {ph : Phase} (hph : ph ≠ .space) {x : Char} (hx : x ∈ whitespace) :
    ph.extension x = none := by
  have hblanks : ∀ ph : Phase, ph ≠ .space → whitespace.all (fun x => ph.extension x = none) := by
    intro ph
    cases ph <;> decide
  exact of_decide_eq_true (List.all_eq_true.mp (hblanks ph hph) x hx)

/-- Nothing but white space leads to the phase of white space. -/
theorem phase_ne_space {ph ph' : Phase} {x : Char} {a : TokenAction} (hx : x ∉ whitespace)
    (hnext : ph.next x = some (ph', a)) : ph' ≠ .space := by
  rintro rfl
  rcases Phase.next_eq_some_iff.mp hnext with ⟨hextension, -⟩ | ⟨-, -, k, hk, hphase, -⟩
  · cases ph with
    | space =>
        rw [Phase.extension, if_neg hx] at hextension
        cases hextension
    | start => cases hextension
    | integer | point | fraction | name =>
        rw [Phase.extension] at hextension
        split_ifs at hextension
        all_goals cases hextension
  · have hspace : k = .space := by cases k <;> first | rfl | cases hphase
    exact hx ((classes_of_starting hk).2.2.mpr hspace)

theorem Phase.Shape.kind_ne_space {ph : Phase} {t : Lexeme} (ht : ph.Shape t) (hph : ph ≠ .space) :
    t.kind ≠ .space := by
  intro hkind
  cases ph with
  | start =>
      obtain ⟨-, hphase⟩ := ht
      rw [hkind] at hphase
      cases hphase
  | space => exact hph rfl
  | integer | point | fraction | name =>
      obtain ⟨hother, -⟩ := ht
      rw [hkind] at hother
      cases hother

/-! ## The bare part of a lexing -/

namespace Lexing

/-- A lexing without its white space: the phase as if none had been read, and the tokens that
are none. -/
def bare (p : Lexing) : Lexing :=
  ⟨if p.phase = .space then .start else p.phase, shown p.lexemes⟩

theorem bare_initial : initial.bare = initial := rfl

theorem bare_of_space {p : Lexing} (hp : p.phase = .space) :
    p.bare = ⟨.start, shown p.lexemes⟩ := by
  rw [bare, if_pos hp]

theorem bare_of_ne {p : Lexing} (hp : p.phase ≠ .space) :
    p.bare = ⟨p.phase, shown p.lexemes⟩ := by
  rw [bare, if_neg hp]

theorem phase_bare_eq_point_iff {p : Lexing} : p.bare.phase = .point ↔ p.phase = .point := by
  by_cases hp : p.phase = .space
  · simp [bare_of_space hp, hp]
  · simp [bare_of_ne hp]

/-- What a character does to the bare part: white space leads back to the start, except behind a
point. -/
def bareNext (q : Lexing) (x : Char) : Option Lexing :=
  if x ∈ whitespace then if q.phase = .point then none else some ⟨.start, q.lexemes⟩
  else q.next x

/-- The last token, in a phase that can go on with one. -/
theorem Follows.exists_last {p : Lexing} {xs : List Char} (h : p.Follows xs)
    (hph : p.phase ≠ .start) :
    ∃ init t, p.lexemes = init ++ [t] ∧ p.phase.Shape t := by
  rcases h.lexemes with ⟨hstart, -⟩ | ⟨init, t, hlexemes, -, hshape⟩
  · exact absurd hstart hph
  · exact ⟨init, t, hlexemes, hshape⟩

section Bare

variable {p : Lexing} {us : List Char} (h : p.Follows us) {x : Char}
include h

/-- Behind white space the tokens that are shown are the same. -/
theorem Follows.map_bare_next_of_blank (hx : x ∈ whitespace) :
    (p.next x).map bare = p.bare.bareNext x := by
  rw [bareNext, if_pos hx]
  by_cases hpoint : p.phase = .point
  · have hnone : p.phase.extension x = none :=
      extension_of_blank (by rw [hpoint]; decide) hx
    rw [if_pos (phase_bare_eq_point_iff.mpr hpoint), Lexing.next, Phase.next, hnone, if_pos hpoint]
    rfl
  rw [if_neg (mt phase_bare_eq_point_iff.mp hpoint)]
  by_cases hspace : p.phase = .space
  -- The run of white space goes on, and is not shown before or after.
  · obtain ⟨init, t, hlexemes, hshape⟩ := h.exists_last (by rw [hspace]; decide)
    rw [hspace] at hshape
    have hkind : t.kind = .space := hshape.1
    have hextension : p.phase.extension x = some .space := by
      rw [hspace]
      exact extension_space hx
    rw [next_of_extension hextension, hlexemes, edit_extend, Option.map_some, bare_of_space rfl,
      bare_of_space hspace, hlexemes, shown_append, shown_append, shown_singleton_of_eq hkind,
      shown_singleton_of_eq (t := t.extend x) hkind]
  -- A run of white space begins.
  · rw [next_of_starting hpoint (extension_of_blank hspace hx) (starting_of_blank hx),
      Option.map_some, bare_of_space rfl, bare_of_ne hspace, shown_append,
      shown_singleton_of_eq (t := ⟨.space, [x]⟩) rfl, List.append_nil]

/-- An edit by a character that is no white space is an edit of the tokens that are shown. -/
theorem Follows.shown_edit (hx : x ∉ whitespace) {ph : Phase} {a : TokenAction}
    (hnext : p.phase.next x = some (ph, a)) :
    shown (a.edit p.lexemes x) = a.edit (shown p.lexemes) x := by
  rcases Phase.next_eq_some_iff.mp hnext with ⟨hextension, rfl⟩ | ⟨-, -, k, hk, -, rfl⟩
  · have hstart : p.phase ≠ .start := by
      intro hstart
      rw [hstart] at hextension
      cases hextension
    have hspace : p.phase ≠ .space := by
      intro hspace
      rw [hspace, Phase.extension, if_neg hx] at hextension
      cases hextension
    obtain ⟨init, t, hlexemes, hshape⟩ := h.exists_last hstart
    have hkind : t.kind ≠ .space := hshape.kind_ne_space hspace
    rw [hlexemes, edit_extend, shown_append, shown_append, shown_singleton_of_ne hkind,
      shown_singleton_of_ne (t := t.extend x) hkind, edit_extend]
  · have hkind : k ≠ .space := fun hkind => hx ((classes_of_starting hk).2.2.mpr hkind)
    rw [TokenAction.edit, TokenAction.edit, shown_append,
      shown_singleton_of_ne (t := ⟨k, [x]⟩) hkind]

theorem Follows.map_bare_next_of_not_blank (hx : x ∉ whitespace) :
    (p.next x).map bare = p.bare.bareNext x := by
  -- White space that was read last goes on with nothing, as the start does.
  have hphase : p.bare.phase.next x = p.phase.next x := by
    by_cases hspace : p.phase = .space
    · rw [bare_of_space hspace, hspace, Phase.next, Phase.next, Phase.extension, Phase.extension,
        if_neg hx]
      rfl
    · rw [bare_of_ne hspace]
  rw [bareNext, if_neg hx, Lexing.next, Lexing.next, hphase, Option.map_map]
  cases hnext : p.phase.next x with
  | none => rfl
  | some r =>
      obtain ⟨ph, a⟩ := r
      have hlexemes : p.bare.lexemes = shown p.lexemes := rfl
      rw [Option.map_some, Option.map_some, Function.comp_apply,
        bare_of_ne (phase_ne_space hx hnext), h.shown_edit hx hnext, hlexemes]

/-- **The bare part behind a character depends on the bare part before it alone.** -/
theorem Follows.map_bare_next (x : Char) : (p.next x).map bare = p.bare.bareNext x := by
  by_cases hx : x ∈ whitespace
  · exact h.map_bare_next_of_blank hx
  · exact h.map_bare_next_of_not_blank hx

end Bare

/-! ## Reading the bare part on -/

/-- Reads characters on from a bare part, if all can be read. -/
def skim (q : Lexing) (xs : List Char) : Option Lexing := xs.foldlM bareNext q

theorem skim_cons (q : Lexing) (x : Char) (xs : List Char) :
    q.skim (x :: xs) = (q.bareNext x).bind fun q' => q'.skim xs := List.foldlM_cons

theorem skim_append (q : Lexing) (xs ys : List Char) :
    q.skim (xs ++ ys) = (q.skim xs).bind fun q' => q'.skim ys := List.foldlM_append

/-- Reading and reading the bare part stay together. -/
theorem Follows.skim_bare {p : Lexing} {us : List Char} (h : p.Follows us) (xs : List Char) :
    p.bare.skim xs = if (p.read xs).2 = [] then some (p.read xs).1.bare else none := by
  induction xs generalizing p us with
  | nil => rfl
  | cons x xs ih =>
      rw [skim_cons, ← h.map_bare_next x]
      cases hx : p.next x with
      | none =>
          rw [read_cons_of_none hx, if_neg (List.cons_ne_nil x xs)]
          rfl
      | some p' =>
          rw [read_cons_of_some hx, ← ih (h.next hx)]
          rfl

/-- A run of white space leads back to the start, of whatever characters it is. -/
theorem skim_blank (q : Lexing) {blank : List Char} (hblank : OneOrMore whitespace blank) :
    q.skim blank = if q.phase = .point then none else some ⟨.start, q.lexemes⟩ := by
  obtain ⟨x, rest, rfl, hx, hrest⟩ := hblank.exists_cons
  -- Behind the first character nothing changes any more.
  have hstay : Lexing.skim ⟨.start, q.lexemes⟩ rest = some ⟨.start, q.lexemes⟩ := by
    clear hblank
    induction rest with
    | nil => rfl
    | cons y rest ih =>
        rw [skim_cons, bareNext, if_pos (hrest y (List.mem_cons_self ..)), if_neg nofun]
        exact ih fun z hz => hrest z (List.mem_cons_of_mem y hz)
  rw [skim_cons, bareNext, if_pos hx]
  by_cases hpoint : q.phase = .point
  · rw [if_pos hpoint]
    rfl
  · rw [if_neg hpoint]
    exact hstay

/-- What is shown at the end of a text, if it may end there. -/
def conclusion (q : Lexing) : Option (List Lexeme) :=
  if q.phase = .point then none else some q.lexemes

end Lexing

/-! ## What a text shows -/

/-- The tokens of a text that are no white space, if the lexer accepts it. -/
def outline (xs : List Char) : Option (List Lexeme) :=
  match Lexing.initial.read xs with
  | (p, []) => if p.phase = .point then none else some (shown p.lexemes)
  | (_, _ :: _) => none

theorem outline_eq_skim (xs : List Char) :
    outline xs = (Lexing.initial.skim xs).bind Lexing.conclusion := by
  have hskim := Lexing.follows_initial.skim_bare xs
  rw [Lexing.bare_initial] at hskim
  rw [outline, hskim]
  rcases Lexing.initial.read xs with ⟨p, _ | ⟨x, rest⟩⟩
  · change _ = p.bare.conclusion
    have hlexemes : p.bare.lexemes = shown p.lexemes := rfl
    simp only [Lexing.conclusion, Lexing.phase_bare_eq_point_iff, hlexemes]
  · rfl

/-- **A run of white space may be replaced by another.** -/
theorem outline_replace {blank blank' : List Char} (hblank : OneOrMore whitespace blank)
    (hblank' : OneOrMore whitespace blank') (xs ys : List Char) :
    outline (xs ++ blank ++ ys) = outline (xs ++ blank' ++ ys) := by
  have hblanks : ∀ q : Lexing, q.skim blank = q.skim blank' := by
    intro q
    rw [q.skim_blank hblank, q.skim_blank hblank']
  simp only [outline_eq_skim, Lexing.skim_append, hblanks]

/-- **White space may be added at the start.** -/
theorem outline_prepend {blank : List Char} (hblank : ∀ x ∈ blank, x ∈ whitespace)
    (xs : List Char) : outline (blank ++ xs) = outline xs := by
  by_cases hempty : blank = []
  · rw [hempty, List.nil_append]
  · have hstart : Lexing.initial.skim blank = some Lexing.initial :=
      Lexing.initial.skim_blank ⟨hempty, hblank⟩
    rw [outline_eq_skim, Lexing.skim_append, hstart, outline_eq_skim]
    rfl

/-- **White space may be added at the end**, where it ends a token or follows a point, which
cannot end the text either. -/
theorem outline_append {blank : List Char} (hblank : ∀ x ∈ blank, x ∈ whitespace)
    (xs : List Char) : outline (xs ++ blank) = outline xs := by
  by_cases hempty : blank = []
  · rw [hempty, List.append_nil]
  · have hend : ∀ q : Lexing, (q.skim blank).bind Lexing.conclusion = q.conclusion := by
      intro q
      rw [q.skim_blank ⟨hempty, hblank⟩, Lexing.conclusion]
      by_cases hpoint : q.phase = .point
      · rw [if_pos hpoint, if_pos hpoint]
        rfl
      · rw [if_neg hpoint, if_neg hpoint]
        rfl
    rw [outline_eq_skim, Lexing.skim_append, outline_eq_skim]
    cases Lexing.initial.skim xs with
    | none => rfl
    | some q => exact hend q

/-- The exit code, and what is printed to the output. -/
def Printed.report (a : Printed) : Nat × String := (a.exitCode, a.out)

theorem Printed.report_eq_iff {a : Printed} {code : Nat} {out : String} :
    a.report = (code, out) ↔ a.exitCode = code ∧ a.out = out := Prod.mk_inj

/-- **Exit code and output depend on what the expression shows alone.** -/
theorem report_answer (r : Request) :
    (answer r).report =
      match outline r.expression.toList with
      | some ts => (0, if r.validateOnly then "ok\n" else linesOf ts)
      | none => (1, "") := by
  rw [Printed.report_eq_iff.mpr (answer_eq r), outline]
  rcases Lexing.initial.read r.expression.toList with ⟨p, _ | ⟨x, rest⟩⟩
  · by_cases hpoint : p.phase = .point
    · simp [verdict, hpoint]
    · by_cases hvalidate : r.validateOnly
      · simp [verdict, hpoint, hvalidate]
      · simp [verdict, hpoint, hvalidate]
  · rfl

end SymbolMachine.Arithmetic
