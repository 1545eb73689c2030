/-
Where the mark of a rejection stands.

A rejection echoes the expression, two spaces in, and puts a mark on the line below, behind two
spaces and one more for each character before the rejected one. So the mark counts all these
characters, while the column of the rejected character counts those of its own line only. The
two agree if the characters before it are all on one line, and only then
(`marksBelow_rejection_iff`). They need not be on one line: a line end is white space, and the
lexer reads white space everywhere but behind the point of a number.

Which characters end a line is left open. All that is asked is that the one that ends the printed
lines does and that a space does not.
-/
import SymbolMachine.Proofs.Arithmetic.Answering
import SymbolMachine.Proofs.Arithmetic.Earliest
import Mathlib.Data.List.Induction

set_option autoImplicit false

namespace SymbolMachine.Arithmetic

/-! ## Columns -/

section Column

variable (ends : Char → Bool)

/-- The column of what is written behind a text: how many characters the text has in its last
line. -/
def column (xs : List Char) : Nat := (xs.reverse.takeWhile fun x => !ends x).length

theorem column_concat (xs : List Char) (x : Char) :
    column ends (xs ++ [x]) = if ends x then 0 else column ends xs + 1 := by
  rw [column, column, List.reverse_concat, List.takeWhile_cons]
  cases ends x <;> rfl

variable {ends}

/-- Characters that end no line move the column on. -/
theorem column_append_of_free (xs : List Char) {ys : List Char} (hys : ∀ y ∈ ys, ends y = false) :
    column ends (xs ++ ys) = column ends xs + ys.length := by
  induction ys using List.reverseRecOn with
  | nil => rw [List.append_nil, List.length_nil, Nat.add_zero]
  | append_singleton ys y ih =>
      obtain ⟨hrest, hy⟩ := List.forall_mem_append.mp hys
      have hfree : ends y = false := hy y (List.mem_singleton_self y)
      rw [← List.append_assoc, column_concat, hfree, ih hrest, List.length_append]
      rfl

/-- Behind a line end the column is less than the number of characters. -/
theorem column_append_lt (xs : List Char) {ys : List Char} (hys : ¬∀ y ∈ ys, ends y = false) :
    column ends (xs ++ ys) < ys.length := by
  induction ys using List.reverseRecOn with
  | nil => exact absurd (fun _ => nofun) hys
  | append_singleton ys y ih =>
      rw [← List.append_assoc, column_concat, List.length_append, List.length_singleton]
      cases hy : ends y with
      | true => exact Nat.succ_pos _
      | false =>
          have hrest : ¬∀ z ∈ ys, ends z = false := by
            intro hfree
            refine hys (List.forall_mem_append.mpr ⟨hfree, fun z hz => ?_⟩)
            rwa [List.mem_singleton.mp hz]
          exact Nat.succ_lt_succ (ih hrest)

end Column

/-! ## Marks -/

section Mark

variable (ends : Char → Bool)

/-- A text that echoes an expression and has a mark on its last line, in the column that the
character at a place of the expression has in its line of the echo. -/
def MarksBelow (text expression : List Char) (i : Nat) : Prop :=
  ∃ heading indent, text = heading ++ expression ++ '\n' :: indent ++ ['^', '\n'] ∧
    (∀ x ∈ indent, ends x = false) ∧
    column ends (heading ++ expression ++ '\n' :: indent) =
      column ends (heading ++ expression.take i)

variable {ends} (hnewline : ends '\n' = true)
include hnewline

/-- The column of a mark is the number of characters before it in its line. -/
theorem column_newline {indent : List Char} (hindent : ∀ x ∈ indent, ends x = false)
    (xs : List Char) : column ends (xs ++ '\n' :: indent) = indent.length := by
  rw [List.append_cons, column_append_of_free _ hindent, column_concat, hnewline, if_pos rfl,
    Nat.zero_add]

/-- A text can be taken apart into heading, expression and mark in one way only. -/
theorem marksBelow_iff {heading expression indent : List Char}
    (hindent : ∀ x ∈ indent, ends x = false) (i : Nat) :
    MarksBelow ends (heading ++ expression ++ '\n' :: indent ++ ['^', '\n']) expression i ↔
      indent.length = column ends (heading ++ expression.take i) := by
  constructor
  · rintro ⟨heading', indent', htext, hindent', hcolumn⟩
    have hlines := List.append_cancel_right htext
    -- The mark is the same, and so is its column.
    have hmark : indent.length = indent'.length := by
      rw [← column_newline hnewline hindent, hlines, column_newline hnewline hindent']
    have hlength := congrArg List.length hlines
    simp only [List.length_append, List.length_cons] at hlength
    rw [List.append_assoc, List.append_assoc] at hlines
    obtain ⟨rfl, -⟩ := List.append_inj hlines (by omega)
    rw [hmark, ← column_newline hnewline hindent', hcolumn]
  · intro hcolumn
    refine ⟨heading, indent, rfl, hindent, ?_⟩
    rw [column_newline hnewline hindent, hcolumn]

end Mark

/-! ## The mark of a rejection -/

/-- The characters of a rejection. -/
theorem toList_rejection (e : String) (fault : Fault) (p : Nat) :
    (rejection e fault p).toList =
      (("error: " ++ fault.message).toList ++ ['\n', ' ', ' ']) ++ e.toList ++
        '\n' :: List.replicate (p - 1 + 2) ' ' ++ ['^', '\n'] := by
  have hspaces : List.replicate (p - 1 + 2) ' ' = ' ' :: ' ' :: List.replicate (p - 1) ' ' := rfl
  rw [hspaces, rejection]
  simp only [String.toList_append, String.toList_ofList]
  have hhead : "\n  ".toList = ['\n', ' ', ' '] := rfl
  have hlast : "^\n".toList = ['^', '\n'] := rfl
  rw [hhead, hlast]
  simp only [List.append_assoc, List.cons_append, List.nil_append]

variable {ends : Char → Bool}

/-- **The mark stands below the rejected character if and only if the characters before that are
on one line.** -/
theorem marksBelow_rejection_iff (hnewline : ends '\n' = true) (hspace : ends ' ' = false)
    {e : String} {p : Nat} (hp : p - 1 ≤ e.toList.length) (fault : Fault) :
    MarksBelow ends (rejection e fault p).toList e.toList (p - 1) ↔
      ∀ z ∈ e.toList.take (p - 1), ends z = false := by
  have hindent : ∀ x ∈ List.replicate (p - 1 + 2) ' ', ends x = false := by
    intro x hx
    rwa [List.eq_of_mem_replicate hx]
  have hlength : (e.toList.take (p - 1)).length = p - 1 := List.length_take_of_le hp
  have hblank : ∀ x ∈ [' ', ' '], ends x = false := by simpa using hspace
  have hheading : column ends (("error: " ++ fault.message).toList ++ ['\n', ' ', ' ']) = 2 :=
    column_newline hnewline hblank _
  rw [toList_rejection, marksBelow_iff hnewline hindent, List.length_replicate]
  by_cases hfree : ∀ z ∈ e.toList.take (p - 1), ends z = false
  · rw [column_append_of_free _ hfree, hheading, hlength, Nat.add_comm]
    exact iff_of_true rfl hfree
  · have hlt := column_append_lt (("error: " ++ fault.message).toList ++ ['\n', ' ', ' ']) hfree
    rw [hlength] at hlt
    exact iff_of_false (by omega) hfree

/-- How much was read can be told from how much is left. -/
theorem position_of_split {xs zs : List Char} {y : Char} {rest : List Char}
    (h : xs = zs ++ y :: rest) : 1 + (xs.length - (rest.length + 1)) = zs.length + 1 := by
  rw [h, List.length_append, List.length_cons]
  omega

/-- Where the lexer fails, the rejected character stands behind what was read, and the position
tells how much that is. -/
theorem exists_rejected {c : CollectionId} {actions : Bool} {d : Desk}
    (hc : c < d.tokens.collections.size) {e : String} {s s' : StateId} {x : Value} {p : Nat}
    (hfails : (lex c actions (e.toList.map Value.ofChar) d).1 = .ok (.failure s x p s')) :
    ∃ zs q y rest, Lexing.initial.read e.toList = (q, y :: rest) ∧ e.toList = zs ++ y :: rest ∧
      x = .ofChar y ∧ p = zs.length + 1 := by
  obtain ⟨log, hlex⟩ := lex_eq c actions d hc e.toList
  rw [hlex] at hfails
  rcases hread : Lexing.initial.read e.toList with ⟨q, _ | ⟨y, rest⟩⟩
  · rw [hread] at hfails
    cases hfails
  · obtain ⟨zs, hzs, -, -⟩ := Lexing.exists_read_part hread
    rw [hread, outcomeOf, position_of_split hzs] at hfails
    cases hfails
    exact ⟨zs, q, y, rest, rfl, hzs, rfl, rfl⟩

/-- **The program marks the rejected character if nothing before it ends a line, and only then.**
Take any arguments that ask for an expression which the lexer rejects, whether it is only to be
validated and whether the log is detailed. The program exits with 1 and prints nothing but its log
and the report behind it. The character at the reported position is the rejected one. The mark on
the last line of the report stands in the column that this character has in its line of the echoed
expression if and only if no character before it ends a line. So it is whichever characters are
taken to end a line, if that of the printed lines does and a space does not. -/
theorem mark_below_iff_one_line {args : List String} {r : Request}
    (hargs : readArguments args = .request r) {s s' : StateId} {x : Value} {p : Nat}
    (hrejected : (lex Desk.collection (!r.validateOnly) (r.expression.toList.map Value.ofChar)
      (Desk.new (if r.verbose then .debug else .warning))).1 = .ok (.failure s x p s')) :
    ∃ (d : Desk) (report : String) (y : Char),
      respond r (Desk.new (if r.verbose then .debug else .warning)) = (.ok (1, "", report), d) ∧
      program args = ⟨1, "", d.printedLog ++ report⟩ ∧
      0 < p ∧ r.expression.toList[p - 1]? = some y ∧ x = .ofChar y ∧
      ∀ ends : Char → Bool, ends '\n' = true → ends ' ' = false →
        (MarksBelow ends report.toList r.expression.toList (p - 1) ↔
          ∀ z ∈ r.expression.toList.take (p - 1), ends z = false) := by
  obtain ⟨zs, q, y, rest, hread, hzs, rfl, rfl⟩ := exists_rejected Nat.one_pos hrejected
  obtain ⟨d, hrespond, -⟩ := exists_respond r (if r.verbose then .debug else .warning)
  rw [hread, verdict, position_of_split hzs] at hrespond
  refine ⟨d, _, y, hrespond, ?_, Nat.succ_pos _, ?_, rfl, fun ends hnewline hspace => ?_⟩
  · rw [program, hargs]
    simp only [answer, hrespond]
  · rw [hzs, Nat.add_sub_cancel, List.getElem?_append_right (Nat.le_refl _), Nat.sub_self]
    rfl
  · refine marksBelow_rejection_iff hnewline hspace ?_ _
    rw [hzs, List.length_append]
    omega

/-- A tab before the rejected character and a line end behind it: the mark is below it. -/
theorem mark_below_behind_tab :
    readArguments ["--verbose", "1 +\t$\n2"] = .request ⟨"1 +\t$\n2", false, true⟩ ∧
      (lex Desk.collection true ("1 +\t$\n2".toList.map Value.ofChar) (Desk.new .debug)).1 =
        .ok (.failure (.number 5) (.ofChar '$') 5 (.number 5)) ∧
      ∃ d report, program ["--verbose", "1 +\t$\n2"] = ⟨1, "", Desk.printedLog d ++ report⟩ ∧
        MarksBelow (fun z => z = '\n') report.toList "1 +\t$\n2".toList 4 := by
  have hargs : readArguments ["--verbose", "1 +\t$\n2"] =
      .request ⟨"1 +\t$\n2", false, true⟩ := rfl
  have hrejected : (lex Desk.collection true ("1 +\t$\n2".toList.map Value.ofChar)
      (Desk.new .debug)).1 = .ok (.failure (.number 5) (.ofChar '$') 5 (.number 5)) := rfl
  have hline : ∀ z ∈ "1 +\t$\n2".toList.take 4, decide (z = '\n') = false := by
    have hall : ("1 +\t$\n2".toList.take 4).all (fun z => !decide (z = '\n')) = true := by decide
    simpa only [List.all_eq_true, Bool.not_eq_true'] using hall
  obtain ⟨d, report, -, -, hprogram, -, -, -, hmark⟩ := mark_below_iff_one_line hargs hrejected
  exact ⟨hargs, hrejected, d, report, hprogram, (hmark (fun z => z = '\n') rfl rfl).mpr hline⟩

/-- A line end before the rejected character: the character is the first of its line, and the mark
stands behind four spaces. -/
theorem mark_misses_behind_line_end :
    (lex Desk.collection true ("a\n$".toList.map Value.ofChar) (Desk.new .warning)).1 =
        .ok (.failure (.number 5) (.ofChar '$') 3 (.number 5)) ∧
      program ["a\n$"] =
        ⟨1, "", "error: Unexpected str \"$\" at state 5, position 3.\n  a\n$\n    ^\n"⟩ ∧
      ¬MarksBelow (fun z => z = '\n') (program ["a\n$"]).err.toList "a\n$".toList 2 := by
  refine ⟨rfl, rfl, ?_⟩
  have herr : (program ["a\n$"]).err =
      rejection "a\n$" (.unmatched (.ofChar '$') (.int 3) (.int 5)) 3 := rfl
  have hiff : MarksBelow (fun z => z = '\n') (program ["a\n$"]).err.toList "a\n$".toList 2 ↔
      ∀ z ∈ "a\n$".toList.take 2, decide (z = '\n') = false := by
    rw [herr]
    exact marksBelow_rejection_iff rfl rfl (by decide) _
  rw [hiff]
  intro hfree
  exact Bool.noConfusion (hfree '\n' (by decide))

end SymbolMachine.Arithmetic
