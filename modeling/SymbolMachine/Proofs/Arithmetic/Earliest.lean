/-
The lexer fails as early as it can.

A text can be completed if some text behind it makes it an accepted expression. The lexer never
goes on with a text that cannot be completed: in every phase it is at most one digit away from
accepting. And it never gives up a text that can be: what it does not read, it does not read
whatever follows. So the texts that can be completed are the texts that are read to their end
(`completable_iff`), and the position of a failure is the length of the shortest beginning of
the expression that cannot be completed.
-/
import SymbolMachine.Proofs.Arithmetic.Tokenization
import Mathlib.Order.Bounds.Basic

set_option autoImplicit false

namespace SymbolMachine.Arithmetic

/-! ## Reading what is put together -/

namespace Lexing

/-- What is left of a text is left whatever follows, and a text that is read to its end is read
as if it had ended there. -/
theorem read_append (p : Lexing) (xs ys : List Char) :
    p.read (xs ++ ys) =
      if (p.read xs).2 = [] then (p.read xs).1.read ys
      else ((p.read xs).1, (p.read xs).2 ++ ys) := by
  induction xs generalizing p with
  | nil => rw [List.nil_append, read_nil, if_pos rfl]
  | cons x xs ih =>
      rw [List.cons_append]
      cases hx : p.next x with
      | some p' => rw [read_cons_of_some hx, read_cons_of_some hx, ih]
      | none =>
          rw [read_cons_of_none hx, read_cons_of_none hx, if_neg (List.cons_ne_nil x xs)]
          rfl

/-- A text that is read to its end is read to the end of each of its beginnings. -/
theorem rest_eq_nil_of_append {p : Lexing} {xs ys : List Char}
    (hread : (p.read (xs ++ ys)).2 = []) : (p.read xs).2 = [] := by
  by_contra hrest
  rw [read_append, if_neg hrest] at hread
  exact hrest (List.append_eq_nil_iff.mp hread).1

/-- Where reading stops: before a character that the lexing behind the part read cannot read. -/
theorem exists_read_part {p p' : Lexing} {xs : List Char} {x : Char} {rest : List Char}
    (hread : p.read xs = (p', x :: rest)) :
    ∃ zs, xs = zs ++ x :: rest ∧ p.read zs = (p', []) ∧ p'.next x = none := by
  induction xs generalizing p with
  | nil => cases hread
  | cons y xs ih =>
      cases hy : p.next y with
      | some q =>
          rw [read_cons_of_some hy] at hread
          obtain ⟨zs, hzs, hpart, hx⟩ := ih hread
          refine ⟨y :: zs, ?_, ?_, hx⟩
          · rw [hzs, List.cons_append]
          · rw [read_cons_of_some hy, hpart]
      | none =>
          rw [read_cons_of_none hy] at hread
          cases hread
          exact ⟨[], rfl, rfl, hy⟩

/-- In every phase there are characters that lead to one in which an expression may end: none,
or a digit behind a point. -/
theorem exists_completion (p : Lexing) :
    ∃ ys, (p.read ys).2 = [] ∧ (p.read ys).1.phase ≠ .point := by
  by_cases hph : p.phase = .point
  · have hdigit : p.phase.extension '0' = some .fraction := by
      rw [hph]
      exact extension_digit (.inr ⟨.inl rfl, rfl⟩) (by decide)
    refine ⟨['0'], ?_⟩
    rw [read_cons_of_some (next_of_extension hdigit), read_nil]
    exact ⟨rfl, nofun⟩
  · exact ⟨[], rfl, hph⟩

end Lexing

/-! ## Expressions that are accepted, and texts that can be completed -/

/-- An expression that is accepted: on a new desk the lexer reads it to its end, in a state in
which an expression may end. -/
def Accepted (e : String) : Prop :=
  ∃ s d, lex Desk.collection true (e.toList.map Value.ofChar) (Desk.new .warning) =
    (.ok (.success s), d) ∧ Accepting s

/-- A text that some accepted expression begins with. -/
def Completable (xs : List Char) : Prop := ∃ ys, Accepted (String.ofList (xs ++ ys))

theorem accepted_iff (xs : List Char) :
    Accepted (String.ofList xs) ↔
      (Lexing.initial.read xs).2 = [] ∧ (Lexing.initial.read xs).1.phase ≠ .point := by
  have hc : Desk.collection < (Desk.new .warning).tokens.collections.size := Nat.one_pos
  obtain ⟨log, hrun⟩ := lex_eq Desk.collection true (Desk.new .warning) hc xs
  rw [← accepting_id_iff, Accepted, String.toList_ofList, hrun]
  rcases Lexing.initial.read xs with ⟨p, _ | ⟨x, rest⟩⟩
  · constructor
    · rintro ⟨s, d, heq, haccepting⟩
      cases heq
      exact ⟨rfl, haccepting⟩
    · rintro ⟨-, haccepting⟩
      exact ⟨_, _, rfl, haccepting⟩
  -- With characters left over the run is a failure.
  · constructor
    · rintro ⟨s, d, heq, -⟩
      cases heq
    · rintro ⟨heq, -⟩
      cases heq

/-- **The texts that can be completed are those that are read to their end.** -/
theorem completable_iff (xs : List Char) :
    Completable xs ↔ (Lexing.initial.read xs).2 = [] := by
  constructor
  · rintro ⟨ys, haccepted⟩
    exact Lexing.rest_eq_nil_of_append ((accepted_iff (xs ++ ys)).mp haccepted).1
  · intro hread
    obtain ⟨ys, hys⟩ := (Lexing.initial.read xs).1.exists_completion
    refine ⟨ys, (accepted_iff (xs ++ ys)).mpr ?_⟩
    rw [Lexing.read_append, if_pos hread]
    exact hys

/-- Each beginning of a text that can be completed can be completed. -/
theorem Completable.take {xs : List Char} (h : Completable xs) (n : Nat) :
    Completable (xs.take n) := by
  rw [completable_iff] at h ⊢
  have hwhole : (Lexing.initial.read (xs.take n ++ xs.drop n)).2 = [] := by
    rwa [List.take_append_drop]
  exact Lexing.rest_eq_nil_of_append hwhole

/-- The shortest beginning that cannot be completed ends with the first character that is not
read. -/
theorem isLeast_not_completable {zs : List Char} {p : Lexing}
    (hzs : Lexing.initial.read zs = (p, [])) {x : Char} (hx : p.next x = none)
    (rest : List Char) :
    IsLeast {n | ¬Completable ((zs ++ x :: rest).take n)} (zs.length + 1) := by
  constructor
  · intro hcompletable
    rw [List.take_length_add_append, completable_iff, Lexing.read_append, hzs, if_pos rfl,
      List.take_succ_cons, Lexing.read_cons_of_none hx] at hcompletable
    exact List.cons_ne_nil _ _ hcompletable
  · intro n hn
    -- A shorter beginning is a beginning of what was read.
    by_contra hlt
    have hle : n ≤ zs.length := Nat.le_of_lt_succ (Nat.lt_of_not_le hlt)
    apply hn
    rw [List.take_append_of_le_length hle]
    have hread : Completable zs := (completable_iff zs).mpr (congrArg Prod.snd hzs)
    exact hread.take n

/-! ## Where the lexer fails -/

/-- **The lexer fails as early as it can.** On an empty collection, with or without actions, a
run never raises. It fails at the first position at which what was read, this character
included, begins no accepted expression, and succeeds if there is no such position. The symbol
that it names is the character there, and the texts of the tokens that were collected are all
that comes before. -/
theorem lex_fails_earliest {d : Desk} {c : CollectionId} (hc : c < d.tokens.collections.size)
    (hempty : d.tokens.items c = []) (actions : Bool) (e : String) :
    ∃ o d', lex c actions (e.toList.map Value.ofChar) d = (.ok o, d') ∧
      (∀ p, (∃ s x s', o = .failure s x p s') ↔
        IsLeast {n | ¬Completable (e.toList.take n)} p) ∧
      ((∃ s, o = .success s) ↔ ∀ n, Completable (e.toList.take n)) ∧
      ∀ {s x p s'}, o = .failure s x p s' →
        0 < p ∧ (∃ y, e.toList[p - 1]? = some y ∧ x = .ofChar y) ∧
        (actions = true → ∃ ts : List Lexeme, d'.tokens.contents c = ts.map Lexeme.toValue ∧
          textOf ts = e.toList.take (p - 1)) := by
  obtain ⟨log, hrun⟩ := lex_eq c actions d hc e.toList
  refine ⟨_, _, hrun, ?_⟩
  rcases hread : Lexing.initial.read e.toList with ⟨p, _ | ⟨x, rest⟩⟩
  · -- All was read, so every beginning can be completed.
    have hall : ∀ n, Completable (e.toList.take n) :=
      ((completable_iff e.toList).mpr (congrArg Prod.snd hread)).take
    refine ⟨fun q => iff_of_false ?_ fun hleast => hleast.1 (hall q),
      iff_of_true ⟨_, rfl⟩ hall, ?_⟩
    · rintro ⟨s, y, s', heq⟩
      cases heq
    · intro s y q s' heq
      cases heq
  · obtain ⟨zs, hzs, hpart, hx⟩ := Lexing.exists_read_part hread
    have hleast := isLeast_not_completable hpart hx rest
    have hposition : 1 + (e.toList.length - (rest.length + 1)) = zs.length + 1 := by
      rw [hzs, List.length_append, List.length_cons]
      omega
    simp only [outcomeOf, hposition]
    rw [hzs]
    refine ⟨fun q => ⟨?_, ?_⟩, iff_of_false ?_ fun hall => hleast.1 (hall _), ?_⟩
    · rintro ⟨s, y, s', heq⟩
      cases heq
      exact hleast
    · intro hq
      rw [hq.unique hleast]
      exact ⟨_, _, _, rfl⟩
    · rintro ⟨s, heq⟩
      cases heq
    · intro s y q s' heq
      cases heq
      refine ⟨Nat.succ_pos _, ⟨x, by simp, rfl⟩, ?_⟩
      rintro rfl
      refine ⟨p.lexemes, contents_collected_of_empty hc hempty p.lexemes, ?_⟩
      -- The lexemes spell what was read, which is all before the character.
      obtain ⟨zs', hzs', hfollows⟩ := Lexing.follows_initial.read zs
      rw [hpart, List.append_nil] at hzs'
      rw [hpart, ← hzs'] at hfollows
      rw [hfollows.text, List.nil_append, Nat.add_sub_cancel, List.take_left]

/-- A number that breaks off behind its point: `1.` can be completed, `1.+` cannot. -/
theorem lex_fails_behind_point :
    ∃ d', lex Desk.collection true ("1.+".toList.map Value.ofChar) (Desk.new .warning) =
        (.ok (.failure (.number 2) (.ofChar '+') 3 (.number 2)), d') ∧
      IsLeast {n | ¬Completable ("1.+".toList.take n)} 3 ∧
      ∃ ts : List Lexeme, d'.tokens.contents Desk.collection = ts.map Lexeme.toValue ∧
        textOf ts = ['1', '.'] := by
  have hc : Desk.collection < (Desk.new .warning).tokens.collections.size := Nat.one_pos
  have hread : Lexing.initial.read "1.+".toList =
      (⟨.point, [⟨.number, ['1', '.']⟩]⟩, ['+']) := by decide
  obtain ⟨log, hrun⟩ := lex_eq Desk.collection true (Desk.new .warning) hc "1.+".toList
  rw [hread] at hrun
  obtain ⟨o, d', hlex, hfails, -, hfailure⟩ := lex_fails_earliest hc rfl true "1.+"
  rw [hrun] at hlex
  cases hlex
  exact ⟨_, hrun, (hfails 3).mp ⟨_, _, _, rfl⟩, (hfailure rfl).2.2 rfl⟩

end SymbolMachine.Arithmetic
