/-
The lexer as a function on lists of characters.

A lexing under way is a phase with the lexemes collected so far. Reading some characters leads
as far as it can: to the lexing behind them, and to the characters that are left, none if all
were read. The main statement, `lex_eq`, says that this is all there is to a run of the lexer:
its outcome is where the reading ends, and what it leaves in the store are the lexemes. It
holds for every store and every old contents of the collection, and also for a run without
actions, which leaves the store alone.
-/
import SymbolMachine.Proofs.Arithmetic.Collecting
import SymbolMachine.Proofs.Arithmetic.Phases

set_option autoImplicit false

namespace SymbolMachine.Arithmetic

/-! ## Reading -/

/-- How far the lexer is: its phase, and the lexemes. -/
structure Lexing where
  phase : Phase
  lexemes : List Lexeme
deriving DecidableEq

namespace Lexing

/-- Nothing read. -/
def initial : Lexing := ⟨.start, []⟩

/-- What a character leads to, if it can be read. -/
def next (p : Lexing) (x : Char) : Option Lexing :=
  (p.phase.next x).map fun r => ⟨r.1, r.2.edit p.lexemes x⟩

/-- Reads characters as far as possible. -/
def read (p : Lexing) : List Char → Lexing × List Char
  | [] => (p, [])
  | x :: xs =>
    match p.next x with
    | some p' => p'.read xs
    | none => (p, x :: xs)

theorem read_nil (p : Lexing) : p.read [] = (p, []) := rfl

theorem read_cons_of_some {p p' : Lexing} {x : Char} (h : p.next x = some p') (xs : List Char) :
    p.read (x :: xs) = p'.read xs := by
  rw [read, h]

theorem read_cons_of_none {p : Lexing} {x : Char} (h : p.next x = none) (xs : List Char) :
    p.read (x :: xs) = (p, x :: xs) := by
  rw [read, h]

/-- What is left are the last characters. -/
theorem length_rest_le (p : Lexing) (xs : List Char) : (p.read xs).2.length ≤ xs.length := by
  induction xs generalizing p with
  | nil => exact Nat.le_refl _
  | cons x xs ih =>
      cases hx : p.next x with
      | none =>
          have hread := read_cons_of_none hx xs
          exact Nat.le_of_eq (by rw [hread])
      | some p' =>
          rw [read_cons_of_some hx, List.length_cons]
          have := ih p'
          omega

/-- Outside the start there is a token that can be gone on with. -/
def Open (p : Lexing) : Prop := p.phase ≠ .start → p.lexemes ≠ []

theorem initial_open : initial.Open := fun h => absurd rfl h

theorem edit_ne_nil {ts : List Lexeme} (x : Char) (a : TokenAction) (ha : a = .extend → ts ≠ []) :
    a.edit ts x ≠ [] := by
  cases a with
  | emit kind => exact List.append_ne_nil_of_right_ne_nil _ (List.cons_ne_nil _ _)
  | extend =>
      obtain ⟨init, t, rfl⟩ := (List.eq_nil_or_concat' ts).resolve_left (ha rfl)
      rw [edit_extend]
      exact List.append_ne_nil_of_right_ne_nil _ (List.cons_ne_nil _ _)

/-- Only outside the start a token is extended. -/
theorem Open.extends_some {p : Lexing} (hp : p.Open) {x : Char} {r : Phase × TokenAction}
    (hx : p.phase.next x = some r) : r.2 = .extend → p.lexemes ≠ [] := by
  intro hr
  apply hp
  intro hstart
  rw [hstart, Phase.next_start] at hx
  obtain ⟨k, -, rfl⟩ := Option.map_eq_some_iff.mp hx
  cases hr

theorem Open.of_next {p p' : Lexing} (hp : p.Open) {x : Char} (hx : p.next x = some p') :
    p'.Open := by
  unfold next at hx
  obtain ⟨r, hr, rfl⟩ := Option.map_eq_some_iff.mp hx
  exact fun _ => edit_ne_nil x r.2 (hp.extends_some hr)

end Lexing

/-! ## One symbol of the machine -/

section Host

variable (c : CollectionId)

/-- A note changes the log only. -/
theorem exists_remark (setting : Host.Setting Desk) (note : Note Value) (d : Desk) :
    ∃ log, (host c).remark setting note d = (.ok (), { d with log := log }) := by
  unfold Host.remark
  split
  · change ∃ log, (Except.ok (), d.write _) = _
    unfold Desk.write
    split
    · exact ⟨_, rfl⟩
    · exact ⟨d.log, rfl⟩
  · exact ⟨d.log, rfl⟩

/-- The scan of a phase finds a transition that does what `Phase.next` says. -/
theorem exists_firstMatch (ph : Phase) (x : Char) {fuel : Nat} (hfuel : 8 < fuel) (d : Desk) :
    ∃ m, firstMatch ((host c).transitionsOf ph.id) (host c).test (.ofChar x) fuel 0 d =
        (.ok m, d) ∧
      (m.map fun r => effectOf r.2) = (ph.next x).map fun r => (r.1.id, some r.2) := by
  have hstate : ((host c).machine d).state? ph.id.toInt = some ph.state := lexer_state? ph
  have htransitions : (host c).transitionsOf ph.id d = ph.state.transitions := by
    rw [Host.transitionsOf, hstate]
  have hverdict : ∀ t ∈ (host c).transitionsOf ph.id d, (host c).test t.guard (.ofChar x) d =
      (.ok (t.guard.accepts d.tokens (.ofChar x)), d) := fun _ _ => rfl
  have hlength := length_transitions_le ph
  rw [← htransitions] at hlength
  have hi := firstMatch_eq_find? hverdict (by omega : _ < fuel)
  refine ⟨_, hi, ?_⟩
  rw [htransitions, ← find?_transitions ph d.tokens x, Option.map_map]
  rfl

/-- Reading a character that a phase does not know. -/
theorem step_of_none {setting : Host.Setting Desk} (hcount : setting.count = 6) {ph : Phase}
    {x : Char} (hx : ph.next x = none) {fuel : Nat} (hfuel : 8 < fuel) (p : Nat) (d : Desk) :
    ∃ log, (host c).step setting fuel ph.id p (.ofChar x) d =
      (.ok none, { d with log := log }) := by
  have hstate : ((host c).machine d).state? ph.id.toInt = some ph.state := lexer_state? ph
  obtain ⟨m, hm, heffect⟩ := exists_firstMatch c ph x hfuel d
  rw [hx, Option.map_none, Option.map_eq_none_iff] at heffect
  subst heffect
  obtain ⟨log, hnote⟩ := exists_remark c setting (.rejected ph.id (.ofChar x) p) d
  refine ⟨log, ?_⟩
  rw [Host.step_apply, hcount, if_neg (by omega), hstate]
  simp only [hm]
  rw [Effect.bind_apply_of_ok d hnote]
  rfl

theorem id_knows {setting : Host.Setting Desk} (hcount : setting.count = 6) (ph : Phase) :
    setting.Knows ph.id := by
  rw [Host.Setting.Knows, hcount]
  cases ph <;> decide

/-- Reading a character: the phase changes, and if actions are wanted, so do the lexemes that
are collected. -/
theorem step_of_some {setting : Host.Setting Desk} (hcount : setting.count = 6) {b : Bool}
    (hactions : setting.actions = fun _ => b) {ph ph' : Phase} {a : TokenAction} {x : Char}
    (hx : ph.next x = some (ph', a)) {s' : TokenStore} {d : Desk}
    (ha : b = true → a.perform c (.ofChar x) d.tokens = (.ok (), s')) {fuel : Nat}
    (hfuel : 8 < fuel) (p : Nat) :
    ∃ log, (host c).step setting fuel ph.id p (.ofChar x) d =
      (.ok (some ph'.id), { d with tokens := if b then s' else d.tokens, log := log }) := by
  have hstate : ((host c).machine d).state? ph.id.toInt = some ph.state := lexer_state? ph
  obtain ⟨m, hm, heffect⟩ := exists_firstMatch c ph x hfuel d
  rw [hx, Option.map_some] at heffect
  obtain ⟨⟨i, t⟩, rfl, ht⟩ := Option.map_eq_some_iff.mp heffect
  have htarget : t.target = ph'.id := congrArg Prod.fst ht
  have haction : t.action = some a := congrArg Prod.snd ht
  have hdue : (host c).performDue (.ofChar x) (Host.due setting t d) d =
      (.ok (), { d with tokens := if b then s' else d.tokens }) := by
    rw [Host.due, hactions, haction]
    cases b with
    | true =>
        change (a.perform c (.ofChar x)).within Desk.tokens (fun s d => { d with tokens := s })
          TokenStore.empty d = _
        rw [Effect.within_apply, ha rfl]
        rfl
    | false => rfl
  have hknows : setting.Knows t.target := by
    rw [htarget]
    exact id_knows hcount ph'
  obtain ⟨log, hnote⟩ := exists_remark c setting (.moved ph.id t.target (.ofChar x) p)
    { d with tokens := if b then s' else d.tokens }
  refine ⟨log, ?_⟩
  rw [Host.step_apply, hcount, if_neg (by omega), hstate]
  simp only [hm]
  rw [Effect.map_apply, Host.take_apply, Effect.bind_apply_of_ok d hdue,
    Host.arrive_of_knows _ hknows hnote, htarget]
  rfl

/-! ## The whole run -/

/-- What a run leaves in the store: the lexemes, if actions were wanted. -/
def kept (b : Bool) (s : TokenStore) (ts : List Lexeme) : TokenStore :=
  if b then collected s c ts else s

/-- What a run answers that has read characters from a position on. -/
def outcomeOf (position total : Nat) : Lexing × List Char → Outcome StateId Value Nat
  | (p, []) => .success p.phase.id
  | (p, x :: rest) =>
    .failure p.phase.id (.ofChar x) (position + (total - (rest.length + 1))) p.phase.id

theorem outcomeOf_succ (position : Nat) (p : Lexing) (xs : List Char) :
    outcomeOf (position + 1) xs.length (p.read xs) =
      outcomeOf position (xs.length + 1) (p.read xs) := by
  have hrest := p.length_rest_le xs
  rcases hread : p.read xs with ⟨p', _ | ⟨y, rest⟩⟩
  · rfl
  · rw [hread] at hrest
    have hlength : rest.length + 1 ≤ xs.length := hrest
    have hposition : position + 1 + (xs.length - (rest.length + 1)) =
        position + (xs.length + 1 - (rest.length + 1)) := by omega
    rw [outcomeOf, outcomeOf, hposition]

/-- **Driving the machine is reading.** -/
theorem drive_eq {setting : Host.Setting Desk} (hcount : setting.count = 6) {b : Bool}
    (hactions : setting.actions = fun _ => b) {s : TokenStore} (hc : c < s.collections.size)
    (xs : List Char) {p : Lexing} (hp : p.Open) {fuel : Nat} (hfuel : xs.length + 10 ≤ fuel)
    (position : Nat) {d : Desk} (hd : d.tokens = kept c b s p.lexemes) :
    ∃ log, (host c).drive .ofList setting fuel p.phase.id position (xs.map Value.ofChar) d =
      (.ok (outcomeOf position xs.length (p.read xs)),
        { d with tokens := kept c b s (p.read xs).1.lexemes, log := log }) := by
  -- What is kept at every character is that the store holds the lexemes of the reading.
  induction xs generalizing p fuel position d with
  | nil =>
      obtain ⟨fuel, rfl⟩ := Nat.exists_eq_succ_of_ne_zero (by omega : fuel ≠ 0)
      refine ⟨d.log, ?_⟩
      rw [List.map_nil, Host.drive_nil, Lexing.read_nil, ← hd]
      rfl
  | cons x xs ih =>
      obtain ⟨fuel, rfl⟩ := Nat.exists_eq_succ_of_ne_zero (by omega : fuel ≠ 0)
      rw [List.length_cons] at hfuel
      rw [List.map_cons, Host.drive_cons]
      cases hx : p.phase.next x with
      | none =>
          have hnext : p.next x = none := by rw [Lexing.next, hx]; rfl
          obtain ⟨log, hstep⟩ := step_of_none c hcount hx (by omega : 8 < fuel) position d
          refine ⟨log, ?_⟩
          simp only [hstep]
          rw [Lexing.read_cons_of_none hnext, ← hd, outcomeOf, List.length_cons, Nat.sub_self]
          rfl
      | some r =>
          obtain ⟨ph', a⟩ := r
          have hnext : p.next x = some ⟨ph', a.edit p.lexemes x⟩ := by rw [Lexing.next, hx]; rfl
          have hperform : b = true → a.perform c (.ofChar x) d.tokens =
              (.ok (), collected s c (a.edit p.lexemes x)) := by
            rintro rfl
            rw [hd]
            exact perform_collected s hc p.lexemes x a (hp.extends_some hx)
          obtain ⟨log, hstep⟩ :=
            step_of_some c hcount hactions hx hperform (by omega : 8 < fuel) position
          have hkept : (if b then collected s c (a.edit p.lexemes x) else d.tokens) =
              kept c b s (a.edit p.lexemes x) := by
            cases b with
            | true => rfl
            | false => exact hd
          rw [hkept] at hstep
          obtain ⟨log', hrest⟩ := ih (hp.of_next hnext) (by omega : xs.length + 10 ≤ fuel)
            (position + 1)
            (d := { d with tokens := kept c b s (a.edit p.lexemes x), log := log }) rfl
          refine ⟨log', ?_⟩
          simp only [hstep]
          rw [Lexing.read_cons_of_some hnext, hrest, outcomeOf_succ, List.length_cons]

/-- **Lexing is reading.** The outcome is where the reading ends. The lexemes read are what is
added to the collection, and nothing else is touched but the log; without actions nothing is
added either. -/
theorem lex_eq (actions : Bool) (d : Desk) (hc : c < d.tokens.collections.size)
    (xs : List Char) :
    ∃ log, lex c actions (xs.map Value.ofChar) d =
      (.ok (outcomeOf 1 xs.length (Lexing.initial.read xs)),
        { d with
          tokens := kept c actions d.tokens (Lexing.initial.read xs).1.lexemes, log := log }) := by
  have hfuel : xs.length + 10 ≤ fuelFor (xs.map Value.ofChar) :=
    Nat.le_of_eq (by rw [fuelFor, List.length_map])
  have hinitial : d.tokens = kept c actions d.tokens Lexing.initial.lexemes := by
    cases actions with
    | true => exact (d.tokens.withTokens_nil c).symm
    | false => rfl
  have hcount : ((host c).settingAt (fun _ => actions) d).count = 6 := rfl
  have hactions : ((host c).settingAt (fun _ => actions) d).actions = fun _ => actions := rfl
  have hstart : StateId.start = Lexing.initial.phase.id := rfl
  rw [lex, Host.run_apply, hstart]
  exact drive_eq c hcount hactions hc xs Lexing.initial_open hfuel 1 hinitial

end Host

end SymbolMachine.Arithmetic
