/-
The lexer's machine as a function of characters.

A state of the machine is a phase of reading: between tokens, in an integer, and so on. What
a character does in a phase is decided by the first transition whose rule accepts it. Here
the scan is evaluated once, for every phase and every character, and what comes out is short:
a character that can go on with the token does (`Phase.extension`), and otherwise it begins
one (`Kind.starting`), except behind a point. Nothing later looks at a transition again.
-/
import SymbolMachine.Arithmetic.Lexer
import SymbolMachine.Proofs.Machine.Equations
import SymbolMachine.Proofs.Value.Characters
import Mathlib.Tactic.SplitIfs

set_option autoImplicit false

namespace SymbolMachine.Arithmetic

/-! ## Rules and characters -/

/-- A transition on some characters asks whether the symbol is among them. -/
theorem accepts_onAny (s : TokenStore) (target : Int) (cs : List Char) (a : TokenAction)
    (x : Char) : (onAny target cs a).guard.accepts s (.ofChar x) = decide (x ∈ cs) :=
  Rule.accepts_oneOf_map_ofChar s x cs

/-- A transition on a character asks whether the symbol is that one. -/
theorem accepts_on (s : TokenStore) (target : Int) (c : Char) (a : TokenAction) (x : Char) :
    (on target c a).guard.accepts s (.ofChar x) = decide (x = c) :=
  Rule.accepts_equals_ofChar s x (.made 0) c

/-! ## Phases -/

/-- The states of the lexer, by what is being read there. -/
inductive Phase
  | start
  | integer
  | point
  | fraction
  | name
  | space
deriving DecidableEq

namespace Phase

/-- The number of the state. -/
def number : Phase → Nat
  | start => 0
  | integer => 1
  | point => 2
  | fraction => 3
  | name => 4
  | space => 5

/-- The state's number as it stands in transitions. -/
def id (ph : Phase) : StateId := .number ph.number

/-- The phase that goes on with the token, if the character can. -/
def extension : Phase → Char → Option Phase
  | start, _ => none
  | integer, x => if x ∈ digits then some integer else if x = '.' then some point else none
  | point, x => if x ∈ digits then some fraction else none
  | fraction, x => if x ∈ digits then some fraction else none
  | name, x => if x ∈ nameChars then some name else none
  | space, x => if x ∈ whitespace then some space else none

end Phase

namespace Kind

/-- The kind of token that a character begins. -/
def starting (x : Char) : Option Kind :=
  if x ∈ digits then some number
  else if x ∈ nameStart then some name
  else if x ∈ whitespace then some space
  else if x ∈ operators then some operator
  else if x = '(' then some leftParen
  else if x = ')' then some rightParen
  else none

/-- The phase behind the first character of a token. -/
def phase : Kind → Phase
  | number => .integer
  | name => .name
  | space => .space
  | operator | leftParen | rightParen => .start

end Kind

/-- What a character does in a phase: the next phase, and what becomes of the tokens. -/
def Phase.next (ph : Phase) (x : Char) : Option (Phase × TokenAction) :=
  match ph.extension x with
  | some ph' => some (ph', .extend)
  | none => if ph = .point then none else (Kind.starting x).map fun k => (k.phase, .emit k)

/-- In the start a character can only begin a token. -/
theorem Phase.next_start (x : Char) :
    Phase.start.next x = (Kind.starting x).map fun k => (k.phase, .emit k) := rfl

/-! ## The scan, evaluated -/

/-- The state of a phase. -/
def Phase.state : Phase → State Rule TokenAction
  | .point => pointState
  | ph => endingState ph.number

theorem lexer_state? (ph : Phase) : lexer.state? ph.id.toInt = some ph.state := by
  cases ph <;> rfl

theorem length_transitions_le (ph : Phase) : ph.state.transitions.length ≤ 8 := by
  cases ph <;> decide

/-- Where a transition leads, and what it does. -/
def effectOf (t : Transition Rule TokenAction) : StateId × Option TokenAction :=
  (t.target, t.action)

/-- The first transition of a list either passes the test or leaves the symbol to the
others. -/
theorem find?_cons_map_effectOf (accepts : Transition Rule TokenAction → Bool)
    (t : Transition Rule TokenAction) (ts : List (Transition Rule TokenAction)) :
    ((t :: ts).find? accepts).map effectOf =
      if accepts t then some (effectOf t) else (ts.find? accepts).map effectOf := by
  rw [List.find?_cons]
  cases accepts t <;> rfl

theorem find?_onAny (s : TokenStore) (x : Char) (target : Int) (cs : List Char) (a : TokenAction)
    (ts : List (Transition Rule TokenAction)) :
    ((onAny target cs a :: ts).find? fun t => t.guard.accepts s (.ofChar x)).map effectOf =
      if x ∈ cs then some (.number target, some a)
      else (ts.find? fun t => t.guard.accepts s (.ofChar x)).map effectOf := by
  rw [find?_cons_map_effectOf, accepts_onAny]
  simp only [decide_eq_true_eq]
  rfl

theorem find?_on (s : TokenStore) (x : Char) (target : Int) (c : Char) (a : TokenAction)
    (ts : List (Transition Rule TokenAction)) :
    ((on target c a :: ts).find? fun t => t.guard.accepts s (.ofChar x)).map effectOf =
      if x = c then some (.number target, some a)
      else (ts.find? fun t => t.guard.accepts s (.ofChar x)).map effectOf := by
  rw [find?_cons_map_effectOf, accepts_on]
  simp only [decide_eq_true_eq]
  rfl

theorem find?_beginnings (s : TokenStore) (x : Char) :
    (beginnings.find? fun t => t.guard.accepts s (.ofChar x)).map effectOf =
      (Kind.starting x).map fun k => (k.phase.id, some (.emit k)) := by
  unfold beginnings Kind.starting
  rw [find?_onAny, find?_onAny, find?_onAny, find?_onAny, find?_on, find?_on, List.find?_nil]
  split_ifs <;> rfl

theorem find?_continuations (ph : Phase) (s : TokenStore) (x : Char) :
    ((continuations ph.number).find? fun t => t.guard.accepts s (.ofChar x)).map effectOf =
      (ph.extension x).map fun ph' => (ph'.id, some .extend) := by
  cases ph with
  | start => rfl
  | integer =>
      change ([onAny 1 digits .extend, on 2 '.' .extend].find? _).map effectOf = _
      rw [find?_onAny, find?_on, List.find?_nil, Phase.extension]
      split_ifs <;> rfl
  | point | fraction | name | space =>
      change ([onAny _ _ .extend].find? _).map effectOf = _
      rw [find?_onAny, List.find?_nil, Phase.extension]
      split_ifs <;> rfl

/-- The first transition of a phase whose rule accepts a character does what `Phase.next`
says. -/
theorem find?_transitions (ph : Phase) (s : TokenStore) (x : Char) :
    (ph.state.transitions.find? fun t => t.guard.accepts s (.ofChar x)).map effectOf =
      (ph.next x).map fun r => (r.1.id, some r.2) := by
  have hcontinue := find?_continuations ph s x
  -- Behind a point there is nothing but to go on; elsewhere a token may also begin.
  by_cases hpoint : ph = .point
  · subst hpoint
    change ((continuations 2).find? _).map effectOf = _
    rw [show (2 : Nat) = Phase.point.number from rfl, hcontinue, Phase.next]
    cases Phase.point.extension x <;> rfl
  · have htransitions : ph.state.transitions = continuations ph.number ++ beginnings := by
      cases ph with
      | point => exact absurd rfl hpoint
      | _ => rfl
    rw [htransitions, List.find?_append, Option.map_or, hcontinue, find?_beginnings, Phase.next]
    cases hx : ph.extension x with
    | some ph' => rfl
    | none =>
        simp only [if_neg hpoint]
        cases Kind.starting x <;> rfl

end SymbolMachine.Arithmetic
