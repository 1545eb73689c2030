/-
Equal inputs give equal results.

The guards of a machine are rules: a symbol equals a value, or is or is not one of some values.
What such a guard says depends on the symbol only up to sameness (`Rule.acceptsAs_congr`), although
one rule compares by equality and the others also by identity: two symbols that are the same have
one form, and neither notion sees more of a symbol. So two runs over symbols that are the same one
by one choose the same transitions, and end alike.

Values may refer to tokens and collections, and those change. What is assumed is that they come to
the same throughout both runs: the values that rules hold, and the symbols.
-/
import SymbolMachine.Proofs.Machine.Calm
import SymbolMachine.Proofs.Tokens.Unrolling
import SymbolMachine.Proofs.Value.Equality
import SymbolMachine.Session.Callbacks
import Mathlib.Data.List.Forall2
import Mathlib.Tactic.FinCases

set_option autoImplicit false

namespace SymbolMachine

variable {ω γ α : Type}

/-! ## Rules -/

namespace Rule

/-- The values that a rule compares with. -/
def values : Rule → List Value
  | equals _ v => [v]
  | oneOf vs | noneOf vs => vs

/-- Whether a rule accepts a symbol when values come to this. -/
def acceptsAs (now : Value → Value) : Rule → Value → Bool
  | equals _ v, x => (now x).eq (now v)
  | oneOf vs, x => (now x).isIn (vs.map now)
  | noneOf vs, x => !(now x).isIn (vs.map now)

theorem accepts_eq (s : TokenStore) (r : Rule) (x : Value) :
    r.accepts s x = r.acceptsAs s.whole x := by
  cases r with
  | equals i v => exact s.eq_eq x v
  | oneOf vs => exact s.isIn_eq x vs
  | noneOf vs => exact congrArg (!·) (s.isIn_eq x vs)

/-- What a rule says depends on what its values and the symbol come to. -/
theorem acceptsAs_eq_of_whole {now now' : Value → Value} {r : Rule} {x : Value}
    (hvalues : ∀ v ∈ r.values, now v = now' v) (hx : now x = now' x) :
    r.acceptsAs now x = r.acceptsAs now' x := by
  cases r with
  | equals i v =>
      have hv := hvalues v (List.mem_singleton_self v)
      simp only [acceptsAs, hx, hv]
  | oneOf vs | noneOf vs =>
      have hvs : vs.map now = vs.map now' := List.map_congr_left hvalues
      simp only [acceptsAs, hx, hvs]

/-- **A rule accepts both or neither of two symbols that are the same.** -/
theorem acceptsAs_congr {now : Value → Value} {contents : Identity → Value} {r : Rule} {x y : Value}
    (hvalues : ∀ v ∈ r.values, (now v).Coherent contents) (hx : (now x).Coherent contents)
    (hy : (now y).Coherent contents) (hxy : (now x).same (now y) = true) :
    r.acceptsAs now x = r.acceptsAs now y := by
  cases r with
  | equals i v =>
      exact Value.eq_congr hx hy (hvalues v (List.mem_singleton_self v)) hxy
  | oneOf vs =>
      exact Value.isIn_congr hx hy (List.forall_mem_map.mpr hvalues) hxy
  | noneOf vs =>
      exact congrArg (!·) (Value.isIn_congr hx hy (List.forall_mem_map.mpr hvalues) hxy)

end Rule

namespace Host

variable (h : Host ω γ α Value)

/-! ## Machines of rules -/

/-- In certain worlds the machine is this one, and its guards are rules. There the values that
the rules hold, and the symbols, come to what is said here, actions and notes return, and none of
this leads out of those worlds. -/
structure Ruled (W : ω → Prop) (m : Machine γ α) (tokens : ω → TokenStore) (rule : γ → Rule)
    (now : Value → Value) (symbols : List Value) : Prop where
  machine : ∀ v, W v → h.machine v = m
  test : ∀ t, m.Owns t → ∀ x ∈ symbols, ∀ v, W v →
    h.test t.guard x v = (.ok ((rule t.guard).accepts (tokens v) x), v)
  held : ∀ t, m.Owns t → ∀ u ∈ (rule t.guard).values, ∀ v, W v → (tokens v).whole u = now u
  given : ∀ x ∈ symbols, ∀ v, W v → (tokens v).whole x = now x
  perform : ∀ t, m.Owns t → ∀ a, t.action = some a → ∀ x ∈ symbols, ∀ v, W v →
    ∃ v', h.perform a x v = (.ok (), v') ∧ W v'
  record : ∀ note v, W v → ∃ v', h.record note v = (.ok (), v') ∧ W v'

variable {h} {W : ω → Prop} {m : Machine γ α} {tokens : ω → TokenStore} {rule : γ → Rule}
  {now : Value → Value} {symbols : List Value}

/-- Runs of a machine of rules are calm. -/
theorem Ruled.calm (hruled : h.Ruled W m tokens rule now symbols) :
    h.Calm W m (fun g => (rule g).acceptsAs now) symbols where
  machine := hruled.machine
  test t ht x hx v hv := by
    rw [hruled.test t ht x hx v hv, Rule.accepts_eq,
      Rule.acceptsAs_eq_of_whole (fun u hu => hruled.held t ht u hu v hv) (hruled.given x hx v hv)]
  perform := hruled.perform
  record := hruled.record

/-! ## Two runs -/

/-- The same result, but for the rejected symbol, of which only a relation is known. -/
inductive SameButSymbol (R : Value → Value → Prop) :
    Except Fault (Outcome StateId Value Nat) → Except Fault (Outcome StateId Value Nat) → Prop
  | success (s : StateId) : SameButSymbol R (.ok (.success s)) (.ok (.success s))
  | failure (s t : StateId) (p : Nat) {x y : Value} (symbol : R x y) :
      SameButSymbol R (.ok (.failure s x p t)) (.ok (.failure s y p t))
  | fault (f : Fault) : SameButSymbol R (.error f) (.error f)

theorem sameButSymbol_of_alike {R : Value → Value → Prop} {r r' : Itinerary γ α Value}
    (halike : Itinerary.Alike R Eq r r') (count : Nat) :
    SameButSymbol R (r.result count) (r'.result count) := by
  obtain ⟨ps, s, p, e⟩ := r
  obtain ⟨ps', s', p', e'⟩ := r'
  obtain ⟨-, rfl, rfl, hexit⟩ := halike
  cases hexit with
  | usedUp => exact .success _
  | noStates | lost => exact .fault _
  | rejected symbol => exact .failure _ _ _ symbol
  | unknownTarget symbol taken =>
      cases taken
      exact .fault _

/-- A state chooses the same transition for two symbols that are the same. -/
theorem choice_eq_of_same {contents : Identity → Value}
    (hheld : ∀ t, m.Owns t → ∀ u ∈ (rule t.guard).values, (now u).Coherent contents)
    (hgiven : ∀ x ∈ symbols, (now x).Coherent contents) {i : Int} {s : State γ α}
    (hs : m.state? i = some s) {x y : Value} (hx : x ∈ symbols) (hy : y ∈ symbols)
    (hxy : (now x).same (now y) = true) :
    s.choice (fun g => (rule g).acceptsAs now) x = s.choice (fun g => (rule g).acceptsAs now) y :=
  State.choice_congr fun t ht => Rule.acceptsAs_congr
    (hheld t ⟨s, Machine.mem_states_of_state? hs, ht⟩) (hgiven x hx) (hgiven y hy) hxy

/-- **Equal inputs give equal results.** Take a machine whose guards are rules, over any values
at all, and actions that return and leave alone the machine, the values that the rules hold, and
the symbols. Run it over two inputs whose symbols are the same one by one: one object, or equal.
Both runs come to an end. They take the same transitions, each by the same place from the same
state at the same position, perform the same actions, and end for the same reason in the same
state at the same position, with the same result; if that is a failure, its symbols are the same
again. It is assumed that values with one identity are one object. -/
theorem run_of_same_symbols {contents : Identity → Value} {xs ys : List Value}
    (hruled : h.Ruled W m tokens rule now (xs ++ ys))
    (hheld : ∀ t, m.Owns t → ∀ u ∈ (rule t.guard).values, (now u).Coherent contents)
    (hgiven : ∀ x ∈ xs ++ ys, (now x).Coherent contents)
    (hsame : List.Forall₂ (fun x y => (now x).same (now y) = true) xs ys) (wanted : Bool)
    {w w' : ω} (hw : W w) (hw' : W w') :
    let Same x y := (now x).same (now y) = true
    ∃ ps c e w₁ ps' c' e' w₂,
      h.Course .ofList (fun _ => wanted) xs w ps c e w₁ ∧
      h.Course .ofList (fun _ => wanted) ys w' ps' c' e' w₂ ∧
      h.EndsWith .ofList (fun _ => wanted) xs w (e.result m.size c) w₁ ∧
      h.EndsWith .ofList (fun _ => wanted) ys w' (e'.result m.size c') w₂ ∧
      List.Forall₂ (Passage.Alike Same Eq) ps ps' ∧
      c.state = c'.state ∧ c.position = c'.position ∧ Exit.Alike Same Eq e e' ∧
      SameButSymbol Same (e.result m.size c) (e'.result m.size c') := by
  intro Same
  have hcalm := hruled.calm
  obtain ⟨c, w₁, course, hstate, hposition, -⟩ :=
    hcalm.exists_course wanted (List.subset_append_left xs ys) hw
  obtain ⟨c', w₂, course', hstate', hposition', -⟩ :=
    hcalm.exists_course wanted (List.subset_append_right xs ys) hw'
  let accepts : γ → Value → Bool := fun g => (rule g).acceptsAs now
  have halike : Itinerary.Alike Same Eq (m.itinerary accepts wanted .start 1 xs)
      (m.itinerary accepts wanted .start 1 ys) := by
    refine itinerary_alike rfl (fun hK => by rw [hK]; exact ⟨rfl, rfl⟩) ?_ wanted hsame
      (List.subset_append_left xs ys) (List.subset_append_right xs ys) _ _
    intro i s s' hs hs' x hx y hy hxy
    rw [hs] at hs'
    cases hs'
    have hchoice : s.choice accepts x = s.choice accepts y :=
      choice_eq_of_same hheld hgiven hs hx hy hxy
    rw [hchoice]
    cases s.choice accepts y with
    | none => exact .none
    | some c => exact .some rfl
  refine ⟨_, c, _, w₁, _, c', _, w₂, course, course', hcalm.endsWith_of_course hw course,
    hcalm.endsWith_of_course hw' course', halike.passages, ?_, ?_, halike.exit, ?_⟩
  · rw [hstate, hstate', halike.state]
  · rw [hposition, hposition', halike.position]
  · rw [Itinerary.result_eq _ hstate hposition, Itinerary.result_eq _ hstate' hposition']
    exact sameButSymbol_of_alike halike m.size

end Host

/-! ## In a session -/

namespace Session

open Host

/-- The rule that a guard is. Any other guard counts as the rule that accepts nothing. -/
def Guard.asRule : Guard → Rule
  | rule r => r
  | _ => .oneOf []

/-- A machine of a session whose guards are rules and whose actions leave traces, if it has any,
is a machine of rules: traces and notes change nothing that a rule reads. -/
theorem host_ruled (perform : List Command → Effect World Unit) {i : Nat} {w : World}
    (hguards : ∀ t, (w.machine i).Owns t → ∃ r, t.guard = .rule r)
    (hactions : ∀ t, (w.machine i).Owns t → ∀ a, t.action = some a → ∃ tag, a = .trace tag)
    (symbols : List Value) :
    (host perform i).Ruled (fun v => v.machine i = w.machine i ∧ v.tokens = w.tokens)
      (w.machine i) World.tokens Guard.asRule w.tokens.whole symbols where
  machine _ hv := hv.1
  test t ht x _ v _ := by
    obtain ⟨r, hr⟩ := hguards t ht
    rw [hr]
    rfl
  held _ _ u _ v hv := by rw [hv.2]
  given x _ v hv := by rw [hv.2]
  perform t ht a ha x _ v hv := by
    obtain ⟨tag, rfl⟩ := hactions t ht a ha
    exact ⟨v.addEvent (.acted tag (v.tokens.read x)), rfl, hv⟩
  record note v hv := by
    refine ⟨v.addNote note, rfl, ?_⟩
    unfold World.addNote
    split <;> exact hv

/-- A NaN. -/
def missing : Value := .nan (.label "missing")

/-- A rule that does not equal itself. -/
def isMissing : Value := .equals (.label "isMissing") missing

/-- A machine that waits for a list with a NaN and a one in it, and then passes over two objects
that do not equal themselves. -/
def sifting : Machine Guard Action :=
  ⟨[⟨.int 0, .bool false,
      [⟨.number 1, .rule (.equals (.made 0) (.list [missing, .int 1])), some (.trace "list")⟩]⟩,
    ⟨.int 1, .bool true, [⟨.number 1, .rule (.oneOf [missing, isMissing]), some (.trace "odd")⟩]⟩]⟩

/-- A session with that machine. -/
def siftingWorld : World := { World.initial .warning with machines := #[sifting] }

/-- Its transitions. -/
theorem sifting_owns {t : Transition Guard Action} (ht : sifting.Owns t) :
    t = ⟨.number 1, .rule (.equals (.made 0) (.list [missing, .int 1])), some (.trace "list")⟩ ∨
      t = ⟨.number 1, .rule (.oneOf [missing, isMissing]), some (.trace "odd")⟩ := by
  obtain ⟨s, hs, ht⟩ := ht
  simp only [sifting, List.mem_cons, List.not_mem_nil, or_false] at hs
  rcases hs with rfl | rfl
  · exact .inl (List.mem_singleton.mp ht)
  · exact .inr (List.mem_singleton.mp ht)

/-- One in a list, and the last symbol, are written as the integer in one input, and as a truth
value and a member of an enumeration in the other. -/
theorem sifting_run_of_same_symbols :
    ∃ y w, (host (fun _ => pure ()) 0).EndsWith .ofList (fun _ => true)
        [.list [missing, .bool true], missing, isMissing, .intMember ⟨"Flag", "ON", 1⟩]
        siftingWorld (.ok (.failure (.number 1) y 4 (.number 1))) w ∧
      (Value.int 1).same (siftingWorld.tokens.whole y) = true := by
  let xs : List Value := [.list [missing, .int 1], missing, isMissing, .int 1]
  let ys : List Value :=
    [.list [missing, .bool true], missing, isMissing, .intMember ⟨"Flag", "ON", 1⟩]
  have hruled := host_ruled (fun _ => pure ()) (i := 0) (w := siftingWorld)
    (fun t ht => by rcases sifting_owns ht with rfl | rfl <;> exact ⟨_, rfl⟩)
    (fun t ht a ha => by rcases sifting_owns ht with rfl | rfl <;> cases ha <;> exact ⟨_, rfl⟩)
    (xs ++ ys)
  have hheld : ∀ t, sifting.Owns t → ∀ u ∈ t.guard.asRule.values,
      (siftingWorld.tokens.whole u).Coherent fun _ => missing := by
    intro t ht u hu
    rcases sifting_owns ht with rfl | rfl <;>
      fin_cases hu <;> rw [TokenStore.whole_of_isClosed _ rfl] <;>
      simp [Value.Coherent, Value.AllCoherent, missing, isMissing]
  have hgiven : ∀ x ∈ xs ++ ys, (siftingWorld.tokens.whole x).Coherent fun _ => missing := by
    intro x hx
    fin_cases hx <;> rw [TokenStore.whole_of_isClosed _ rfl] <;>
      simp [Value.Coherent, Value.AllCoherent, missing, isMissing]
  have hsame : List.Forall₂ (fun x y => (siftingWorld.tokens.whole x).same
      (siftingWorld.tokens.whole y) = true) xs ys :=
    .cons rfl (.cons rfl (.cons rfl (.cons rfl .nil)))
  obtain ⟨ps, c, e, w₁, ps', c', e', w₂, course, course', -, hends, -, -, -, -, hresult⟩ :=
    run_of_same_symbols hruled hheld hgiven hsame true ⟨rfl, rfl⟩ ⟨rfl, rfl⟩
  -- The first run goes as its itinerary says, and that can be computed.
  obtain ⟨-, -, hknown⟩ :=
    hruled.calm.of_course (List.subset_append_left xs ys) (w := siftingWorld) ⟨rfl, rfl⟩ course
  rw [hknown] at hresult
  change (host (fun _ => pure ()) 0).EndsWith _ _ _ _ (e'.result sifting.size c') _ at hends
  change SameButSymbol _ (.ok (.failure (.number 1) (.int 1) 4 (.number 1)))
    (e'.result sifting.size c') at hresult
  generalize e'.result sifting.size c' = r at hresult hends
  cases hresult with
  | failure _ _ _ symbol => exact ⟨_, w₂, hends, symbol⟩

end Session

end SymbolMachine
