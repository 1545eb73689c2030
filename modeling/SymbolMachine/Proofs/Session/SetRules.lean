/-
Rules for a list, and chains of rules for single values.

A rule for a list of values looks like a chain of rules, one for each value, with the same target
and the same action. It is one as long as no symbol is the very object of a value that it does not
equal: the rule for a list accepts such a symbol, and none of the single rules does
(`missing_divides`). Of all other symbols both say the same, whatever the values are, and so a
machine goes its ways whether a state has the one rule or the chain in its place (`run_of_chain`).
-/
import SymbolMachine.Proofs.Machine.EqualInputs
import SymbolMachine.Proofs.Machine.Regrouping
import SymbolMachine.Proofs.Session.Growth
import SymbolMachine.Proofs.Value.Membership
import Mathlib.Tactic.FinCases

set_option autoImplicit false

namespace SymbolMachine

/-! ## One symbol -/

namespace Rule

/-- A rule for a list accepts what a rule for a member accepts, and what is one object with a
member. -/
theorem oneOf_accepts_iff (s : TokenStore) (members : List (Identity × Value)) (x : Value) :
    (oneOf (members.map Prod.snd)).accepts s x = true ↔
      (∃ u ∈ members, (equals u.1 u.2).accepts s x = true) ∨
        ∃ u ∈ members, x.identical u.2 = true := by
  rw [accepts, TokenStore.isIn_iff]
  constructor
  · rintro ⟨_, hmem, hfound⟩
    obtain ⟨u, hu, rfl⟩ := List.mem_map.mp hmem
    exact hfound.imp (fun hequal => ⟨u, hu, hequal⟩) fun hone => ⟨u, hu, hone⟩
  · rintro (⟨u, hu, hequal⟩ | ⟨u, hu, hone⟩)
    · exact ⟨u.2, List.mem_map_of_mem hu, .inl hequal⟩
    · exact ⟨u.2, List.mem_map_of_mem hu, .inr hone⟩

theorem noneOf_accepts (s : TokenStore) (vs : List Value) (x : Value) :
    (noneOf vs).accepts s x = !(oneOf vs).accepts s x := rfl

end Rule

namespace Session

open Host

/-! ## One state -/

/-- A rule for each of some values, all of them to one target by one action. -/
def chain (target : StateId) (action : Option Action) (members : List (Identity × Value)) :
    List (Transition Guard Action) :=
  members.map fun u => ⟨target, .rule (.equals u.1 u.2), action⟩

/-- In one state of a machine, a rule for a list of values is replaced by the chain. -/
inductive Unfolds (members : List (Identity × Value)) :
    Machine Guard Action → Machine Guard Action → Prop
  | intro {m : Machine Guard Action} {k : Nat} {s : State Guard Action}
      {front back : List (Transition Guard Action)} {target : StateId} {action : Option Action}
      (here : m.states[k]? = some s)
      (rule : s.transitions =
        front ++ ([⟨target, .rule (.oneOf (members.map Prod.snd)), action⟩] ++ back)) :
      Unfolds members m (m.modify k fun s =>
        { s with transitions := front ++ (chain target action members ++ back) })

variable {perform : List Command → Effect World Unit} {members : List (Identity × Value)}
  {W : World → Prop} {X : Value → Prop}

/-- No symbol is the very object of a member that it does not equal. -/
def Decided (members : List (Identity × Value)) (W : World → Prop) (X : Value → Prop) : Prop :=
  ∀ v, W v → ∀ x, X x → ∀ u ∈ members, x.identical u.2 = true → v.tokens.eq x u.2 = true

/-- Asking a rule has no effect. -/
theorem admits_rule (r : Rule) (x : Value) (v : World) :
    admits perform (.rule r) x v = (.ok (r.accepts v.tokens x), v) := rfl

theorem oneWay_rule (target : StateId) (action : Option Action) (r : Rule) :
    OneWay (admits perform) W X (fun v => r.accepts v.tokens) target action
      [⟨target, .rule r, action⟩] where
  target := List.forall_mem_singleton.mpr rfl
  action := List.forall_mem_singleton.mpr rfl
  answers := by
    intro t ht x _ v _
    obtain rfl := List.mem_singleton.mp ht
    exact ⟨_, admits_rule r x v⟩
  accepts_iff := by
    intro x _ v _
    constructor
    · intro haccepts
      refine ⟨_, List.mem_singleton_self _, ?_⟩
      rw [admits_rule, haccepts]
    · rintro ⟨t, ht, hadmits⟩
      obtain rfl := List.mem_singleton.mp ht
      exact Except.ok.inj (Prod.ext_iff.mp hadmits).1

theorem oneWay_chain (hdecided : Decided members W X) (target : StateId) (action : Option Action) :
    OneWay (admits perform) W X (fun v => (Rule.oneOf (members.map Prod.snd)).accepts v.tokens)
      target action (chain target action members) where
  target := List.forall_mem_map.mpr fun _ _ => rfl
  action := List.forall_mem_map.mpr fun _ _ => rfl
  answers := by
    intro t ht x _ v _
    obtain ⟨u, -, rfl⟩ := List.mem_map.mp ht
    exact ⟨_, admits_rule (.equals u.1 u.2) x v⟩
  accepts_iff := by
    intro x hx v hv
    rw [Rule.oneOf_accepts_iff]
    constructor
    · intro hfound
      obtain ⟨u, hu, hequal⟩ :
          ∃ u ∈ members, (Rule.equals u.1 u.2).accepts v.tokens x = true := by
        rcases hfound with hequals | ⟨u, hu, hone⟩
        · exact hequals
        · exact ⟨u, hu, hdecided v hv x hx u hu hone⟩
      refine ⟨_, List.mem_map_of_mem hu, ?_⟩
      rw [admits_rule, hequal]
    · rintro ⟨t, ht, hadmits⟩
      obtain ⟨u, hu, rfl⟩ := List.mem_map.mp ht
      have hequal : (Rule.equals u.1 u.2).accepts v.tokens x = true :=
        Except.ok.inj (Prod.ext_iff.mp hadmits).1
      exact .inl ⟨u, hu, hequal⟩

/-! ## One machine -/

variable {m m' : Machine Guard Action}

theorem Unfolds.regroups (h : Unfolds members m m') (hdecided : Decided members W X) :
    m.Regroups (admits perform) W X m' := by
  obtain ⟨here, rule⟩ := h
  refine ⟨(m.size_modify _ _).symm, fun j s s' hs hs' => ?_⟩
  rw [Machine.state?_modify, hs] at hs'
  split at hs'
  · next hj =>
    subst hj
    rw [Machine.state?_natCast, here] at hs
    cases hs
    cases hs'
    rw [rule]
    exact .inside (oneWay_rule _ _ _) (oneWay_chain hdecided _ _) _ _
  · cases hs'
    exact .refl _

/-- A transition of the second machine is one of the first, or a link of the chain, with the action
of the rule that the chain stands for. -/
theorem Unfolds.owns (h : Unfolds members m m') {t : Transition Guard Action} (ht : m'.Owns t) :
    m.Owns t ∨ ∃ u ∈ members, t.guard = .rule (.equals u.1 u.2) ∧
      ∃ t', m.Owns t' ∧ t'.action = t.action := by
  obtain @⟨k, s, front, back, target, action, here, rule⟩ := h
  have howns : ∀ t ∈ s.transitions, m.Owns t := fun t ht => ⟨s, List.mem_of_getElem? here, ht⟩
  obtain ⟨s', hs', ht⟩ := ht
  obtain ⟨j, hj⟩ := List.mem_iff_getElem?.mp hs'
  rw [Machine.modify, List.getElem?_modify] at hj
  by_cases hk : k = j
  · subst hk
    simp only [here, if_true] at hj
    cases hj
    rw [rule] at howns
    rcases List.mem_append.mp ht with hfront | hrest
    · exact .inl (howns t (List.mem_append_left _ hfront))
    rcases List.mem_append.mp hrest with hchain | hback
    · obtain ⟨u, hu, rfl⟩ := List.mem_map.mp hchain
      exact .inr ⟨u, hu, rfl, _, howns _ (List.mem_append_right _ (List.mem_cons_self ..)), rfl⟩
    · exact .inl (howns t (List.mem_append_right _ (List.mem_cons_of_mem _ hback)))
  · simp only [hk, if_false, id_map'] at hj
    exact .inl ⟨s', List.mem_of_getElem? hj, ht⟩

/-- What the callbacks of the first machine leave alone, those of the second do. -/
theorem Unfolds.staysWithin (h : Unfolds members m m') {ν : Type} {next : Source World ν Value}
    {i : Nat} (within : (host perform i).StaysWithin next W m) :
    (host perform i).StaysWithin next W m' where
  source := within.source
  test t ht x v hv := by
    rcases h.owns ht with hold | ⟨u, -, hguard, -⟩
    · exact within.test t hold x v hv
    · rw [hguard]
      exact hv
  perform t ht a ha x v hv := by
    rcases h.owns ht with hold | ⟨u, -, -, t', hold, haction⟩
    · exact within.perform t hold a ha x v hv
    · exact within.perform t' hold a (haction.trans ha) x v hv
  record := within.record

/-! ## Runs -/

/-- **A rule for a list is a chain of rules for its members**, but for a symbol that is the very
object of a member. On one symbol: the rule for the list accepts it if a rule for a member does, or
if it is one object with a member; the negated rule accepts the others. On runs: let the second
machine be the first with a rule for a list, in any state, replaced by the chain in the same place.
Guards, actions and the source may do what they like, but they leave both machines alone; and no
symbol is the very object of a member that it does not equal. Then each course of a run of the one
machine is, up to the places of transitions, a course of a run of the other, and the two runs end by
these courses: with the same calls of actions, the same result and the same world. (A run that ends
has a course, `endsWith_iff`, and only one, `Course.unique`.) -/
theorem run_of_chain (perform : List Command → Effect World Unit)
    (members : List (Identity × Value)) :
    (∀ (s : TokenStore) (x : Value),
      ((Rule.oneOf (members.map Prod.snd)).accepts s x = true ↔
        (∃ u ∈ members, (Rule.equals u.1 u.2).accepts s x = true) ∨
          ∃ u ∈ members, x.identical u.2 = true) ∧
      ((Rule.noneOf (members.map Prod.snd)).accepts s x = true ↔
        ¬(∃ u ∈ members, (Rule.equals u.1 u.2).accepts s x = true) ∧
          ¬∃ u ∈ members, x.identical u.2 = true)) ∧
    ∀ {ν : Type} {i j : Nat} {w : World} {next : Source World ν Value} {W : World → Prop}
      {S : ν → Prop} {X : Value → Prop} {source : ν},
      Unfolds members (w.machine i) (w.machine j) →
      (∀ v, W v → v.machine i = w.machine i ∧ v.machine j = w.machine j) →
      (host perform i).StaysWithin next W (w.machine i) →
      (∀ s v x rest v', S s → W v → next s v = (.ok (some (x, rest)), v') → X x ∧ S rest) →
      Decided members W X → W w → S source → ∀ actions : World → Bool,
      let size := (w.machine i).size
      (∀ ps c e w₁, (host perform i).Course next actions source w ps c e w₁ →
        ∃ ps' e' w₂, (host perform j).Course next actions source w ps' c e' w₂ ∧
          (host perform i).EndsWith next actions source w (e.result size c) w₁ ∧
          (host perform j).EndsWith next actions source w (e'.result size c) w₂ ∧
          CoursesAlike (host perform i).record size c ps e w₁ ps' e' w₂) ∧
      ∀ ps' c e' w₂, (host perform j).Course next actions source w ps' c e' w₂ →
        ∃ ps e w₁, (host perform i).Course next actions source w ps c e w₁ ∧
          (host perform i).EndsWith next actions source w (e.result size c) w₁ ∧
          (host perform j).EndsWith next actions source w (e'.result size c) w₂ ∧
          CoursesAlike (host perform i).record size c ps e w₁ ps' e' w₂ := by
  refine ⟨fun s x => ?_, ?_⟩
  · have honeOf := Rule.oneOf_accepts_iff s members x
    refine ⟨honeOf, ?_⟩
    rw [Rule.noneOf_accepts, Bool.not_eq_true', ← not_or, ← honeOf, Bool.not_eq_true]
  · intro ν i j w next W S X source unfolds beside within gives hdecided hw hsource actions size
    have hside : (host perform i).Alongside next (fun v => v.machine j) W S X (w.machine i)
        (w.machine j) :=
      ⟨beside, gives, within, unfolds.staysWithin within, unfolds.regroups hdecided⟩
    have hsize : (w.machine j).size = size := hside.agree.size.symm
    have hends : ∀ {ps c e w₁}, (host perform i).Course next actions source w ps c e w₁ →
        (host perform i).EndsWith next actions source w (e.result size c) w₁ := Course.endsWith
    have hends' : ∀ {ps c e w₁}, (host perform j).Course next actions source w ps c e w₁ →
        (host perform j).EndsWith next actions source w (e.result size c) w₁ := by
      rw [← hsize]
      exact Course.endsWith
    refine ⟨fun ps c e w₁ course => ?_, fun ps' c e' w₂ course => ?_⟩
    · obtain ⟨ps', e', w₂, course', halike⟩ :=
        hside.course (logsSafely_host perform i) hw hsource course
      exact ⟨ps', e', w₂, course', hends course, hends' course', halike⟩
    · obtain ⟨ps, e, w₁, course', halike⟩ :=
        hside.symm.course (logsSafely_host perform j) hw hsource course
      rw [hsize] at halike
      exact ⟨ps, e, w₁, course', hends course', hends' course, halike.symm⟩

/-- Three values, of which the last does not equal itself. -/
def listed : List (Identity × Value) :=
  [(.made 0, .str "a"), (.made 1, .int 1), (.made 2, missing)]

/-- A machine with a rule for the three values between two other guards, of which the last leads
nowhere. -/
def listing : Machine Guard Action :=
  ⟨[⟨.int 0, .bool false,
    [⟨.number 0, .rule (.equals (.made 3) (.str "b")), none⟩] ++
      ([⟨.number 0, .rule (.oneOf (listed.map Prod.snd)), some (.trace "listed")⟩] ++
        [⟨.number 5, .truth, some (.trace "other")⟩])⟩]⟩

/-- The machine with the chain in the place of the rule. -/
def chaining : Machine Guard Action :=
  listing.modify 0 fun s => { s with transitions :=
    [⟨.number 0, .rule (.equals (.made 3) (.str "b")), none⟩] ++
      (chain (.number 0) (some (.trace "listed")) listed ++
        [⟨.number 5, .truth, some (.trace "other")⟩]) }

/-- A session with both machines. -/
def listedWorld : World := { World.initial .warning with machines := #[listing, chaining] }

theorem listing_unfolds : Unfolds listed listing chaining := .intro rfl rfl

theorem listing_staysWithin :
    (host (fun _ => pure ()) 0).StaysWithin .ofList
      (fun v => v.machine 0 = listing ∧ v.machine 1 = chaining) listing where
  source s v hv := by cases s <;> exact hv
  test t ht x v hv := by
    obtain ⟨s, hs, ht⟩ := ht
    obtain rfl := List.mem_singleton.mp hs
    simp only [List.cons_append, List.nil_append, List.mem_cons, List.not_mem_nil, or_false] at ht
    rcases ht with rfl | rfl | rfl <;> exact hv
  perform t ht a ha x v hv := by
    obtain ⟨s, hs, ht⟩ := ht
    obtain rfl := List.mem_singleton.mp hs
    simp only [List.cons_append, List.nil_append, List.mem_cons, List.not_mem_nil, or_false] at ht
    rcases ht with rfl | rfl | rfl <;> cases ha <;> exact hv
  record note v hv :=
    ⟨(v.machine_addNote note 0).trans hv.1, (v.machine_addNote note 1).trans hv.2⟩

/-- Three symbols go through the list, one of them as a truth value, and the last one on to a state
that does not exist. The second machine names another place of the transition there. -/
theorem listing_run_of_chain :
    ∃ k w, (host (fun _ => pure ()) 1).EndsWith .ofList (fun _ => true)
      [.str "a", .bool true, .str "b", .str "7"] listedWorld
      (.error (.invalidTarget (.int 0) (.int k) (.int 5) (.int 4) (.int 1))) w := by
  let symbols : List Value := [.str "a", .bool true, .str "b", .str "7"]
  obtain ⟨-, hruns⟩ := run_of_chain (fun _ => pure ()) listed
  have hgives : ∀ s (v : World) x rest v', s ⊆ symbols →
      (v.machine 0 = listing ∧ v.machine 1 = chaining) →
      Source.ofList s v = (.ok (some (x, rest)), v') → x ∈ symbols ∧ rest ⊆ symbols := by
    intro s v x rest v' hs _ given
    cases s with
    | nil => cases given
    | cons y ys =>
        cases given
        exact List.cons_subset.mp hs
  have hdecided : Decided listed (fun v => v.machine 0 = listing ∧ v.machine 1 = chaining)
      (· ∈ symbols) := by
    intro v _ x hx u hu hone
    simp only [symbols, List.mem_cons, List.not_mem_nil, or_false] at hx
    rcases hx with rfl | rfl | rfl | rfl <;> fin_cases hu <;> cases hone
  obtain ⟨hforth, -⟩ := hruns (i := 0) (j := 1) (w := listedWorld) listing_unfolds (fun _ hv => hv)
    listing_staysWithin hgives hdecided ⟨rfl, rfl⟩ (List.Subset.refl symbols) fun _ => true
  -- The first run can be computed, and so it has a course.
  obtain ⟨w₁, hrun⟩ : ∃ w₁, (host (fun _ => pure ()) 0).run .ofList 9 (fun _ => true) symbols
      listedWorld = ((Except.error (Fault.invalidTarget (.int 0) (.int 2) (.int 5) (.int 4)
        (.int 1))).mapError .fault, w₁) := ⟨_, rfl⟩
  have hlog := logsSafely_host (fun _ => pure ()) 0
  obtain ⟨ps, c, e, trail, exits, he⟩ := (endsWith_iff hlog).mp (endsWith_of_run hlog hrun)
  obtain ⟨ps', e', w₂, -, -, hends, halike⟩ := hforth ps c e w₁ ⟨trail, exits⟩
  have hresult := halike.result
  change _ = e.result (listedWorld.machine 0).size c at he
  rw [← he] at hresult
  generalize e'.result (listedWorld.machine 0).size c = r at hresult hends
  cases hresult with
  | same => exact ⟨2, w₂, hends⟩
  | invalidTarget _ _ _ _ _ k => exact ⟨k, w₂, hends⟩

/-- **A symbol can divide them.** A NaN that is in the list is accepted by the rule for the list,
and refused by the negated rule, although it equals no member. So the run of the machine with the
list succeeds where that with the chain takes the next transition, to a state that does not
exist. -/
theorem missing_divides :
    ((Rule.oneOf (listed.map Prod.snd)).accepts .empty missing = true ∧
      (Rule.noneOf (listed.map Prod.snd)).accepts .empty missing = false ∧
      ∀ u ∈ listed, (Rule.equals u.1 u.2).accepts .empty missing = false) ∧
    (∃ w, (host (fun _ => pure ()) 0).EndsWith .ofList (fun _ => true) [missing] listedWorld
      (.ok (.success (.number 0))) w) ∧
    ∃ w, (host (fun _ => pure ()) 1).EndsWith .ofList (fun _ => true) [missing] listedWorld
      (.error (.invalidTarget (.int 0) (.int 4) (.int 5) (.int 1) (.int 1))) w := by
  obtain ⟨w, hlist⟩ : ∃ w, (host (fun _ => pure ()) 0).run .ofList 9 (fun _ => true) [missing]
      listedWorld = ((Except.ok (.success (.number 0))).mapError .fault, w) := ⟨_, rfl⟩
  obtain ⟨w', hchain⟩ : ∃ w, (host (fun _ => pure ()) 1).run .ofList 9 (fun _ => true) [missing]
      listedWorld = ((Except.error (Fault.invalidTarget (.int 0) (.int 4) (.int 5) (.int 1)
        (.int 1))).mapError .fault, w) := ⟨_, rfl⟩
  refine ⟨⟨rfl, rfl, fun u hu => ?_⟩, ⟨w, endsWith_of_run (logsSafely_host _ 0) hlist⟩,
    ⟨w', endsWith_of_run (logsSafely_host _ 1) hchain⟩⟩
  fin_cases hu <;> rfl

end Session

end SymbolMachine
