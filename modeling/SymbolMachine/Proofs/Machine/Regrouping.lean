/-
One transition or several.

A state may say one thing by one transition or by a group of them that lead to one target by one
action. As long as one of the group accepts where the single transition does, a run cannot tell the
difference (`Alongside.course`): it takes transitions that lead alike, and only their places
differ. The other transitions of the state, and all other states, may have guards and actions of
any kind, which may fail and may change the world, but not the two machines.

Two runs are walked through the same worlds side by side. A group is passed in one go
(`exists_scan_of_hit`, `exists_scan_behind_iff`), because its guards change nothing, so the scan of
the one state is in step with that of the other before and behind each group. The relation is
symmetric, so what is shown of one run holds of the other.
-/
import SymbolMachine.Proofs.Machine.Extension
import SymbolMachine.Proofs.Machine.Rearrangement

set_option autoImplicit false

namespace SymbolMachine

variable {ω γ α ξ ν : Type}

/-! ## Groups of transitions -/

/-- Transitions with one target and one action, whose guards are asked without an effect, in
certain worlds and about certain symbols. One of them accepts where it is said here. -/
structure OneWay (test : γ → ξ → Effect ω Bool) (W : ω → Prop) (X : ξ → Prop)
    (accepts : ω → ξ → Bool) (target : StateId) (action : Option α) (g : List (Transition γ α)) :
    Prop where
  target : ∀ t ∈ g, t.target = target
  action : ∀ t ∈ g, t.action = action
  answers : ∀ t ∈ g, ∀ x, X x → ∀ v, W v → ∃ b, test t.guard x v = (.ok b, v)
  accepts_iff : ∀ x, X x → ∀ v, W v →
    (accepts v x = true ↔ ∃ t ∈ g, test t.guard x v = (.ok true, v))

/-- The second list says the same as the first: it has the same transitions, or for a group of
them another group. -/
inductive Regroups (test : γ → ξ → Effect ω Bool) (W : ω → Prop) (X : ξ → Prop) :
    List (Transition γ α) → List (Transition γ α) → Prop
  | nil : Regroups test W X [] []
  | cons (t : Transition γ α) {ts us : List (Transition γ α)} (rest : Regroups test W X ts us) :
      Regroups test W X (t :: ts) (t :: us)
  | group {accepts : ω → ξ → Bool} {target : StateId} {action : Option α}
      {g g' ts us : List (Transition γ α)} (before : OneWay test W X accepts target action g)
      (behind : OneWay test W X accepts target action g') (rest : Regroups test W X ts us) :
      Regroups test W X (g ++ ts) (g' ++ us)

namespace Regroups

variable {test : γ → ξ → Effect ω Bool} {W : ω → Prop} {X : ξ → Prop}
  {ts us : List (Transition γ α)}

theorem refl (ts : List (Transition γ α)) : Regroups test W X ts ts := by
  induction ts with
  | nil => exact .nil
  | cons t ts ih => exact .cons t ih

theorem symm (h : Regroups test W X ts us) : Regroups test W X us ts := by
  induction h with
  | nil => exact .nil
  | cons t _ ih => exact .cons t ih
  | group before behind _ ih => exact .group behind before ih

/-- A group is replaced where it stands. -/
theorem inside {accepts : ω → ξ → Bool} {target : StateId} {action : Option α}
    {g g' : List (Transition γ α)} (hg : OneWay test W X accepts target action g)
    (hg' : OneWay test W X accepts target action g') (front back : List (Transition γ α)) :
    Regroups test W X (front ++ (g ++ back)) (front ++ (g' ++ back)) := by
  induction front with
  | nil =>
      rw [List.nil_append, List.nil_append]
      exact .group hg hg' (.refl back)
  | cons t front ih => exact .cons t ih

end Regroups

/-- Two answers of a scan: the same fault, no transition, or two transitions that lead to one
target by one action. -/
inductive AnswersAlike : Except Fault (Option (Nat × Transition γ α)) →
    Except Fault (Option (Nat × Transition γ α)) → Prop
  | failed (f : Fault) : AnswersAlike (.error f) (.error f)
  | none : AnswersAlike (.ok none) (.ok none)
  | found {i j : Nat} {t u : Transition γ α} (target : t.target = u.target)
      (action : t.action = u.action) : AnswersAlike (.ok (some (i, t))) (.ok (some (j, u)))

/-! ## Scans side by side -/

section Scan

variable {transitions : ω → List (Transition γ α)} {test : γ → ξ → Effect ω Bool} {x : ξ} {i : Nat}
  {v v' : ω} {t : Transition γ α} {g ts asked : List (Transition γ α)}
  {r : Except Fault (Option (Nat × Transition γ α))}

/-- What stands at a place and behind it, told from the list that is left there. -/
theorem getElem?_of_drop_eq_cons {β : Type} {l as : List β} {a : β} (h : l.drop i = a :: as) :
    l[i]? = some a ∧ l.drop (i + 1) = as := by
  constructor
  · have hhead : (l.drop i)[0]? = l[i + 0]? := List.getElem?_drop
    rw [h] at hhead
    exact hhead.symm
  · rw [← List.tail_drop, h, List.tail_cons]

/-- If a guard of a group accepts and none fails, a scan ends in the group and has changed
nothing. -/
theorem exists_scan_of_hit (here : (transitions v).drop i = g ++ ts)
    (answers : ∀ t ∈ g, ∃ b, test t.guard x v = (.ok b, v))
    (hit : ∃ t ∈ g, test t.guard x v = (.ok true, v)) :
    ∃ asked j t, t ∈ g ∧ Scan transitions test x i v asked (.ok (some (j, t))) v := by
  induction g generalizing i with
  | nil =>
      obtain ⟨t, ht, -⟩ := hit
      cases ht
  | cons t g ih =>
      obtain ⟨hhere, hrest⟩ := getElem?_of_drop_eq_cons here
      obtain ⟨⟨b, hb⟩, hanswers⟩ := List.forall_mem_cons.mp answers
      cases b with
      | true => exact ⟨[t], i, t, List.mem_cons_self .., .accepted hhere hb⟩
      | false =>
          obtain ⟨u, hu, haccepted⟩ := hit
          rcases List.mem_cons.mp hu with rfl | hu
          · rw [hb] at haccepted
            cases haccepted
          · obtain ⟨asked, j, t', ht', scan⟩ := ih hrest hanswers ⟨u, hu, haccepted⟩
            exact ⟨t :: asked, j, t', List.mem_cons_of_mem t ht', .refused hhere hb scan⟩

/-- If all guards of a group refuse, a scan goes on behind the group as if it started there. -/
theorem exists_scan_behind_iff (here : (transitions v).drop i = g ++ ts)
    (refuses : ∀ t ∈ g, test t.guard x v = (.ok false, v)) :
    (∃ asked, Scan transitions test x i v asked r v') ↔
      ∃ asked, Scan transitions test x (i + g.length) v asked r v' := by
  induction g generalizing i with
  | nil => rfl
  | cons t g ih =>
      obtain ⟨hhere, hrest⟩ := getElem?_of_drop_eq_cons here
      obtain ⟨ht, hg⟩ := List.forall_mem_cons.mp refuses
      have hplace : i + (t :: g).length = i + 1 + g.length := by
        rw [List.length_cons]
        omega
      rw [hplace, ← ih hrest hg]
      constructor
      · rintro ⟨asked, scan⟩
        cases scan with
        | exhausted here' => rw [hhere] at here'; cases here'
        | accepted here' asked' | failed here' asked' =>
            rw [hhere] at here'
            cases here'
            rw [ht] at asked'
            cases asked'
        | refused here' asked' rest =>
            rw [hhere] at here'
            cases here'
            rw [ht] at asked'
            cases asked'
            exact ⟨_, rest⟩
      · rintro ⟨asked, scan⟩
        exact ⟨t :: asked, .refused hhere ht scan⟩

/-- **Where the second list says the same, a scan of it answers alike**, and leaves the same
world. -/
theorem Regroups.exists_scan {W : ω → Prop} {X : ξ → Prop} {us : List (Transition γ α)}
    {transitions' : ω → List (Transition γ α)} {j : Nat} (h : Regroups test W X ts us)
    (here : ∀ v, W v → (transitions v).drop i = ts)
    (here' : ∀ v, W v → (transitions' v).drop j = us)
    (keeps : ∀ t ∈ ts, ∀ v, W v → W (test t.guard x v).2) (hx : X x) (hv : W v)
    (scan : Scan transitions test x i v asked r v') :
    W v' ∧ (∀ k t, r = .ok (some (k, t)) → t ∈ ts) ∧
      ∃ asked' r', Scan transitions' test x j v asked' r' v' ∧ AnswersAlike r r' := by
  induction h generalizing i j v asked with
  | nil =>
      have hend : (transitions v)[i]? = none :=
        List.getElem?_eq_none (List.drop_eq_nil_iff.mp (here v hv))
      have hend' : (transitions' v)[j]? = none :=
        List.getElem?_eq_none (List.drop_eq_nil_iff.mp (here' v hv))
      cases scan with
      | exhausted => exact ⟨hv, nofun, [], .ok none, .exhausted hend', .none⟩
      | accepted here | failed here | refused here =>
          rw [hend] at here
          cases here
  | @cons t ts us _ ih =>
      obtain ⟨hhere, -⟩ := getElem?_of_drop_eq_cons (here v hv)
      obtain ⟨hhere', -⟩ := getElem?_of_drop_eq_cons (here' v hv)
      obtain ⟨ht, hts⟩ := List.forall_mem_cons.mp keeps
      have hkept := ht v hv
      cases scan with
      | exhausted here =>
          rw [hhere] at here
          cases here
      | accepted here asked =>
          rw [hhere] at here
          cases here
          rw [asked] at hkept
          refine ⟨hkept, ?_, [t], _, .accepted hhere' asked, .found rfl rfl⟩
          rintro _ _ ⟨⟩
          exact List.mem_cons_self ..
      | failed here asked =>
          rw [hhere] at here
          cases here
          rw [asked] at hkept
          exact ⟨hkept, nofun, [t], _, .failed hhere' asked, .failed _⟩
      | refused here'' asked rest =>
          rw [hhere] at here''
          cases here''
          rw [asked] at hkept
          obtain ⟨hv', hfound, asked', r', scan', halike⟩ :=
            ih (fun v hv => (getElem?_of_drop_eq_cons (here v hv)).2)
              (fun v hv => (getElem?_of_drop_eq_cons (here' v hv)).2) hts hkept rest
          exact ⟨hv', fun k u hr => List.mem_cons_of_mem t (hfound k u hr), t :: asked', r',
            .refused hhere' asked scan', halike⟩
  | @group accepts target action g g' ts us before behind _ ih =>
      have hanswers : ∀ t ∈ g, ∃ b, test t.guard x v = (.ok b, v) := fun t ht =>
        before.answers t ht x hx v hv
      have hanswers' : ∀ t ∈ g', ∃ b, test t.guard x v = (.ok b, v) := fun t ht =>
        behind.answers t ht x hx v hv
      by_cases haccepts : accepts v x = true
      · -- Both scans end in the group, wherever in it.
        obtain ⟨asked₁, k, t, ht, hscan⟩ :=
          exists_scan_of_hit (here v hv) hanswers ((before.accepts_iff x hx v hv).mp haccepts)
        obtain ⟨asked', k', u, hu, hscan'⟩ :=
          exists_scan_of_hit (here' v hv) hanswers' ((behind.accepts_iff x hx v hv).mp haccepts)
        obtain ⟨rfl, rfl⟩ := hscan.unique scan
        refine ⟨hv, ?_, asked', _, hscan', .found ?_ ?_⟩
        · rintro _ _ ⟨⟩
          exact List.mem_append_left _ ht
        · rw [before.target t ht, behind.target u hu]
        · rw [before.action t ht, behind.action u hu]
      · -- Both scans pass the group.
        have hrefuses : ∀ {l : List (Transition γ α)},
            (accepts v x = true ↔ ∃ t ∈ l, test t.guard x v = (.ok true, v)) →
            (∀ t ∈ l, ∃ b, test t.guard x v = (.ok b, v)) →
            ∀ t ∈ l, test t.guard x v = (.ok false, v) := by
          intro l hiff hl t ht
          obtain ⟨b, hb⟩ := hl t ht
          cases b with
          | false => exact hb
          | true => exact absurd (hiff.mpr ⟨t, ht, hb⟩) haccepts
        have hdrop : ∀ {l l' rest : List (Transition γ α)} {n : Nat},
            l.drop n = l' ++ rest → l.drop (n + l'.length) = rest := by
          intro l l' rest n hl
          rw [← List.drop_drop, hl, List.drop_left]
        obtain ⟨asked₁, hscan⟩ := (exists_scan_behind_iff (here v hv)
          (hrefuses (before.accepts_iff x hx v hv) hanswers)).mp ⟨asked, scan⟩
        obtain ⟨hv', hfound, asked₂, r', hscan', halike⟩ :=
          ih (fun v hv => hdrop (here v hv)) (fun v hv => hdrop (here' v hv))
            (fun t ht => keeps t (List.mem_append_right _ ht)) hv hscan
        obtain ⟨asked', scan'⟩ := (exists_scan_behind_iff (here' v hv)
          (hrefuses (behind.accepts_iff x hx v hv) hanswers')).mpr ⟨asked₂, hscan'⟩
        exact ⟨hv', fun k t hr => List.mem_append_right _ (hfound k t hr), asked', r', scan',
          halike⟩

end Scan

/-! ## Machines side by side -/

/-- Two machines with as many states, each of which says the same as its counterpart. -/
structure Machine.Regroups (test : γ → ξ → Effect ω Bool) (W : ω → Prop) (X : ξ → Prop)
    (m m' : Machine γ α) : Prop where
  size : m.size = m'.size
  states : ∀ i s s', m.state? i = some s → m'.state? i = some s' →
    SymbolMachine.Regroups test W X s.transitions s'.transitions

theorem Machine.Regroups.exists_state {test : γ → ξ → Effect ω Bool} {W : ω → Prop} {X : ξ → Prop}
    {m m' : Machine γ α} (h : m.Regroups test W X m') {i : Int} {s : State γ α}
    (hs : m.state? i = some s) :
    ∃ s', m'.state? i = some s' ∧
      SymbolMachine.Regroups test W X s.transitions s'.transitions := by
  rcases Machine.state?_or_of_size_eq h.size i with ⟨hnone, -⟩ | ⟨_, s', _, hs'⟩
  · rw [hs] at hnone
    cases hnone
  · exact ⟨s', hs', h.states i s s' hs hs'⟩

namespace Host

variable (h : Host ω γ α ξ)

/-- Two machines of a world that say the same, and callbacks that leave both alone: in certain
worlds the machines are these, no callback leads out of those worlds, and all symbols that come
from certain states of the source are such that the machines say the same of them. -/
structure Alongside (next : Source ω ν ξ) (machine' : ω → Machine γ α) (W : ω → Prop)
    (S : ν → Prop) (X : ξ → Prop) (m m' : Machine γ α) : Prop where
  beside : ∀ v, W v → h.Beside machine' m m' v
  gives : ∀ s v x rest v', S s → W v → next s v = (.ok (some (x, rest)), v') → X x ∧ S rest
  within : h.StaysWithin next W m
  within' : h.StaysWithin next W m'
  agree : m.Regroups h.test W X m'

/-- Transitions that lead to one target by one action, each at its place. -/
def LeadAlike (c c' : Nat × Transition γ α) : Prop :=
  c.2.target = c'.2.target ∧ c.2.action = c'.2.action

/-- The ends of two runs in step, with the worlds they leave: the same, but for the transition that
was taken last. Its place is in the note that its target does not exist, so there the worlds are
what this note makes of one world. -/
inductive EndAlike (record : Note ξ → Effect ω Unit) :
    Exit γ α ξ → ω → Exit γ α ξ → ω → Prop
  | same (e : Exit γ α ξ) (w : ω) : EndAlike record e w e w
  | actionFailed (x : ξ) {i j : Nat} {t u : Transition γ α} (taken : LeadAlike (i, t) (j, u))
      (f : Fault) (w : ω) :
      EndAlike record (.actionFailed x i t f) w (.actionFailed x j u f) w
  | unknownTarget (x : ξ) {s : StateId} {i j : Nat} {t u : Transition γ α}
      (taken : LeadAlike (i, t) (j, u)) (performed : Option α) {v w w' : ω}
      (noted : record (.unknownTarget i s t.target) v = (.ok (), w))
      (noted' : record (.unknownTarget j s u.target) v = (.ok (), w')) :
      EndAlike record (.unknownTarget x i t performed) w (.unknownTarget x j u performed) w'

/-- What two courses have in common that end in one place `c`: the transitions that were taken lead
alike, one by one, the same actions were called on the same symbols in the same order, the results
are the same but for the place of a transition, and so are the worlds. -/
structure CoursesAlike (record : Note ξ → Effect ω Unit) (count : Nat) (c : Config ω ν)
    (ps : List (Passage γ α ξ)) (e : Exit γ α ξ) (w : ω) (ps' : List (Passage γ α ξ))
    (e' : Exit γ α ξ) (w' : ω) : Prop where
  passages : List.Forall₂ (Passage.Alike Eq LeadAlike) ps ps'
  performances : performances ps e = performances ps' e'
  result : SameButPlace (e.result count c) (e'.result count c)
  ends : EndAlike record e w e' w'

section Alike

variable {record : Note ξ → Effect ω Unit} {count : Nat} {c : Config ω ν}
  {ps ps' : List (Passage γ α ξ)} {e e' : Exit γ α ξ} {w w' : ω}

theorem EndAlike.symm (hend : EndAlike record e w e' w') : EndAlike record e' w' e w := by
  cases hend with
  | same => exact .same e w
  | actionFailed x taken f => exact .actionFailed x ⟨taken.1.symm, taken.2.symm⟩ f w
  | unknownTarget x taken performed noted noted' =>
      exact .unknownTarget x ⟨taken.1.symm, taken.2.symm⟩ performed noted' noted

theorem coursesAlike_of_ends (hps : List.Forall₂ (Passage.Alike Eq LeadAlike) ps ps')
    (hend : EndAlike record e w e' w') : CoursesAlike record count c ps e w ps' e' w' where
  passages := hps
  performances := by
    refine performances_eq_of_passages hps ?_
    cases hend with
    | same | unknownTarget => rfl
    | @actionFailed x _ _ t u taken f =>
        have haction : t.action = u.action := taken.2
        simp only [Exit.performance?, haction]
  result := by
    cases hend with
    | same | actionFailed => exact .same _
    | @unknownTarget x _ _ _ t u taken =>
        have htarget : t.target = u.target := taken.1
        simp only [Exit.result, htarget]
        exact .invalidTarget ..
  ends := hend

theorem CoursesAlike.symm (halike : CoursesAlike record count c ps e w ps' e' w') :
    CoursesAlike record count c ps' e' w' ps e w := by
  refine coursesAlike_of_ends (List.Forall₂.flip (halike.passages.imp ?_)) halike.ends.symm
  rintro p p' ⟨hstate, hposition, hsymbol, htaken, hperformed⟩
  exact ⟨hstate.symm, hposition.symm, hsymbol.symm, ⟨htaken.1.symm, htaken.2.symm⟩,
    hperformed.symm⟩

end Alike

theorem due_congr (setting : Setting ω) {t u : Transition γ α} (haction : t.action = u.action) :
    due setting t = due setting u := by
  funext w
  rw [due, due, haction]

namespace Alongside

variable {h} {next : Source ω ν ξ} {machine' : ω → Machine γ α} {W : ω → Prop} {S : ν → Prop}
  {X : ξ → Prop} {m m' : Machine γ α} {setting : Setting ω} {c c' : Config ω ν}

/-- The two machines are on a par. -/
theorem symm (hside : h.Alongside next machine' W S X m m') :
    (h.withMachine machine').Alongside next h.machine W S X m' m where
  beside v hv := ⟨(hside.beside v hv).2, (hside.beside v hv).1⟩
  gives := hside.gives
  within := ⟨hside.within'.source, hside.within'.test, hside.within'.perform, hside.within'.record⟩
  within' := ⟨hside.within.source, hside.within.test, hside.within.perform, hside.within.record⟩
  agree := ⟨hside.agree.size.symm, fun i s s' hs hs' => (hside.agree.states i s' s hs' hs).symm⟩

theorem transitionsOf (hside : h.Alongside next machine' W S X m m') {s : StateId}
    {state : State γ α} (hs : m.state? s.toInt = some state) {v : ω} (hv : W v) :
    h.transitionsOf s v = state.transitions := by
  rw [Host.transitionsOf, (hside.beside v hv).1, hs]

variable (hside : h.Alongside next machine' W S X m m')
include hside

/-- A symbol is handled alike. -/
theorem handles {x : ξ} {rest : ν} {ts : List (Transition γ α)}
    {r : Except Fault (Option (Nat × Transition γ α))} {w : ω} (hc : W c.world)
    (hsource : S c.source) (handled : h.Handles next setting c x rest ts r w) :
    W w ∧ S rest ∧ (∀ k t, r = .ok (some (k, t)) → m.Owns t) ∧
      ∃ ts' r', (h.withMachine machine').Handles next setting c x rest ts' r' w ∧
        AnswersAlike r r' := by
  obtain @⟨w₁, _, state, _, _, given, states, found, scan⟩ := handled
  have hw₁ : W w₁ := by
    have hkept := hside.within.source c.source c.world hc
    rwa [given] at hkept
  obtain ⟨hx, hrest⟩ := hside.gives _ _ _ _ _ hsource hc given
  rw [(hside.beside w₁ hw₁).1] at found
  obtain ⟨state', found', hagree⟩ := hside.agree.exists_state found
  have hmem := Machine.mem_states_of_state? found
  have hhere : ∀ v, W v → (h.transitionsOf c.state v).drop 0 = state.transitions := fun v hv =>
    hside.transitionsOf found hv
  have hhere' : ∀ v, W v →
      ((h.withMachine machine').transitionsOf c.state v).drop 0 = state'.transitions := fun v hv =>
    hside.symm.transitionsOf found' hv
  obtain ⟨hw, hfound, ts', r', scan', halike⟩ := hagree.exists_scan hhere hhere'
    (fun t ht v hv => hside.within.test t ⟨state, hmem, ht⟩ x v hv) hx hw₁ scan
  have found'' : ((h.withMachine machine').machine w₁).state? c.state.toInt = some state' := by
    rw [(hside.symm.beside w₁ hw₁).1]
    exact found'
  exact ⟨hw, hrest, fun k t hr => ⟨state, hmem, hfound k t hr⟩, ts', r',
    .intro given states found'' scan', halike⟩

/-- A move of the one run is a move of the other, by transitions that lead alike. -/
theorem move {p : Passage γ α ξ} (hc : W c.world) (hsource : S c.source)
    (move : h.Move next setting c p c') :
    W c'.world ∧ S c'.source ∧ ∃ p', (h.withMachine machine').Move next setting c p' c' ∧
      Passage.Alike Eq LeadAlike p p' := by
  obtain ⟨handled, performed, known, noted⟩ := move
  obtain ⟨hw, hrest, howns, ts', r', handled', halike⟩ := hside.handles hc hsource handled
  cases halike with
  | found target action =>
      have hw₁ := hside.within.of_performDue (howns _ _ rfl) hw performed
      have hw₂ := hside.within.of_remark hw₁ noted
      have hdue := due_congr setting action
      rw [hdue] at performed ⊢
      rw [target] at known noted ⊢
      exact ⟨hw₂, hrest, _, .intro handled' performed known noted,
        ⟨rfl, rfl, rfl, ⟨target, action⟩, rfl⟩⟩

/-- Where the one run ends, the other ends alike. -/
theorem exits (hlog : h.LogsSafely) {e : Exit γ α ξ} {w : ω} (hc : W c.world)
    (hsource : S c.source) (exits : h.Exits next setting c e w) :
    ∃ e' w', (h.withMachine machine').Exits next setting c e' w' ∧ EndAlike h.record e w e' w' := by
  cases exits with
  | usedUp given => exact ⟨_, w, .usedUp given, .same _ w⟩
  | sourceFailed given => exact ⟨_, w, .sourceFailed given, .same _ w⟩
  | noStates given states => exact ⟨_, w, .noStates given states, .same _ w⟩
  | lost given states missing =>
      have hw := hside.within.source c.source c.world hc
      rw [given] at hw
      rw [(hside.beside _ hw).1] at missing
      have missing' : ((h.withMachine machine').machine w).state? c.state.toInt = none := by
        rw [(hside.symm.beside _ hw).1]
        rcases Machine.state?_or_of_size_eq hside.agree.size c.state.toInt with
          ⟨-, hnone⟩ | ⟨s, _, hs, -⟩
        · exact hnone
        · rw [hs] at missing
          cases missing
      exact ⟨_, w, .lost given states missing', .same _ w⟩
  | guardFailed handled =>
      obtain ⟨-, -, -, ts', r', handled', halike⟩ := hside.handles hc hsource handled
      cases halike
      exact ⟨_, w, .guardFailed handled', .same _ w⟩
  | rejected handled noted =>
      obtain ⟨-, -, -, ts', r', handled', halike⟩ := hside.handles hc hsource handled
      cases halike
      exact ⟨_, w, .rejected handled' noted, .same _ w⟩
  | @actionFailed x _ _ _ _ f _ _ handled performed =>
      obtain ⟨-, -, -, ts', r', handled', halike⟩ := hside.handles hc hsource handled
      cases halike with
      | found target action =>
          rw [due_congr setting action] at performed
          exact ⟨_, w, .actionFailed handled' performed, .actionFailed x ⟨target, action⟩ f w⟩
  | @unknownTarget x _ _ _ _ w₂ w₃ _ handled performed unknown noted =>
      obtain ⟨-, -, -, ts', r', handled', halike⟩ := hside.handles hc hsource handled
      cases halike with
      | @found _ j _ u target action =>
          obtain ⟨w', noted'⟩ := hlog.record (.unknownTarget j c.state u.target) w₃
          rw [due_congr setting action] at performed ⊢
          rw [target] at unknown
          exact ⟨_, w', .unknownTarget handled' performed unknown noted',
            .unknownTarget x ⟨target, action⟩ _ noted noted'⟩

/-- The other run goes where the one run goes. -/
theorem trail {ps : List (Passage γ α ξ)} (trail : h.Trail next setting c ps c') (hc : W c.world)
    (hsource : S c.source) :
    W c'.world ∧ S c'.source ∧ ∃ ps', (h.withMachine machine').Trail next setting c ps' c' ∧
      List.Forall₂ (Passage.Alike Eq LeadAlike) ps ps' := by
  induction trail with
  | nil c => exact ⟨hc, hsource, [], .nil c, .nil⟩
  | cons move _ ih =>
      obtain ⟨hc₁, hsource₁, p', move', hp⟩ := hside.move hc hsource move
      obtain ⟨hend, hleft, ps', rest', hps⟩ := ih hc₁ hsource₁
      exact ⟨hend, hleft, p' :: ps', .cons move' rest', .cons hp hps⟩

/-- **Two machines that say the same go the same way**, from one world over one source. -/
theorem course (hlog : h.LogsSafely) {actions : ω → Bool} {source : ν} {w w₁ : ω}
    {ps : List (Passage γ α ξ)} {e : Exit γ α ξ} (hw : W w) (hsource : S source)
    (course : h.Course next actions source w ps c e w₁) :
    ∃ ps' e' w₂, (h.withMachine machine').Course next actions source w ps' c e' w₂ ∧
      CoursesAlike h.record m.size c ps e w₁ ps' e' w₂ := by
  have hsetting : (h.withMachine machine').settingAt actions w = h.settingAt actions w := by
    obtain ⟨hm, hm'⟩ := hside.beside w hw
    have hsize : (machine' w).size = (h.machine w).size := by rw [hm, hm', hside.agree.size]
    exact congrArg (fun count => Setting.mk count (h.detailed w) actions) hsize
  obtain ⟨trail, exits⟩ := course
  obtain ⟨hc, hleft, ps', trail', hps⟩ := hside.trail trail hw hsource
  obtain ⟨e', w₂, exits', hend⟩ := hside.exits hlog hc hleft exits
  refine ⟨ps', e', w₂, ⟨?_, ?_⟩, coursesAlike_of_ends hps hend⟩
  · rw [hsetting]
    exact trail'
  · rw [hsetting]
    exact exits'

end Alongside

end Host

end SymbolMachine
