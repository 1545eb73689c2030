/-
Adding to a machine does not change what it did.

Two machines are run over the same symbols, with the same callbacks, from the same world. The
second is the first after states and transitions were appended to it. A transition that was
added stands behind the old ones, so it is asked only where no old one accepted, and a target
that the first machine has, the second has too. So the second run goes where the first goes,
performs the same actions and ends in the same way; only where the first rejects a symbol or
does not find a target may the second go on.

The proof walks both runs through the same worlds. What it needs of the callbacks is that they
leave the two machines alone; guards that are pure do, and so do guards that keep a diary.
-/
import SymbolMachine.Proofs.Machine.Frame

set_option autoImplicit false

namespace SymbolMachine

variable {ω γ α ξ ν : Type}

namespace Host

variable (h : Host ω γ α ξ)

/-- The same callbacks with another machine of the world. -/
def withMachine (machine' : ω → Machine γ α) : Host ω γ α ξ := { h with machine := machine' }

/-- The callbacks of a machine do not lead out of a set of worlds: the source, its guards, its
actions, and the notes. -/
structure StaysWithin (next : Source ω ν ξ) (W : ω → Prop) (m : Machine γ α) : Prop where
  source : ∀ s v, W v → W (next s v).2
  test : ∀ t, m.Owns t → ∀ x v, W v → W (h.test t.guard x v).2
  perform : ∀ t, m.Owns t → ∀ a, t.action = some a → ∀ x v, W v → W (h.perform a x v).2
  record : ∀ note v, W v → W (h.record note v).2

/-- The worlds in which two machines are these. -/
def Beside (machine' : ω → Machine γ α) (m m' : Machine γ α) (v : ω) : Prop :=
  h.machine v = m ∧ machine' v = m'

/-! ## Side by side -/

section Sides

variable {h} {next : Source ω ν ξ} {machine' : ω → Machine γ α} {m m' : Machine γ α}
  {W : ω → Prop} {setting : Setting ω}

theorem StaysWithin.of_test (hw : h.StaysWithin next W m) {t : Transition γ α} (ht : m.Owns t)
    {x : ξ} {v v' : ω} {r : Except Stop Bool} (hv : W v)
    (asked : h.test t.guard x v = (r, v')) : W v' := by
  have hkeep := hw.test t ht x v hv
  rw [asked] at hkeep
  exact hkeep

theorem StaysWithin.of_performDue (hw : h.StaysWithin next W m) {t : Transition γ α}
    (ht : m.Owns t) {x : ξ} {v v' : ω} {r : Except Stop Unit} (hv : W v)
    (performed : h.performDue x (due setting t v) v = (r, v')) : W v' := by
  rcases performDue_cases h performed with ⟨a, -, own, performed⟩ | ⟨-, rfl⟩
  · have hkeep := hw.perform t ht a own x v hv
    rwa [performed] at hkeep
  · exact hv

theorem StaysWithin.of_remark (hw : h.StaysWithin next W m) {note : Note ξ} {v v' : ω}
    {r : Except Stop Unit} (hv : W v) (noted : h.remark setting note v = (r, v')) : W v' := by
  rcases remark_cases h noted with noted | ⟨-, rfl⟩
  · have hkeep := hw.record note v hv
    rwa [noted] at hkeep
  · exact hv

/-- A transition of the smaller machine has its place in the larger one. -/
theorem Beside.getElem? (hg : m.Grows m') {s : StateId} {v : ω} {i : Nat} {t : Transition γ α}
    (hv : h.Beside machine' m m' v) (ht : (h.transitionsOf s v)[i]? = some t) :
    ((h.withMachine machine').transitionsOf s v)[i]? = some t ∧ m'.Owns t := by
  obtain ⟨hm, hm'⟩ := hv
  have hgrows : (h.machine v).Grows ((h.withMachine machine').machine v) := by
    change (h.machine v).Grows (machine' v)
    rw [hm, hm']
    exact hg
  have ht' := getElem?_transitionsOf_of_grows hgrows ht
  have howns : (machine' v).Owns t := owns_of_getElem? ht'
  rw [hm'] at howns
  exact ⟨ht', howns⟩

section Steps

variable {detailed : Bool} {actions : ω → Bool}
variable (hw : h.StaysWithin next (h.Beside machine' m m') m') (hg : m.Grows m')
include hw hg

/-- A scan that finds a transition or fails does the same in the larger machine. -/
theorem scan_withMachine {s : StateId} {x : ξ} {i : Nat} {v v' : ω} {ts : List (Transition γ α)}
    {r : Except Fault (Option (Nat × Transition γ α))} (hr : r ≠ .ok none)
    (hv : h.Beside machine' m m' v) (hscan : Scan (h.transitionsOf s) h.test x i v ts r v') :
    Scan ((h.withMachine machine').transitionsOf s) h.test x i v ts r v' ∧
      h.Beside machine' m m' v' ∧ ∀ j t, r = .ok (some (j, t)) → m'.Owns t := by
  induction hscan with
  -- Behind the last old transition there may be a new one, so nothing could be said here.
  | exhausted => exact absurd rfl hr
  | accepted here asked =>
      obtain ⟨here', howns⟩ := hv.getElem? hg here
      refine ⟨.accepted here' asked, hw.of_test howns hv asked, fun j t heq => ?_⟩
      cases heq
      exact howns
  | failed here asked =>
      obtain ⟨here', howns⟩ := hv.getElem? hg here
      refine ⟨.failed here' asked, hw.of_test howns hv asked, fun j t heq => ?_⟩
      cases heq
  | refused here asked _ ih =>
      obtain ⟨here', howns⟩ := hv.getElem? hg here
      obtain ⟨rest', hv', hfound⟩ := ih hr (hw.of_test howns hv asked)
      exact ⟨.refused here' asked rest', hv', hfound⟩

/-- So does the run with a symbol whose scan finds a transition or fails. -/
theorem handles_withMachine {c : Config ω ν} {x : ξ} {rest : ν} {ts : List (Transition γ α)}
    {r : Except Fault (Option (Nat × Transition γ α))} {v : ω} (hr : r ≠ .ok none)
    (hc : h.Beside machine' m m' c.world)
    (handled : h.Handles next ⟨m.size, detailed, actions⟩ c x rest ts r v) :
    (h.withMachine machine').Handles next ⟨m'.size, detailed, actions⟩ c x rest ts r v ∧
      h.Beside machine' m m' v ∧ ∀ j t, r = .ok (some (j, t)) → m'.Owns t := by
  obtain ⟨given, states, found, scan⟩ := handled
  have hv := hw.source c.source c.world hc
  rw [given] at hv
  obtain ⟨scan', hv', howns⟩ := scan_withMachine hw hg hr hv scan
  rw [hv.1] at found
  obtain ⟨state', found', -⟩ := hg.state? found
  have hm' : (h.withMachine machine').machine _ = m' := hv.2
  rw [← hm'] at found'
  have hsize := hg.size_le
  have states' : m'.size ≠ 0 := by
    intro hzero
    apply states
    change m.size = 0
    omega
  exact ⟨.intro given states' found' scan', hv', howns⟩

/-- A move of the smaller machine is a move of the larger one. -/
theorem move_withMachine {c c' : Config ω ν} {p : Passage γ α ξ}
    (hc : h.Beside machine' m m' c.world)
    (move : h.Move next ⟨m.size, detailed, actions⟩ c p c') :
    (h.withMachine machine').Move next ⟨m'.size, detailed, actions⟩ c p c' ∧
      h.Beside machine' m m' c'.world := by
  obtain ⟨handled, performed, known, noted⟩ := move
  obtain ⟨handled', hv, howns⟩ := handles_withMachine hw hg (by exact nofun) hc handled
  have hv₁ := hw.of_performDue (howns _ _ rfl) hv performed
  have hv₂ := hw.of_remark hv₁ noted
  have hsize := hg.size_le
  refine ⟨.intro handled' performed ⟨known.1, ?_⟩ noted, hv₂⟩
  have hlt := known.2
  change _ < (m.size : Int) at hlt
  change _ < (m'.size : Int)
  omega

/-- The larger machine goes where the smaller one goes. -/
theorem trail_withMachine {c c' : Config ω ν} {ps : List (Passage γ α ξ)}
    (hc : h.Beside machine' m m' c.world)
    (trail : h.Trail next ⟨m.size, detailed, actions⟩ c ps c') :
    (h.withMachine machine').Trail next ⟨m'.size, detailed, actions⟩ c ps c' ∧
      h.Beside machine' m m' c'.world := by
  induction trail with
  | nil c => exact ⟨.nil c, hc⟩
  | cons move _ ih =>
      obtain ⟨move', hc'⟩ := move_withMachine hw hg hc move
      obtain ⟨rest', hend⟩ := ih hc'
      exact ⟨.cons move' rest', hend⟩

/-- Where the smaller machine is used up, or a callback fails, so it is in the larger one. -/
theorem exits_withMachine {c : Config ω ν} {e : Exit γ α ξ} {v : ω}
    (hc : h.Beside machine' m m' c.world)
    (exits : h.Exits next ⟨m.size, detailed, actions⟩ c e v)
    (he : match e with
      | .usedUp | .sourceFailed _ | .guardFailed _ _ | .actionFailed _ _ _ _ => True
      | _ => False) :
    (h.withMachine machine').Exits next ⟨m'.size, detailed, actions⟩ c e v := by
  cases exits with
  | usedUp given => exact .usedUp given
  | sourceFailed given => exact .sourceFailed given
  | guardFailed handled =>
      obtain ⟨handled', -, -⟩ := handles_withMachine hw hg (by exact nofun) hc handled
      exact .guardFailed handled'
  | actionFailed handled performed =>
      obtain ⟨handled', -, -⟩ := handles_withMachine hw hg (by exact nofun) hc handled
      exact .actionFailed handled' performed
  | noStates | lost | rejected | unknownTarget => exact he.elim

/-- Where the smaller machine does not find a target, the larger one takes the same transition
with the same action, and goes on or does not find the target either. -/
theorem unknownTarget_withMachine (hlog : h.LogsSafely) {c : Config ω ν} {x : ξ} {i : Nat}
    {t : Transition γ α} {a : Option α} {v : ω} (hc : h.Beside machine' m m' c.world)
    (exits : h.Exits next ⟨m.size, detailed, actions⟩ c (.unknownTarget x i t a) v) :
    if 0 ≤ t.target.toInt ∧ t.target.toInt < m'.size then
      ∃ c', (h.withMachine machine').Move next ⟨m'.size, detailed, actions⟩ c
        ⟨c.state, c.position, x, i, t, a⟩ c'
    else (h.withMachine machine').Exits next ⟨m'.size, detailed, actions⟩ c
      (.unknownTarget x i t a) v := by
  cases exits with
  | @unknownTarget _ rest ts _ _ w₂ w₃ _ handled performed unknown noted =>
    obtain ⟨handled', -, -⟩ := handles_withMachine hw hg (by exact nofun) hc handled
    split
    · next known =>
      obtain ⟨w₄, noted'⟩ :=
        hlog.remark ⟨m'.size, detailed, actions⟩ (.moved c.state t.target x c.position) w₃
      exact ⟨_, .intro handled' performed known noted'⟩
    · next unknown' => exact .unknownTarget handled' performed unknown' noted

omit hg in
/-- A run is not lost in a state that its machine has. -/
theorem not_lost {c : Config ω ν} {v : ω} (hc : h.Beside machine' m m' c.world)
    (hcontains : m.Contains c.state) : ¬h.Exits next setting c .lost v := by
  have hworld := hw.source c.source c.world hc
  rw [← hworld.1] at hcontains
  exact not_lost_of_contains h hcontains

end Steps

end Sides

/-! ## Both runs -/

variable {h}

/-- **Appending to a machine is conservative.** Let the second machine be the first with
states and transitions appended, run both from the same world, and let no callback touch
either. A run of the first that ends is some moves and a reason to end. The run of the second
makes the same moves with the same actions, so it ends where the first does or later. If the
symbols are used up, or if the source, a guard or an action fails, the second run ends there
in the same way. If the first run does not find a target, the second takes the same
transition with the same action too, and either goes on or names the same state, place,
target and position. Nothing is said of a symbol that the first rejects: the second may have a
transition for it. -/
theorem run_of_grows (hlog : h.LogsSafely) {next : Source ω ν ξ} {machine' : ω → Machine γ α}
    {w : ω} (hg : (h.machine w).Grows (machine' w)) (hne : 0 < (h.machine w).size)
    (hw : h.StaysWithin next (h.Beside machine' (h.machine w) (machine' w)) (machine' w))
    {fuel : Nat} {actions : ω → Bool} {source : ν} {r : Except Fault (Outcome StateId ξ Nat)}
    {w₁ : ω} (hr : h.run next fuel actions source w = (r.mapError .fault, w₁)) :
    let h' := h.withMachine machine'
    ∃ ps c e, h.Trail next (h.settingAt actions w) (.start source w) ps c ∧
      h.Exits next (h.settingAt actions w) c e w₁ ∧ r = e.result (h.machine w).size c ∧
      c.position = ps.length + 1 ∧
      h'.Trail next (h'.settingAt actions w) (.start source w) ps c ∧
      (∀ r' w', h'.EndsWith next actions source w r' w' →
        ∃ ps' c' e', h'.Trail next (h'.settingAt actions w) c ps' c' ∧
          h'.Exits next (h'.settingAt actions w) c' e' w' ∧ r' = e'.result (machine' w).size c' ∧
          c.position ≤ c'.position) ∧
      match e with
      | .usedUp | .sourceFailed _ | .guardFailed _ _ | .actionFailed _ _ _ _ =>
        h'.Exits next (h'.settingAt actions w) c e w₁ ∧ h'.EndsWith next actions source w r w₁
      | .rejected _ => True
      | .unknownTarget x i t a =>
        if 0 ≤ t.target.toInt ∧ t.target.toInt < (machine' w).size then
          ∃ c', h'.Move next (h'.settingAt actions w) c ⟨c.state, c.position, x, i, t, a⟩ c'
        else
          h'.EndsWith next actions source w (.error (.invalidTarget c.state.toValue (.int i)
            t.target.toValue (.int c.position) (.int (machine' w).size))) w₁
      | .noStates | .lost => False := by
  intro h'
  have hlog' : h'.LogsSafely := hlog
  have hstart : h.Beside machine' (h.machine w) (machine' w) w := ⟨rfl, rfl⟩
  obtain ⟨ps, c, e, trail, exits, he⟩ := (endsWith_iff hlog).mp (endsWith_of_run hlog hr)
  obtain ⟨trail', hc⟩ := trail_withMachine hw hg (c := .start source w) hstart trail
  have hposition : c.position = ps.length + 1 := by
    rw [trail.position_eq, Nat.add_comm]
    rfl
  refine ⟨ps, c, e, trail, exits, he, hposition, trail', ?_, ?_⟩
  -- Both runs are one trail up to `c`, so the second can only end behind it.
  · intro r' w' hr'
    obtain ⟨ps', c', e', rest', exits', he'⟩ := hr'.exists_rest hlog' trail'
    refine ⟨ps', c', e', rest', exits', he', ?_⟩
    have hlater := rest'.position_eq
    omega
  · cases e with
    | usedUp | sourceFailed | guardFailed | actionFailed =>
        have exits' := exits_withMachine hw hg hc exits trivial
        exact ⟨exits', (endsWith_iff hlog').mpr ⟨ps, c, _, trail', exits', he⟩⟩
    | rejected => trivial
    | unknownTarget x i t a =>
        have hnext := unknownTarget_withMachine hw hg hlog hc exits
        dsimp only
        split at hnext
        · next known =>
          rw [if_pos known]
          exact hnext
        · next unknown =>
          rw [if_neg unknown]
          exact (endsWith_iff hlog').mpr ⟨ps, c, _, trail', hnext, rfl⟩
    | noStates =>
        cases exits with
        | noStates _ states => exact Nat.ne_of_gt hne states
    | lost =>
        exact not_lost hw hc (trail.knows (Machine.Contains.start hne)) exits

/-- Two machines whose guards are functions of the symbol, and the symbols that actions were
performed on. -/
abbrev Twins : Type :=
  Machine (Nat → Except Fault Bool) Unit × Machine (Nat → Except Fault Bool) Unit × List Nat

/-- The first of two machines as the machine of a run. -/
def twins : Host Twins (Nat → Except Fault Bool) Unit Nat where
  machine w := w.1
  test g x := Effect.ofExcept (g x)
  perform _ x := modify fun w => (w.1, w.2.1, w.2.2 ++ [x])
  record _ := pure ()
  detailed _ := false

theorem twins_staysWithin (m m' : Machine (Nat → Except Fault Bool) Unit) :
    twins.StaysWithin .ofList (twins.Beside (fun w => w.2.1) m m') m' where
  source s v hv := by cases s <;> exact hv
  test t _ x v hv := by
    change twins.Beside _ m m' (Effect.ofExcept (t.guard x) v).2
    cases t.guard x <;> exact hv
  perform _ _ _ _ _ _ hv := hv
  record _ _ hv := hv

/-- A machine that alternates between two states. -/
def alternating : Machine (Nat → Except Fault Bool) Unit :=
  ⟨[⟨.int 0, .bool false, [⟨.number 1, fun x => .ok (x == 1), some ()⟩]⟩,
    ⟨.int 1, .bool true, [⟨.number 0, fun x => .ok (x == 0), none⟩]⟩]⟩

/-- The same machine with a rule for everything in its first state, and a state more. -/
def alternatingExtended : Machine (Nat → Except Fault Bool) Unit :=
  ⟨[⟨.int 0, .bool false, [⟨.number 1, fun x => .ok (x == 1), some ()⟩,
      ⟨.number 2, fun _ => .ok true, some ()⟩]⟩,
    ⟨.int 1, .bool true, [⟨.number 0, fun x => .ok (x == 0), none⟩]⟩,
    ⟨.int 2, .bool true, []⟩]⟩

/-- The new rule for everything does not take the symbols of the old one. -/
theorem twins_run_of_grows :
    (twins.withMachine fun w => w.2.1).EndsWith .ofList (fun _ => true) [1, 0, 1]
      (alternating, alternatingExtended, []) (.ok (.success (.number 1)))
      (alternating, alternatingExtended, [1, 1]) := by
  have hg : alternating.Grows alternatingExtended := by
    intro i s hs
    match i with
    | 0 =>
        cases hs
        exact ⟨_, rfl, rfl, List.prefix_append _ _⟩
    | 1 =>
        cases hs
        exact ⟨_, rfl, rfl, List.prefix_refl _⟩
    | i + 2 => cases hs
  have hne : 0 < alternating.size := Nat.two_pos
  have hrun : twins.run .ofList 6 (fun _ => true) [1, 0, 1] (alternating, alternatingExtended, []) =
      ((Except.ok (.success (.number 1))).mapError .fault,
        (alternating, alternatingExtended, [1, 1])) := rfl
  obtain ⟨ps, c, e, -, -, he, -, -, -, hend⟩ :=
    run_of_grows (fun _ _ => rfl) hg hne (twins_staysWithin alternating alternatingExtended) hrun
  cases e with
  | usedUp => exact hend.2
  | _ => cases he

end Host

end SymbolMachine
