/-
A run without its actions goes the same way.

Two runs over the same symbols start in two worlds that hold the same machine. One performs its
actions, the other does not. The guards are pure, and the actions leave the machine as it is, so
both runs are at the same place after each symbol (`Abreast`), however different their worlds
have become. They part only where an action raises: there the first run ends, and the second
takes the same transition and goes on, or finds that its target does not exist.
-/
import SymbolMachine.Proofs.Machine.Undisturbed

set_option autoImplicit false

namespace SymbolMachine

variable {ω γ α ξ : Type}

namespace Host

/-! ## Without actions -/

/-- The passage without its action. -/
def Passage.silenced (p : Passage γ α ξ) : Passage γ α ξ := { p with performed := none }

/-- The end without the action that came before it. -/
def Exit.silenced : Exit γ α ξ → Exit γ α ξ
  | unknownTarget x i t _ => unknownTarget x i t none
  | e => e

/-- The action that was called on the last symbol. -/
def Exit.performed : Exit γ α ξ → Option α
  | unknownTarget _ _ _ a => a
  | actionFailed _ _ t _ => t.action
  | _ => none

variable {h : Host ω γ α ξ} {m : Machine γ α} {symbols : List ξ} {loud quiet : Setting ω}

section Silent

variable (hquiet : quiet.actions = fun _ => false)
include hquiet

theorem due_eq_none (t : Transition γ α) (v : ω) : due quiet t v = none := by
  rw [due, hquiet]
  rfl

/-- A symbol that finds a transition to a known target moves a silent run on. -/
theorem exists_silent_move (hnotes : h.SafeNotes m) {d : Config ω (List ξ)}
    (hd : h.machine d.world = m) {x : ξ} {rest : List ξ} {ts : List (Transition γ α)} {i : Nat}
    {t : Transition γ α}
    (handled : h.Handles .ofList quiet d x rest ts (.ok (some (i, t))) d.world)
    (known : quiet.Knows t.target) :
    ∃ v, h.machine v = m ∧ h.Move .ofList quiet d ⟨d.state, d.position, x, i, t, none⟩
      ⟨t.target, d.position + 1, rest, v⟩ := by
  have hdue := due_eq_none hquiet t d.world
  have performed : h.performDue x (due quiet t d.world) d.world = (.ok (), d.world) := by
    rw [hdue]
    rfl
  obtain ⟨v, noted, hv⟩ := hnotes.remark quiet (.moved d.state t.target x d.position) hd
  have move := Move.intro handled performed known noted
  rw [hdue] at move
  exact ⟨v, hv, move⟩

/-- A symbol that finds a transition to an unknown target ends a silent run there. -/
theorem exists_silent_unknownTarget (hnotes : h.SafeNotes m) {d : Config ω (List ξ)}
    (hd : h.machine d.world = m) {x : ξ} {rest : List ξ} {ts : List (Transition γ α)} {i : Nat}
    {t : Transition γ α}
    (handled : h.Handles .ofList quiet d x rest ts (.ok (some (i, t))) d.world)
    (unknown : ¬quiet.Knows t.target) :
    ∃ v, h.Exits .ofList quiet d (.unknownTarget x i t none) v := by
  have hdue := due_eq_none hquiet t d.world
  have performed : h.performDue x (due quiet t d.world) d.world = (.ok (), d.world) := by
    rw [hdue]
    rfl
  obtain ⟨v, noted, -⟩ := hnotes (.unknownTarget i d.state t.target) d.world hd
  have exits := Exits.unknownTarget handled performed unknown noted
  rw [hdue] at exits
  exact ⟨v, exits⟩

variable (hguards : h.PureGuards m symbols) (hnotes : h.SafeNotes m)
include hguards

/-- Up to the notes, a silent run leaves the world as it is when it handles a symbol. -/
theorem Handles.unchanged {d : Config ω (List ξ)} (hd : h.machine d.world = m)
    (hsymbols : d.source ⊆ symbols) {x : ξ} {rest : List ξ} {ts : List (Transition γ α)} {i : Nat}
    {t : Transition γ α} {v v' : ω} {r : Except Stop Unit}
    (handled : h.Handles .ofList quiet d x rest ts (.ok (some (i, t))) v)
    (performed : h.performDue x (due quiet t v) v = (r, v')) : r = .ok () ∧ v' = d.world := by
  obtain ⟨-, -, rfl, -, -⟩ := handled.of_pureGuards hguards hd hsymbols
  rw [due_eq_none hquiet] at performed
  cases performed
  exact ⟨rfl, rfl⟩

include hnotes

/-- A silent run performs no action on its way, and leaves everything but the notes alone. -/
theorem Trail.silent {σ : Type} {part : ω → σ} (hpart : h.NotesSpare part)
    {d d' : Config ω (List ξ)} {ps : List (Passage γ α ξ)}
    (trail : h.Trail .ofList quiet d ps d') (hd : h.machine d.world = m)
    (hsymbols : d.source ⊆ symbols) :
    (∀ p ∈ ps, p.performed = none) ∧ part d'.world = part d.world ∧ h.machine d'.world = m ∧
      d'.source ⊆ symbols := by
  induction trail with
  | nil => exact ⟨nofun, rfl, hd, hsymbols⟩
  | cons move _ ih =>
      obtain ⟨handled, performed, -, noted⟩ := move
      obtain ⟨hsource, -, -, -, -⟩ := handled.of_pureGuards hguards hd hsymbols
      obtain ⟨-, rfl⟩ := handled.unchanged hquiet hguards hd hsymbols performed
      have hrest := (List.cons_subset.mp (hsource ▸ hsymbols)).2
      obtain ⟨hsilent, hend, hm, hsource'⟩ := ih (hnotes.of_remark hd noted) hrest
      refine ⟨?_, hend.trans (hpart.of_remark noted), hm, hsource'⟩
      intro p hp
      rcases List.mem_cons.mp hp with rfl | hp
      · exact due_eq_none hquiet _ _
      · exact hsilent p hp

omit hnotes in
/-- Nor does it where it ends. -/
theorem Exits.silent {σ : Type} {part : ω → σ} (hpart : h.NotesSpare part)
    {d : Config ω (List ξ)} {e : Exit γ α ξ} {v : ω} (exits : h.Exits .ofList quiet d e v)
    (hd : h.machine d.world = m) (hsymbols : d.source ⊆ symbols) :
    e.performed = none ∧ part v = part d.world := by
  cases exits with
  | usedUp given => exact ⟨rfl, congrArg part (Source.ofList_eq_none_iff.mp given).2⟩
  | sourceFailed given => exact absurd given Source.ofList_ne_error
  | noStates given | lost given =>
      exact ⟨rfl, congrArg part (Source.ofList_eq_some_iff.mp given).2⟩
  | guardFailed handled =>
      obtain ⟨-, -, rfl, -, -⟩ := handled.of_pureGuards hguards hd hsymbols
      exact ⟨rfl, rfl⟩
  | rejected handled noted =>
      obtain ⟨-, -, rfl, -, -⟩ := handled.of_pureGuards hguards hd hsymbols
      exact ⟨rfl, hpart.of_remark noted⟩
  | actionFailed handled performed =>
      obtain ⟨⟨⟩, -⟩ := handled.unchanged hquiet hguards hd hsymbols performed
  | unknownTarget handled performed _ noted =>
      obtain ⟨-, rfl⟩ := handled.unchanged hquiet hguards hd hsymbols performed
      exact ⟨due_eq_none hquiet _ _, hpart.of_record noted⟩

end Silent

/-! ## Side by side -/

/-- How a run that performs no action compares with one that does and that ended in `c` for the
reason `e` behind the passages `ps`. If no action raised, it took the same transitions and has
the same result. If one did, it took the same transitions up to there and the same one there,
and then went on behind that position, or did not find the target. -/
structure Resumes (count : Nat) (ps : List (Passage γ α ξ)) (c : Config ω (List ξ))
    (e : Exit γ α ξ) (ps' : List (Passage γ α ξ)) (c' : Config ω (List ξ)) (e' : Exit γ α ξ) :
    Prop where
  same : (∀ x i t f, e ≠ .actionFailed x i t f) →
    ps' = ps.map Passage.silenced ∧ e'.result count c' = e.result count c
  further : ∀ x i t f, e = .actionFailed x i t f →
    (∃ rest, ps' = ps.map Passage.silenced ++ ⟨c.state, c.position, x, i, t, none⟩ :: rest ∧
      c.position < c'.position) ∨
    (ps' = ps.map Passage.silenced ∧ e' = .unknownTarget x i t none)

/-- Two runs over the same symbols stand at the same place of the same machine. Nothing is said
of their worlds otherwise. -/
structure Abreast (h : Host ω γ α ξ) (m : Machine γ α) (symbols : List ξ)
    (c d : Config ω (List ξ)) : Prop where
  state : d.state = c.state
  position : d.position = c.position
  source : d.source = c.source
  within : c.source ⊆ symbols
  here : h.machine c.world = m
  there : h.machine d.world = m

/-- What a run answers depends on where it stands, not on its world. -/
theorem Abreast.result_eq {c d : Config ω (List ξ)} (hcd : h.Abreast m symbols c d)
    (e : Exit γ α ξ) (count : Nat) : e.silenced.result count d = e.result count c := by
  cases e <;> simp [Exit.silenced, Exit.result, hcd.state, hcd.position]

/-- One trail behind another. -/
theorem Trail.append {ν : Type} {next : Source ω ν ξ} {setting : Setting ω}
    {c c₁ c₂ : Config ω ν} {ps qs : List (Passage γ α ξ)} (first : h.Trail next setting c ps c₁)
    (second : h.Trail next setting c₁ qs c₂) : h.Trail next setting c (ps ++ qs) c₂ := by
  induction first with
  | nil => exact second
  | cons move _ ih => exact .cons move (ih second)

section Sides

variable (hguards : h.PureGuards m symbols) (hactions : h.TameActions m symbols)
  (hnotes : h.SafeNotes m) (hquiet : quiet.actions = fun _ => false)
  (hcount : quiet.count = loud.count)
include hguards hactions hnotes hquiet hcount

/-- A symbol that moves the first run on moves the second on, by the same transition. -/
theorem Abreast.move {c d c₁ : Config ω (List ξ)} (hcd : h.Abreast m symbols c d)
    {p : Passage γ α ξ} (move : h.Move .ofList loud c p c₁) :
    ∃ d₁, h.Move .ofList quiet d p.silenced d₁ ∧ h.Abreast m symbols c₁ d₁ := by
  obtain ⟨handled, performed, known, noted⟩ := move
  obtain ⟨hsource, hx, rfl, howns, hthere⟩ :=
    handled.of_pureGuards hguards hcd.here hcd.within
  have hperformed := (hactions.of_performDue (howns _ _ rfl) hx hcd.here performed).2
  have known' : quiet.Knows _ := ⟨known.1, by rw [hcount]; exact known.2⟩
  obtain ⟨v, hv, move'⟩ := exists_silent_move hquiet hnotes hcd.there
    (hthere hcount hcd.state hcd.source hcd.there) known'
  rw [hcd.state, hcd.position] at move'
  refine ⟨_, move', rfl, rfl, rfl, ?_, hnotes.of_remark hperformed noted, hv⟩
  exact (List.cons_subset.mp (hsource ▸ hcd.within)).2

/-- The second run goes where the first goes. -/
theorem Abreast.trail {c d c' : Config ω (List ξ)} (hcd : h.Abreast m symbols c d)
    {ps : List (Passage γ α ξ)} (trail : h.Trail .ofList loud c ps c') :
    ∃ d', h.Trail .ofList quiet d (ps.map Passage.silenced) d' ∧ h.Abreast m symbols c' d' := by
  induction trail generalizing d with
  | nil => exact ⟨d, .nil d, hcd⟩
  | cons move _ ih =>
      obtain ⟨d₁, move', hcd₁⟩ := hcd.move hguards hactions hnotes hquiet hcount move
      obtain ⟨d', trail', hcd'⟩ := ih hcd₁
      exact ⟨d', .cons move' trail', hcd'⟩

omit hactions in
/-- Where the first run ends without an action that raised, the second ends in the same way. -/
theorem Abreast.exits {c d : Config ω (List ξ)} (hcd : h.Abreast m symbols c d)
    {e : Exit γ α ξ} {w : ω} (exits : h.Exits .ofList loud c e w)
    (he : ∀ x i t f, e ≠ .actionFailed x i t f) :
    ∃ w', h.Exits .ofList quiet d e.silenced w' := by
  have hgiven : ∀ {x : ξ} {rest : List ξ} {v : ω},
      Source.ofList c.source c.world = (.ok (some (x, rest)), v) →
        v = c.world ∧ Source.ofList d.source d.world = (.ok (some (x, rest)), d.world) := by
    intro x rest v given
    obtain ⟨hsource, hv⟩ := Source.ofList_eq_some_iff.mp given
    exact ⟨hv, Source.ofList_eq_some_iff.mpr ⟨hcd.source.trans hsource, rfl⟩⟩
  cases exits with
  | usedUp given =>
      have hempty := hcd.source.trans (Source.ofList_eq_none_iff.mp given).1
      exact ⟨d.world, .usedUp (Source.ofList_eq_none_iff.mpr ⟨hempty, rfl⟩)⟩
  | sourceFailed given => exact absurd given Source.ofList_ne_error
  | noStates given states => exact ⟨_, .noStates (hgiven given).2 (by rwa [hcount])⟩
  | lost given states missing =>
      obtain ⟨rfl, given'⟩ := hgiven given
      refine ⟨_, .lost given' (by rwa [hcount]) ?_⟩
      rwa [hcd.there, hcd.state, ← hcd.here]
  | guardFailed handled =>
      obtain ⟨-, -, -, -, hthere⟩ := handled.of_pureGuards hguards hcd.here hcd.within
      exact ⟨_, .guardFailed (hthere hcount hcd.state hcd.source hcd.there)⟩
  | @rejected x _ _ _ _ handled noted =>
      obtain ⟨-, -, -, -, hthere⟩ := handled.of_pureGuards hguards hcd.here hcd.within
      obtain ⟨v, noted', -⟩ :=
        hnotes.remark quiet (.rejected d.state x d.position) hcd.there
      exact ⟨v, .rejected (hthere hcount hcd.state hcd.source hcd.there) noted'⟩
  | actionFailed => exact absurd rfl (he _ _ _ _)
  | unknownTarget handled performed unknown noted =>
      obtain ⟨-, -, -, -, hthere⟩ := handled.of_pureGuards hguards hcd.here hcd.within
      refine exists_silent_unknownTarget hquiet hnotes hcd.there
        (hthere hcount hcd.state hcd.source hcd.there) ?_
      rwa [Setting.Knows, hcount]

/-- Where an action of the first run raises, the second takes the same transition, and goes on
from there or does not find the target. -/
theorem Abreast.actionFailed {c d : Config ω (List ξ)} (hcd : h.Abreast m symbols c d)
    {x : ξ} {i : Nat} {t : Transition γ α} {f : Fault} {w : ω}
    (exits : h.Exits .ofList loud c (.actionFailed x i t f) w) :
    (∃ ps d' e w', h.Trail .ofList quiet d (⟨c.state, c.position, x, i, t, none⟩ :: ps) d' ∧
      h.Exits .ofList quiet d' e w') ∨
    ∃ w', h.Exits .ofList quiet d (.unknownTarget x i t none) w' := by
  cases exits with
  | actionFailed handled performed =>
      obtain ⟨hsource, -, -, -, hthere⟩ := handled.of_pureGuards hguards hcd.here hcd.within
      have handled' : h.Handles .ofList quiet d x _ _ _ d.world :=
        hthere hcount hcd.state hcd.source hcd.there
      by_cases known : quiet.Knows t.target
      · obtain ⟨v, hv, move⟩ := exists_silent_move hquiet hnotes hcd.there handled' known
        rw [hcd.state, hcd.position] at move
        have hrest := (List.cons_subset.mp (hsource ▸ hcd.within)).2
        obtain ⟨ps, d', e, w', trail, exits⟩ :=
          exists_course hguards hactions hnotes quiet hrest t.target (c.position + 1) hv
        exact .inl ⟨ps, d', e, w', .cons move trail, exits⟩
      · exact .inr (exists_silent_unknownTarget hquiet hnotes hcd.there handled' known)

/-- **The second run goes where the first goes**, and on from there if an action stopped the
first. -/
theorem Abreast.resumes {c d c' : Config ω (List ξ)} (hcd : h.Abreast m symbols c d)
    {ps : List (Passage γ α ξ)} (trail : h.Trail .ofList loud c ps c') {e : Exit γ α ξ} {w : ω}
    (exits : h.Exits .ofList loud c' e w) (count : Nat) :
    ∃ ps' d' e' w', h.Trail .ofList quiet d ps' d' ∧ h.Exits .ofList quiet d' e' w' ∧
      Resumes count ps c' e ps' d' e' := by
  obtain ⟨d', trail', hcd'⟩ := hcd.trail hguards hactions hnotes hquiet hcount trail
  by_cases he : ∃ x i t f, e = .actionFailed x i t f
  · obtain ⟨x, i, t, f, rfl⟩ := he
    rcases hcd'.actionFailed hguards hactions hnotes hquiet hcount exits with
      ⟨rest, d₂, e', w', trail₂, exits'⟩ | ⟨w', exits'⟩
    · refine ⟨_, d₂, e', w', trail'.append trail₂, exits', fun hne => absurd rfl (hne x i t f), ?_⟩
      rintro _ _ _ _ ⟨⟩
      refine .inl ⟨rest, rfl, ?_⟩
      rw [trail₂.position_eq, hcd'.position, List.length_cons]
      omega
    · refine ⟨_, d', _, w', trail', exits', fun hne => absurd rfl (hne x i t f), ?_⟩
      rintro _ _ _ _ ⟨⟩
      exact .inr ⟨rfl, rfl⟩
  · have hne : ∀ x i t f, e ≠ .actionFailed x i t f :=
      fun x i t f heq => he ⟨x, i, t, f, heq⟩
    obtain ⟨w', exits'⟩ := hcd'.exits hguards hnotes hquiet hcount exits hne
    refine ⟨_, d', _, w', trail', exits', fun _ => ⟨rfl, hcd'.result_eq e count⟩, ?_⟩
    exact fun x i t f heq => absurd heq (hne x i t f)

end Sides

/-! ## Both runs -/

/-- **Without its actions a run goes the same way.** Take pure guards, and actions that leave
the machine as it is, and run the symbols twice in worlds with the machine: with actions, and
without. Both runs end. The second performs no action, leaves every part of its world alone
that notes leave alone, and takes the same transitions as the first, to the same end, unless an
action ends the first (`Resumes`). -/
theorem run_without_actions {xs : List ξ} (hguards : h.PureGuards m xs)
    (hactions : h.TameActions m xs) (hnotes : h.SafeNotes m) {w w' : ω} (hw : h.machine w = m)
    (hw' : h.machine w' = m) :
    let loud := h.settingAt (fun _ => true) w
    let quiet := h.settingAt (fun _ => false) w'
    (∃ ps c e w₁, h.Trail .ofList loud (.start xs w) ps c ∧ h.Exits .ofList loud c e w₁) ∧
    ∀ {ps c e w₁}, h.Trail .ofList loud (.start xs w) ps c → h.Exits .ofList loud c e w₁ →
      h.EndsWith .ofList (fun _ => true) xs w (e.result m.size c) w₁ ∧
      ∃ ps' c' e' w₂, h.Trail .ofList quiet (.start xs w') ps' c' ∧
        h.Exits .ofList quiet c' e' w₂ ∧
        h.EndsWith .ofList (fun _ => false) xs w' (e'.result m.size c') w₂ ∧
        (∀ p ∈ ps', p.performed = none) ∧ e'.performed = none ∧
        (∀ {σ : Type} (part : ω → σ), h.NotesSpare part → part w₂ = part w') ∧
        Resumes m.size ps c e ps' c' e' := by
  intro loud quiet
  have hsize : loud.count = m.size := by rw [← hw]; rfl
  have hsize' : quiet.count = m.size := by rw [← hw']; rfl
  have hstart : h.Abreast m xs (.start xs w) (.start xs w') :=
    ⟨rfl, rfl, rfl, List.Subset.refl xs, hw, hw'⟩
  refine ⟨exists_course hguards hactions hnotes loud (List.Subset.refl xs) .start 1 hw, ?_⟩
  intro ps c e w₁ trail exits
  obtain ⟨ps', c', e', w₂, trail', exits', hresumes⟩ :=
    hstart.resumes hguards hactions hnotes rfl (hsize'.trans hsize.symm) trail exits m.size
  have hends := trail.drive_eq_of_exits exits
  have hends' := trail'.drive_eq_of_exits exits'
  rw [hsize] at hends
  rw [hsize'] at hends'
  -- Whatever is spared by notes: the second run performs nothing.
  have hsilent : ∀ {σ : Type} (part : ω → σ), h.NotesSpare part →
      ((∀ p ∈ ps', p.performed = none) ∧ e'.performed = none) ∧ part w₂ = part w' := by
    intro σ part hpart
    obtain ⟨hway, hspared, hm, hsource⟩ :=
      trail'.silent rfl hguards hnotes hpart hw' (List.Subset.refl xs)
    obtain ⟨hexit, hspared'⟩ := exits'.silent rfl hguards hpart hm hsource
    exact ⟨⟨hway, hexit⟩, hspared'.trans hspared⟩
  obtain ⟨hway, hexit⟩ := (hsilent (fun _ => ()) fun _ _ => rfl).1
  exact ⟨hends, ps', c', e', w₂, trail', exits', hends', hway, hexit,
    fun part hpart => (hsilent part hpart).2, hresumes⟩

/-- There is no room for the second symbol. A run that writes nothing goes on behind it, and
leaves what was written before. -/
theorem narrowRecorder_run_without_actions :
    narrowRecorder.EndsWith .ofList (fun _ => true) [1, 2, 1] (turningMachine, [])
        (.error .outOfRange) (turningMachine, [1]) ∧
      ∃ ps c e w, narrowRecorder.Trail .ofList ⟨2, false, fun _ => false⟩
          (.start [1, 2, 1] (turningMachine, [7])) ps c ∧
        narrowRecorder.Exits .ofList ⟨2, false, fun _ => false⟩ c e w ∧ 2 < c.position ∧
        w.2 = [7] := by
  obtain ⟨-, hboth⟩ := run_without_actions (h := narrowRecorder)
    (recorder_pureGuards turningMachine [1, 2, 1]) (narrowRecorder_tameActions _ _)
    (recorder_safeNotes turningMachine)
    (rfl : narrowRecorder.machine (turningMachine, []) = turningMachine)
    (rfl : narrowRecorder.machine (turningMachine, [7]) = turningMachine)
  let loud : Setting (Machine (Nat → Except Fault Bool) Unit × List Nat) :=
    ⟨2, false, fun _ => true⟩
  have first : narrowRecorder.Move .ofList loud (.start [1, 2, 1] (turningMachine, []))
      ⟨.start, 1, 1, 0, turn 1 1, some ()⟩ ⟨.number 1, 2, [2, 1], (turningMachine, [1])⟩ :=
    .intro (.intro rfl (by decide) rfl (.accepted rfl rfl)) rfl (by decide) rfl
  have second : narrowRecorder.Exits .ofList loud
      ⟨.number 1, 2, [2, 1], (turningMachine, [1])⟩ (.actionFailed 2 0 (turn 2 0) .outOfRange)
      (turningMachine, [1]) :=
    .actionFailed (.intro rfl (by decide) rfl (.accepted rfl rfl)) rfl
  obtain ⟨hloud, ps, c, e, w, trail, exits, -, -, -, hspared, hresumes⟩ :=
    hboth (.cons first (.nil _)) second
  have hdiary : w.2 = [7] := hspared Prod.snd fun _ _ => rfl
  rcases hresumes.further _ _ _ _ rfl with ⟨_, -, hposition⟩ | ⟨-, rfl⟩
  · exact ⟨hloud, ps, c, e, w, trail, exits, hposition, hdiary⟩
  · cases exits with
    | unknownTarget _ _ unknown => exact absurd (by decide) unknown

end Host

end SymbolMachine
