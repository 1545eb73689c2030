/-
Runs over a list that nothing disturbs.

The guards are pure, and the actions and notes leave the machine as it is; an action may raise,
and it may do what it likes elsewhere. Then a symbol is scanned alike in every world that holds
the machine (`PureGuards.scan_transfer`), whatever the actions did before, and a run over a list
always comes to an end (`exists_course`).
-/
import SymbolMachine.Proofs.Machine.Frame
import SymbolMachine.Proofs.Machine.Stepwise

set_option autoImplicit false

namespace SymbolMachine

variable {ω γ α ξ : Type}

/-- A list gives its head and leaves the world as it is. -/
theorem Source.ofList_eq_some_iff {xs rest : List ξ} {x : ξ} {v v' : ω} :
    Source.ofList xs v = (.ok (some (x, rest)), v') ↔ xs = x :: rest ∧ v' = v := by
  cases xs with
  | nil =>
      constructor
      · intro given
        cases given
      · rintro ⟨hxs, -⟩
        cases hxs
  | cons y ys =>
      constructor
      · intro given
        cases given
        exact ⟨rfl, rfl⟩
      · rintro ⟨hxs, rfl⟩
        cases hxs
        rfl

theorem Source.ofList_eq_none_iff {xs : List ξ} {v v' : ω} :
    Source.ofList xs v = (.ok none, v') ↔ xs = [] ∧ v' = v := by
  cases xs with
  | nil =>
      constructor
      · intro given
        cases given
        exact ⟨rfl, rfl⟩
      · rintro ⟨-, rfl⟩
        rfl
  | cons y ys =>
      constructor
      · intro given
        cases given
      · rintro ⟨hxs, -⟩
        cases hxs

/-- A list never fails. -/
theorem Source.ofList_ne_error {xs : List ξ} {v v' : ω} {e : Stop} :
    Source.ofList xs v ≠ (.error e, v') := by
  cases xs <;> exact nofun

namespace Host

variable (h : Host ω γ α ξ)

/-- Actions that return or raise, and leave the machine as it is. -/
def TameActions (m : Machine γ α) (symbols : List ξ) : Prop :=
  ∀ t, m.Owns t → ∀ a, t.action = some a → ∀ x ∈ symbols, ∀ v, h.machine v = m →
    (h.perform a x v).1 ≠ .error .stalled ∧ h.machine (h.perform a x v).2 = m

/-- Notes leave a part of the world alone. -/
def NotesSpare {σ : Type} (part : ω → σ) : Prop := ∀ note v, part (h.record note v).2 = part v

variable {h} {m : Machine γ α} {symbols : List ξ} {setting : Setting ω}

/-- What becomes of the action that is due when a transition is taken. -/
theorem TameActions.of_performDue (hactions : h.TameActions m symbols) {t : Transition γ α}
    (ht : m.Owns t) {x : ξ} (hx : x ∈ symbols) {v v' : ω} (hv : h.machine v = m)
    {r : Except Stop Unit} (performed : h.performDue x (due setting t v) v = (r, v')) :
    r ≠ .error .stalled ∧ h.machine v' = m := by
  rcases performDue_cases h performed with ⟨a, -, own, performed⟩ | ⟨rfl, rfl⟩
  · have htame := hactions t ht a own x hx v hv
    rwa [performed] at htame
  · exact ⟨nofun, hv⟩

/-- A note leaves the machine as it is. -/
theorem SafeNotes.of_remark (hnotes : h.SafeNotes m) {note : Note ξ} {v v' : ω}
    (hv : h.machine v = m) {r : Except Stop Unit} (noted : h.remark setting note v = (r, v')) :
    h.machine v' = m := by
  obtain ⟨u, hu, hm⟩ := hnotes.remark setting note hv
  rw [hu] at noted
  cases noted
  exact hm

theorem NotesSpare.of_record {σ : Type} {part : ω → σ} (hpart : h.NotesSpare part) {note : Note ξ}
    {v v' : ω} {r : Except Stop Unit} (noted : h.record note v = (r, v')) : part v' = part v := by
  have hspare := hpart note v
  rwa [noted] at hspare

theorem NotesSpare.of_remark {σ : Type} {part : ω → σ} (hpart : h.NotesSpare part) {note : Note ξ}
    {v v' : ω} {r : Except Stop Unit} (noted : h.remark setting note v = (r, v')) :
    part v' = part v := by
  rcases remark_cases h noted with noted | ⟨-, rfl⟩
  · exact hpart.of_record noted
  · rfl

/-! ## Scans -/

theorem transitionsOf_congr {s : StateId} {v u : ω} (hu : h.machine u = h.machine v) :
    h.transitionsOf s u = h.transitionsOf s v := by
  rw [transitionsOf, transitionsOf, hu]

/-- What a pure guard answers once, it answers in every world with the machine. -/
theorem PureGuards.test_transfer (hguards : h.PureGuards m symbols) {t : Transition γ α}
    (ht : m.Owns t) {x : ξ} (hx : x ∈ symbols) {v v' : ω} (hv : h.machine v = m)
    {r : Except Stop Bool} (asked : h.test t.guard x v = (r, v')) :
    v' = v ∧ ∀ u, h.machine u = m → h.test t.guard x u = (r, u) := by
  obtain ⟨verdict, hverdict⟩ := hguards t ht x hx
  rw [hverdict v hv] at asked
  cases asked
  exact ⟨rfl, hverdict⟩

/-- **A scan by pure guards changes nothing, and is the same scan in every world with the
machine.** -/
theorem PureGuards.scan_transfer (hguards : h.PureGuards m symbols) {s : StateId} {x : ξ}
    (hx : x ∈ symbols) {i : Nat} {v v' : ω} (hv : h.machine v = m) {ts : List (Transition γ α)}
    {r : Except Fault (Option (Nat × Transition γ α))}
    (scan : Scan (h.transitionsOf s) h.test x i v ts r v') :
    v' = v ∧ ∀ u, h.machine u = m → Scan (h.transitionsOf s) h.test x i u ts r u := by
  have hplace : ∀ {i : Nat} {t : Transition γ α}, (h.transitionsOf s v)[i]? = some t →
      m.Owns t := fun here => hv ▸ owns_of_getElem? here
  have hthere : ∀ {u : ω}, h.machine u = m → h.transitionsOf s u = h.transitionsOf s v :=
    fun hu => transitionsOf_congr (hu.trans hv.symm)
  induction scan with
  | exhausted here => exact ⟨rfl, fun u hu => .exhausted (by rwa [hthere hu])⟩
  | accepted here asked =>
      obtain ⟨rfl, hasked⟩ := hguards.test_transfer (hplace here) hx hv asked
      exact ⟨rfl, fun u hu => .accepted (by rwa [hthere hu]) (hasked u hu)⟩
  | failed here asked =>
      obtain ⟨rfl, hasked⟩ := hguards.test_transfer (hplace here) hx hv asked
      exact ⟨rfl, fun u hu => .failed (by rwa [hthere hu]) (hasked u hu)⟩
  | refused here asked _ ih =>
      obtain ⟨rfl, hasked⟩ := hguards.test_transfer (hplace here) hx hv asked
      obtain ⟨rfl, hrest⟩ := ih hv hplace hthere
      exact ⟨rfl, fun u hu => .refused (by rwa [hthere hu]) (hasked u hu) (hrest u hu)⟩

/-- What a scan by pure guards finds is a transition of the machine. -/
theorem PureGuards.owns_of_scan (hguards : h.PureGuards m symbols) {s : StateId} {x : ξ}
    (hx : x ∈ symbols) {i j : Nat} {v v' : ω} (hv : h.machine v = m)
    {ts : List (Transition γ α)} {t : Transition γ α}
    (scan : Scan (h.transitionsOf s) h.test x i v ts (.ok (some (j, t))) v') : m.Owns t := by
  generalize hr : Except.ok (some (j, t)) = r at scan
  induction scan with
  | exhausted | failed => cases hr
  | accepted here =>
      cases hr
      exact hv ▸ owns_of_getElem? here
  | refused here asked _ ih =>
      have howns : m.Owns _ := hv ▸ owns_of_getElem? here
      obtain ⟨rfl, -⟩ := hguards.test_transfer howns hx hv asked
      exact ih hv hr

/-- There is always a scan. -/
theorem PureGuards.exists_scan (hguards : h.PureGuards m symbols) {s : StateId}
    {state : State γ α} (hs : m.state? s.toInt = some state) {x : ξ} (hx : x ∈ symbols) {v : ω}
    (hv : h.machine v = m) :
    ∃ ts r, Scan (h.transitionsOf s) h.test x 0 v ts r v := by
  obtain ⟨r, -, hmatch⟩ := hguards.exists_match hs hx 0
  have hfound := hmatch (state.transitions.length + 1) v (by omega) hv
  obtain ⟨ts, r', scan, -⟩ := exists_scan_of_firstMatch hfound (Effect.mapError_ne_stalled r)
  exact ⟨ts, r', scan⟩

/-! ## Handling a symbol -/

/-- A symbol of a list is handled by a scan in the world at hand, and that changes nothing. -/
theorem Handles.of_pureGuards (hguards : h.PureGuards m symbols) {c : Config ω (List ξ)}
    (hc : h.machine c.world = m) (hsymbols : c.source ⊆ symbols) {x : ξ} {rest : List ξ}
    {ts : List (Transition γ α)} {r : Except Fault (Option (Nat × Transition γ α))} {w : ω}
    (handled : h.Handles .ofList setting c x rest ts r w) :
    c.source = x :: rest ∧ x ∈ symbols ∧ w = c.world ∧
      (∀ j t, r = .ok (some (j, t)) → m.Owns t) ∧
      ∀ {setting' : Setting ω} {d : Config ω (List ξ)}, setting'.count = setting.count →
        d.state = c.state → d.source = c.source → h.machine d.world = m →
        h.Handles .ofList setting' d x rest ts r d.world := by
  obtain ⟨given, states, found, scan⟩ := handled
  obtain ⟨hsource, rfl⟩ := Source.ofList_eq_some_iff.mp given
  have hx : x ∈ symbols := hsymbols (hsource ▸ List.mem_cons_self ..)
  obtain ⟨rfl, hscan⟩ := hguards.scan_transfer hx hc scan
  refine ⟨hsource, hx, rfl, ?_, ?_⟩
  · rintro j t rfl
    exact hguards.owns_of_scan hx hc scan
  · intro setting' d hcount hstate hsource' hd
    rw [← hstate, hc, ← hd] at found
    rw [← hstate] at hscan
    exact .intro (Source.ofList_eq_some_iff.mpr ⟨hsource'.trans hsource, rfl⟩) (by rwa [hcount])
      found (hscan d.world hd)

/-! ## Runs that end -/

/-- **A run over a list comes to an end**, from wherever it stands: the guards answer or raise,
the actions return or raise, and each symbol is read once. -/
theorem exists_course (hguards : h.PureGuards m symbols) (hactions : h.TameActions m symbols)
    (hnotes : h.SafeNotes m) (setting : Setting ω) {xs : List ξ} (hxs : xs ⊆ symbols)
    (s : StateId) (p : Nat) {v : ω} (hv : h.machine v = m) :
    ∃ ps c e w, h.Trail .ofList setting ⟨s, p, xs, v⟩ ps c ∧ h.Exits .ofList setting c e w := by
  induction xs generalizing s p v with
  | nil => exact ⟨[], _, .usedUp, v, .nil _, .usedUp rfl⟩
  | cons x xs ih =>
      have hx : x ∈ symbols := hxs (List.mem_cons_self ..)
      have hrest : xs ⊆ symbols := fun y hy => hxs (List.mem_cons_of_mem x hy)
      by_cases states : setting.count = 0
      · exact ⟨[], _, .noStates, v, .nil _, .noStates rfl states⟩
      cases found : m.state? s.toInt with
      | none => exact ⟨[], _, .lost, v, .nil _, .lost rfl states (by rwa [hv])⟩
      | some state =>
          obtain ⟨ts, r, scan⟩ := hguards.exists_scan found hx hv
          have handled : h.Handles .ofList setting ⟨s, p, x :: xs, v⟩ x xs ts r v :=
            .intro rfl states (by rwa [hv]) scan
          -- What follows is by what the scan found, what its action did, and its target.
          rcases r with f | _ | ⟨i, t⟩
          · exact ⟨[], _, .guardFailed x f, v, .nil _, .guardFailed handled⟩
          · obtain ⟨w, noted, -⟩ := hnotes.remark setting (.rejected s x p) hv
            exact ⟨[], _, .rejected x, w, .nil _, .rejected handled noted⟩
          have howns := hguards.owns_of_scan hx hv scan
          rcases performed : h.performDue x (due setting t v) v with ⟨(f | _) | ⟨⟩, v₁⟩
          · exact ⟨[], _, .actionFailed x i t f, v₁, .nil _, .actionFailed handled performed⟩
          · exact absurd rfl (hactions.of_performDue howns hx hv performed).1
          have hv₁ := (hactions.of_performDue howns hx hv performed).2
          by_cases known : setting.Knows t.target
          · obtain ⟨v₂, noted, hv₂⟩ := hnotes.remark setting (.moved s t.target x p) hv₁
            obtain ⟨ps, c, e, w, trail, exits⟩ := ih hrest t.target (p + 1) hv₂
            exact ⟨_ :: ps, c, e, w, .cons (.intro handled performed known noted) trail, exits⟩
          · obtain ⟨w, noted, -⟩ := hnotes (.unknownTarget i s t.target) v₁ hv₁
            exact ⟨[], _, .unknownTarget x i t (due setting t v), w, .nil _,
              .unknownTarget handled performed known noted⟩

/-! ## A recorder that may refuse -/

/-- The recorder with room for one symbol: another that is to be written raises. -/
def narrowRecorder : Host (Machine (Nat → Except Fault Bool) Unit × List Nat)
    (Nat → Except Fault Bool) Unit Nat :=
  { recorder with
    perform := fun _ x w =>
      if w.2 = [] then (.ok (), (w.1, [x])) else (.error (.fault .outOfRange), w) }

theorem narrowRecorder_tameActions (m : Machine (Nat → Except Fault Bool) Unit)
    (symbols : List Nat) : narrowRecorder.TameActions m symbols := by
  intro _ _ _ _ x _ v hv
  change (if v.2 = [] then _ else _ : Except Stop Unit × _).1 ≠ _ ∧
    (if v.2 = [] then _ else _ : _ × (Machine (Nat → Except Fault Bool) Unit × List Nat)).2.1 = m
  split <;> exact ⟨nofun, hv⟩

/-- A transition on one symbol, which is written. -/
def turn (symbol : Nat) (target : Int) : Transition (Nat → Except Fault Bool) Unit :=
  ⟨.number target, fun x => .ok (x == symbol), some ()⟩

/-- A machine that goes back and forth, and writes each symbol. -/
def turningMachine : Machine (Nat → Except Fault Bool) Unit :=
  ⟨[⟨.int 0, .bool false, [turn 1 1]⟩, ⟨.int 1, .bool true, [turn 2 0]⟩]⟩

end Host

end SymbolMachine
