/-
The course of a run: what a run does, told without fuel.

The loops of a run take fuel because callbacks may keep them going for ever. Here the same
run is a path. A run stands somewhere (`Config`), a symbol moves it on (`Move`) or makes it
end (`Exits`), and a run that ends is a `Trail` of moves with an exit behind it. The main
statement, `endsWith_iff`, says that these are exactly the runs that answer with enough fuel,
so a property of runs is proved by an induction over trails and a look at one exit. A trail
also says what the answer alone does not: which transitions were taken and which actions were
performed, in order.

Notes are taken to be harmless: a note never fails (`LogsSafely`).
-/
import SymbolMachine.Proofs.Machine.Equations

set_option autoImplicit false

namespace SymbolMachine

variable {ω γ α ξ ν : Type}

/-! ## Scanning

The transitions are a function of the world and are read anew for each place, so a guard that
changes them is seen by the rest of the scan. -/

/-- A scan from a place in a world: the transitions that are asked, the answer or the fault of
the last guard, and the world that is left. -/
inductive Scan (transitions : ω → List (Transition γ α)) (test : γ → ξ → Effect ω Bool) (x : ξ) :
    Nat → ω → List (Transition γ α) → Except Fault (Option (Nat × Transition γ α)) → ω → Prop
  | exhausted {i : Nat} {w : ω} (here : (transitions w)[i]? = none) :
      Scan transitions test x i w [] (.ok none) w
  | accepted {i : Nat} {w w' : ω} {t : Transition γ α} (here : (transitions w)[i]? = some t)
      (asked : test t.guard x w = (.ok true, w')) :
      Scan transitions test x i w [t] (.ok (some (i, t))) w'
  | failed {i : Nat} {w w' : ω} {t : Transition γ α} {f : Fault}
      (here : (transitions w)[i]? = some t)
      (asked : test t.guard x w = (.error (.fault f), w')) :
      Scan transitions test x i w [t] (.error f) w'
  | refused {i : Nat} {w w₁ w' : ω} {t : Transition γ α} {ts : List (Transition γ α)}
      {r : Except Fault (Option (Nat × Transition γ α))}
      (here : (transitions w)[i]? = some t) (asked : test t.guard x w = (.ok false, w₁))
      (rest : Scan transitions test x (i + 1) w₁ ts r w') :
      Scan transitions test x i w (t :: ts) r w'

section Scan

variable {transitions : ω → List (Transition γ α)} {test : γ → ξ → Effect ω Bool} {x : ξ}

/-- A search that is not stalled is a scan. -/
theorem exists_scan_of_firstMatch {fuel i : Nat} {w w' : ω}
    {r : Except Stop (Option (Nat × Transition γ α))}
    (hr : firstMatch transitions test x fuel i w = (r, w')) (hs : r ≠ .error .stalled) :
    ∃ ts r', Scan transitions test x i w ts r' w' ∧ r = r'.mapError .fault := by
  induction fuel generalizing i w with
  | zero =>
      cases hr
      exact absurd rfl hs
  | succ fuel ih =>
      -- The place is empty, or its guard fails, stalls, refuses or accepts.
      rw [firstMatch_succ] at hr
      cases ht : (transitions w)[i]? with
      | none =>
          rw [ht] at hr
          cases hr
          exact ⟨[], .ok none, .exhausted ht, rfl⟩
      | some t =>
          rw [ht] at hr
          simp only at hr
          rcases ha : test t.guard x w with ⟨(f | _) | _ | _, w₁⟩ <;> rw [ha] at hr
          · cases hr
            exact ⟨[t], .error f, .failed ht ha, rfl⟩
          · cases hr
            exact absurd rfl hs
          · obtain ⟨ts, r', hscan, he⟩ := ih hr
            exact ⟨t :: ts, r', .refused ht ha hscan, he⟩
          · cases hr
            exact ⟨[t], .ok (some (i, t)), .accepted ht ha, rfl⟩

/-- With fuel for one place more than it asks, a search does what the scan says. -/
theorem Scan.firstMatch_eq {i : Nat} {w w' : ω} {ts : List (Transition γ α)}
    {r : Except Fault (Option (Nat × Transition γ α))}
    (hscan : Scan transitions test x i w ts r w') {fuel : Nat} (hf : ts.length < fuel) :
    firstMatch transitions test x fuel i w = (r.mapError .fault, w') := by
  induction hscan generalizing fuel with
  | exhausted here =>
      obtain ⟨fuel, rfl⟩ := Nat.exists_eq_succ_of_ne_zero (Nat.ne_of_gt hf)
      rw [firstMatch_succ, here]
      rfl
  | accepted here asked =>
      obtain ⟨fuel, rfl⟩ := Nat.exists_eq_succ_of_ne_zero (by omega : fuel ≠ 0)
      rw [firstMatch_succ, here]
      simp only [asked]
      rfl
  | failed here asked =>
      obtain ⟨fuel, rfl⟩ := Nat.exists_eq_succ_of_ne_zero (by omega : fuel ≠ 0)
      rw [firstMatch_succ, here]
      simp only [asked]
      rfl
  | refused here asked _ ih =>
      obtain ⟨fuel, rfl⟩ := Nat.exists_eq_succ_of_ne_zero (by omega : fuel ≠ 0)
      rw [firstMatch_succ, here]
      simp only [asked]
      exact ih (by simpa using hf)

end Scan

namespace Host

variable (h : Host ω γ α ξ)

/-! ## Moves and exits -/

/-- Where a run stands before it asks for a symbol. -/
structure Config (ω ν : Type) where
  state : StateId
  position : Nat
  source : ν
  world : ω

/-- Where a run starts. -/
def Config.start (source : ν) (w : ω) : Config ω ν := ⟨.start, 1, source, w⟩

/-- What a run did with a symbol that moved it on. -/
structure Passage (γ α ξ : Type) where
  state : StateId
  position : Nat
  symbol : ξ
  index : Nat
  transition : Transition γ α
  performed : Option α

/-- Why a run ends. -/
inductive Exit (γ α ξ : Type)
  /-- There are no more symbols. -/
  | usedUp
  | sourceFailed (f : Fault)
  | noStates
  /-- The current state is not in the machine. -/
  | lost
  | guardFailed (symbol : ξ) (f : Fault)
  | rejected (symbol : ξ)
  | actionFailed (symbol : ξ) (index : Nat) (transition : Transition γ α) (f : Fault)
  | unknownTarget (symbol : ξ) (index : Nat) (transition : Transition γ α)
      (performed : Option α)

/-- What a run answers that ends somewhere for some reason, given the number of states that
it knows. -/
def Exit.result (count : Nat) (c : Config ω ν) :
    Exit γ α ξ → Except Fault (Outcome StateId ξ Nat)
  | usedUp => .ok (.success c.state)
  | sourceFailed f | guardFailed _ f | actionFailed _ _ _ f => .error f
  | noStates => .error .noStates
  | lost => .error .outOfRange
  | rejected x => .ok (.failure c.state x c.position c.state)
  | unknownTarget _ i t _ =>
    .error (.invalidTarget c.state.toValue (.int i) t.target.toValue (.int c.position)
      (.int count))

/-- What follows a scan: the fault of a guard goes on, a rejected symbol is noted, and a
transition is taken. -/
def afterScan (setting : Setting ω) (s : StateId) (p : Nat) (x : ξ) :
    Except Fault (Option (Nat × Transition γ α)) → Effect ω (Option StateId)
  | .error f => Effect.raise f
  | .ok none => do
    h.remark setting (.rejected s x p)
    pure none
  | .ok (some (i, t)) => some <$> h.take setting s p x i t

/-- In a machine that has the current state, handling a symbol is the scan of that state and
what follows it. -/
theorem step_apply_of_found {setting : Setting ω} (states : setting.count ≠ 0)
    {s : StateId} {state : State γ α} {w : ω}
    (found : (h.machine w).state? s.toInt = some state) (fuel p : Nat) (x : ξ) :
    h.step setting fuel s p x w =
      (firstMatch (h.transitionsOf s) h.test x fuel 0 >>= fun r =>
        h.afterScan setting s p x (.ok r)) w := by
  rw [step_apply, if_neg states, found, Effect.bind_apply]
  rcases firstMatch (h.transitionsOf s) h.test x fuel 0 w with ⟨_ | _ | ⟨i, t⟩, w₁⟩ <;> rfl

variable (next : Source ω ν ξ) (setting : Setting ω)

/-- The run asks for a symbol, gets one, finds its state and scans the transitions. -/
inductive Handles : Config ω ν → ξ → ν → List (Transition γ α) →
    Except Fault (Option (Nat × Transition γ α)) → ω → Prop
  | intro {c : Config ω ν} {x : ξ} {rest : ν} {w₁ w₂ : ω} {state : State γ α}
      {ts : List (Transition γ α)} {r : Except Fault (Option (Nat × Transition γ α))}
      (given : next c.source c.world = (.ok (some (x, rest)), w₁)) (states : setting.count ≠ 0)
      (found : (h.machine w₁).state? c.state.toInt = some state)
      (scan : Scan (h.transitionsOf c.state) h.test x 0 w₁ ts r w₂) :
      Handles c x rest ts r w₂

/-- A symbol moves the run on. -/
inductive Move : Config ω ν → Passage γ α ξ → Config ω ν → Prop
  | intro {c : Config ω ν} {x : ξ} {rest : ν} {ts : List (Transition γ α)} {i : Nat}
      {t : Transition γ α} {w₂ w₃ w₄ : ω}
      (handled : h.Handles next setting c x rest ts (.ok (some (i, t))) w₂)
      (performed : h.performDue x (due setting t w₂) w₂ = (.ok (), w₃))
      (known : setting.Knows t.target)
      (noted : h.remark setting (.moved c.state t.target x c.position) w₃ = (.ok (), w₄)) :
      Move c ⟨c.state, c.position, x, i, t, due setting t w₂⟩
        ⟨t.target, c.position + 1, rest, w₄⟩

/-- The run ends where it stands, or at the symbol that it gets there. -/
inductive Exits : Config ω ν → Exit γ α ξ → ω → Prop
  | usedUp {c : Config ω ν} {w : ω} (given : next c.source c.world = (.ok none, w)) :
      Exits c .usedUp w
  | sourceFailed {c : Config ω ν} {f : Fault} {w : ω}
      (given : next c.source c.world = (.error (.fault f), w)) : Exits c (.sourceFailed f) w
  | noStates {c : Config ω ν} {x : ξ} {rest : ν} {w : ω}
      (given : next c.source c.world = (.ok (some (x, rest)), w))
      (states : setting.count = 0) : Exits c .noStates w
  | lost {c : Config ω ν} {x : ξ} {rest : ν} {w : ω}
      (given : next c.source c.world = (.ok (some (x, rest)), w)) (states : setting.count ≠ 0)
      (missing : (h.machine w).state? c.state.toInt = none) : Exits c .lost w
  | guardFailed {c : Config ω ν} {x : ξ} {rest : ν} {ts : List (Transition γ α)} {f : Fault}
      {w : ω} (handled : h.Handles next setting c x rest ts (.error f) w) :
      Exits c (.guardFailed x f) w
  | rejected {c : Config ω ν} {x : ξ} {rest : ν} {ts : List (Transition γ α)} {w₂ w : ω}
      (handled : h.Handles next setting c x rest ts (.ok none) w₂)
      (noted : h.remark setting (.rejected c.state x c.position) w₂ = (.ok (), w)) :
      Exits c (.rejected x) w
  | actionFailed {c : Config ω ν} {x : ξ} {rest : ν} {ts : List (Transition γ α)} {i : Nat}
      {t : Transition γ α} {f : Fault} {w₂ w : ω}
      (handled : h.Handles next setting c x rest ts (.ok (some (i, t))) w₂)
      (performed : h.performDue x (due setting t w₂) w₂ = (.error (.fault f), w)) :
      Exits c (.actionFailed x i t f) w
  | unknownTarget {c : Config ω ν} {x : ξ} {rest : ν} {ts : List (Transition γ α)} {i : Nat}
      {t : Transition γ α} {w₂ w₃ w : ω}
      (handled : h.Handles next setting c x rest ts (.ok (some (i, t))) w₂)
      (performed : h.performDue x (due setting t w₂) w₂ = (.ok (), w₃))
      (unknown : ¬setting.Knows t.target)
      (noted : h.record (.unknownTarget i c.state t.target) w₃ = (.ok (), w)) :
      Exits c (.unknownTarget x i t (due setting t w₂)) w

/-- Some moves, one after another. -/
inductive Trail : Config ω ν → List (Passage γ α ξ) → Config ω ν → Prop
  | nil (c : Config ω ν) : Trail c [] c
  | cons {c c₁ c₂ : Config ω ν} {p : Passage γ α ξ} {ps : List (Passage γ α ξ)}
      (move : h.Move next setting c p c₁) (rest : Trail c₁ ps c₂) : Trail c (p :: ps) c₂

/-- What every move preserves holds at the end of a trail. -/
theorem Trail.invariant {h : Host ω γ α ξ} {next : Source ω ν ξ} {setting : Setting ω}
    {I : Config ω ν → Prop}
    (step : ∀ {c p c'}, I c → h.Move next setting c p c' → I c') {c c' : Config ω ν}
    {ps : List (Passage γ α ξ)} (ht : h.Trail next setting c ps c') (hc : I c) : I c' := by
  induction ht with
  | nil => exact hc
  | cons move _ ih => exact ih (step hc move)

/-- A run that starts in a state that it knows never leaves those. -/
theorem Trail.knows {h : Host ω γ α ξ} {next : Source ω ν ξ} {setting : Setting ω}
    {c c' : Config ω ν} {ps : List (Passage γ α ξ)} (ht : h.Trail next setting c ps c')
    (hc : setting.Knows c.state) : setting.Knows c'.state := by
  refine ht.invariant (I := fun c => setting.Knows c.state) (fun _ move => ?_) hc
  obtain ⟨_, _, known, _⟩ := move
  exact known

/-- A position counts the symbols that moved the run on. -/
theorem Trail.position_eq {h : Host ω γ α ξ} {next : Source ω ν ξ} {setting : Setting ω}
    {c c' : Config ω ν} {ps : List (Passage γ α ξ)} (ht : h.Trail next setting c ps c') :
    c'.position = c.position + ps.length := by
  induction ht with
  | nil => rfl
  | cons move _ ih =>
      obtain ⟨_, _, _, _⟩ := move
      rw [ih, List.length_cons]
      simp only
      omega

/-! ## Runs that end -/

/-- No note fails. -/
def LogsSafely : Prop := ∀ note w, (h.record note w).1 = .ok ()

/-- With enough fuel the run ends like this, and leaves this world. -/
def EndsWith (actions : ω → Bool) (source : ν) (w : ω)
    (r : Except Fault (Outcome StateId ξ Nat)) (w' : ω) : Prop :=
  ∃ n, ∀ fuel ≥ n, h.run next fuel actions source w = (r.mapError .fault, w')

section EndsWith

variable {h next setting}

theorem LogsSafely.record (hlog : h.LogsSafely) (note : Note ξ) (w : ω) :
    ∃ w', h.record note w = (.ok (), w') :=
  ⟨(h.record note w).2, Prod.ext (hlog note w) rfl⟩

theorem LogsSafely.remark (hlog : h.LogsSafely) (setting : Setting ω) (note : Note ξ) (w : ω) :
    ∃ w', h.remark setting note w = (.ok (), w') := by
  unfold Host.remark
  split
  · exact hlog.record note w
  · exact ⟨w, rfl⟩

/-- What handling a symbol answers, and what that says of the run: it moves on, or it ends. -/
inductive Leads (h : Host ω γ α ξ) (next : Source ω ν ξ) (setting : Setting ω) (c : Config ω ν)
    (x : ξ) (rest : ν) : Except Stop (Option StateId) → ω → Prop
  | moved {p : Passage γ α ξ} {target : StateId} {w : ω}
      (move : h.Move next setting c p ⟨target, c.position + 1, rest, w⟩) :
      Leads h next setting c x rest (.ok (some target)) w
  | rejected {w : ω} (exits : h.Exits next setting c (.rejected x) w) :
      Leads h next setting c x rest (.ok none) w
  | failed {f : Fault} {e : Exit γ α ξ} {w : ω} (exits : h.Exits next setting c e w)
      (result : e.result setting.count c = .error f) :
      Leads h next setting c x rest (.error (.fault f)) w

/-- What follows a scan moves the run on or makes it end. -/
theorem Handles.leads (hlog : h.LogsSafely) {c : Config ω ν} {x : ξ} {rest : ν}
    {ts : List (Transition γ α)} {m : Except Fault (Option (Nat × Transition γ α))} {w w' : ω}
    (handled : h.Handles next setting c x rest ts m w) {r : Except Stop (Option StateId)}
    (hr : h.afterScan setting c.state c.position x m w = (r, w')) (hs : r ≠ .error .stalled) :
    h.Leads next setting c x rest r w' := by
  rcases m with f | _ | ⟨i, t⟩
  · cases hr
    exact .failed (.guardFailed handled) rfl
  · obtain ⟨w₁, noted⟩ := hlog.remark setting (.rejected c.state x c.position) w
    rw [afterScan, Effect.bind_apply_of_ok w noted] at hr
    cases hr
    exact .rejected (.rejected handled noted)
  rw [afterScan, Effect.map_apply, take_apply] at hr
  rcases performed : h.performDue x (due setting t w) w with ⟨(f | _) | ⟨⟩, w₁⟩
  · rw [Effect.bind_apply_of_error w performed] at hr
    cases hr
    exact .failed (.actionFailed handled performed) rfl
  · rw [Effect.bind_apply_of_error w performed] at hr
    cases hr
    exact absurd rfl hs
  rw [Effect.bind_apply_of_ok w performed] at hr
  by_cases known : setting.Knows t.target
  · obtain ⟨w₂, noted⟩ := hlog.remark setting (.moved c.state t.target x c.position) w₁
    rw [arrive_of_knows h known noted] at hr
    cases hr
    exact .moved (.intro handled performed known noted)
  · obtain ⟨w₂, noted⟩ := hlog.record (.unknownTarget i c.state t.target) w₁
    rw [arrive_of_not_knows h known noted] at hr
    cases hr
    exact .failed (.unknownTarget handled performed known noted) rfl

/-- Handling a symbol moves the run on or makes it end. -/
theorem leads_of_step (hlog : h.LogsSafely) {c : Config ω ν} {x : ξ} {rest : ν} {w₁ : ω}
    (given : next c.source c.world = (.ok (some (x, rest)), w₁)) {fuel : Nat}
    {r : Except Stop (Option StateId)} {w₂ : ω}
    (hr : h.step setting fuel c.state c.position x w₁ = (r, w₂)) (hs : r ≠ .error .stalled) :
    h.Leads next setting c x rest r w₂ := by
  rw [step_apply] at hr
  by_cases states : setting.count = 0
  · rw [if_pos states] at hr
    cases hr
    exact .failed (.noStates given states) rfl
  rw [if_neg states] at hr
  cases found : (h.machine w₁).state? c.state.toInt with
  | none =>
      rw [found] at hr
      cases hr
      exact .failed (.lost given states found) rfl
  | some state =>
      rw [found] at hr
      simp only at hr
      rcases hm : firstMatch (h.transitionsOf c.state) h.test x fuel 0 w₁ with ⟨m, w₃⟩
      rw [hm] at hr
      have hstall : m ≠ .error .stalled := by
        rintro rfl
        cases hr
        exact hs rfl
      obtain ⟨ts, m, scan, rfl⟩ := exists_scan_of_firstMatch hm hstall
      have handled : h.Handles next setting c x rest ts m w₃ := .intro given states found scan
      refine handled.leads hlog ?_ hs
      rw [← hr]
      rcases m with f | _ | ⟨i, t⟩ <;> rfl

/-- A run that is not stalled is a trail with an exit behind it. -/
theorem exists_trail_of_drive (hlog : h.LogsSafely) {fuel : Nat} {c : Config ω ν}
    {r : Except Stop (Outcome StateId ξ Nat)} {w' : ω}
    (hr : h.drive next setting fuel c.state c.position c.source c.world = (r, w'))
    (hs : r ≠ .error .stalled) :
    ∃ ps c' e, h.Trail next setting c ps c' ∧ h.Exits next setting c' e w' ∧
      r = (e.result setting.count c').mapError .fault := by
  induction fuel generalizing c with
  | zero =>
      cases hr
      exact absurd rfl hs
  | succ fuel ih =>
      rw [drive_succ] at hr
      rcases given : next c.source c.world with ⟨(f | _) | _ | ⟨x, rest⟩, w₁⟩ <;>
        rw [given] at hr
      · cases hr
        exact ⟨[], c, .sourceFailed f, .nil c, .sourceFailed given, rfl⟩
      · cases hr
        exact absurd rfl hs
      · cases hr
        exact ⟨[], c, .usedUp, .nil c, .usedUp given, rfl⟩
      · simp only at hr
        rcases hstep : h.step setting fuel c.state c.position x w₁ with ⟨m, w₂⟩
        rw [hstep] at hr
        have hstall : m ≠ .error .stalled := by
          rintro rfl
          cases hr
          exact hs rfl
        cases leads_of_step hlog given hstep hstall with
        | moved move =>
            obtain ⟨ps, c', e, trail, exits, he⟩ := ih (c := ⟨_, c.position + 1, rest, w₂⟩) hr
            exact ⟨_ :: ps, c', e, .cons move trail, exits, he⟩
        | rejected exits =>
            cases hr
            exact ⟨[], c, .rejected x, .nil c, exits, rfl⟩
        | failed exits result =>
            cases hr
            exact ⟨[], c, _, .nil c, exits, by rw [result]; rfl⟩

/-- With enough fuel, driving over a symbol does what follows the scan, and goes on from
there. -/
theorem Handles.drive_eq {c : Config ω ν} {x : ξ} {rest : ν} {ts : List (Transition γ α)}
    {m : Except Fault (Option (Nat × Transition γ α))} {w : ω}
    (handled : h.Handles next setting c x rest ts m w) :
    ∃ n, ∀ fuel ≥ n,
      h.drive next setting (fuel + 1) c.state c.position c.source c.world =
        match h.afterScan setting c.state c.position x m w with
        | (.error s, w') => (.error s, w')
        | (.ok none, w') => (.ok (.failure c.state x c.position c.state), w')
        | (.ok (some target), w') => h.drive next setting fuel target (c.position + 1) rest w' := by
  obtain ⟨given, states, found, scan⟩ := handled
  refine ⟨ts.length + 1, fun fuel hf => ?_⟩
  rw [drive_succ, given]
  simp only [step_apply, if_neg states, found, scan.firstMatch_eq hf]
  rcases m with f | _ | ⟨i, t⟩ <;> rfl

/-- With enough fuel, driving from before a move is driving from behind it. -/
theorem Move.drive_eq {c c' : Config ω ν} {p : Passage γ α ξ}
    (move : h.Move next setting c p c') :
    ∃ n, ∀ fuel ≥ n,
      h.drive next setting (fuel + 1) c.state c.position c.source c.world =
        h.drive next setting fuel c'.state c'.position c'.source c'.world := by
  obtain ⟨handled, performed, known, noted⟩ := move
  obtain ⟨n, hdrive⟩ := handled.drive_eq
  refine ⟨n, fun fuel hf => ?_⟩
  rw [hdrive fuel hf, afterScan, Effect.map_apply, take_apply,
    Effect.bind_apply_of_ok _ performed, arrive_of_knows h known noted]
  rfl

/-- With enough fuel, driving from where a run ends gives its result. -/
theorem Exits.drive_eq {c : Config ω ν} {e : Exit γ α ξ} {w : ω}
    (exits : h.Exits next setting c e w) :
    ∃ n, ∀ fuel ≥ n,
      h.drive next setting fuel c.state c.position c.source c.world =
        ((e.result setting.count c).mapError .fault, w) := by
  -- One unit of fuel is for the symbol itself, the others are for the scan.
  suffices hsucc : ∃ n, ∀ fuel ≥ n,
      h.drive next setting (fuel + 1) c.state c.position c.source c.world =
        ((e.result setting.count c).mapError .fault, w) by
    obtain ⟨n, hn⟩ := hsucc
    refine ⟨n + 1, fun fuel hf => ?_⟩
    obtain ⟨fuel, rfl⟩ := Nat.exists_eq_succ_of_ne_zero (by omega : fuel ≠ 0)
    exact hn fuel (by omega)
  cases exits with
  | usedUp given =>
      refine ⟨0, fun fuel _ => ?_⟩
      rw [drive_succ, given]
      rfl
  | sourceFailed given =>
      refine ⟨0, fun fuel _ => ?_⟩
      rw [drive_succ, given]
      rfl
  | noStates given states =>
      refine ⟨0, fun fuel _ => ?_⟩
      rw [drive_succ, given]
      simp only [step_apply, if_pos states]
      rfl
  | lost given states missing =>
      refine ⟨0, fun fuel _ => ?_⟩
      rw [drive_succ, given]
      simp only [step_apply, if_neg states, missing]
      rfl
  | guardFailed handled =>
      obtain ⟨n, hdrive⟩ := handled.drive_eq
      exact ⟨n, hdrive⟩
  | rejected handled noted =>
      obtain ⟨n, hdrive⟩ := handled.drive_eq
      refine ⟨n, fun fuel hf => ?_⟩
      rw [hdrive fuel hf, afterScan, Effect.bind_apply_of_ok _ noted]
      rfl
  | actionFailed handled performed =>
      obtain ⟨n, hdrive⟩ := handled.drive_eq
      refine ⟨n, fun fuel hf => ?_⟩
      rw [hdrive fuel hf, afterScan, Effect.map_apply, take_apply,
        Effect.bind_apply_of_error _ performed]
      rfl
  | unknownTarget handled performed unknown noted =>
      obtain ⟨n, hdrive⟩ := handled.drive_eq
      refine ⟨n, fun fuel hf => ?_⟩
      rw [hdrive fuel hf, afterScan, Effect.map_apply, take_apply,
        Effect.bind_apply_of_ok _ performed, arrive_of_not_knows h unknown noted]
      rfl

/-- With enough fuel, driving from before a trail is driving from behind it. -/
theorem Trail.drive_eq {c c' : Config ω ν} {ps : List (Passage γ α ξ)}
    (trail : h.Trail next setting c ps c') :
    ∃ n, ∀ fuel ≥ n,
      h.drive next setting (fuel + ps.length) c.state c.position c.source c.world =
        h.drive next setting fuel c'.state c'.position c'.source c'.world := by
  induction trail with
  | nil => exact ⟨0, fun _ _ => rfl⟩
  | @cons c c₁ c₂ p ps move _ ih =>
      -- The fuel has to be enough for the scan of the first move and for those of the others.
      obtain ⟨n, hn⟩ := ih
      obtain ⟨k, hk⟩ := move.drive_eq
      refine ⟨max n k, fun fuel hf => ?_⟩
      have hlength : fuel + (p :: ps).length = fuel + ps.length + 1 := by
        rw [List.length_cons]
        omega
      rw [hlength, hk (fuel + ps.length) (by omega)]
      exact hn fuel (by omega)

/-- With enough fuel, a trail with an exit behind it is what a run does. -/
theorem Trail.drive_eq_of_exits {c c' : Config ω ν} {ps : List (Passage γ α ξ)}
    {e : Exit γ α ξ} {w : ω} (trail : h.Trail next setting c ps c')
    (exits : h.Exits next setting c' e w) :
    ∃ n, ∀ fuel ≥ n,
      h.drive next setting fuel c.state c.position c.source c.world =
        ((e.result setting.count c').mapError .fault, w) := by
  obtain ⟨n, hn⟩ := trail.drive_eq
  obtain ⟨k, hk⟩ := exits.drive_eq
  refine ⟨max n k + ps.length, fun fuel hf => ?_⟩
  obtain ⟨rest, rfl⟩ := Nat.exists_eq_add_of_le' (by omega : ps.length ≤ fuel)
  rw [hn rest (by omega)]
  exact hk rest (by omega)

/-- A run that has come to the end of a trail goes on from there. -/
theorem EndsWith.exists_rest (hlog : h.LogsSafely) {actions : ω → Bool} {source : ν} {w w' : ω}
    {r : Except Fault (Outcome StateId ξ Nat)} (hr : h.EndsWith next actions source w r w')
    {ps : List (Passage γ α ξ)} {c : Config ω ν}
    (trail : h.Trail next (h.settingAt actions w) (.start source w) ps c) :
    ∃ ps' c' e, h.Trail next (h.settingAt actions w) c ps' c' ∧
      h.Exits next (h.settingAt actions w) c' e w' ∧
      r = e.result (h.settingAt actions w).count c' := by
  -- Enough fuel for the run and for the trail: then both are the same drive.
  obtain ⟨n, hn⟩ := hr
  obtain ⟨k, hk⟩ := trail.drive_eq
  have hdrive := hn (max n k + ps.length) (by omega)
  rw [run_apply] at hdrive
  have hrest := (hk (max n k) (by omega)).symm.trans hdrive
  obtain ⟨ps', c', e, trail', exits, he⟩ :=
    exists_trail_of_drive hlog hrest (Effect.mapError_ne_stalled r)
  exact ⟨ps', c', e, trail', exits, Effect.mapError_fault_injective he⟩

/-- **A run that ends is a trail with an exit behind it.** In particular it ends in one way
only, and more fuel does not change how. -/
theorem endsWith_iff (hlog : h.LogsSafely) {actions : ω → Bool} {source : ν} {w w' : ω}
    {r : Except Fault (Outcome StateId ξ Nat)} :
    h.EndsWith next actions source w r w' ↔
      ∃ ps c e, h.Trail next (h.settingAt actions w) (.start source w) ps c ∧
        h.Exits next (h.settingAt actions w) c e w' ∧
        r = e.result (h.settingAt actions w).count c := by
  constructor
  · intro hr
    obtain ⟨ps, c, e, trail, exits, he⟩ := hr.exists_rest hlog (.nil _)
    exact ⟨ps, c, e, trail, exits, he⟩
  · rintro ⟨ps, c, e, trail, exits, rfl⟩
    exact trail.drive_eq_of_exits exits

/-- A run that is not stalled has had enough fuel. -/
theorem endsWith_of_run (hlog : h.LogsSafely) {actions : ω → Bool} {source : ν} {w w' : ω}
    {fuel : Nat} {r : Except Fault (Outcome StateId ξ Nat)}
    (hr : h.run next fuel actions source w = (r.mapError .fault, w')) :
    h.EndsWith next actions source w r w' := by
  rw [run_apply] at hr
  obtain ⟨ps, c, e, trail, exits, he⟩ :=
    exists_trail_of_drive hlog (c := .start source w) hr (Effect.mapError_ne_stalled r)
  rw [he] at hr
  obtain ⟨n, hn⟩ := trail.drive_eq_of_exits exits
  refine ⟨n, fun fuel hf => ?_⟩
  rw [he]
  exact hn fuel hf

end EndsWith

end Host

end SymbolMachine
