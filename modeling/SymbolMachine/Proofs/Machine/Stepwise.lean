/-
A run, told from its far end.

The loop of a run goes from the first symbol on. Here the last symbol is split off instead:
what a run says about `xs ++ [y]` is what it says about `xs` and, where that is a success,
what the scan of the state reached says about `y`. The first half needs no assumption at all
(`drive_append`): it holds with any callbacks and any amount of fuel.

The second half is about machines whose guards are pure and whose actions do their work
elsewhere. Then the answer of a run is settled by the machine and the symbols, whatever else
is in the world and whether or not actions are wanted, and it always comes.
-/
import SymbolMachine.Proofs.Machine.Growth
import SymbolMachine.Proofs.Machine.Equations

set_option autoImplicit false

namespace SymbolMachine

variable {ω γ α ξ : Type}

namespace Host

variable (h : Host ω γ α ξ)

/-! ## One run after another -/

/-- **Driving through `xs ++ ys` is driving through `xs`, and then through `ys`** from where
that succeeded. Anything but a success is final. -/
theorem drive_append (setting : Setting ω) (fuel : Nat) (s : StateId) (p : Nat) (xs ys : List ξ)
    (w : ω) :
    h.drive .ofList setting fuel s p (xs ++ ys) w =
      match h.drive .ofList setting fuel s p xs w with
      | (.ok (.success s'), w') =>
        h.drive .ofList setting (fuel - xs.length) s' (p + xs.length) ys w'
      | other => other := by
  induction xs generalizing fuel s p w with
  | nil =>
      cases fuel with
      | zero => rfl
      | succ fuel => rfl
  | cons x xs ih =>
      cases fuel with
      | zero => rfl
      | succ fuel =>
          -- A symbol of the first part takes one unit of fuel and one position from the second.
          have hlength : fuel + 1 - (x :: xs).length = fuel - xs.length := by
            rw [List.length_cons]
            omega
          have hposition : p + (x :: xs).length = p + 1 + xs.length := by
            rw [List.length_cons]
            omega
          rw [List.cons_append, drive_cons, drive_cons, hlength, hposition]
          rcases h.step setting fuel s p x w with ⟨_ | _ | target, w₂⟩
          · rfl
          · rfl
          · exact ih fuel target (p + 1) w₂

/-! ## Machines that no callback disturbs -/

/-- Pure guards: for each guard of the machine and each of the symbols there is one answer,
or one fault, and asking has no effect. -/
def PureGuards (m : Machine γ α) (symbols : List ξ) : Prop :=
  ∀ t, m.Owns t → ∀ x ∈ symbols, ∃ verdict : Except Fault Bool, ∀ v, h.machine v = m →
    h.test t.guard x v = (verdict.mapError .fault, v)

/-- Actions that neither raise nor change the machine. -/
def SafeActions (m : Machine γ α) (symbols : List ξ) : Prop :=
  ∀ t, m.Owns t → ∀ a, t.action = some a → ∀ x ∈ symbols, ∀ v, h.machine v = m →
    ∃ v', h.perform a x v = (.ok (), v') ∧ h.machine v' = m

/-- Notes that neither raise nor change the machine. -/
def SafeNotes (m : Machine γ α) : Prop :=
  ∀ note v, h.machine v = m → ∃ v', h.record note v = (.ok (), v') ∧ h.machine v' = m

variable {h} {m : Machine γ α} {symbols : List ξ}

theorem SafeActions.performDue (hactions : h.SafeActions m symbols) (setting : Setting ω)
    {t : Transition γ α} (ht : m.Owns t) {x : ξ} (hx : x ∈ symbols) {v : ω} (hv : h.machine v = m) :
    ∃ v', h.performDue x (due setting t v) v = (.ok (), v') ∧ h.machine v' = m :=
  exists_performDue_within (fun a ha v hv => hactions t ht a ha x hx v hv) setting hv

theorem SafeNotes.remark (hnotes : h.SafeNotes m) (setting : Setting ω) (note : Note ξ) {v : ω}
    (hv : h.machine v = m) :
    ∃ v', h.remark setting note v = (.ok (), v') ∧ h.machine v' = m :=
  exists_remark_within hnotes setting note hv

/-- What pure guards say about a symbol in a state is one and the same for every world with
the machine and for every amount of fuel that lets the scan come to its end. -/
theorem PureGuards.exists_match (hguards : h.PureGuards m symbols) {s : StateId}
    {state : State γ α} (hs : m.state? s.toInt = some state) {x : ξ} (hx : x ∈ symbols) (i : Nat) :
    ∃ r : Except Fault (Option (Nat × Transition γ α)),
      (∀ j t, r = .ok (some (j, t)) → m.Owns t) ∧
      ∀ fuel v, state.transitions.length - i < fuel → h.machine v = m →
        firstMatch (h.transitionsOf s) h.test x fuel i v = (r.mapError .fault, v) := by
  have htransitions : ∀ v, h.machine v = m → h.transitionsOf s v = state.transitions := by
    intro v hv
    rw [transitionsOf, hv, hs]
  -- The induction is on the number of transitions behind the place.
  induction hn : state.transitions.length - i generalizing i with
  | zero =>
      have hend : state.transitions[i]? = none := List.getElem?_eq_none (by omega)
      refine ⟨.ok none, fun _ _ heq => (by cases heq), fun fuel v hfuel hv => ?_⟩
      obtain ⟨fuel, rfl⟩ := Nat.exists_eq_succ_of_ne_zero (by omega : fuel ≠ 0)
      rw [firstMatch_succ, htransitions v hv, hend]
      rfl
  | succ n ih =>
      have hi : i < state.transitions.length := by omega
      have hhere : state.transitions[i]? = some state.transitions[i] := List.getElem?_eq_getElem hi
      have howns : m.Owns state.transitions[i] :=
        ⟨state, Machine.mem_states_of_state? hs, List.getElem_mem hi⟩
      obtain ⟨verdict, hverdict⟩ := hguards _ howns x hx
      obtain ⟨r, hr, hrest⟩ := ih (i + 1) (by omega)
      refine ⟨match verdict with
        | .error f => .error f
        | .ok true => .ok (some (i, state.transitions[i]))
        | .ok false => r, ?_, fun fuel v hfuel hv => ?_⟩
      · rcases verdict with f | _ | _
        · intro j t heq
          cases heq
        · exact hr
        · intro j t heq
          cases heq
          exact howns
      · obtain ⟨fuel, rfl⟩ := Nat.exists_eq_succ_of_ne_zero (by omega : fuel ≠ 0)
        rw [firstMatch_succ, htransitions v hv, hhere]
        simp only [hverdict v hv]
        rcases verdict with f | _ | _
        · rfl
        · exact hrest fuel v (by omega) hv
        · rfl

/-- What a run says about its last symbol, given what the scan of the state reached said about
it: a fault goes on, no match is a failure, and a match leads to its target if the machine has
such a state. -/
def answer (count : Nat) (s : StateId) (x : ξ) (p : Nat) :
    Except Stop (Option (Nat × Transition γ α)) → Except Stop (Outcome StateId ξ Nat)
  | .error e => .error e
  | .ok none => .ok (.failure s x p s)
  | .ok (some (i, t)) =>
    if 0 ≤ t.target.toInt ∧ t.target.toInt < count then .ok (.success t.target)
    else .error (.fault (.invalidTarget s.toValue (.int i) t.target.toValue (.int p) (.int count)))

/-- An answer that is a success is a state of the machine. -/
theorem contains_of_answer {s target : StateId} {x : ξ} {p : Nat}
    {r : Except Stop (Option (Nat × Transition γ α))}
    (hr : answer m.size s x p r = .ok (.success target)) : m.Contains target := by
  rcases r with e | _ | ⟨i, t⟩
  · cases hr
  · cases hr
  · change (if _ then _ else _) = _ at hr
    split at hr
    · next hknown =>
      cases hr
      exact hknown
    · cases hr

theorem answer_ne_stalled (count : Nat) (s : StateId) (x : ξ) (p : Nat)
    (r : Except Fault (Option (Nat × Transition γ α))) :
    answer count s x p (r.mapError .fault) ≠ .error .stalled := by
  rcases r with f | _ | ⟨i, t⟩
  · exact nofun
  · exact nofun
  · change (if _ then _ else _) ≠ _
    split <;> exact nofun

/-- One symbol, when the scan is known: driving goes on if the answer is a success, and ends
with the answer otherwise. -/
theorem drive_cons_of_match (setting : Setting ω) (hactions : h.SafeActions m symbols)
    (hnotes : h.SafeNotes m) (hcount : setting.count = m.size) {s : StateId} {state : State γ α}
    (hs : m.state? s.toInt = some state) {x : ξ} (hx : x ∈ symbols)
    {r : Except Fault (Option (Nat × Transition γ α))}
    (howns : ∀ j t, r = .ok (some (j, t)) → m.Owns t) {fuel : Nat} {v : ω}
    (hv : h.machine v = m)
    (hr : firstMatch (h.transitionsOf s) h.test x fuel 0 v = (r.mapError .fault, v)) (p : Nat)
    (xs : List ξ) :
    ∃ v', h.machine v' = m ∧ h.drive .ofList setting (fuel + 1) s p (x :: xs) v =
      match answer m.size s x p (r.mapError .fault) with
      | .ok (.success target) => h.drive .ofList setting fuel target (p + 1) xs v'
      | other => (other, v') := by
  -- A machine in which a state was found has one, so the run does not fail for want of states.
  have hne : setting.count ≠ 0 := by
    have hmem := Machine.mem_states_of_state? hs
    have hpos : 0 < m.states.length := List.length_pos_of_mem hmem
    rw [hcount, Machine.size]
    omega
  rw [drive_cons, step_apply, if_neg hne, hv, hs]
  simp only [hr]
  rcases r with f | _ | ⟨i, t⟩
  · exact ⟨v, hv, rfl⟩
  · obtain ⟨v', hnote, hv'⟩ := hnotes.remark setting (.rejected s x p) hv
    refine ⟨v', hv', ?_⟩
    simp only [Except.mapError, Effect.bind_apply_of_ok v hnote]
    rfl
  · obtain ⟨v₁, hdue, hv₁⟩ :=
      hactions.performDue setting (howns i t rfl) hx hv
    simp only [Except.mapError, answer]
    rw [Effect.map_apply, take_apply, Effect.bind_apply_of_ok v hdue]
    by_cases hknown : 0 ≤ t.target.toInt ∧ t.target.toInt < m.size
    · have hknows : setting.Knows t.target := by rw [Setting.Knows, hcount]; exact hknown
      obtain ⟨v', hnote, hv'⟩ := hnotes.remark setting (.moved s t.target x p) hv₁
      refine ⟨v', hv', ?_⟩
      rw [arrive_of_knows h hknows hnote, if_pos hknown]
      rfl
    · have hknows : ¬setting.Knows t.target := by rw [Setting.Knows, hcount]; exact hknown
      obtain ⟨v', hnote, hv'⟩ := hnotes (.unknownTarget i s t.target) v₁ hv₁
      refine ⟨v', hv', ?_⟩
      rw [arrive_of_not_knows h hknows hnote, if_neg hknown, hcount]
      rfl

/-- The machine and the symbols settle what a run answers from a state on, and that it does. -/
theorem exists_outcome (hguards : h.PureGuards m symbols) (hactions : h.SafeActions m symbols)
    (hnotes : h.SafeNotes m) {xs : List ξ} (hxs : xs ⊆ symbols) {s : StateId} (hs : m.Contains s)
    (p : Nat) :
    ∃ o : Except Stop (Outcome StateId ξ Nat), o ≠ .error .stalled ∧
      (∀ s', o = .ok (.success s') → m.Contains s') ∧
      ∀ setting fuel v, setting.count = m.size →
        (∀ state ∈ m.states, xs.length + state.transitions.length < fuel) →
        h.machine v = m →
        ∃ v', h.machine v' = m ∧ h.drive .ofList setting fuel s p xs v = (o, v') := by
  obtain ⟨state, hstate⟩ := hs.exists_state
  have hmem := Machine.mem_states_of_state? hstate
  induction xs generalizing s p state with
  | nil =>
      refine ⟨.ok (.success s), nofun, fun s' heq => ?_, fun setting fuel v _ hfuel hv => ?_⟩
      · cases heq
        exact hs
      · have hpos := hfuel state hmem
        obtain ⟨fuel, rfl⟩ := Nat.exists_eq_succ_of_ne_zero (by omega : fuel ≠ 0)
        exact ⟨v, hv, rfl⟩
  | cons x xs ih =>
      have hx : x ∈ symbols := hxs (List.mem_cons_self ..)
      have hrest : xs ⊆ symbols := fun z hz => hxs (List.mem_cons_of_mem x hz)
      obtain ⟨r, howns, hmatch⟩ := hguards.exists_match hstate hx 0
      -- What the first symbol leads to, for every world and every amount of fuel at once.
      have hfirst : ∀ (setting : Setting ω) fuel v, setting.count = m.size →
          (∀ state ∈ m.states, (x :: xs).length + state.transitions.length < fuel) →
          h.machine v = m →
          ∃ rest v', fuel = rest + 1 ∧ h.machine v' = m ∧
            h.drive .ofList setting fuel s p (x :: xs) v =
              match answer m.size s x p (r.mapError .fault) with
              | .ok (.success target) => h.drive .ofList setting rest target (p + 1) xs v'
              | other => (other, v') := by
        intro setting fuel v hcount hfuel hv
        have hscan := hfuel state hmem
        rw [List.length_cons] at hscan
        obtain ⟨rest, rfl⟩ := Nat.exists_eq_succ_of_ne_zero (by omega : fuel ≠ 0)
        obtain ⟨v', hv', heq⟩ := drive_cons_of_match setting hactions hnotes hcount hstate hx howns
          hv (hmatch rest v (by omega) hv) p xs
        exact ⟨rest, v', rfl, hv', heq⟩
      by_cases hsuccess : ∃ target, answer m.size s x p (r.mapError .fault) = .ok (.success target)
      · obtain ⟨target, htarget⟩ := hsuccess
        have hcontains := contains_of_answer htarget
        obtain ⟨state', hstate'⟩ := hcontains.exists_state
        obtain ⟨o, hstall, hfinal, hdrive⟩ := ih hrest hcontains (p + 1) state' hstate'
          (Machine.mem_states_of_state? hstate')
        refine ⟨o, hstall, hfinal, fun setting fuel v hcount hfuel hv => ?_⟩
        obtain ⟨rest, v', rfl, hv', heq⟩ := hfirst setting fuel v hcount hfuel hv
        rw [heq, htarget]
        refine hdrive setting rest v' hcount (fun state hstate => ?_) hv'
        have hbound := hfuel state hstate
        rw [List.length_cons] at hbound
        omega
      -- Anything else is final, so the other symbols do not matter.
      · refine ⟨answer m.size s x p (r.mapError .fault), answer_ne_stalled _ _ _ _ _,
          fun s' heq => absurd ⟨s', heq⟩ hsuccess, fun setting fuel v hcount hfuel hv => ?_⟩
        obtain ⟨_, v', -, hv', heq⟩ := hfirst setting fuel v hcount hfuel hv
        refine ⟨v', hv', ?_⟩
        rw [heq]
        rcases ho : answer m.size s x p (r.mapError .fault) with e | target | _
        · rfl
        · exact absurd ⟨target, ho⟩ hsuccess
        · rfl

/-! ## The last symbol -/

/-- **A run is settled, symbol by symbol, by what the states match.** Take a machine with a
state, whatever targets its transitions name, with pure guards on the symbols, and with
actions that neither raise nor change it. A run of no symbols ends in the start. Where a run
of `xs` does not succeed, a run of `xs ++ [y]` has the same outcome. Where it succeeds in a
state, that is a state of the machine, and what it matches for `y` is the outcome: the fault
of a guard, a failure at the last position, a target that does not exist, or a success in the
target.

The runs may start in different worlds, want actions or not, and the match may be asked in a
third world: only the machine has to be the same. Fuel for the symbols and one scan is
enough. -/
theorem run_append_singleton (hne : 0 < m.size) {xs : List ξ} {y : ξ}
    (hguards : h.PureGuards m (xs ++ [y])) (hactions : h.SafeActions m (xs ++ [y]))
    (hnotes : h.SafeNotes m) {fuel : Nat}
    (hfuel : ∀ state ∈ m.states, (xs ++ [y]).length + state.transitions.length < fuel)
    (actions actions' : ω → Bool) {w w' : ω} (hw : h.machine w = m) (hw' : h.machine w' = m) :
    h.run .ofList fuel actions ([] : List ξ) w = (.ok (.success .start), w) ∧
    match (h.run .ofList fuel actions xs w).1 with
    | .ok (.success s) =>
      m.Contains s ∧ ∀ v, h.machine v = m →
        (h.run .ofList fuel actions' (xs ++ [y]) w').1 =
          answer m.size s y (xs.length + 1) (firstMatch (h.transitionsOf s) h.test y fuel 0 v).1 ∧
        (firstMatch (h.transitionsOf s) h.test y fuel 0 v).1 ≠ .error .stalled
    | .ok (.failure s x p s') =>
      (h.run .ofList fuel actions' (xs ++ [y]) w').1 = .ok (.failure s x p s')
    | .error (.fault f) => (h.run .ofList fuel actions' (xs ++ [y]) w').1 = .error (.fault f)
    | .error .stalled => False := by
  have hlength : (xs ++ [y]).length = xs.length + 1 := List.length_append
  have hstart : m.Contains .start := .start hne
  obtain ⟨state₀, hstate₀⟩ := hstart.exists_state
  have hpos := hfuel state₀ (Machine.mem_states_of_state? hstate₀)
  have hxs : xs ⊆ xs ++ [y] := List.subset_append_left xs [y]
  obtain ⟨o, hstall, hfinal, hdrive⟩ :=
    exists_outcome hguards hactions hnotes hxs hstart 1
  have hfuel' : ∀ state ∈ m.states, xs.length + state.transitions.length < fuel := by
    intro state hstate
    have hbound := hfuel state hstate
    omega
  have hsize : ∀ {actions : ω → Bool} {v : ω}, h.machine v = m →
      (h.settingAt actions v).count = m.size := by
    intro actions v hv
    rw [← hv]
    rfl
  constructor
  · obtain ⟨fuel, rfl⟩ := Nat.exists_eq_succ_of_ne_zero (by omega : fuel ≠ 0)
    rfl
  obtain ⟨v₁, -, hrun⟩ := hdrive (h.settingAt actions w) fuel w (hsize hw) hfuel' hw
  obtain ⟨v₂, hv₂, hrun'⟩ := hdrive (h.settingAt actions' w') fuel w' (hsize hw') hfuel' hw'
  rw [run_apply, run_apply, hrun, drive_append, hrun']
  rcases o with (f | _) | s | ⟨s, x, p, s'⟩
  · rfl
  · exact hstall rfl
  · have hcontains := hfinal s rfl
    obtain ⟨state, hstate⟩ := hcontains.exists_state
    have hscan := hfuel state (Machine.mem_states_of_state? hstate)
    obtain ⟨r, howns, hmatch⟩ := hguards.exists_match hstate (List.mem_append_right xs
      (List.mem_singleton_self y)) 0
    refine ⟨hcontains, fun v hv => ?_⟩
    rw [hmatch fuel v (by omega) hv]
    refine ⟨?_, Effect.mapError_ne_stalled r⟩
    -- The fuel that is left is enough for one more scan and the end of the symbols.
    obtain ⟨rest, hrest⟩ : ∃ rest, fuel - xs.length = rest + 2 := ⟨fuel - xs.length - 2, by omega⟩
    obtain ⟨v', -, heq⟩ := drive_cons_of_match (h.settingAt actions' w') hactions hnotes
      (hsize hw') hstate (List.mem_append_right xs (List.mem_singleton_self y)) howns hv₂
      (hmatch (rest + 1) v₂ (by omega) hv₂) (1 + xs.length) []
    simp only
    rw [hrest, heq, Nat.add_comm 1 xs.length]
    rcases answer m.size s y (xs.length + 1) (r.mapError .fault) with e | target | _
    · rfl
    · rfl
    · rfl
  · rfl

/-- A world that holds a machine whose guards are functions of the symbol, and the symbols that
its actions were performed on. -/
def recorder : Host (Machine (Nat → Except Fault Bool) Unit × List Nat) (Nat → Except Fault Bool)
    Unit Nat where
  machine w := w.1
  test g x := Effect.ofExcept (g x)
  perform _ x := modify fun w => (w.1, w.2 ++ [x])
  record _ := pure ()
  detailed _ := false

theorem recorder_pureGuards (m : Machine (Nat → Except Fault Bool) Unit) (symbols : List Nat) :
    recorder.PureGuards m symbols := by
  intro t _ x _
  refine ⟨t.guard x, fun v _ => ?_⟩
  change Effect.ofExcept (t.guard x) v = _
  cases t.guard x <;> rfl

theorem recorder_safeActions (m : Machine (Nat → Except Fault Bool) Unit) (symbols : List Nat) :
    recorder.SafeActions m symbols := fun _ _ _ _ x _ v hv => ⟨(v.1, v.2 ++ [x]), rfl, hv⟩

theorem recorder_safeNotes (m : Machine (Nat → Except Fault Bool) Unit) : recorder.SafeNotes m :=
  fun _ v hv => ⟨v, rfl, hv⟩

/-- A machine in which the second transition of state 1 leads to a state that cannot exist. -/
def leavingMachine : Machine (Nat → Except Fault Bool) Unit :=
  ⟨[⟨.int 0, .bool false, [⟨.number 1, fun x => .ok (x == 1), some ()⟩]⟩,
    ⟨.int 1, .bool true, [⟨.number 0, fun x => .ok (x == 0), none⟩,
      ⟨.number (-1), fun x => .ok (x == 2), some ()⟩]⟩]⟩

/-- The second of two symbols takes the transition that leads nowhere. -/
theorem recorder_run_append_singleton :
    (recorder.run .ofList 5 (fun _ => true) [1] (leavingMachine, [])).1 =
        .ok (.success (.number 1)) ∧
      (recorder.run .ofList 5 (fun _ => false) ([1] ++ [2]) (leavingMachine, [7])).1 =
        .error (.fault (.invalidTarget (.int 1) (.int 1) (.int (-1)) (.int 2) (.int 2))) := by
  have hfuel : ∀ state ∈ leavingMachine.states,
      ([1] ++ [2] : List Nat).length + state.transitions.length < 5 := by decide
  have hne : 0 < leavingMachine.size := Nat.two_pos
  have hlast := (run_append_singleton hne
    (recorder_pureGuards leavingMachine ([1] ++ [2])) (recorder_safeActions _ _)
    (recorder_safeNotes _) hfuel (fun _ => true) (fun _ => false)
    (rfl : recorder.machine (leavingMachine, []) = leavingMachine)
    (rfl : recorder.machine (leavingMachine, [7]) = leavingMachine)).2
  exact ⟨rfl, (hlast.2 (leavingMachine, []) rfl).1⟩

end Host

end SymbolMachine
