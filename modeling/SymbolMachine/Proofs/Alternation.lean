/-
The language of the alternation.

The state of the machine is the parity of the number of characters read, so it tells which
character may come next, and one step lemma for all places says what becomes of a character:
the one that the place calls for is read and remembered, any other is rejected. From it the
machine goes over an alternating stretch whatever follows (`drive_append`), and a word is such
a stretch up to its end or up to the first character that breaks the pattern.
-/
import SymbolMachine.Alternation
import SymbolMachine.Proofs.Machine.Equations
import SymbolMachine.Proofs.Value.Characters
import Mathlib.Data.List.Induction

set_option autoImplicit false

namespace SymbolMachine.Alternation

/-! ## Alternating words -/

/-- The character that a place calls for: `A` at an even one, `B` at an odd one. -/
def letter (i : Nat) : Char := if i % 2 = 0 then 'A' else 'B'

/-- From a place on, a word has the characters that the places call for. -/
def Alternates (first : Nat) (w : List Char) : Prop :=
  ∀ (j : Nat) (h : j < w.length), w[j] = letter (first + j)

instance (first : Nat) (w : List Char) : Decidable (Alternates first w) :=
  inferInstanceAs (Decidable (∀ (j : Nat) (h : j < w.length), w[j] = letter (first + j)))

/-- The first place at which a word breaks the pattern, and the character there. -/
structure FirstBreak (w : List Char) (i : Nat) (x : Char) : Prop where
  here : w[i]? = some x
  breaks : x ≠ letter i
  before : Alternates 0 (w.take i)

theorem alternates_nil (first : Nat) : Alternates first [] :=
  fun _ h => absurd h (Nat.not_lt_zero _)

theorem alternates_cons {first : Nat} {x : Char} {w : List Char} :
    Alternates first (x :: w) ↔ x = letter first ∧ Alternates (first + 1) w := by
  constructor
  · intro h
    refine ⟨h 0 (Nat.succ_pos _), fun j hj => ?_⟩
    have hnext := h (j + 1) (Nat.succ_lt_succ hj)
    rwa [List.getElem_cons_succ, Nat.add_comm j 1, ← Nat.add_assoc] at hnext
  · rintro ⟨hx, hw⟩ j hj
    cases j with
    | zero => exact hx
    | succ j =>
        rw [List.getElem_cons_succ, Nat.add_comm j 1, ← Nat.add_assoc]
        exact hw j (Nat.lt_of_succ_lt_succ hj)

/-- A word that does not alternate does so up to some character. -/
theorem exists_stretch {first : Nat} {w : List Char} (h : ¬Alternates first w) :
    ∃ zs x rest, w = zs ++ x :: rest ∧ Alternates first zs ∧ x ≠ letter (first + zs.length) := by
  induction w generalizing first with
  | nil => exact absurd (alternates_nil first) h
  | cons y w ih =>
      by_cases hy : y = letter first
      · have hw : ¬Alternates (first + 1) w := fun hw => h (alternates_cons.mpr ⟨hy, hw⟩)
        obtain ⟨zs, x, rest, rfl, hzs, hx⟩ := ih hw
        refine ⟨y :: zs, x, rest, rfl, alternates_cons.mpr ⟨hy, hzs⟩, ?_⟩
        rwa [List.length_cons, Nat.add_comm zs.length 1, ← Nat.add_assoc]
      · exact ⟨[], y, w, rfl, alternates_nil first, hy⟩

/-- A word that does not alternate has a first place that breaks the pattern. -/
theorem exists_firstBreak {w : List Char} (h : ¬Alternates 0 w) : ∃ i x, FirstBreak w i x := by
  obtain ⟨zs, x, rest, rfl, hzs, hx⟩ := exists_stretch h
  rw [Nat.zero_add] at hx
  refine ⟨zs.length, x, ?_, hx, ?_⟩
  · rw [List.getElem?_append_right (Nat.le_refl _), Nat.sub_self]
    rfl
  · rwa [List.take_left]

/-- What stands before that place, the character there, and what follows. -/
theorem FirstBreak.split {w : List Char} {i : Nat} {x : Char} (h : FirstBreak w i x) :
    w = w.take i ++ x :: w.drop (i + 1) ∧ (w.take i).length = i := by
  obtain ⟨hi, hx⟩ := List.getElem?_eq_some_iff.mp h.here
  constructor
  · rw [← hx, List.getElem_cons_drop, List.take_append_drop]
  · exact List.length_take_of_le (Nat.le_of_lt hi)

/-- An alternating word of even length repeats `AB`, and no other does. -/
theorem even_iff_repeats {first : Nat} (hfirst : first % 2 = 0) {w : List Char}
    (h : Alternates first w) :
    w.length % 2 = 0 ↔ ∃ n, w = (List.replicate n ['A', 'B']).flatten := by
  constructor
  · intro heven
    -- Two characters at a time, so that the places stay even.
    induction w using List.twoStepInduction generalizing first with
    | nil => exact ⟨0, rfl⟩
    | singleton x => cases heven
    | cons_cons x y w ih _ =>
        obtain ⟨hx, hw⟩ := alternates_cons.mp h
        obtain ⟨hy, hw⟩ := alternates_cons.mp hw
        have hodd : (first + 1) % 2 ≠ 0 := by omega
        rw [letter, if_pos hfirst] at hx
        rw [letter, if_neg hodd] at hy
        rw [List.length_cons, List.length_cons] at heven
        have hnext : (first + 1 + 1) % 2 = 0 := by omega
        obtain ⟨n, rfl⟩ := ih hnext hw (by omega)
        exact ⟨n + 1, by rw [hx, hy, List.replicate_succ, List.flatten_cons]; rfl⟩
  · rintro ⟨n, rfl⟩
    rw [List.length_flatten, List.map_replicate, List.sum_replicate_nat]
    exact Nat.mul_mod_left n 2

/-! ## One character -/

/-- The state that waits for the character of a place. -/
def waiting (i : Nat) : StateId := .number ((i % 2 : Nat) : Int)

/-- The transition that reads it. -/
def reading (i : Nat) : Transition Rule Memory := on ((i + 1) % 2 : Nat) (letter i)

theorem waiting_zero : waiting 0 = .start := rfl

theorem target_reading (i : Nat) : (reading i).target = waiting (i + 1) := rfl

theorem machine_state? (i : Nat) :
    machine.state? (waiting i).toInt =
      some ⟨.int (i % 2 : Nat), .bool (i % 2 = 0), [reading i]⟩ := by
  rcases Nat.mod_two_eq_zero_or_one i with hi | hi
  · have hnext : (i + 1) % 2 = 1 := by omega
    rw [waiting, reading, letter, hi, hnext]
    rfl
  · have hnext : (i + 1) % 2 = 0 := by omega
    rw [waiting, reading, letter, hi, hnext]
    rfl

/-- The scan finds the transition of the place, or none. -/
theorem firstMatch_eq (i : Nat) (x : Char) {fuel : Nat} (hfuel : 1 < fuel) (seen : List Char) :
    firstMatch (host.transitionsOf (waiting i)) host.test x fuel 0 seen =
      (.ok (if x = letter i then some (0, reading i) else none), seen) := by
  have htransitions : host.transitionsOf (waiting i) seen = [reading i] := by
    rw [Host.transitionsOf, show host.machine seen = machine from rfl, machine_state?]
  have hverdict : ∀ t ∈ host.transitionsOf (waiting i) seen,
      host.test t.guard x seen = (.ok (t.guard.accepts TokenStore.empty (.ofChar x)), seen) :=
    fun _ _ => rfl
  have haccepts : (reading i).guard.accepts TokenStore.empty (.ofChar x) = decide (x = letter i) :=
    Rule.accepts_equals_ofChar TokenStore.empty x (.made 0) (letter i)
  rw [firstMatch_eq_find? hverdict (by rwa [htransitions]), htransitions, List.find?_singleton,
    List.findIdx_singleton, haccepts]
  by_cases hx : x = letter i <;> simp [hx]

theorem remark_eq (setting : Host.Setting (List Char)) (note : Note Char) (seen : List Char) :
    host.remark setting note seen = (.ok (), seen) := by
  unfold Host.remark
  split <;> rfl

/-- What a run has remembered that read some characters. -/
def remembered (actions : Bool) (seen xs : List Char) : List Char :=
  if actions then seen ++ xs else seen

theorem remembered_cons (actions : Bool) (seen : List Char) (x : Char) (xs : List Char) :
    remembered actions (remembered actions seen [x]) xs = remembered actions seen (x :: xs) := by
  cases actions with
  | true => exact List.append_assoc ..
  | false => rfl

section Reading

variable {setting : Host.Setting (List Char)} {b : Bool} (hcount : setting.count = 2)
  (hactions : setting.actions = fun _ => b)
include hcount

/-- A character that breaks the pattern is rejected. -/
theorem step_of_ne {i : Nat} {x : Char} (hx : x ≠ letter i) {fuel : Nat} (hfuel : 1 < fuel)
    (p : Nat) (seen : List Char) :
    host.step setting fuel (waiting i) p x seen = (.ok none, seen) := by
  have hstate : (host.machine seen).state? (waiting i).toInt = some _ := machine_state? i
  rw [Host.step_apply, hcount, if_neg (by omega), hstate, firstMatch_eq i x hfuel, if_neg hx]
  simp only
  rw [Effect.bind_apply_of_ok seen (remark_eq setting (.rejected (waiting i) x p) seen)]
  rfl

include hactions

/-- The character of the place is read, and remembered if actions are wanted. -/
theorem step_letter (i : Nat) {fuel : Nat} (hfuel : 1 < fuel) (p : Nat) (seen : List Char) :
    host.step setting fuel (waiting i) p (letter i) seen =
      (.ok (some (waiting (i + 1))), remembered b seen [letter i]) := by
  have hstate : (host.machine seen).state? (waiting i).toInt = some _ := machine_state? i
  have hdue : host.performDue (letter i) (Host.due setting (reading i) seen) seen =
      (.ok (), remembered b seen [letter i]) := by
    rw [Host.due, hactions]
    cases b <;> rfl
  have hknows : setting.Knows (reading i).target := by
    rw [Host.Setting.Knows, hcount, target_reading]
    change (0 : Int) ≤ (i + 1) % 2 ∧ ((i + 1) % 2 : Int) < 2
    omega
  rw [Host.step_apply, hcount, if_neg (by omega), hstate, firstMatch_eq i _ hfuel, if_pos rfl]
  simp only
  rw [Effect.map_apply, Host.take_apply, Effect.bind_apply_of_ok seen hdue,
    Host.arrive_of_knows _ hknows (remark_eq ..), target_reading]
  rfl

/-! ## Whole words -/

/-- **Over an alternating stretch the machine goes to its end**, whatever follows. -/
theorem drive_append {i : Nat} {xs : List Char} (hxs : Alternates i xs) (rest : List Char)
    {fuel : Nat} (hfuel : 1 < fuel) (p : Nat) (seen : List Char) :
    host.drive .ofList setting (xs.length + fuel) (waiting i) p (xs ++ rest) seen =
      host.drive .ofList setting fuel (waiting (i + xs.length)) (p + xs.length) rest
        (remembered b seen xs) := by
  induction xs generalizing i p seen with
  | nil =>
      rw [List.nil_append, List.length_nil, Nat.zero_add, remembered, List.append_nil, ite_self]
      rfl
  | cons x xs ih =>
      obtain ⟨rfl, hrest⟩ := alternates_cons.mp hxs
      have hsucc : ∀ n, n + (xs.length + 1) = n + 1 + xs.length := by omega
      have hunits : xs.length + 1 + fuel = xs.length + fuel + 1 := by omega
      rw [List.cons_append, List.length_cons, hunits, Host.drive_cons,
        step_letter hcount hactions i (by omega), hsucc, hsucc, ← remembered_cons b seen _ xs]
      exact ih hrest (p + 1) (remembered b seen [letter i])

end Reading

section Run

variable (actions : Bool) (seen : List Char)

/-- A run goes over an alternating beginning of its word. -/
theorem run_append {xs : List Char} (hxs : Alternates 0 xs) (rest : List Char) :
    run actions (xs ++ rest) seen =
      host.drive .ofList (host.settingAt (fun _ => actions) seen) (rest.length + 3)
        (waiting xs.length) (1 + xs.length) rest (remembered actions seen xs) := by
  have hcount : (host.settingAt (fun _ => actions) seen).count = 2 := rfl
  have hdrive := drive_append hcount rfl hxs rest (by omega : 1 < rest.length + 3) 1 seen
  rw [run, fuelFor, List.length_append, Nat.add_assoc, Host.run_apply, ← waiting_zero, hdrive,
    Nat.zero_add]

/-- An alternating word is read to its end. -/
theorem run_of_alternates {w : List Char} (hw : Alternates 0 w) :
    run actions w seen = (.ok (.success (waiting w.length)), remembered actions seen w) := by
  have hrun := run_append actions seen hw []
  rw [List.append_nil] at hrun
  exact hrun

/-- Any other word is rejected at the first place that breaks the pattern. -/
theorem run_of_firstBreak {w : List Char} {i : Nat} {x : Char} (h : FirstBreak w i x) :
    run actions w seen =
      (.ok (.failure (waiting i) x (i + 1) (waiting i)), remembered actions seen (w.take i)) := by
  obtain ⟨hsplit, hlength⟩ := h.split
  have hcount : (host.settingAt (fun _ => actions) seen).count = 2 := rfl
  have hrun := run_append actions seen h.before (x :: w.drop (i + 1))
  rw [← hsplit, hlength, List.length_cons, Host.drive_cons,
    step_of_ne hcount h.breaks (by omega), Nat.add_comm 1 i] at hrun
  exact hrun

end Run

/-- **The alternation recognises exactly the alternating words.** A word that alternates is read
to its end; then the machine is in the state of the parity of its length, which accepts if and
only if the word repeats `AB`. Any other word has a first character that breaks the pattern, and
is rejected there, in the state that waited for the other character. The characters before that
place, or all if there is none, are remembered behind those from before the run, and nothing is
remembered if actions are not wanted. -/
theorem run_recognises (actions : Bool) (w seen : List Char) :
    (Alternates 0 w →
      run actions w seen = (.ok (.success (waiting w.length)), remembered actions seen w) ∧
        ∃ state, machine.state? (waiting w.length).toInt = some state ∧
          (state.accepting.truthy = true ↔ ∃ n, w = (List.replicate n ['A', 'B']).flatten)) ∧
    (¬Alternates 0 w → ∃ i x, FirstBreak w i x) ∧
    ∀ i x, FirstBreak w i x →
      run actions w seen =
        (.ok (.failure (waiting i) x (i + 1) (waiting i)), remembered actions seen (w.take i)) := by
  refine ⟨fun hw => ⟨run_of_alternates actions seen hw, _, machine_state? w.length, ?_⟩,
    exists_firstBreak, fun i x hbreak => run_of_firstBreak actions seen hbreak⟩
  -- The states that accept are those of an even length.
  rw [← even_iff_repeats rfl hw]
  exact decide_eq_true_iff

/-- `ABAB` is read to its end, in the state that accepts. In `ABB` the second `B` breaks the
pattern, in the state that waits for an `A`. What was read before is remembered, and nothing is
without actions. -/
theorem abab_recognised :
    (Alternates 0 "ABAB".toList ∧
      run true "ABAB".toList ['A'] = (.ok (.success (.number 0)), "AABAB".toList) ∧
      ∃ state, machine.state? 0 = some state ∧ state.accepting.truthy = true) ∧
    (FirstBreak "ABB".toList 2 'B' ∧
      run true "ABB".toList [] = (.ok (.failure (.number 0) 'B' 3 (.number 0)), "AB".toList) ∧
      run false "ABB".toList [] = (.ok (.failure (.number 0) 'B' 3 (.number 0)), [])) := by
  have hword : Alternates 0 "ABAB".toList := by decide
  have hbreak : FirstBreak "ABB".toList 2 'B' := ⟨by decide, by decide, by decide⟩
  obtain ⟨hrun, state, hstate, haccepting⟩ := (run_recognises true _ ['A']).1 hword
  exact ⟨⟨hword, hrun, state, hstate, haccepting.mpr ⟨2, rfl⟩⟩, hbreak,
    (run_recognises true _ []).2.2 2 'B' hbreak, (run_recognises false _ []).2.2 2 'B' hbreak⟩

end SymbolMachine.Alternation
