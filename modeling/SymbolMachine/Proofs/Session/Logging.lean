/-
What a session records of a run.

A run makes a note of each step, of the symbol it rejects, and of a target that does not exist; the
session makes a record of a note if the level of the note passes the threshold. So the records of a
run can be told in two ways: from the events of the world that the run leaves, and from its course.
Here they are shown to be the same (`run_records_path`), as long as the callbacks keep silent and do
not touch the machine or the threshold. The texts of the records are written down again, because
they are what a reader of the log sees.

Keeping silent does not make a run end. For that the symbols have to be used up at some time, and
each callback has to answer or to fail; the run then comes to its exit whatever the callbacks do
besides (`Discreet.exists_trail`).

Whether detailed notes are wanted is found out once, at the start, and the threshold is looked at
for each note. Both say the same while the threshold stays (`remark_eq_addNote`), so each note is
made by one function of the world, whichever way it was asked for.
-/
import SymbolMachine.Proofs.Machine.Determinism
import SymbolMachine.Proofs.Machine.Extension
import SymbolMachine.Proofs.Session.Growth
import Mathlib.Tactic.FinCases

set_option autoImplicit false

namespace SymbolMachine

namespace Session

open Host

/-! ## Records -/

/-- A record: how much it matters, and its text. -/
abbrev Record : Type := Level × String

/-- The record in an event. -/
def Event.record? : Event → Option Record
  | logged level text => some (level, text)
  | _ => none

/-- The records of a session, earliest first. -/
def World.records (w : World) : List Record := w.events.reverse.filterMap Event.record?

/-- What passes a threshold. -/
def kept (threshold : Level) (rs : List Record) : List Record :=
  rs.filter fun r => threshold.passes r.1

/-- The record of a step. -/
def stepRecord (s t : StateId) (x : Value) (position : Nat) : Record :=
  (.debug, toString s.toInt ++ " -> " ++ toString t.toInt ++ " on " ++ x.quoted ++
    " at position " ++ toString position)

/-- The record of a symbol that is not accepted. -/
def rejectionRecord (s : StateId) (x : Value) (position : Nat) : Record :=
  (.debug, "state " ++ toString s.toInt ++ " rejected " ++ x.quoted ++ " at position " ++
    toString position)

/-- The record of a target that does not exist. -/
def strayRecord (index : Nat) (s target : StateId) : Record :=
  (.error, "transition " ++ toString index ++ " of state " ++ toString s.toInt ++
    " targets unknown state " ++ toString target.toInt)

/-- The records of some steps, told by their symbols and targets. Each starts in the target of the
one before. -/
def pathRecords : StateId → Nat → List (Value × StateId) → List Record
  | _, _, [] => []
  | s, position, (x, t) :: path =>
    stepRecord s t x position :: pathRecords t (position + 1) path

/-- The record of the end of a run: of a rejected symbol, or of a target that does not exist. Other
ends leave none. -/
def lastRecord {ν : Type} (c : Config World ν) : Exit Guard Action Value → Option Record
  | .rejected x => some (rejectionRecord c.state x c.position)
  | .unknownTarget _ index t _ => some (strayRecord index c.state t.target)
  | _ => none

theorem kept_append (threshold : Level) (rs rs' : List Record) :
    kept threshold (rs ++ rs') = kept threshold rs ++ kept threshold rs' :=
  List.filter_append rs rs'

/-- Everything passes the lowest threshold. -/
theorem kept_debug (rs : List Record) : kept .debug rs = rs := by
  refine List.filter_eq_self.mpr fun r _ => ?_
  cases r.1 <;> rfl

theorem level_of_mem_pathRecords {s : StateId} {position : Nat} {path : List (Value × StateId)} :
    ∀ r ∈ pathRecords s position path, r.1 = .debug := by
  induction path generalizing s position with
  | nil => exact nofun
  | cons step path ih => exact List.forall_mem_cons.mpr ⟨rfl, ih⟩

/-- Steps pass only where detail does. -/
theorem kept_pathRecords {threshold : Level} (hdebug : threshold.passes .debug = false)
    (s : StateId) (position : Nat) (path : List (Value × StateId)) :
    kept threshold (pathRecords s position path) = [] := by
  refine List.filter_eq_nil_iff.mpr fun r hr => ?_
  rw [level_of_mem_pathRecords r hr, hdebug]
  exact Bool.false_ne_true

/-! ## Notes as changes of the world -/

namespace World

variable (w : World) (note : Note Value)

theorem records_addEvent (e : Event) : (w.addEvent e).records = w.records ++ e.record?.toList := by
  rw [records, addEvent, List.reverse_cons, List.filterMap_append, records]
  cases e <;> rfl

/-- A note becomes a record if it passes the threshold. -/
theorem records_addNote :
    (w.addNote note).records = w.records ++
      kept w.threshold [(note.level, note.text fun x => (w.tokens.read x).quoted)] := by
  unfold addNote kept
  rw [List.filter_singleton]
  split
  · next passes =>
    rw [records_addEvent, passes]
    rfl
  · next passes =>
    simp only [passes]
    exact (List.append_nil _).symm

/-- The texts of notes are made of the symbol as it is then, which is the symbol itself if it is
closed. -/
theorem records_moved (s t : StateId) {x : Value} (hx : x.isClosed = true) (position : Nat) :
    (w.addNote (.moved s t x position)).records =
      w.records ++ kept w.threshold [stepRecord s t x position] := by
  rw [records_addNote]
  exact congrArg (fun y => w.records ++ kept w.threshold [stepRecord s t y position])
    (w.tokens.read_of_isClosed hx)

theorem records_rejected (s : StateId) {x : Value} (hx : x.isClosed = true) (position : Nat) :
    (w.addNote (.rejected s x position)).records =
      w.records ++ kept w.threshold [rejectionRecord s x position] := by
  rw [records_addNote]
  exact congrArg (fun y => w.records ++ kept w.threshold [rejectionRecord s y position])
    (w.tokens.read_of_isClosed hx)

theorem threshold_addNote : (w.addNote note).threshold = w.threshold := by
  unfold addNote
  split <;> rfl

/-- A note that does not pass is not there. -/
theorem addNote_of_not_passes (h : w.threshold.passes note.level = false) :
    w.addNote note = w := by
  rw [addNote, h]
  rfl

end World

/-! ## Callbacks that keep silent -/

/-- From one world of a run to a later one the run is as it was, and there is no record more. -/
structure Quiet (W : World → Prop) (v v' : World) : Prop where
  stays : W v'
  threshold : v'.threshold = v.threshold
  records : v'.records = v.records

theorem Quiet.refl {W : World → Prop} {v : World} (hv : W v) : Quiet W v v := ⟨hv, rfl, rfl⟩

theorem Quiet.trans {W : World → Prop} {v₁ v₂ v₃ : World} (h : Quiet W v₁ v₂) (h' : Quiet W v₂ v₃) :
    Quiet W v₁ v₃ :=
  ⟨h'.stays, h'.threshold.trans h.threshold, h'.records.trans h.records⟩

variable {ν : Type}

/-- The callbacks of a run keep silent: in certain worlds the machine is this one, and the source,
the guards and the actions of the machine stay within those worlds, leave the threshold alone and
make no records. What they do otherwise, and whether they fail, is open. All symbols that come from
certain states of the source are closed. -/
structure Discreet (perform : List Command → Effect World Unit) (next : Source World ν Value)
    (i : Nat) (m : Machine Guard Action) (W : World → Prop) (S : ν → Prop) : Prop where
  machine : ∀ v, W v → v.machine i = m
  gives : ∀ s v x rest v', S s → W v → next s v = (.ok (some (x, rest)), v') →
    x.isClosed = true ∧ S rest
  source : ∀ s v, S s → W v → Quiet W v (next s v).2
  guard : ∀ t, m.Owns t → ∀ x, x.isClosed = true → ∀ v, W v →
    Quiet W v (admits perform t.guard x v).2
  action : ∀ t, m.Owns t → ∀ a, t.action = some a → ∀ x, x.isClosed = true → ∀ v, W v →
    Quiet W v (act perform a x v).2
  note : ∀ note v, W v → W (v.addNote note)

/-- No guard and no action of a machine keeps a run waiting: in certain worlds each of them answers
a closed symbol or fails. -/
structure Answering (perform : List Command → Effect World Unit) (m : Machine Guard Action)
    (W : World → Prop) : Prop where
  guard : ∀ t, m.Owns t → ∀ x, x.isClosed = true → ∀ v, W v →
    (admits perform t.guard x v).1 ≠ .error .stalled
  action : ∀ t, m.Owns t → ∀ a, t.action = some a → ∀ x, x.isClosed = true → ∀ v, W v →
    (act perform a x v).1 ≠ .error .stalled

/-- A source runs out: asked in certain worlds it answers or fails, and it gives finitely many
symbols. -/
inductive RunsOut (next : Source World ν Value) (W : World → Prop) : ν → Prop
  | intro {s : ν} (answers : ∀ v, W v → (next s v).1 ≠ .error .stalled)
      (rest : ∀ v, W v → ∀ x s' v', next s v = (.ok (some (x, s')), v') → RunsOut next W s') :
      RunsOut next W s

/-- A list runs out. -/
theorem runsOut_ofList (W : World → Prop) (xs : List Value) : RunsOut .ofList W xs := by
  induction xs with
  | nil => exact .intro (fun _ _ => nofun) fun _ _ _ _ _ => nofun
  | cons x xs ih =>
      refine .intro (fun _ _ => nofun) ?_
      rintro v - _ _ _ ⟨⟩
      exact ih

/-- Where all guards are rules and all actions leave traces, callbacks keep silent. -/
theorem discreet_of_rules {perform : List Command → Effect World Unit} {i : Nat}
    {m : Machine Guard Action} (hguards : ∀ t, m.Owns t → ∃ r, t.guard = .rule r)
    (hactions : ∀ t, m.Owns t → ∀ a, t.action = some a → ∃ tag, a = .trace tag) :
    Discreet perform .ofList i m (fun v => v.machine i = m)
      (fun xs => ∀ x ∈ xs, x.isClosed = true) where
  machine _ hv := hv
  gives s v x rest v' hs _ given := by
    cases s with
    | nil => cases given
    | cons =>
        cases given
        exact List.forall_mem_cons.mp hs
  source s v _ hv := by cases s <;> exact .refl hv
  guard t ht x _ v hv := by
    obtain ⟨r, hr⟩ := hguards t ht
    rw [hr]
    exact .refl hv
  action t ht a ha x _ v hv := by
    obtain ⟨tag, rfl⟩ := hactions t ht a ha
    exact ⟨hv, rfl, (v.records_addEvent _).trans (List.append_nil _)⟩
  note note v hv := (v.machine_addNote note i).trans hv

/-- Neither of them keeps a run waiting. -/
theorem answering_of_rules {perform : List Command → Effect World Unit}
    {m : Machine Guard Action} (hguards : ∀ t, m.Owns t → ∃ r, t.guard = .rule r)
    (hactions : ∀ t, m.Owns t → ∀ a, t.action = some a → ∃ tag, a = .trace tag)
    (W : World → Prop) : Answering perform m W where
  guard t ht x _ v _ := by
    obtain ⟨r, hr⟩ := hguards t ht
    rw [hr]
    exact nofun
  action t ht a ha x _ v _ := by
    obtain ⟨tag, rfl⟩ := hactions t ht a ha
    exact nofun

namespace Discreet

variable {perform : List Command → Effect World Unit} {next : Source World ν Value} {i : Nat}
  {m : Machine Guard Action} {W : World → Prop} {S : ν → Prop}
  (hd : Discreet perform next i m W S)
include hd

theorem host_machine {v : World} (hv : W v) : (host perform i).machine v = m := hd.machine v hv

/-- In those worlds the transitions of a state are transitions of the machine. -/
theorem owns {s : StateId} {v : World} {k : Nat} {t : Transition Guard Action} (hv : W v)
    (here : ((host perform i).transitionsOf s v)[k]? = some t) : m.Owns t := by
  have howns := owns_of_getElem? here
  rwa [hd.host_machine hv] at howns

/-- A scan leaves no record, and finds a transition of the machine. -/
theorem scan {s : StateId} {x : Value} (hx : x.isClosed = true) {k : Nat} {v v' : World}
    {ts : List (Transition Guard Action)}
    {r : Except Fault (Option (Nat × Transition Guard Action))} (hv : W v)
    (hscan : Scan ((host perform i).transitionsOf s) (admits perform) x k v ts r v') :
    Quiet W v v' ∧ ∀ j t, r = .ok (some (j, t)) → m.Owns t := by
  induction hscan with
  | exhausted => exact ⟨.refl hv, nofun⟩
  | accepted here asked =>
      have hquiet := hd.guard _ (hd.owns hv here) x hx _ hv
      rw [asked] at hquiet
      refine ⟨hquiet, ?_⟩
      rintro _ _ ⟨⟩
      exact hd.owns hv here
  | failed here asked =>
      have hquiet := hd.guard _ (hd.owns hv here) x hx _ hv
      rw [asked] at hquiet
      exact ⟨hquiet, nofun⟩
  | refused here asked _ ih =>
      have hquiet := hd.guard _ (hd.owns hv here) x hx _ hv
      rw [asked] at hquiet
      obtain ⟨hrest, hfound⟩ := ih hquiet.stays
      exact ⟨hquiet.trans hrest, hfound⟩

variable {setting : Setting World} {c c' : Config World ν}

/-- Up to what follows the scan, handling a symbol leaves no record. -/
theorem handles {x : Value} {rest : ν} {ts : List (Transition Guard Action)}
    {r : Except Fault (Option (Nat × Transition Guard Action))} {v : World} (hc : W c.world)
    (hs : S c.source) (handled : (host perform i).Handles next setting c x rest ts r v) :
    Quiet W c.world v ∧ x.isClosed = true ∧ S rest ∧ ∀ j t, r = .ok (some (j, t)) → m.Owns t := by
  obtain ⟨given, -, -, scan⟩ := handled
  obtain ⟨hx, hrest⟩ := hd.gives _ _ _ _ _ hs hc given
  have hasked := hd.source _ _ hs hc
  rw [given] at hasked
  obtain ⟨hscanned, howns⟩ := hd.scan hx hasked.stays scan
  exact ⟨hasked.trans hscanned, hx, hrest, howns⟩

/-- An action that is due leaves no record. -/
theorem performed {t : Transition Guard Action} (ht : m.Owns t) {x : Value}
    (hx : x.isClosed = true) {v v' : World} {r : Except Stop Unit} (hv : W v)
    (performed : (host perform i).performDue x (due setting t v) v = (r, v')) : Quiet W v v' := by
  rcases performDue_cases _ performed with ⟨a, -, own, performed⟩ | ⟨-, rfl⟩
  · have hquiet := hd.action t ht a own x hx v hv
    rwa [show act perform a x v = (r, v') from performed] at hquiet
  · exact .refl hv

/-! ## What is recorded

The threshold stays as it is, so at each place of a run the session looks at the same one. -/

omit hd in
/-- A detailed note changes the world as if it were always made, because one that is not wanted
would not pass. -/
theorem remark_eq_addNote {note : Note Value} (hlevel : note.level = .debug) {v : World}
    (hdetailed : setting.detailed = v.threshold.passes .debug) :
    (host perform i).remark setting note v = (.ok (), v.addNote note) := by
  unfold Host.remark
  split
  · rfl
  · next unwanted =>
    rw [hdetailed, ← hlevel, Bool.not_eq_true] at unwanted
    rw [v.addNote_of_not_passes note unwanted]
    rfl

section Steps

variable (hc : W c.world) (hs : S c.source)
  (hdetailed : setting.detailed = c.world.threshold.passes .debug)
include hc hs hdetailed

/-- A move leaves the record of its step. -/
theorem move {p : Passage Guard Action Value} (move : (host perform i).Move next setting c p c') :
    W c'.world ∧ S c'.source ∧ c'.world.threshold = c.world.threshold ∧
      c'.state = p.transition.target ∧ c'.position = c.position + 1 ∧
      c'.world.records = c.world.records ++
        kept c.world.threshold [stepRecord c.state p.transition.target p.symbol c.position] := by
  obtain @⟨x, _, _, k, t, v, v₁, v₂, handled, performed, -, noted⟩ := move
  obtain ⟨hhandled, hx, hrest, howns⟩ := hd.handles hc hs handled
  -- Up to the note nothing has been recorded, and the note is the last thing that a move does.
  have hquiet : Quiet W c.world v₁ :=
    hhandled.trans (hd.performed (howns k t rfl) hx hhandled.stays performed)
  rw [remark_eq_addNote rfl (hdetailed.trans (by rw [hquiet.threshold]))] at noted
  cases noted
  refine ⟨hd.note _ v₁ hquiet.stays, hrest, ?_, rfl, rfl, ?_⟩
  · exact (v₁.threshold_addNote _).trans hquiet.threshold
  · rw [v₁.records_moved _ _ hx, hquiet.threshold, hquiet.records]

/-- The end of a run leaves the record of the end. -/
theorem exits {e : Exit Guard Action Value} {v : World}
    (exits : (host perform i).Exits next setting c e v) :
    v.records = c.world.records ++ kept c.world.threshold (lastRecord c e).toList := by
  cases exits with
  | usedUp given | sourceFailed given | noStates given | lost given =>
      have hquiet := hd.source _ _ hs hc
      rw [given] at hquiet
      rw [hquiet.records]
      exact (List.append_nil _).symm
  | guardFailed handled =>
      obtain ⟨hquiet, -⟩ := hd.handles hc hs handled
      rw [hquiet.records]
      exact (List.append_nil _).symm
  | @rejected x _ _ v₁ _ handled noted =>
      obtain ⟨hquiet, hx, -⟩ := hd.handles hc hs handled
      rw [remark_eq_addNote rfl (hdetailed.trans (by rw [hquiet.threshold]))] at noted
      cases noted
      rw [v₁.records_rejected _ hx, hquiet.threshold, hquiet.records]
      rfl
  | actionFailed handled performed =>
      obtain ⟨hquiet, hx, -, howns⟩ := hd.handles hc hs handled
      have hperformed := hd.performed (howns _ _ rfl) hx hquiet.stays performed
      rw [(hquiet.trans hperformed).records]
      exact (List.append_nil _).symm
  | @unknownTarget x _ _ k t _ v₁ _ handled performed _ noted =>
      obtain ⟨hhandled, hx, -, howns⟩ := hd.handles hc hs handled
      have hquiet : Quiet W c.world v₁ :=
        hhandled.trans (hd.performed (howns k t rfl) hx hhandled.stays performed)
      -- No symbol is in this note, and it is made whether or not detailed ones are wanted.
      cases noted
      rw [World.records_addNote, hquiet.threshold, hquiet.records]
      rfl

omit hdetailed in
/-- A run is not lost in a state that its machine has. -/
theorem not_lost (hcontains : m.Contains c.state) {v : World} :
    ¬(host perform i).Exits next setting c .lost v := by
  rw [← hd.machine _ (hd.source c.source c.world hs hc).stays] at hcontains
  exact not_lost_of_contains (host perform i) hcontains

/-- A trail leaves the records of its path. -/
theorem trail {ps : List (Passage Guard Action Value)}
    (trail : (host perform i).Trail next setting c ps c') :
    W c'.world ∧ S c'.source ∧ c'.world.threshold = c.world.threshold ∧
      c'.world.records = c.world.records ++ kept c.world.threshold
        (pathRecords c.state c.position (ps.map fun p => (p.symbol, p.transition.target))) := by
  induction trail with
  | nil c => exact ⟨hc, hs, rfl, (List.append_nil _).symm⟩
  | @cons c c₁ _ p ps move _ ih =>
      -- The rest of the path starts in the state and at the position that the move leads to.
      obtain ⟨hc₁, hs₁, hthreshold, hstate, hposition, hstep⟩ := hd.move hc hs hdetailed move
      obtain ⟨hc', hs', hthreshold', hpath⟩ :=
        ih hc₁ hs₁ (hdetailed.trans (by rw [hthreshold]))
      refine ⟨hc', hs', hthreshold'.trans hthreshold, ?_⟩
      rw [hpath, hstep, hthreshold, hstate, hposition, List.append_assoc, ← kept_append]
      rfl

end Steps

/-! ## Coming to an end -/

section Ending

variable (hanswering : Answering perform m W)
include hanswering

/-- A scan comes to an end, because each guard answers and the transitions stay as many. -/
theorem exists_scan {s : StateId} {state : State Guard Action}
    (found : m.state? s.toInt = some state) {x : Value} (hx : x.isClosed = true) (k : Nat)
    {v : World} (hv : W v) :
    ∃ ts r v', Scan ((host perform i).transitionsOf s) (admits perform) x k v ts r v' := by
  have hthere : ∀ v, W v → (host perform i).transitionsOf s v = state.transitions := by
    intro v hv
    rw [transitionsOf, hd.host_machine hv, found]
  -- The induction is on the number of transitions that are not asked yet.
  induction hn : state.transitions.length - k generalizing k v with
  | zero =>
      have here : ((host perform i).transitionsOf s v)[k]? = none := by
        rw [hthere v hv]
        exact List.getElem?_eq_none (Nat.sub_eq_zero_iff_le.mp hn)
      exact ⟨[], .ok none, v, .exhausted here⟩
  | succ n ih =>
      have hk : k < state.transitions.length := by omega
      have here : ((host perform i).transitionsOf s v)[k]? = some state.transitions[k] := by
        rw [hthere v hv]
        exact List.getElem?_eq_getElem hk
      have hquiet := hd.guard _ (hd.owns hv here) x hx v hv
      have hanswer := hanswering.guard _ (hd.owns hv here) x hx v hv
      rcases asked : admits perform state.transitions[k].guard x v with ⟨(f | _) | _ | _, v₁⟩ <;>
        rw [asked] at hquiet hanswer
      · exact ⟨_, .error f, v₁, .failed here asked⟩
      · exact absurd rfl hanswer
      · obtain ⟨ts, r, v', rest⟩ := ih (k + 1) hquiet.stays (by omega)
        exact ⟨_, r, v', .refused here asked rest⟩
      · exact ⟨_, _, v₁, .accepted here asked⟩

omit hd in
/-- An action that is due answers or fails. -/
theorem performed_ne_stalled {t : Transition Guard Action} (ht : m.Owns t) {x : Value}
    (hx : x.isClosed = true) {v v' : World} {r : Except Stop Unit} (hv : W v)
    (performed : (host perform i).performDue x (due setting t v) v = (r, v')) :
    r ≠ .error .stalled := by
  rcases performDue_cases _ performed with ⟨a, -, own, performed⟩ | ⟨rfl, -⟩
  · have hanswer := hanswering.action t ht a own x hx v hv
    rwa [show act perform a x v = (r, v') from performed] at hanswer
  · exact nofun

/-- What was given is handled: the run moves on with the rest, or it ends. -/
theorem exists_move_or_exits (hc : W c.world) (hs : S c.source) {x : Value} {rest : ν} {v : World}
    (given : next c.source c.world = (.ok (some (x, rest)), v)) :
    (∃ p c', (host perform i).Move next setting c p c' ∧ c'.source = rest) ∨
      ∃ e v', (host perform i).Exits next setting c e v' := by
  have hlog := logsSafely_host perform i
  by_cases states : setting.count = 0
  · exact .inr ⟨_, v, .noStates given states⟩
  have hasked := hd.source _ _ hs hc
  rw [given] at hasked
  cases found : ((host perform i).machine v).state? c.state.toInt with
  | none => exact .inr ⟨_, v, .lost given states found⟩
  | some state =>
      obtain ⟨hx, -⟩ := hd.gives _ _ _ _ _ hs hc given
      have hfound : m.state? c.state.toInt = some state := by
        rwa [hd.host_machine hasked.stays] at found
      obtain ⟨ts, r, v₁, scan⟩ := hd.exists_scan hanswering hfound hx 0 hasked.stays
      have handled : (host perform i).Handles next setting c x rest ts r v₁ :=
        .intro given states found scan
      obtain ⟨hquiet, -, -, howns⟩ := hd.handles hc hs handled
      rcases r with f | _ | ⟨j, t⟩
      · exact .inr ⟨_, v₁, .guardFailed handled⟩
      · obtain ⟨v₂, noted⟩ := hlog.remark setting (.rejected c.state x c.position) v₁
        exact .inr ⟨_, v₂, .rejected handled noted⟩
      rcases performed : (host perform i).performDue x (due setting t v₁) v₁ with
        ⟨(f | _) | ⟨⟩, v₂⟩
      · exact .inr ⟨_, v₂, .actionFailed handled performed⟩
      · have hanswer := performed_ne_stalled hanswering (howns j t rfl) hx hquiet.stays performed
        exact absurd rfl hanswer
      by_cases known : setting.Knows t.target
      · obtain ⟨v₃, noted⟩ := hlog.remark setting (.moved c.state t.target x c.position) v₂
        exact .inl ⟨_, _, .intro handled performed known noted, rfl⟩
      · obtain ⟨v₃, noted⟩ := hlog.record (.unknownTarget j c.state t.target) v₂
        exact .inr ⟨_, v₃, .unknownTarget handled performed known noted⟩

/-- **A run whose source runs out comes to an end**, wherever it stands, by induction on what the
source gives. -/
theorem exists_trail {s : ν} (hout : RunsOut next W s) (hsource : c.source = s) (hc : W c.world)
    (hs : S c.source) (hdetailed : setting.detailed = c.world.threshold.passes .debug) :
    ∃ ps c' e v, (host perform i).Trail next setting c ps c' ∧
      (host perform i).Exits next setting c' e v := by
  induction hout generalizing c with
  | intro answers _ ih =>
      subst hsource
      have hanswer := answers c.world hc
      rcases given : next c.source c.world with ⟨(f | _) | _ | ⟨x, rest⟩, v⟩ <;>
        rw [given] at hanswer
      · exact ⟨[], c, _, v, .nil c, .sourceFailed given⟩
      · exact absurd rfl hanswer
      · exact ⟨[], c, _, v, .nil c, .usedUp given⟩
      rcases hd.exists_move_or_exits hanswering hc hs given with
        ⟨p, c₁, move, hrest⟩ | ⟨e, v', exits⟩
      · obtain ⟨hc₁, hs₁, hthreshold, -⟩ := hd.move hc hs hdetailed move
        obtain ⟨ps, c', e, v', trail, exits⟩ :=
          ih _ hc _ _ _ given hrest hc₁ hs₁ (hdetailed.trans (by rw [hthreshold]))
        exact ⟨p :: ps, c', e, v', .cons move trail, exits⟩
      · exact ⟨[], c, e, v', .nil c, exits⟩

/-- The whole run. -/
theorem exists_course (actions : World → Bool) {source : ν} {w : World}
    (hout : RunsOut next W source) (hw : W w) (hs : S source) :
    ∃ ps c e w', (host perform i).Course next actions source w ps c e w' := by
  obtain ⟨ps, c, e, w', trail, exits⟩ : ∃ ps c e w',
      (host perform i).Trail next ((host perform i).settingAt actions w) (.start source w) ps c ∧
        (host perform i).Exits next ((host perform i).settingAt actions w) c e w' :=
    hd.exists_trail hanswering hout rfl hw hs rfl
  exact ⟨ps, c, e, w', trail, exits⟩

end Ending

end Discreet

/-! ## Runs and their records -/

/-- **The log is a faithful record of the path.** Take any machine with a state, a source of closed
symbols, and callbacks that leave the machine and the threshold alone and make no records, but may
do anything else and may fail. If the source runs out, as a list does, and no callback keeps the run
waiting, the run ends. A run that ends is a course from the start over states that exist, with a
reason to end. Let everything be recorded: then the run has made one record for each transition of
the course, in order, with the position of its symbol, each starting in the target of the one
before; and behind them one for the symbol that was rejected or the target that does not exist, with
what the result says of it, or none if the symbols were used up or a callback failed. Between that
threshold and errors it has made the record of the target that does not exist, and no other. -/
theorem run_records_path {perform : List Command → Effect World Unit}
    {next : Source World ν Value} {i : Nat} {w : World} {W : World → Prop} {S : ν → Prop}
    {source : ν} (actions : World → Bool) (hstates : 0 < (w.machine i).size)
    (hd : Discreet perform next i (w.machine i) W S) (hw : W w) (hs : S source) :
    (RunsOut next W source → Answering perform (w.machine i) W →
      ∃ r w', (host perform i).EndsWith next actions source w r w') ∧
    ∀ {fuel : Nat} {r : Except Fault (Outcome StateId Value Nat)} {w' : World},
      (host perform i).run next fuel actions source w = (r.mapError .fault, w') →
      ∃ ps c e last, (host perform i).Course next actions source w ps c e w' ∧
        (match e with
          | .usedUp => r = .ok (.success c.state) ∧ last = []
          | .rejected x =>
            r = .ok (.failure c.state x c.position c.state) ∧
              last = [rejectionRecord c.state x c.position]
          | .unknownTarget _ k t _ =>
            r = .error (.invalidTarget c.state.toValue (.int k) t.target.toValue
                (.int c.position) (.int (w.machine i).size)) ∧
              last = [strayRecord k c.state t.target]
          | .sourceFailed f | .guardFailed _ f | .actionFailed _ _ _ f => r = .error f ∧ last = []
          | .noStates | .lost => False) ∧
        (w.threshold = .debug → w'.records = w.records ++
          (pathRecords .start 1 (ps.map fun p => (p.symbol, p.transition.target)) ++ last)) ∧
        (w.threshold = .info ∨ w.threshold = .warning ∨ w.threshold = .error →
          w'.records = w.records ++ match e with | .unknownTarget .. => last | _ => []) := by
  have hlog := logsSafely_host perform i
  constructor
  · intro hout hanswering
    obtain ⟨ps, c, e, w', course⟩ := hd.exists_course hanswering actions hout hw hs
    exact ⟨_, w', course.endsWith⟩
  intro fuel r w' hrun
  obtain ⟨ps, c, e, trail, exits, he⟩ := (endsWith_iff hlog).mp (endsWith_of_run hlog hrun)
  obtain ⟨hc, hsource, hthreshold, hpath⟩ := hd.trail hw hs rfl trail
  have hlast := hd.exits hc hsource (by rw [hthreshold]; rfl) exits
  -- What is recorded at any threshold, of which the two cases are instances.
  have hrecords : w'.records = w.records ++ kept w.threshold
      (pathRecords .start 1 (ps.map fun p => (p.symbol, p.transition.target)) ++
        (lastRecord c e).toList) := by
    rw [hlast, hthreshold, hpath, kept_append, ← List.append_assoc]
    rfl
  refine ⟨ps, c, e, (lastRecord c e).toList, ⟨trail, exits⟩, ?_, fun hdebug => ?_,
    fun habove => ?_⟩
  · cases e with
    | noStates =>
        cases exits with
        | noStates _ states => exact Nat.ne_of_gt hstates states
    | lost => exact hd.not_lost hc hsource (trail.knows (Machine.Contains.start hstates)) exits
    | _ => exact ⟨he, rfl⟩
  · rw [hrecords, hdebug, kept_debug]
  · have hdebug : w.threshold.passes .debug = false := by
      rcases habove with h | h | h <;> rw [h] <;> rfl
    have herror : w.threshold.passes .error = true := by
      rcases habove with h | h | h <;> rw [h] <;> rfl
    rw [hrecords, kept_append, kept_pathRecords hdebug, List.nil_append]
    cases e with
    | rejected x => exact congrArg _ (List.filter_cons_of_neg (ne_true_of_eq_false hdebug))
    | unknownTarget => exact congrArg _ (List.filter_cons_of_pos herror)
    | _ => rfl

/-- A corridor of two states, with a transition to a state that does not exist. -/
def corridor : Machine Guard Action :=
  ⟨[⟨.int 0, .bool false, [⟨.number 1, .rule (.equals (.made 0) (.str "a")), some (.trace "in")⟩]⟩,
    ⟨.int 1, .bool true, [⟨.number 0, .rule (.oneOf [.int 1, .str "b"]), none⟩,
      ⟨.number 7, .rule (.equals (.made 1) (.str "c")), some (.trace "out")⟩]⟩]⟩

/-- A session with the corridor that records everything. -/
def corridorWorld : World := { World.initial .debug with machines := #[corridor] }

/-- Three steps through the corridor, and a symbol that is rejected behind them. The run ends there
whatever the fuel, as long as it is enough. -/
theorem corridor_run_records_path :
    ∃ w', (host (fun _ => pure ()) 0).EndsWith .ofList (fun _ => true)
        [.str "a", .int 1, .str "a", .str "a"] corridorWorld
        (.ok (.failure (.number 1) (.str "a") 4 (.number 1))) w' ∧
      w'.records =
        [(.debug, "0 -> 1 on 'a' at position 1"), (.debug, "1 -> 0 on 1 at position 2"),
          (.debug, "0 -> 1 on 'a' at position 3"), (.debug, "state 1 rejected 'a' at position 4")] ∧
      ∃ ps c, (host (fun _ => pure ()) 0).Course .ofList (fun _ => true)
          [.str "a", .int 1, .str "a", .str "a"] corridorWorld ps c (.rejected (.str "a")) w' ∧
        w'.records = pathRecords .start 1 (ps.map fun p => (p.symbol, p.transition.target)) ++
          [rejectionRecord (.number 1) (.str "a") 4] := by
  have hguards : ∀ t, corridor.Owns t → ∃ r, t.guard = .rule r := by
    rintro t ⟨s, hs, ht⟩
    fin_cases hs <;> fin_cases ht <;> exact ⟨_, rfl⟩
  have hactions : ∀ t, corridor.Owns t → ∀ a, t.action = some a → ∃ tag, a = .trace tag := by
    rintro t ⟨s, hs, ht⟩ a ha
    fin_cases hs <;> fin_cases ht <;> cases ha <;> exact ⟨_, rfl⟩
  have hdiscreet : Discreet (fun _ => pure ()) .ofList 0 corridor _ _ :=
    discreet_of_rules hguards hactions
  have hclosed : ∀ x ∈ [Value.str "a", .int 1, .str "a", .str "a"], x.isClosed = true := by decide
  obtain ⟨hends, hpath⟩ :=
    run_records_path (i := 0) (w := corridorWorld) (fun _ => true) Nat.two_pos hdiscreet rfl hclosed
  -- That the run ends is known; how it ends can be computed.
  obtain ⟨r, w', ended⟩ := hends (runsOut_ofList _ _) (answering_of_rules hguards hactions _)
  obtain ⟨w₁, hrun, hrecords⟩ : ∃ w₁, (host (fun _ => pure ()) 0).run .ofList 9 (fun _ => true)
      [.str "a", .int 1, .str "a", .str "a"] corridorWorld =
        ((Except.ok (.failure (.number 1) (.str "a") 4 (.number 1))).mapError .fault, w₁) ∧
      w₁.records =
        [(.debug, "0 -> 1 on 'a' at position 1"), (.debug, "1 -> 0 on 1 at position 2"),
          (.debug, "0 -> 1 on 'a' at position 3"),
          (.debug, "state 1 rejected 'a' at position 4")] := ⟨_, rfl, rfl⟩
  obtain ⟨rfl, rfl⟩ := ended.unique (endsWith_of_run (logsSafely_host _ 0) hrun)
  obtain ⟨ps, c, e, last, course, hend, hdebug, -⟩ := hpath hrun
  refine ⟨w', ended, hrecords, ps, c, ?_⟩
  cases e with
  | rejected x =>
      obtain ⟨hresult, rfl⟩ := hend
      obtain ⟨hstate, rfl, hposition, -⟩ := Outcome.failure.inj (Except.ok.inj hresult)
      have hall := hdebug rfl
      rw [← hstate, ← hposition] at hall
      exact ⟨course, hall⟩
  | noStates | lost => exact hend.elim
  | _ => cases hend.1

end Session

end SymbolMachine
