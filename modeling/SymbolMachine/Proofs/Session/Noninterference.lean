/-
Levels do not influence what a session does.

Take two worlds that differ in their levels and logs only, and two programs that differ in the
levels that they set. Both do the same to the plain part of a world, so they answer the same and
leave worlds that again differ in levels and logs only. This holds for any amount of fuel, so
neither of them ends where the other one does not, and it holds within callbacks, at any depth.

The calls of callbacks are looked at in three ways. Traces that callbacks leave, the items that
scripts give and the answers to commands of callbacks are among the events of a world, whoever
runs them. For each run and each scan there is the diary of all its calls. And a callback that
performs commands, at any depth, finds the same world at the same moment.
-/
import SymbolMachine.Proofs.Session.Frame
import SymbolMachine.Proofs.Session.Mirror

set_option autoImplicit false

namespace SymbolMachine.Session

open Effect (Mirrors)

/-! ## Runs and scans with their calls -/

/-- The calls of callbacks, in the order in which they are made. -/
abbrev Diary := List (Host.Call Guard Action Value)

/-- A world with a diary, without its log: calls are those of plain callbacks. -/
def plainDiary : World × Diary → World × Diary :=
  Mirrors.beside World.plain (Host.Call.map Guard.plain Action.plain)

section Watched

variable (perform : List Command → Effect World Unit) (fuel : Nat)

/-- A run of a machine of the session, with its calls in a diary. -/
def watchedRun (m : Nat) (actions : Value) (source : Supply) :
    Effect (World × Diary) (Outcome StateId Value Nat) :=
  (host perform m).traced.run (Supply.next perform).traced fuel
    (fun v => (v.1.tokens.read actions).truthy) source

/-- A run that is only asked whether it accepts. -/
def watchedAccepts (m : Nat) (source : Supply) : Effect (World × Diary) Value :=
  (host perform m).traced.accepts (Supply.next perform).traced fuel source

/-- The search of a state for a transition; answers its place and its target. -/
def watchedScan (p : StatePlace) (x : Value) : Effect (World × Diary) (Option (Nat × StateId)) :=
  Option.map (fun (i, t) => (i, t.target)) <$>
    firstMatch (fun v => v.1.transitionsAt p)
      (fun g x => (admits perform g x).recorded fun r => [.asked g x r]) x fuel 0

end Watched

section Parts

variable {perform : List Command → Effect World Unit}
  (hp : ∀ cs, Mirrors World.plain id (perform cs) (perform (plainCommands cs)))

include hp

theorem mirrors_watchedRun (fuel m : Nat) (actions : Value) (source : Supply) :
    Mirrors plainDiary id (watchedRun perform fuel m actions source)
      (watchedRun perform fuel m actions source.plain) :=
  (host_mirrors hp m).traced.run (mirrors_next hp).traced fuel (fun _ => rfl) source

theorem mirrors_watchedAccepts (fuel m : Nat) (source : Supply) :
    Mirrors plainDiary id (watchedAccepts perform fuel m source)
      (watchedAccepts perform fuel m source.plain) :=
  (host_mirrors hp m).traced.accepts (mirrors_next hp).traced fuel source

theorem mirrors_watchedScan (fuel : Nat) (p : StatePlace) (x : Value) :
    Mirrors plainDiary id (watchedScan perform fuel p x) (watchedScan perform fuel p x) := by
  have hlist : ∀ v : World × Diary,
      (plainDiary v).1.transitionsAt p = (v.1.transitionsAt p).map plainTransition :=
    fun v => v.1.transitionsAt_plain p
  refine .map (mirrors_firstMatch hlist (host_mirrors hp 0).traced.test x fuel 0) fun found => ?_
  cases found <;> rfl

/-- The diary is about the run itself, which answers the same without it. -/
theorem watchedRun_answer (fuel m : Nat) (actions : Value) (source : Supply) (v : World × Diary) :
    (watchedRun perform fuel m actions source v).1 =
      ((host perform m).run (Supply.next perform) fuel
        (fun w => (w.tokens.read actions).truthy) source v.1).1 := by
  let mirror := (host perform m).run (Supply.next perform) fuel
    (fun w => (w.tokens.read actions).truthy) source.plain
  have hwatched : Mirrors (fun v : World × Diary => v.1.plain) id
      (watchedRun perform fuel m actions source) mirror :=
    (host_mirrors hp m).untraced.run (mirrors_next hp).untraced fuel (fun _ => rfl) source
  have hrun : Mirrors World.plain id ((host perform m).run (Supply.next perform) fuel
      (fun w => (w.tokens.read actions).truthy) source) mirror :=
    (host_mirrors hp m).run (mirrors_next hp) fuel (fun _ => rfl) source
  exact (hwatched.alike hrun rfl).1

end Parts

/-! ## Sessions -/

/-- What is shown of a step, without its log. -/
def StepAnswer.unlogged (a : StepAnswer) : StepAnswer :=
  { a with events := Session.unlogged a.events }

theorem collectionName?_plain (c : Command) : c.plain.collectionName? = c.collectionName? := by
  cases c <;> rfl

/-- A step and its mirror show the same without the log. -/
theorem step_plain (c : Command) (w : World) :
    step c.plain w.plain = ((step c w).1.unlogged, (step c w).2.plain) := by
  have hmirror := mirrors_execute patience c { w with events := [] }
  rw [Effect.map_id_except] at hmirror
  have hstart : ({ w.plain with events := [] } : World) = World.plain { w with events := [] } := rfl
  unfold step
  rw [hstart, hmirror, collectionName?_plain]
  rcases execute patience c { w with events := [] } with ⟨answer, w'⟩
  simp only [StepAnswer.unlogged, unlogged, World.plain, List.filter_reverse]
  rfl

theorem steps_plain (cs : List Command) (w : World) :
    steps (plainCommands cs) w.plain = (steps cs w).map StepAnswer.unlogged := by
  induction cs generalizing w with
  | nil =>
      rw [plainCommands]
      rfl
  | cons c cs ih =>
      rw [plainCommands, steps, step_plain, steps, List.map_cons]
      exact congrArg _ (ih (step c w).2)

/-! ## Moments -/

/-- What can be told of a moment without the log. -/
def TellsPlain (moment : List Command → World → Bool) : Prop :=
  ∀ cs w, moment (plainCommands cs) w.plain = moment cs w

theorem mirrors_executeUntil {moment : List Command → World → Bool} (hm : TellsPlain moment)
    (fuel : Nat) (c : Command) :
    Mirrors World.plain id (executeUntil moment fuel c) (executeUntil moment fuel c.plain) := by
  induction fuel generalizing c with
  | zero => exact .stall id
  | succ fuel ih =>
      refine (mirrors_executeWith (fun cs => ?_) fuel c).mapFault _
      exact (mirrors_nest ih cs).stopAt (hm cs)

/-! ## Two levels -/

/-- The same answer, in worlds that differ in levels and logs only. -/
def Alike {β : Type} (r r' : Except Stop β × World) : Prop := r.1 = r'.1 ∧ r.2.plain = r'.2.plain

/-- And the same calls, in the same order and with the same answers. -/
def AlikeCalls {β : Type} (r r' : Except Stop β × (World × Diary)) : Prop :=
  r.1 = r'.1 ∧ plainDiary r.2 = plainDiary r'.2

section TwoLevels

variable {w w' : World} (same : w.plain = w'.plain) (fuel : Nat)

include same

theorem execute_alike {c c' : Command} (hc : c.plain = c'.plain) :
    Alike (execute fuel c w) (execute fuel c' w') := by
  have hmirror := mirrors_execute fuel c'
  rw [← hc] at hmirror
  exact (mirrors_execute fuel c).alike hmirror same

theorem executeUntil_alike {moment : List Command → World → Bool} (hm : TellsPlain moment)
    {c c' : Command} (hc : c.plain = c'.plain) :
    Alike (executeUntil moment fuel c w) (executeUntil moment fuel c' w') := by
  have hmirror := mirrors_executeUntil hm fuel c'
  rw [← hc] at hmirror
  exact (mirrors_executeUntil hm fuel c).alike hmirror same

theorem nest_alike {cs cs' : List Command} (hcs : plainCommands cs = plainCommands cs') :
    Alike (nest (execute fuel) cs w) (nest (execute fuel) cs' w') := by
  have hmirror := mirrors_nest (mirrors_execute fuel) cs'
  rw [← hcs] at hmirror
  exact (mirrors_nest (mirrors_execute fuel) cs).alike hmirror same

omit fuel in
theorem steps_unlogged_eq {cs cs' : List Command} (hcs : plainCommands cs = plainCommands cs') :
    (steps cs w).map StepAnswer.unlogged = (steps cs' w').map StepAnswer.unlogged := by
  rw [← steps_plain, ← steps_plain, hcs, same]

theorem watched_alike {β : Type} {e : Supply → Effect (World × Diary) β}
    (he : ∀ s, Mirrors plainDiary id (e s) (e s.plain)) {s s' : Supply} (hs : s.plain = s'.plain) :
    AlikeCalls (e s (w, [])) (e s' (w', [])) := by
  have hmirror := he s'
  rw [← hs] at hmirror
  have hstart : plainDiary (w, []) = plainDiary (w', []) := congrArg (fun v => (v, [])) same
  exact (he s).alike hmirror hstart

end TwoLevels

/-- **Levels do not influence what a session does.** Take two worlds that are the same without
their logs and levels, and any amount of fuel. A command, a program of a callback or a whole
session answers the same in both, also if another level is written where it sets one, and leaves
worlds that are again the same without logs and levels: the faults, machines and collections are
the same, and so are the traces of callbacks, down to those of nested runs. Every moment at which
a callback is about to perform commands, at any depth, comes up in both, and the worlds are the
same at it. Every run, with whatever is left of its source, and every scan makes the same calls
with the same answers in the same order. -/
theorem levels_leave_no_mark {w w' : World} (same : w.plain = w'.plain) (fuel : Nat) :
    (∀ c c' : Command, c.plain = c'.plain →
      Alike (execute fuel c w) (execute fuel c' w') ∧
        ∀ moment, TellsPlain moment →
          Alike (executeUntil moment fuel c w) (executeUntil moment fuel c' w')) ∧
    (∀ cs cs' : List Command, plainCommands cs = plainCommands cs' →
      Alike (nest (execute fuel) cs w) (nest (execute fuel) cs' w') ∧
        (steps cs w).map StepAnswer.unlogged = (steps cs' w').map StepAnswer.unlogged) ∧
    (∀ s s' : Supply, s.plain = s'.plain → ∀ (m : Nat) (actions : Value),
      AlikeCalls (watchedRun (nest (execute fuel)) fuel m actions s (w, []))
          (watchedRun (nest (execute fuel)) fuel m actions s' (w', [])) ∧
        AlikeCalls (watchedAccepts (nest (execute fuel)) fuel m s (w, []))
          (watchedAccepts (nest (execute fuel)) fuel m s' (w', []))) ∧
    ∀ (p : StatePlace) (x : Value),
      AlikeCalls (watchedScan (nest (execute fuel)) fuel p x (w, []))
        (watchedScan (nest (execute fuel)) fuel p x (w', [])) := by
  have hp := mirrors_nest (mirrors_execute fuel)
  refine ⟨fun c c' hc => ?_, fun cs cs' hcs => ?_, fun s s' hs m actions => ?_, fun p x => ?_⟩
  · exact ⟨execute_alike same fuel hc, fun moment hm => executeUntil_alike same fuel hm hc⟩
  · exact ⟨nest_alike same fuel hcs, steps_unlogged_eq same hcs⟩
  · exact ⟨watched_alike same (fun s => mirrors_watchedRun hp fuel m actions s) hs,
      watched_alike same (fun s => mirrors_watchedAccepts hp fuel m s) hs⟩
  · have hscan := mirrors_watchedScan hp fuel p x
    exact watched_alike same (s := .items []) (fun _ => hscan) rfl

/-- A world with one state, whose guard sets the level and accepts. -/
def levelling (level : Level) : World :=
  { World.initial level with
    machines := #[⟨[⟨.int 0, .bool true,
      [⟨.start, .perform [.setThreshold level] (.literal (.bool true)), none⟩]⟩]⟩] }

/-- Runs the machine on two symbols; the source sets the level, too. -/
def levellingRun (level : Level) : List Command :=
  [.run "m" (.script [.perform [.setThreshold level], .give (.literal (.int 7)),
    .give (.literal (.int 8))]) none false]

/-- Two runs that log differently and are otherwise the same. -/
theorem levellingRun_alike :
    Alike (nest (execute 6) (levellingRun .debug) (levelling .debug))
        (nest (execute 6) (levellingRun .critical) (levelling .critical)) ∧
      (nest (execute 6) (levellingRun .debug) (levelling .debug)).2.events.length = 9 ∧
      (nest (execute 6) (levellingRun .critical) (levelling .critical)).2.events.length = 7 := by
  have same : (levelling .debug).plain = (levelling .critical).plain := by
    simp only [World.plain, levelling, List.map_toArray, List.map_cons, List.map_nil]
    rfl
  have program : plainCommands (levellingRun .debug) = plainCommands (levellingRun .critical) := rfl
  exact ⟨((levels_leave_no_mark same 6).2.1 _ _ program).1, by decide +kernel, by decide +kernel⟩

end SymbolMachine.Session
