/-
Machines that lose no text.

Each transition of the machine starts a token with its symbol or extends the last one, and
all go to one collection. Then the collection has gathered exactly the text of the symbols
that were taken, however the run ends. Which symbols these are depends on the end: a symbol
that is rejected was not taken, one that leads to an unknown target was.

Nothing else can go wrong with the tokens but this: the first transition that is taken wants
to extend a token, and the collection has none.
-/
import SymbolMachine.Proofs.Machine.Undisturbed
import SymbolMachine.Proofs.Tokens.Gathering

set_option autoImplicit false

namespace SymbolMachine.Host

open TokenStore

variable {ω γ α ξ : Type}

/-! ## Taken symbols -/

/-- How many of the symbols were taken when a run over all of them ended. -/
def Exit.taken (total : Nat) (c : Config ω (List ξ)) : Exit γ α ξ → Nat
  | usedUp => total
  | unknownTarget .. => c.position
  | _ => c.position - 1

/-- The last symbol, if the run ended behind its transition. -/
def Exit.lastTaken : Exit γ α ξ → List (Transition γ α × ξ)
  | actionFailed x _ t _ | unknownTarget x _ t _ => [(t, x)]
  | _ => []

/-- The transition that was taken on a passage, and its symbol. -/
def Passage.takes (p : Passage γ α ξ) : Transition γ α × ξ := (p.transition, p.symbol)

variable {h : Host ω γ α ξ} {setting : Setting ω}

theorem Trail.source_eq {c c' : Config ω (List ξ)} {ps : List (Passage γ α ξ)}
    (trail : h.Trail .ofList setting c ps c') : c.source = ps.map Passage.symbol ++ c'.source := by
  induction trail with
  | nil => rfl
  | cons move _ ih =>
      obtain ⟨⟨given, -, -, -⟩, -, -, -⟩ := move
      rw [(Source.ofList_eq_some_iff.mp given).1, List.map_cons, List.cons_append, ← ih]

/-- **The symbols that were taken are the first ones**, as many as the end says. -/
theorem Exits.take_taken {xs : List ξ} {w w₁ : ω} {ps : List (Passage γ α ξ)}
    {c : Config ω (List ξ)} {e : Exit γ α ξ}
    (trail : h.Trail .ofList setting (.start xs w) ps c) (exits : h.Exits .ofList setting c e w₁)
    (he : ∀ x i t f, e ≠ .actionFailed x i t f) :
    xs.take (e.taken xs.length c) = (ps.map Passage.takes ++ e.lastTaken).map Prod.snd := by
  have hsource : xs = ps.map Passage.symbol ++ c.source := trail.source_eq
  have hposition : c.position = 1 + ps.length := trail.position_eq
  have htakes : (ps.map Passage.takes).map Prod.snd = ps.map Passage.symbol := by
    rw [List.map_map]
    rfl
  have hlength : (ps.map Passage.symbol).length = ps.length := List.length_map _
  -- Up to the last symbol they are those of the passages.
  have hways : xs.take (c.position - 1) = ps.map Passage.symbol := by
    rw [hposition, Nat.add_sub_cancel_left, ← hlength]
    conv_lhs => rw [hsource]
    exact List.take_left
  rw [List.map_append, htakes]
  cases exits with
  | usedUp given =>
      rw [(Source.ofList_eq_none_iff.mp given).1] at hsource
      exact List.take_length.trans hsource
  | sourceFailed given => exact absurd given Source.ofList_ne_error
  | noStates | lost | guardFailed | rejected => exact hways.trans (List.append_nil _).symm
  | actionFailed => exact absurd rfl (he _ _ _ _)
  | @unknownTarget x _ _ _ _ _ _ _ handled =>
      obtain ⟨given, -, -, -⟩ := handled
      rw [(Source.ofList_eq_some_iff.mp given).1] at hsource
      change xs.take c.position = ps.map Passage.symbol ++ [x]
      rw [hposition, Nat.add_comm, ← hlength]
      conv_lhs => rw [hsource]
      exact List.take_length_add_append 1

/-! ## Machines that gather -/

variable {h : Host ω γ α Value} {m : Machine γ α} {symbols : List Value}
  {tokens : ω → TokenStore} {c : CollectionId} {edit : Transition γ α → Gathering}

/-- The action of each transition gathers its symbol in one collection, and leaves the machine
as it is. -/
def Gathers (h : Host ω γ α Value) (m : Machine γ α) (symbols : List Value)
    (tokens : ω → TokenStore) (c : CollectionId) (edit : Transition γ α → Gathering) : Prop :=
  ∀ t, m.Owns t → ∃ a, t.action = some a ∧ ∀ x ∈ symbols, ∀ v, h.machine v = m →
    (h.perform a x v).1 = ((edit t).perform c x (tokens v)).1 ∧
    tokens (h.perform a x v).2 = ((edit t).perform c x (tokens v)).2 ∧
    h.machine (h.perform a x v).2 = m

theorem Gathers.tameActions (hgathers : h.Gathers m symbols tokens c edit) :
    h.TameActions m symbols := by
  intro t ht a ha x hx v hv
  obtain ⟨b, hb, hperform⟩ := hgathers t ht
  obtain rfl : b = a := Option.some.inj (hb.symm.trans ha)
  obtain ⟨hanswer, -, hmachine⟩ := hperform x hx v hv
  refine ⟨?_, hmachine⟩
  rw [hanswer]
  exact (edit t).settles_perform c x (tokens v)

/-- What the action of a transition does with its symbol. -/
def gatheringOf (edit : Transition γ α → Gathering) (r : Transition γ α × Value) :
    Gathering × String := (edit r.1, r.2.shown)

section Steps

variable (hgathers : h.Gathers m symbols tokens c edit) (hsteady : ∀ x ∈ symbols, x.Steady)
  (hall : setting.actions = fun _ => true)
include hgathers hsteady hall

/-- The action of a transition that is taken gathers the symbol, unless it is to extend the
last of no tokens. -/
theorem Gathers.of_performDue {t : Transition γ α} (ht : m.Owns t) {x : Value} (hx : x ∈ symbols)
    {v v' : ω} (hv : h.machine v = m) {r : Except Stop Unit}
    (performed : h.performDue x (due setting t v) v = (r, v')) {s₀ : TokenStore}
    {is js : List Nat} {ts : List Piece} (hts : s₀.Gathered c is (tokens v) js ts) :
    h.machine v' = m ∧
      (StartsBare ts [gatheringOf edit (t, x)] →
        r = .error (.fault .emptyCollection) ∧ tokens v' = tokens v) ∧
      (¬StartsBare ts [gatheringOf edit (t, x)] → r = .ok () ∧
        ∃ js', s₀.Gathered c is (tokens v') js' (gather ts [gatheringOf edit (t, x)])) := by
  obtain ⟨a, ha, hperform⟩ := hgathers t ht
  obtain ⟨hanswer, htokens, hmachine⟩ := hperform x hx v hv
  have hdue : due setting t v = some a := by rw [due, hall, if_pos rfl, ha]
  have heq : h.perform a x v = (r, v') := by
    rw [hdue] at performed
    exact performed
  rw [heq] at hanswer htokens hmachine
  simp only at hanswer htokens hmachine
  refine ⟨hmachine, ?_, fun hbare => ?_⟩
  · rintro ⟨rfl, _, hextend⟩
    have hedit : edit t = .extend := congrArg Prod.fst (Option.some.inj hextend)
    have hempty := hts.holds.perform_extend_nil x
    rw [hanswer, htokens, hedit, hempty]
    exact ⟨rfl, rfl⟩
  · obtain ⟨s', js', hdone, hgathered⟩ :=
      hts.exists_perform (hsteady x hx) (not_startsBare_cons_iff.mp hbare)
    rw [hanswer, htokens, hdone]
    exact ⟨rfl, js', hgathered⟩

variable (hguards : h.PureGuards m symbols) (hnotes : h.SafeNotes m)
  (hspare : h.NotesSpare tokens)
include hguards hspare

/-- What the collection has gathered on the way. -/
theorem Trail.gathered (hnotes : h.SafeNotes m) {d d' : Config ω (List Value)}
    {ps : List (Passage γ α Value)} (trail : h.Trail .ofList setting d ps d')
    (hd : h.machine d.world = m) (hsymbols : d.source ⊆ symbols) {s₀ : TokenStore}
    {is js : List Nat} {ts : List Piece} (hts : s₀.Gathered c is (tokens d.world) js ts) :
    ¬StartsBare ts ((ps.map Passage.takes).map (gatheringOf edit)) ∧
      (∃ js', s₀.Gathered c is (tokens d'.world) js'
        (gather ts ((ps.map Passage.takes).map (gatheringOf edit)))) ∧
      h.machine d'.world = m ∧ d'.source ⊆ symbols := by
  induction trail generalizing js ts with
  | nil => exact ⟨by rintro ⟨-, _, ⟨⟩⟩, ⟨js, hts⟩, hd, hsymbols⟩
  | @cons c₀ c₁ c₂ p ps move _ ih =>
      obtain ⟨handled, performed, -, noted⟩ := move
      obtain ⟨hsource, hx, rfl, howns, -⟩ := handled.of_pureGuards hguards hd hsymbols
      obtain ⟨hmachine, hfails, hworks⟩ :=
        hgathers.of_performDue hsteady hall (howns _ _ rfl) hx hd performed hts
      have hbare := mt hfails (by rintro ⟨⟨⟩, -⟩)
      obtain ⟨-, js', hgathered⟩ := hworks hbare
      rw [← hspare.of_remark noted] at hgathered
      have hrest := (List.cons_subset.mp (hsource ▸ hsymbols)).2
      obtain ⟨hbare', hgathered', hd', hsource'⟩ :=
        ih (hnotes.of_remark hmachine noted) hrest hgathered
      refine ⟨not_startsBare_append_iff.mpr ⟨hbare, hbare'⟩, ?_, hd', hsource'⟩
      rw [← gather_append] at hgathered'
      exact hgathered'

/-- What the collection has gathered in the end. -/
theorem Exits.gathered {d : Config ω (List Value)} {e : Exit γ α Value} {v : ω}
    (exits : h.Exits .ofList setting d e v) (hd : h.machine d.world = m)
    (hsymbols : d.source ⊆ symbols) {s₀ : TokenStore} {is js : List Nat} {ts : List Piece}
    (hts : s₀.Gathered c is (tokens d.world) js ts) :
    (StartsBare ts (e.lastTaken.map (gatheringOf edit)) →
      (∃ x i t, e = .actionFailed x i t .emptyCollection) ∧ tokens v = tokens d.world) ∧
    (¬StartsBare ts (e.lastTaken.map (gatheringOf edit)) →
      (∀ x i t f, e ≠ .actionFailed x i t f) ∧
      ∃ js', s₀.Gathered c is (tokens v) js' (gather ts (e.lastTaken.map (gatheringOf edit)))) := by
  -- Most ends take no symbol, and leave the tokens as they are.
  have hidle : ∀ {e : Exit γ α Value}, e.lastTaken = [] → tokens v = tokens d.world →
      (StartsBare ts (e.lastTaken.map (gatheringOf edit)) →
        (∃ x i t, e = .actionFailed x i t .emptyCollection) ∧ tokens v = tokens d.world) ∧
      (¬StartsBare ts (e.lastTaken.map (gatheringOf edit)) →
        (∀ x i t f, e ≠ .actionFailed x i t f) ∧
        ∃ js', s₀.Gathered c is (tokens v) js'
          (gather ts (e.lastTaken.map (gatheringOf edit)))) := by
    intro e hlast htokens
    rw [hlast, htokens]
    refine ⟨by rintro ⟨-, _, ⟨⟩⟩, fun _ => ⟨?_, js, hts⟩⟩
    rintro x i t f rfl
    cases hlast
  cases exits with
  | usedUp given => exact hidle rfl (congrArg tokens (Source.ofList_eq_none_iff.mp given).2)
  | sourceFailed given => exact absurd given Source.ofList_ne_error
  | noStates given | lost given =>
      exact hidle rfl (congrArg tokens (Source.ofList_eq_some_iff.mp given).2)
  | guardFailed handled =>
      obtain ⟨-, -, rfl, -, -⟩ := handled.of_pureGuards hguards hd hsymbols
      exact hidle rfl rfl
  | rejected handled noted =>
      obtain ⟨-, -, rfl, -, -⟩ := handled.of_pureGuards hguards hd hsymbols
      exact hidle rfl (hspare.of_remark noted)
  | actionFailed handled performed =>
      obtain ⟨-, hx, rfl, howns, -⟩ := handled.of_pureGuards hguards hd hsymbols
      obtain ⟨-, hfails, hworks⟩ :=
        hgathers.of_performDue hsteady hall (howns _ _ rfl) hx hd performed hts
      refine ⟨fun hbare => ?_, fun hbare => ?_⟩
      · obtain ⟨⟨⟩, htokens⟩ := hfails hbare
        exact ⟨⟨_, _, _, rfl⟩, htokens⟩
      · cases (hworks hbare).1
  | unknownTarget handled performed _ noted =>
      obtain ⟨-, hx, rfl, howns, -⟩ := handled.of_pureGuards hguards hd hsymbols
      obtain ⟨-, hfails, hworks⟩ :=
        hgathers.of_performDue hsteady hall (howns _ _ rfl) hx hd performed hts
      rw [← hspare.of_record noted] at hworks
      refine ⟨fun hbare => ?_, fun hbare => ⟨nofun, (hworks hbare).2⟩⟩
      cases (hfails hbare).1

end Steps

/-! ## Whole runs -/

/-- **A machine that gathers loses no text.** Take pure guards, and a collection that holds some
pieces, and let the action of every transition start a token of the collection with its symbol
or extend the last one. A run over steady symbols ends. If its first transition is to extend a
token and there is none, it ends with that fault and leaves the tokens as they are. Otherwise no
action raises, and however the run ends, the pieces have grown by the text of the symbols that
were taken: all of them in a success, those before the position in a failure, those up to the
position where a target is unknown. There is one token more for each that was started, of the
kind with which it was started. Nothing that was there has changed but the lexeme of the token
that was the last. -/
theorem run_lossless {xs : List Value} (hguards : h.PureGuards m xs)
    (hgathers : h.Gathers m xs tokens c edit) (hsteady : ∀ x ∈ xs, x.Steady)
    (hnotes : h.SafeNotes m) (hspare : h.NotesSpare tokens) {w : ω} (hw : h.machine w = m)
    {is : List Nat} {ts : List Piece} (hts : (tokens w).Holds c is ts) :
    let setting := h.settingAt (fun _ => true) w
    (∃ ps d e w₁, h.Trail .ofList setting (.start xs w) ps d ∧
      h.Exits .ofList setting d e w₁) ∧
    ∀ {ps d e w₁}, h.Trail .ofList setting (.start xs w) ps d → h.Exits .ofList setting d e w₁ →
      let steps := (ps.map Passage.takes ++ e.lastTaken).map (gatheringOf edit)
      h.EndsWith .ofList (fun _ => true) xs w (e.result m.size d) w₁ ∧
      (StartsBare ts steps →
        e.result m.size d = .error .emptyCollection ∧ tokens w₁ = tokens w) ∧
      (¬StartsBare ts steps →
        (∀ x i t f, e ≠ .actionFailed x i t f) ∧
        (∃ js, (tokens w).Gathered c is (tokens w₁) js (gather ts steps)) ∧
        Piece.textOf (gather ts steps) =
          Piece.textOf ts ++ String.join ((xs.take (e.taken xs.length d)).map Value.shown) ∧
        (gather ts steps).length = ts.length + steps.countP (·.1.starts) ∧
        (gather ts steps).map Piece.kind = ts.map Piece.kind ++ steps.flatMap (·.1.kinds)) := by
  intro setting
  refine ⟨exists_course hguards hgathers.tameActions hnotes setting (List.Subset.refl xs) .start 1
    hw, ?_⟩
  intro ps d e w₁ trail exits steps
  have hsize : setting.count = m.size := by rw [← hw]; rfl
  have hsteps : steps = (ps.map Passage.takes).map (gatheringOf edit) ++
      e.lastTaken.map (gatheringOf edit) := List.map_append
  obtain ⟨hway, ⟨js, hgathered⟩, hd, hsource⟩ := trail.gathered hgathers hsteady rfl hguards hspare
    hnotes hw (List.Subset.refl xs) (.refl hts)
  obtain ⟨hfails, hworks⟩ :=
    exits.gathered hgathers hsteady rfl hguards hspare hd hsource hgathered
  refine ⟨?_, fun hbare => ?_, fun hbare => ?_⟩
  · rw [← hsize]
    exact trail.drive_eq_of_exits exits
  · -- The way is empty, since behind a passage there is a last piece.
    have hlast : StartsBare (gather ts ((ps.map Passage.takes).map (gatheringOf edit)))
        (e.lastTaken.map (gatheringOf edit)) := by
      by_contra hlast
      exact (hsteps ▸ not_startsBare_append_iff.mpr ⟨hway, hlast⟩) hbare
    have hempty : ps = [] := by
      by_contra hne
      refine gather_ne_nil hway (.inr ?_) hlast.1
      simpa using hne
    obtain ⟨⟨x, i, t, rfl⟩, htokens⟩ := hfails hlast
    subst hempty
    cases trail
    exact ⟨rfl, htokens⟩
  · obtain ⟨-, hlast⟩ := not_startsBare_append_iff.mp (hsteps ▸ hbare)
    obtain ⟨he, js', hgathered'⟩ := hworks hlast
    rw [← gather_append, ← hsteps] at hgathered'
    refine ⟨he, ⟨js', hgathered'⟩, ?_, length_gather hbare, kinds_gather hbare⟩
    rw [textOf_gather hbare, exits.take_taken trail he, List.map_map, List.map_map]
    rfl

/-- A world with a machine and a store, in whose first collection text is gathered. -/
def gatherer : Host (Machine (Value → Bool) Gathering × TokenStore) (Value → Bool) Gathering
    Value where
  machine w := w.1
  test g x := pure (g x)
  perform a x w := ((a.perform 0 x w.2).1, (w.1, (a.perform 0 x w.2).2))
  record _ := pure ()
  detailed _ := false

theorem gatherer_gathers {m : Machine (Value → Bool) Gathering}
    (hm : ∀ t, m.Owns t → t.action ≠ none) (symbols : List Value) :
    gatherer.Gathers m symbols Prod.snd 0 fun t => t.action.getD .extend := by
  intro t ht
  obtain ⟨a, ha⟩ := Option.ne_none_iff_exists'.mp (hm t ht)
  refine ⟨a, ha, fun x _ v hv => ?_⟩
  simp only [ha]
  exact ⟨rfl, rfl, hv⟩

/-- The string of one exclamation mark. -/
def isMark : Value → Bool
  | .str text => text == "!"
  | _ => false

/-- A machine that starts a token with a mark, and then wants to leave for a state that does not
exist. Everything else extends the last token. -/
def markingMachine : Machine (Value → Bool) Gathering :=
  ⟨[⟨.int 0, .bool true,
    [⟨.number 9, isMark, some (.emit .null)⟩, ⟨.number 0, fun _ => true, some .extend⟩]⟩]⟩

/-- The mark is gathered although its transition leads nowhere. -/
theorem gatherer_run_lossless :
    let s : TokenStore := ⟨#[⟨.bool true, .str "s"⟩], #[#[.shared (.token 0)]], []⟩
    let gathered := gather [⟨.bool true, "s"⟩] [(.extend, "a"), (.emit .null, "!")]
    ∃ s₁ js, gatherer.EndsWith .ofList (fun _ => true) [.str "a", .str "!"] (markingMachine, s)
        (.error (.invalidTarget (.int 0) (.int 0) (.int 9) (.int 2) (.int 1)))
        (markingMachine, s₁) ∧
      s.Gathered 0 [0] s₁ js gathered ∧ Piece.textOf gathered = "s" ++ String.join ["a", "!"] := by
  intro s gathered
  have hactions : ∀ t, markingMachine.Owns t → t.action ≠ none := by
    rintro t ⟨state, hstate, ht⟩
    obtain rfl := List.mem_singleton.mp hstate
    rcases List.mem_pair.mp ht with rfl | rfl <;> exact nofun
  have hsteady : ∀ x ∈ [Value.str "a", .str "!"], x.Steady := by
    intro x hx
    rcases List.mem_pair.mp hx with rfl | rfl <;> exact ⟨rfl, nofun⟩
  have hts : s.Holds 0 [0] [⟨.bool true, "s"⟩] :=
    ⟨Nat.one_pos, rfl, List.nodup_singleton 0, rfl⟩
  have hguards : gatherer.PureGuards markingMachine [.str "a", .str "!"] :=
    fun t _ x _ => ⟨.ok (t.guard x), fun _ _ => rfl⟩
  obtain ⟨-, hends⟩ := run_lossless (w := (markingMachine, s)) hguards
    (gatherer_gathers hactions _) hsteady (fun _ v hv => ⟨v, rfl, hv⟩) (fun _ _ => rfl) rfl hts
  have first : gatherer.Move .ofList ⟨1, false, fun _ => true⟩
      (.start [.str "a", .str "!"] (markingMachine, s))
      ⟨.start, 1, .str "a", 1, ⟨.number 0, fun _ => true, some .extend⟩, some .extend⟩
      ⟨.number 0, 2, [.str "!"], (markingMachine, s.setLexeme 0 (.str ("s" ++ "a")))⟩ :=
    .intro (.intro rfl Nat.one_ne_zero rfl (.refused rfl rfl (.accepted rfl rfl))) rfl (by decide)
      rfl
  have last : gatherer.Exits .ofList ⟨1, false, fun _ => true⟩
      ⟨.number 0, 2, [.str "!"], (markingMachine, s.setLexeme 0 (.str ("s" ++ "a")))⟩
      (.unknownTarget (.str "!") 0 ⟨.number 9, isMark, some (.emit .null)⟩ (some (.emit .null)))
      _ :=
    .unknownTarget (.intro rfl Nat.one_ne_zero rfl (.accepted rfl rfl)) rfl (by decide) rfl
  obtain ⟨hrun, -, hlossless⟩ := hends (.cons first (.nil _)) last
  obtain ⟨-, ⟨js, hgathered⟩, htext, -⟩ := hlossless (by rintro ⟨⟨⟩, -⟩)
  exact ⟨_, js, hrun, hgathered, htext⟩

end SymbolMachine.Host
