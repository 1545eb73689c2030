/-
Rules and transitions as keys.

A set looks for a member by its hash, so what is equal has to have one hash. For rules this is so
whatever they compare with: a rule always has a hash, and rules that are equal have values that are
the same, which have one hash or none at all (`Rule.exists_hash_of_same`). A transition is hashed by
its three fields, and has a hash if its action has one. A survey counts the members of a set of
rules by their equality alone, and that is what a set with hashes comes to.

What the runtime hashes like what is left to it. Of actions it is only assumed that those which are
the same have one hash, if they have any.
-/
import SymbolMachine.Proofs.Value.Hashing
import SymbolMachine.Proofs.Value.Membership
import SymbolMachine.Session.Survey

set_option autoImplicit false

namespace SymbolMachine

variable {γ α : Type} {h : Hasher}

/-! ## Surveys -/

namespace Session

/-- Parts have hashes if no part keeps them from being keys, and otherwise the same fault is
raised. -/
theorem hashParts_eq (h : Hasher) {parts : List Value} (hclosed : Value.allClosed parts = true) :
    hashParts parts = (fun _ => ()) <$> Value.hashes h parts := by
  rcases Value.hashes_cases h parts with ⟨ns, hns, hkeys⟩ | ⟨typeName, hfault, hkeys⟩
  · rw [hashParts, hkeys, hns]
    rfl
  · rw [hashParts, hkeys hclosed, hfault]
    rfl

/-- Who asks for equality only where keys agree misses no member if what is equal has one key. -/
theorem distinctCount_of_key {β κ : Type} [DecidableEq κ] (key : β → κ) {eq : β → β → Bool}
    {xs : List β} (hkey : ∀ x ∈ xs, ∀ y ∈ xs, eq x y = true → key x = key y) :
    distinctCount (fun x y => decide (key x = key y) && eq x y) xs = distinctCount eq xs := by
  induction xs with
  | nil => rfl
  | cons x xs ih =>
      have hrest := ih fun y hy z hz => hkey y (.tail _ hy) z (.tail _ hz)
      have hany : (xs.any fun y => decide (key x = key y) && eq x y) = xs.any (eq x) := by
        rw [Bool.eq_iff_iff]
        simp only [List.any_eq_true, Bool.and_eq_true, decide_eq_true_eq]
        exact exists_congr fun y => and_congr_right fun hy =>
          and_iff_right_of_imp (hkey x (.head _) y (.tail _ hy))
      simp only [distinctCount, hany, hrest]

/-- **A set of rules has as many members as their equality alone makes out**, although it asks for
equality only where hashes agree. -/
theorem distinctCount_hash (h : Hasher) (s : TokenStore) {contents : Identity → Value}
    {rs : List Rule} (hrs : ∀ r ∈ rs, (s.whole r.toValue).Coherent contents) :
    distinctCount (fun r r' => decide ((r.hash h s).toOption = (r'.hash h s).toOption) &&
      Guard.eq s (.rule r) (.rule r')) rs =
      distinctCount (fun r r' => Guard.eq s (.rule r) (.rule r')) rs := by
  refine distinctCount_of_key _ fun r hr r' hr' heq => ?_
  obtain ⟨n, hn, hn'⟩ := Rule.exists_hash_of_same h (hrs r hr) (hrs r' hr') (s.same_of_eq heq)
  rw [hn, hn']

end Session

/-! ## Transitions -/

theorem StateId.hash_toValue (h : Hasher) (i : StateId) :
    i.toValue.hash h = .ok (h.number (.ofInt i.toInt)) := by
  cases i <;> rfl

/-- Targets are the same if they are one number. -/
theorem StateId.toInt_eq_of_same {i j : StateId} (hsame : i.toValue.same j.toValue = true) :
    i.toInt = j.toInt := by
  have hsize : ∀ m n : Int, (Quantity.ofInt m).eq (.ofInt n) = true → m = n := by
    intro m n hmn
    have heq : Dyadic.ofInt m = Dyadic.ofInt n := of_decide_eq_true hmn
    have hrat : ∀ k : Int, (Dyadic.ofInt k).toRat = k := Dyadic.toRat_intCast
    exact Rat.intCast_inj.mp (by rw [← hrat m, ← hrat n, heq])
  cases i <;> cases j <;> exact hsize _ _ hsame

namespace Transition

variable {guardHash : γ → Except Fault Int} {actionHash : α → Except Fault Int}

/-- The hash of a transition is made of the hashes of its fields. -/
theorem exists_hash_of_fields {t u : Transition γ α}
    (htarget : t.target.toValue.same u.target.toValue = true)
    (hguard : ∃ n, guardHash t.guard = .ok n ∧ guardHash u.guard = .ok n)
    (haction : Option.Rel (fun a b => ∃ n, actionHash a = .ok n ∧ actionHash b = .ok n)
      t.action u.action) :
    ∃ n, t.hash h guardHash actionHash = .ok n ∧ u.hash h guardHash actionHash = .ok n := by
  obtain ⟨n, ht, hu⟩ := hguard
  obtain ⟨i, g, a⟩ := t
  obtain ⟨j, g', a'⟩ := u
  have hone : i.toInt = j.toInt := StateId.toInt_eq_of_same htarget
  simp only [hash, StateId.hash_toValue, ht, hu, hone]
  cases haction with
  | none => exact ⟨_, rfl, rfl⟩
  | some hsome =>
      obtain ⟨m, ha, ha'⟩ := hsome
      simp only [ha, ha']
      exact ⟨_, rfl, rfl⟩

/-- Two transitions of rules are the same, field by field. When actions are the same is up to the
runtime. -/
structure Same (s : TokenStore) (sameAction : α → α → Prop) (t u : Transition Rule α) : Prop where
  target : t.target.toValue.same u.target.toValue = true
  guard : s.same t.guard.toValue u.guard.toValue = true
  action : Option.Rel sameAction t.action u.action

end Transition

/-- **Equal rules have equal hashes, and so have equal transitions.** Any two rules that are equal
have a hash, and it is the same one, whatever values they compare with. Any two transitions of rules
that are the same field by field have a hash, and it is the same one, if their actions have hashes.
What one identity stands for is taken to be one value throughout. -/
theorem equal_have_one_hash (h : Hasher) (s : TokenStore) (contents : Identity → Value) :
    (∀ r r' : Rule, (s.whole r.toValue).Coherent contents →
      (s.whole r'.toValue).Coherent contents → s.eq r.toValue r'.toValue = true →
      ∃ n, r.hash h s = .ok n ∧ r'.hash h s = .ok n) ∧
    ∀ (sameAction : α → α → Prop) (actionHash : α → Except Fault Int),
      (∀ a b m n, sameAction a b → actionHash a = .ok m → actionHash b = .ok n → m = n) →
      ∀ t u : Transition Rule α, (s.whole t.guard.toValue).Coherent contents →
        (s.whole u.guard.toValue).Coherent contents → (∀ a ∈ t.action, ∃ n, actionHash a = .ok n) →
        (∀ a ∈ u.action, ∃ n, actionHash a = .ok n) → t.Same s sameAction u →
        ∃ n, t.hash h (Rule.hash h s) actionHash = .ok n ∧
          u.hash h (Rule.hash h s) actionHash = .ok n := by
  constructor
  · intro r r' hr hr' heq
    exact Rule.exists_hash_of_same h hr hr' (s.same_of_eq heq)
  · intro sameAction actionHash hrespects t u ht hu hashable hashable' hsame
    refine Transition.exists_hash_of_fields hsame.target
      (Rule.exists_hash_of_same h ht hu hsame.guard) ?_
    obtain ⟨-, -, haction⟩ := hsame
    generalize t.action = a, u.action = b at haction hashable hashable'
    cases haction with
    | none => exact .none
    | @some a b hab =>
        obtain ⟨m, hm⟩ := hashable a rfl
        obtain ⟨n, hn⟩ := hashable' b rfl
        obtain rfl : m = n := hrespects a b m n hab hm hn
        exact .some ⟨m, hm, hn⟩

/-! ## A runtime -/

/-- Numbers of 64 bits. -/
abbrev Word := BitVec 64

/-- A fraction modulo the prime `2 ^ 61 - 1`, with its sign. The powers of two that it is divided
by have inverses, since `2 ^ 61` is one. The number `-1` is not in use as a hash. -/
def sizeHash : Quantity → Int
  | .exact x =>
    let residue : Nat := (x.toRat.num.natAbs <<< (60 * x.toRat.den.log2)) % 2305843009213693951
    let n := x.toRat.num.sign * residue
    if n = -1 then -2 else n
  | .infinite negative => if negative then -314159 else 314159
  | .undefined => 0

/-- The hashes of the items mixed one after another, and their number. -/
def tupleHash (ns : List Int) : Int :=
  let lane (acc : Word) (n : Int) : Word :=
    ((acc + .ofInt 64 n * 14029467366897019727).rotateLeft 31) * 11400714785074694791
  let mixed := ns.foldl lane 2870177450012600261 + (.ofNat 64 ns.length ^^^ 2870177450013471926)
  if mixed = -1 then 1546275796 else mixed.toInt

/-- A text by the numbers of its characters. -/
def textHash (s : String) : Int :=
  (s.toList.foldl (fun (acc : Word) c => (acc ^^^ .ofNat 64 c.toNat) * 1099511628211)
    14695981039346656037).toInt

/-- What has no parts: an object by its identity, and a value by its text. -/
def plainHash : Value → Int
  | .nan i | .source i => match i with
    | .label name => textHash name
    | .made serial => serial
  | v => textHash v.quoted

/-- A runtime that hashes in these ways. -/
def sampleHasher : Hasher := ⟨sizeHash, plainHash, tupleHash, textHash⟩

/-- A store with one token, which is the item of its one collection. -/
def keyStore : TokenStore := ⟨#[⟨.int 1, .str "a"⟩], #[#[.shared (.token 0)]], []⟩

/-- A rule with a NaN, a nested rule and a token in it. -/
def mixedRule : Rule :=
  .oneOf [.int 1, .float .negativeZero, .nan (.label "x"), .equals (.made 0) (.nan (.label "y")),
    .tuple [.str "a", .list [.shared (.token 0)]]]

/-- The same rule with numbers of other kinds and with a token read before. -/
def mixedRule' : Rule :=
  .oneOf [.bool true, .int 0, .nan (.label "x"), .equals (.made 0) (.nan (.label "y")),
    .tuple [.str "a", .list [.token (.float (.finite 1)) (.str "a")]]]

/-- A number twice in a value that has a hash. -/
def twice (x : Value) : Value := .tuple [x, .noneOf [x]]

/-- Neither the kinds of numbers, nor a NaN that does not equal itself, nor a token without a hash
makes a difference. -/
theorem sampleHasher_one_hash :
    (∃ n, mixedRule.hash sampleHasher keyStore = .ok n ∧
      mixedRule'.hash sampleHasher keyStore = .ok n) ∧
    ∃ n, Transition.hash sampleHasher (Rule.hash sampleHasher keyStore) (fun _ => .ok 7)
        ⟨.number 1, .equals (.made 1) (twice (.int 0)), some ()⟩ = .ok n ∧
      Transition.hash sampleHasher (Rule.hash sampleHasher keyStore) (fun _ => .ok 7)
        ⟨.member ⟨"State", "END", 1⟩, .equals (.made 2) (twice (.float .negativeZero)), some ()⟩ =
          .ok n := by
  let contents : Identity → Value
    | .made 1 => twice (.int 0)
    | .made 2 => twice (.float .negativeZero)
    | _ => .nan (.label "y")
  let t : Transition Rule Unit := ⟨.number 1, .equals (.made 1) (twice (.int 0)), some ()⟩
  let u : Transition Rule Unit :=
    ⟨.member ⟨"State", "END", 1⟩, .equals (.made 2) (twice (.float .negativeZero)), some ()⟩
  have hone : keyStore.whole mixedRule.toValue = .oneOf [.int 1, .float .negativeZero,
      .nan (.label "x"), .equals (.made 0) (.nan (.label "y")),
      .tuple [.str "a", .list [.token (.int 1) (.str "a")]]] := rfl
  have hmixed : (keyStore.whole mixedRule.toValue).Coherent contents := by
    rw [hone]
    simp [Value.Coherent, Value.AllCoherent, contents]
  have hmixed' : (keyStore.whole mixedRule'.toValue).Coherent contents := by
    rw [TokenStore.whole_of_isClosed _ rfl]
    simp [Value.Coherent, Value.AllCoherent, mixedRule', Rule.toValue, contents]
  have ht : (keyStore.whole t.guard.toValue).Coherent contents := by
    rw [TokenStore.whole_of_isClosed _ rfl]
    simp [Value.Coherent, Value.AllCoherent, Rule.toValue, twice, t, contents]
  have hu : (keyStore.whole u.guard.toValue).Coherent contents := by
    rw [TokenStore.whole_of_isClosed _ rfl]
    simp [Value.Coherent, Value.AllCoherent, Rule.toValue, twice, u, contents]
  have hsame : t.Same keyStore (fun _ _ => True) u := ⟨by decide, by decide, .some trivial⟩
  obtain ⟨hrules, htransitions⟩ := equal_have_one_hash (α := Unit) sampleHasher keyStore contents
  exact ⟨hrules mixedRule mixedRule' hmixed hmixed' (by decide),
    htransitions (fun _ _ => True) (fun _ => .ok 7)
      (fun _ _ _ _ _ hm hn => Except.ok.inj (hm.symm.trans hn)) t u ht hu (fun _ _ => ⟨7, rfl⟩)
      (fun _ _ => ⟨7, rfl⟩) hsame⟩

end SymbolMachine
