/-
Hashes of equal values.

The hash of a rule has two branches, and which of them is taken is decided deep inside its value, by
whether something there has no hash. Equality must never straddle them, although it looks at values
in another way: across kinds, and by identity inside containers.

Both are told by the form of a value. Equality is the kernel of the form, and a hash is a function
of it (`toOption_hash`): it sees no more of a value than equality does. So values that are the same
have one hash, or both have none. One thing is needed besides the form: a single-value rule whose
value does not equal itself has its identity in its form, and is hashed by what goes with this
identity.
-/
import SymbolMachine.Hash
import SymbolMachine.Proofs.Tokens.Unrolling
import SymbolMachine.Proofs.Value.Equality

set_option autoImplicit false

namespace SymbolMachine

variable {h : Hasher}

/-! ## Values without a hash -/

/-- There is an answer, or something has no hash. -/
def Answered {β : Type} (r : Except Fault β) : Prop :=
  (∃ b, r = .ok b) ∨ ∃ typeName, r = .error (.unhashable typeName)

namespace Answered

variable {β δ : Type} {r : Except Fault β}

theorem map (hr : Answered r) (f : β → δ) : Answered (f <$> r) := by
  rcases hr with ⟨b, rfl⟩ | ⟨typeName, rfl⟩
  · exact .inl ⟨f b, rfl⟩
  · exact .inr ⟨typeName, rfl⟩

theorem of_cases {p : Prop} {q : String → Prop}
    (hr : (∃ b, r = .ok b ∧ p) ∨ ∃ typeName, r = .error (.unhashable typeName) ∧ q typeName) :
    Answered r :=
  hr.imp (fun ⟨b, hb, _⟩ => ⟨b, hb⟩) fun ⟨typeName, hfault, _⟩ => ⟨typeName, hfault⟩

end Answered

/-- The hash of a rule of a kind, by the hash of what it compares with, if there is one. -/
def Hasher.keyed (h : Hasher) (kind : String) : Option Int → Int
  | some n => h.sequence [h.kind kind, n]
  | none => h.kind kind

theorem Hasher.rule_eq {value : Except Fault Int} (hvalue : Answered value) (kind : String) :
    h.rule kind value = .ok (h.keyed kind value.toOption) := by
  rcases hvalue with ⟨n, rfl⟩ | ⟨typeName, rfl⟩ <;> rfl

namespace Value

mutual

/-- A value has a hash, or what keeps it from being a key is the reason why it has none. -/
theorem hash_cases (h : Hasher) : (v : Value) →
    (∃ n, v.hash h = .ok n ∧ v.unhashable? = none) ∨
      ∃ typeName, v.hash h = .error (.unhashable typeName) ∧
        (v.isClosed = true → v.unhashable? = some typeName)
  | null | bool _ | int _ | float _ | nan _ | str _ | bytes _ | member _ | intMember _
  | source _ => .inl ⟨_, rfl, rfl⟩
  | list _ | token _ _ | collection _ => .inr ⟨_, rfl, fun _ => rfl⟩
  | shared (.token _) | shared (.collection _) => .inr ⟨_, rfl, nofun⟩
  | tuple vs => by
    simp only [hash, unhashable?, isClosed]
    rcases hashes_cases h vs with ⟨ns, hns, hkey⟩ | ⟨typeName, hfault, hkey⟩
    · exact .inl ⟨_, congrArg _ hns, hkey⟩
    · exact .inr ⟨typeName, congrArg _ hfault, hkey⟩
  | named v => by
    simp only [hash, unhashable?, isClosed]
    rcases hash_cases h v with ⟨n, hn, hkey⟩ | ⟨typeName, hfault, hkey⟩
    · exact .inl ⟨_, congrArg _ hn, hkey⟩
    · exact .inr ⟨typeName, congrArg _ hfault, hkey⟩
  | equals _ v => .inl ⟨_, h.rule_eq (.of_cases (hash_cases h v)) _, rfl⟩
  | oneOf vs | noneOf vs =>
    .inl ⟨_, h.rule_eq ((Answered.of_cases (hashes_cases h vs)).map _) _, rfl⟩

theorem hashes_cases (h : Hasher) : (vs : List Value) →
    (∃ ns, hashes h vs = .ok ns ∧ firstUnhashable? vs = none) ∨
      ∃ typeName, hashes h vs = .error (.unhashable typeName) ∧
        (allClosed vs = true → firstUnhashable? vs = some typeName)
  | [] => .inl ⟨[], rfl, rfl⟩
  | v :: vs => by
    simp only [hashes, firstUnhashable?, allClosed, Bool.and_eq_true]
    rcases hash_cases h v with ⟨n, hn, hkey⟩ | ⟨typeName, hfault, hkey⟩
    · rw [hn, hkey]
      rcases hashes_cases h vs with ⟨ns, hns, hkeys⟩ | ⟨typeName, hfault, hkeys⟩
      · rw [hns]
        exact .inl ⟨_, rfl, hkeys⟩
      · rw [hfault]
        exact .inr ⟨typeName, rfl, fun hclosed => hkeys hclosed.2⟩
    · rw [hfault]
      exact .inr ⟨typeName, rfl, fun hclosed => by rw [hkey hclosed.1]; rfl⟩

end

/-! ## The hash of a form -/

end Value

mutual

/-- The hash of the values of a form, if they have one. A rule that has its identity in its form is
hashed by the value that goes with it. -/
def Form.hash? (h : Hasher) (own : Identity → Option Int) : Form → Option Int
  | null => some (h.atom .null)
  | number q => some (h.number q)
  | undefined i => some (h.atom (.nan i))
  | str s => some (h.atom (.str s))
  | bytes bs => some (h.atom (.bytes bs))
  | member m => some (h.atom (.member m))
  | source i => some (h.atom (.source i))
  | sequence _ | token _ _ | shared _ => none
  | tuple fs => (Form.hashes? h own fs).map h.sequence
  | named f => (f.hash? h own).map fun n => h.sequence [n]
  | equals (.inl f) => some (h.keyed "Equals" (f.hash? h own))
  | equals (.inr i) => some (h.keyed "Equals" (own i))
  | oneOf fs => some (h.keyed "OneOf" ((Form.hashes? h own fs).map h.sequence))
  | noneOf fs => some (h.keyed "NoneOf" ((Form.hashes? h own fs).map h.sequence))

/-- The hashes of values of some forms, if they all have one. -/
def Form.hashes? (h : Hasher) (own : Identity → Option Int) : List Form → Option (List Int)
  | [] => some []
  | f :: fs => do return (← f.hash? h own) :: (← Form.hashes? h own fs)

end

namespace Value

variable {contents : Identity → Value}

theorem answered_hash (h : Hasher) (v : Value) : Answered (v.hash h) := .of_cases (hash_cases h v)

theorem answered_hashes (h : Hasher) (vs : List Value) : Answered (hashes h vs) :=
  .of_cases (hashes_cases h vs)

mutual

/-- **The hash of a value is the hash of its form.** -/
theorem toOption_hash (h : Hasher) : (v : Value) → v.Coherent contents →
    (v.hash h).toOption = v.form.hash? h fun i => ((contents i).hash h).toOption
  | null, _ | bool _, _ | int _, _ | float _, _ | nan _, _ | str _, _ | bytes _, _ | member _, _
  | intMember _, _ | source _, _ | list _, _ | token _ _, _ | collection _, _
  | shared (.token _), _ | shared (.collection _), _ => rfl
  | tuple vs, hv => by
    simp only [Coherent] at hv
    simp only [hash, form, Form.hash?, ← toOption_hashes h vs hv]
    cases hashes h vs <;> rfl
  | named v, hv => by
    simp only [Coherent] at hv
    simp only [hash, form, Form.hash?, ← toOption_hash h v hv]
    cases v.hash h <;> rfl
  | equals i v, hv => by
    simp only [Coherent] at hv
    rw [hash, h.rule_eq (answered_hash h v), form]
    -- If the value does not equal itself, it is the one that goes with the identity.
    cases v.form.equalsItself with
    | true => exact congrArg (fun n => some (h.keyed _ n)) (toOption_hash h v hv.2)
    | false => exact congrArg (fun v => some (h.keyed _ (v.hash h).toOption)) hv.1
  | oneOf vs, hv | noneOf vs, hv => by
    simp only [Coherent] at hv
    rw [hash, h.rule_eq ((answered_hashes h vs).map _), form, Form.hash?, ← toOption_hashes h vs hv]
    cases hashes h vs <;> rfl

theorem toOption_hashes (h : Hasher) : (vs : List Value) → AllCoherent contents vs →
    (hashes h vs).toOption = Form.hashes? h (fun i => ((contents i).hash h).toOption) (forms vs)
  | [], _ => rfl
  | v :: vs, hvs => by
    simp only [AllCoherent] at hvs
    simp only [hashes, forms, Form.hashes?, ← toOption_hash h v hvs.1,
      ← toOption_hashes h vs hvs.2]
    cases v.hash h with
    | error f => rfl
    | ok n => cases hashes h vs <;> rfl

end

/-- **Values that are the same have one hash, or none of them has one.** -/
theorem toOption_hash_eq_of_same (h : Hasher) {v w : Value} (hv : v.Coherent contents)
    (hw : w.Coherent contents) (hsame : v.same w = true) :
    (v.hash h).toOption = (w.hash h).toOption := by
  rw [toOption_hash h v hv, toOption_hash h w hw, (same_iff hv hw).mp hsame]

end Value

/-! ## Behind references

Tokens and collections have no hash, so a hash does not look behind a reference: it comes out the
same however far a value is read. -/

namespace Value

mutual

theorem hash_resolve {target : Reference → Value}
    (htarget : ∀ r, (target r).hash h = (shared r).hash h) :
    (v : Value) → (v.resolve target).hash h = v.hash h
  | null | bool _ | int _ | float _ | nan _ | str _ | bytes _ | member _ | intMember _ | source _
  | list _ | token _ _ | collection _ => rfl
  | shared r => htarget r
  | tuple vs | oneOf vs | noneOf vs => by simp only [resolve, hash, hashes_resolve htarget vs]
  | named v | equals _ v => by simp only [resolve, hash, hash_resolve htarget v]

theorem hashes_resolve {target : Reference → Value}
    (htarget : ∀ r, (target r).hash h = (shared r).hash h) :
    (vs : List Value) → hashes h (resolveAll target vs) = hashes h vs
  | [] => rfl
  | v :: vs => by
    simp only [resolveAll, hashes, hash_resolve htarget v, hashes_resolve htarget vs]

end

theorem hash_mapParts {f : Value → Value} (hf : ∀ x, (f x).hash h = x.hash h) (v : Value) :
    (v.mapParts f).hash h = v.hash h := by
  have hmap : ∀ xs, hashes h (xs.map f) = hashes h xs := by
    intro xs
    induction xs with
    | nil => rfl
    | cons x xs ih => simp only [List.map_cons, hashes, hf, ih]
  cases v with
  | tuple vs | oneOf vs | noneOf vs => simp only [mapParts, hash, hmap]
  | named v | equals i v => simp only [mapParts, hash, hf]
  | _ => rfl

end Value

namespace TokenStore

theorem hash_read (s : TokenStore) (v : Value) : (s.read v).hash h = v.hash h := by
  refine Value.hash_resolve (fun r => ?_) v
  unfold depth target
  rw [if_neg List.not_mem_nil]
  cases r with
  | token i =>
      dsimp only
      split <;> rfl
  | collection c => rfl

theorem hash_unroll (s : TokenStore) (depth : Nat) (v : Value) :
    (s.unroll depth v).hash h = v.hash h := by
  induction depth generalizing v with
  | zero => rfl
  | succ depth ih =>
      rw [unroll, Value.hash_mapParts ih]
      unfold opened
      split
      · split <;> rfl
      · rfl
      · rfl

end TokenStore

/-! ## Rules -/

namespace Rule

variable {s : TokenStore}

/-- **Every rule has a hash**, whatever it compares with. -/
theorem exists_hash (h : Hasher) (s : TokenStore) (r : Rule) : ∃ n, r.hash h s = .ok n := by
  cases r with
  | equals i v => exact ⟨_, h.rule_eq (Value.answered_hash h _) _⟩
  | oneOf vs | noneOf vs => exact ⟨_, h.rule_eq ((Value.answered_hashes h _).map _) _⟩

theorem hash_eq (h : Hasher) (s : TokenStore) (r : Rule) :
    r.hash h s = (s.whole r.toValue).hash h := by
  rw [hash, s.hash_read]
  exact (s.hash_unroll TokenStore.reach r.toValue).symm

/-- Rules that are the same have one hash. -/
theorem exists_hash_of_same (h : Hasher) {contents : Identity → Value} {r r' : Rule}
    (hr : (s.whole r.toValue).Coherent contents) (hr' : (s.whole r'.toValue).Coherent contents)
    (hsame : s.same r.toValue r'.toValue = true) :
    ∃ n, r.hash h s = .ok n ∧ r'.hash h s = .ok n := by
  obtain ⟨n, hn⟩ := exists_hash h s r
  obtain ⟨n', hn'⟩ := exists_hash h s r'
  rw [s.same_eq] at hsame
  have hone : (r.hash h s).toOption = (r'.hash h s).toOption := by
    rw [hash_eq, hash_eq]
    exact Value.toOption_hash_eq_of_same h hr hr' hsame
  rw [hn, hn'] at hone
  obtain rfl : n = n' := Option.some.inj hone
  exact ⟨n, hn, hn'⟩

end Rule

end SymbolMachine
