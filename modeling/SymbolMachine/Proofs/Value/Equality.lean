/-
Equality as agreement of forms.

Equality crosses kinds (a list and a collection, numbers of all kinds), is taken with identity
inside containers and without it at the top, and fails for some values of themselves. Still it
is the kernel of a function: `form` keeps of a value what the two notions of sameness can see,
and `alike_iff` says that two values are the same if they have one form, and equal if moreover
that is the form of something that equals itself. Transitivity and the congruences below are then
about equality of forms.

This needs one assumption. A single-value rule carries an identity, and what has one identity is
taken to be one object, so it has one value (`Coherent`). Nothing in the type says so.
-/
import SymbolMachine.Value.Equality

set_option autoImplicit false

namespace SymbolMachine

theorem Quantity.ofInt_ne_undefined (n : Int) : ofInt n ≠ .undefined := by
  exact nofun

theorem Binary64.quantity_ne_undefined (x : Binary64) : x.quantity ≠ .undefined := by
  cases x <;> exact nofun

/-! ## Symmetry -/

theorem Quantity.eq_symm (q r : Quantity) : q.eq r = r.eq q := by
  cases q <;> cases r <;> simp [Quantity.eq, eq_comm]

theorem Quantity.eq_undefined (q : Quantity) : q.eq .undefined = false := by
  cases q <;> rfl

namespace Value

mutual

/-- **Both notions of sameness are symmetric**, whatever the identities in the values are. -/
theorem alike_comm (identity : Bool) : (v w : Value) → alike identity v w = alike identity w v
  | null, w | str _, w | bytes _, w | member _, w | source _, w | shared _, w | nan _, w => by
    cases w <;> simp [alike, eq_comm, quantity?, number?, Number.quantity, Quantity.eq_undefined]
  | bool _, w | int _, w | intMember _, w | float _, w => by
    cases w with
    | bool _ | int _ | intMember _ | float _ =>
        simp only [alike, quantity?_bool, quantity?_int, quantity?_intMember, quantity?_float,
          Quantity.eq_symm]
    | _ => simp [alike, quantity?, number?, Number.quantity, Quantity.eq_undefined]
  | list xs, w | collection xs, w | tuple xs, w | oneOf xs, w | noneOf xs, w => by
    cases w with
    | list ys | collection ys | tuple ys | oneOf ys | noneOf ys => simp [alike, allAlike_comm xs ys]
    | _ => simp [alike, quantity?, number?]
  | named x, w => by
    cases w with
    | named y => simp [alike, alike_comm true x y]
    | _ => simp [alike, quantity?, number?]
  | token k l, w => by
    cases w with
    | token k' l' => simp [alike, alike_comm true k k', alike_comm true l l']
    | _ => simp [alike, quantity?, number?]
  | equals i x, w => by
    cases w with
    | equals j y => simp [alike, alike_comm false x y, eq_comm]
    | _ => simp [alike, quantity?, number?]

theorem allAlike_comm : (vs ws : List Value) → allAlike vs ws = allAlike ws vs
  | [], [] | [], _ :: _ | _ :: _, [] => rfl
  | v :: vs, w :: ws => by simp only [allAlike, alike_comm true v w, allAlike_comm vs ws]

end

end Value

/-! ## Forms -/

/-- What equality can see of a value. -/
inductive Form
  | null
  | number (q : Quantity)
  /-- A NaN, which is only the same as itself. -/
  | undefined (identity : Identity)
  | str (s : String)
  | bytes (bytes : List UInt8)
  | member (m : Member)
  | sequence (items : List Form)
  | tuple (items : List Form)
  | named (name : Form)
  | token (kind lexeme : Form)
  /-- A single-value rule: by its value if that equals itself, and otherwise by its identity. -/
  | equals (value : Form ⊕ Identity)
  | oneOf (values : List Form)
  | noneOf (values : List Form)
  | source (identity : Identity)
  | shared (r : Reference)

/-- Whether a value of this form equals itself. -/
def Form.equalsItself : Form → Bool
  | undefined _ | equals (.inr _) => false
  | _ => true

namespace Value

mutual

/-- The form of a value. -/
def form : Value → Form
  | null => .null
  | bool b => .number (.ofInt (if b then 1 else 0))
  | int n => .number (.ofInt n)
  | float x => .number x.quantity
  | nan i => .undefined i
  | str s => .str s
  | bytes bs => .bytes bs
  | member m => .member m
  | intMember m => .number (.ofInt m.number)
  | list xs | collection xs => .sequence (forms xs)
  | tuple xs => .tuple (forms xs)
  | named v => .named v.form
  | token k l => .token k.form l.form
  | equals i v => .equals (if v.form.equalsItself then .inl v.form else .inr i)
  | oneOf xs => .oneOf (forms xs)
  | noneOf xs => .noneOf (forms xs)
  | source i => .source i
  | shared r => .shared r

/-- The forms of some values. -/
def forms : List Value → List Form
  | [] => []
  | v :: vs => v.form :: forms vs

end

mutual

/-- A value in which each single-value rule has the value that goes with its identity. -/
def Coherent (contents : Identity → Value) : Value → Prop
  | list xs | tuple xs | oneOf xs | noneOf xs | collection xs => AllCoherent contents xs
  | named v => v.Coherent contents
  | token k l => k.Coherent contents ∧ l.Coherent contents
  | equals i v => v = contents i ∧ v.Coherent contents
  | _ => True

/-- Values in each of which single-value rules have the values that go with their identities. -/
def AllCoherent (contents : Identity → Value) : List Value → Prop
  | [] => True
  | v :: vs => v.Coherent contents ∧ AllCoherent contents vs

end

/-! ## The kernel -/

/-- A size that is defined equals that of a number of one form with it. -/
theorem eq_quantity_iff {q : Quantity} (hq : q ≠ .undefined) (w : Value) :
    (match some q, w.quantity? with
      | some x, some y => x.eq y
      | _, _ => false) = true ↔ Form.number q = w.form := by
  have hiff : ∀ r : Quantity, q.eq r = true ↔ q = r := by
    intro r
    cases q <;> cases r <;> simp_all [Quantity.eq]
  cases w <;> simp [quantity?, number?, form, Number.quantity, hiff]
  cases q <;> simp_all [Quantity.eq]

variable {contents : Identity → Value}

mutual

/-- **Two values are the same if they have one form, and equal if that is the form of something
that equals itself.** -/
theorem alike_iff (identity : Bool) : (v w : Value) → v.Coherent contents → w.Coherent contents →
    (alike identity v w = true ↔
      v.form = w.form ∧ (identity = true ∨ v.form.equalsItself = true))
  | null, w, _, _ | str _, w, _, _ | bytes _, w, _, _ | member _, w, _, _ | source _, w, _, _
  | shared _, w, _, _ => by
    cases w <;> simp [alike, form, Form.equalsItself]
  | nan _, w, _, _ => by
    cases w <;> simp [alike, form, Form.equalsItself, and_comm]
  | bool _, w, _, _ | int _, w, _, _ | intMember _, w, _, _ => by
    simp only [alike, quantity?_bool, quantity?_int, quantity?_intMember, form,
      Form.equalsItself, or_true, and_true]
    exact eq_quantity_iff (Quantity.ofInt_ne_undefined _) w
  | float x, w, _, _ => by
    simp only [alike, quantity?_float, form, Form.equalsItself, or_true, and_true]
    exact eq_quantity_iff x.quantity_ne_undefined w
  | list xs, w, hv, hw | collection xs, w, hv, hw | tuple xs, w, hv, hw | oneOf xs, w, hv, hw
  | noneOf xs, w, hv, hw => by
    simp only [Coherent] at hv
    cases w with
    | list ys | collection ys | tuple ys | oneOf ys | noneOf ys =>
        simp only [Coherent] at hw
        simp [alike, form, Form.equalsItself, allAlike_iff xs ys hv hw]
    | _ => simp [alike, form]
  | named x, w, hv, hw => by
    simp only [Coherent] at hv
    cases w with
    | named y =>
        simp only [Coherent] at hw
        simp [alike, form, Form.equalsItself, alike_iff true x y hv hw]
    | _ => simp [alike, form]
  | token k l, w, hv, hw => by
    simp only [Coherent] at hv
    cases w with
    | token k' l' =>
        simp only [Coherent] at hw
        simp [alike, form, Form.equalsItself, alike_iff true k k' hv.1 hw.1,
          alike_iff true l l' hv.2 hw.2]
    | _ => simp [alike, form]
  | equals i x, w, hv, hw => by
    simp only [Coherent] at hv
    cases w with
    | equals j y =>
        simp only [Coherent] at hw
        have hone : i = j → x.form = y.form := fun hij => by rw [hv.1, hw.1, hij]
        simp only [alike, form, Bool.or_eq_true, Bool.and_eq_true, decide_eq_true_eq,
          alike_iff false x y hv.2 hw.2, Form.equals.injEq]
        -- The rules are told apart by their values if those equal themselves, and otherwise by
        -- their identities; one identity would decide both.
        cases hx : x.form.equalsItself <;> cases hy : y.form.equalsItself <;>
          simp only [Form.equalsItself, if_true, if_false, Bool.false_eq_true] <;> grind
    | _ => simp [alike, form]

theorem allAlike_iff : (vs ws : List Value) → AllCoherent contents vs → AllCoherent contents ws →
    (allAlike vs ws = true ↔ forms vs = forms ws)
  | [], [], _, _ => by simp [allAlike, forms]
  | [], _ :: _, _, _ => by simp [allAlike, forms]
  | _ :: _, [], _, _ => by simp [allAlike, forms]
  | v :: vs, w :: ws, hv, hw => by
    simp only [AllCoherent] at hv hw
    simp [allAlike, forms, alike_iff true v w hv.1 hw.1, allAlike_iff vs ws hv.2 hw.2]

end

/-! ## What follows -/

section

variable {u v w : Value} (hu : u.Coherent contents) (hv : v.Coherent contents)
  (hw : w.Coherent contents)

include hu hv

theorem same_iff : u.same v = true ↔ u.form = v.form := by
  rw [same, alike_iff true u v hu hv]
  simp

theorem eq_iff : u.eq v = true ↔ u.form = v.form ∧ u.form.equalsItself = true := by
  rw [eq, alike_iff false u v hu hv]
  simp

include hw

/-- **Sameness is transitive.** -/
theorem same_trans (huv : u.same v = true) (hvw : v.same w = true) : u.same w = true := by
  rw [same_iff hu hv] at huv
  rw [same_iff hv hw] at hvw
  rw [same_iff hu hw, huv, hvw]

/-- **What is the same equals the same values.** This says more than that equality is transitive:
the two may be one object that does not equal itself. -/
theorem eq_congr (huv : u.same v = true) : u.eq w = v.eq w := by
  rw [same_iff hu hv] at huv
  rw [Bool.eq_iff_iff, eq_iff hu hw, eq_iff hv hw, huv]

omit hw in
/-- A list finds what is the same alike. -/
theorem isIn_congr {ws : List Value} (hws : ∀ w ∈ ws, w.Coherent contents)
    (huv : u.same v = true) : u.isIn ws = v.isIn ws := by
  rw [same_iff hu hv] at huv
  have hmember : ∀ w ∈ ws, w.same u = w.same v := by
    intro w hw
    rw [Bool.eq_iff_iff, same_iff (hws w hw) hu, same_iff (hws w hw) hv, huv]
  unfold isIn
  rw [Bool.eq_iff_iff, List.any_eq_true, List.any_eq_true]
  exact exists_congr fun w => and_congr_right fun hw => by rw [hmember w hw]

end

end Value

end SymbolMachine
