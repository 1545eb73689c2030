/-
Tokens and collections that can be shared.

A token is a cell of the store, and a collection is a list of items, most of which are
references to such cells. Collections that were cut out of one another refer to the same
cells, so a lexeme that grows in one of them has grown in all; the lists themselves are
not shared by cutting. But a collection is an object too: a kind, a lexeme or any other
value may refer to it, and then changes with it.

A value is read by putting for each reference what it stands for now. A token or
collection that is part of itself is not entered again on the way: there the reference
stays. Values are not compared as they read, but part by part as far as a comparison goes,
and one object equals itself before it is entered.

A collection may also hold values that are no tokens. They have no kind, and an operation
that needs one fails on them. Most have no lexeme either, but a member of an enumeration
and a collection take one when it is assigned, without becoming tokens.
-/
import SymbolMachine.Effect
import SymbolMachine.Value.Equality
import SymbolMachine.Value.Resolve

set_option autoImplicit false

namespace SymbolMachine

/-- A kind and a piece of text, which can grow. -/
structure Token where
  kind : Value
  lexeme : Value

/-- The place of a collection in its store. -/
abbrev CollectionId : Type := Nat

/-- What takes a lexeme although it is no token. -/
inductive Holder
  | member (m : Member)
  | collection (c : CollectionId)
deriving DecidableEq

/-- A value as a holder of a lexeme. -/
def Holder.ofValue? : Value → Option Holder
  | .member m | .intMember m => some (member m)
  | .shared (.collection c) => some (collection c)
  | _ => none

/-- All tokens and all collections, and the lexemes of what is no token, latest first. -/
structure TokenStore where
  cells : Array Token
  collections : Array (Array Value)
  attached : List (Holder × Value)

namespace TokenStore

/-- The store without tokens and collections. -/
def empty : TokenStore := ⟨#[], #[], []⟩

/-- Why an item takes no lexeme, if it takes none. -/
def assignFault? : Value → Option Fault
  | .shared (.token _) => none
  | .named _ => some (.frozenField "lexeme")
  | x =>
    match Holder.ofValue? x with
    | some _ => none
    | none => some (.noAttribute x.typeName "lexeme")

/-! ## Reading -/

/-- The items of a collection. -/
def items (s : TokenStore) (c : CollectionId) : List Value := (s.collections[c]?.getD #[]).toList

/-- The item at a place of a collection. -/
def item? (s : TokenStore) (c : CollectionId) (i : Nat) : Option Value :=
  (s.collections[c]?.getD #[])[i]?

/-- The last item of a collection. -/
def last? (s : TokenStore) (c : CollectionId) : Option Value :=
  (s.collections[c]?.getD #[]).back?

/-- More steps than a way from reference to reference can have without a turn back. -/
def depth (s : TokenStore) : Nat := s.cells.size + s.collections.size + 1

/-- What a reference stands for, reached by a way along other references. -/
def target (s : TokenStore) : Nat → List Reference → Reference → Value
  | 0, _, r => .shared r
  | fuel + 1, way, r =>
    if r ∈ way then .shared r
    else
      match r with
      | .token i =>
        match s.cells[i]? with
        | some t =>
          .token (t.kind.resolve (s.target fuel (r :: way)))
            (t.lexeme.resolve (s.target fuel (r :: way)))
        | none => .shared r
      | .collection c => .collection (Value.resolveAll (s.target fuel (r :: way)) (s.items c))

/-- A value as it is now. -/
def read (s : TokenStore) (v : Value) : Value := v.resolve (s.target s.depth [])

/-- The items of a collection as they are now. -/
def contents (s : TokenStore) (c : CollectionId) : List Value := (s.items c).map s.read

/-- The elements that iterating a value gives. -/
def iterate (s : TokenStore) : Value → Except Fault (List Value)
  | .shared (.collection c) => .ok (s.items c)
  | v =>
    match v.elements? with
    | some vs => .ok vs
    | none => .error (.notIterable v.typeName)

/-! ## Comparing

A reference is compared by what stands there now, and that by its parts. But first it is
asked whether both are one object, which is then not entered. So a comparison comes to an
end although a collection is part of itself, as long as it comes to the same object on both
sides. -/

/-- A value with what a reference stands for in its place, whose parts are not read. -/
def opened (s : TokenStore) : Value → Value
  | .shared (.token i) =>
    match s.cells[i]? with
    | some t => .token t.kind t.lexeme
    | none => .shared (.token i)
  | .shared (.collection c) => .collection (s.items c)
  | v => v

/-- Whether two values are one token or one collection of the store. -/
def oneObject : Value → Value → Bool
  | .shared r, .shared r' => r = r'
  | _, _ => false

/-- Equality or sameness as the values are now, to a depth. Beyond it they are compared as
they stand. -/
def alikeTo (s : TokenStore) : Nat → Bool → Value → Value → Bool
  | 0, identity, v, w => Value.alike identity v w
  | depth + 1, identity, v, w =>
    oneObject v w || Value.alikeBy (s.alikeTo depth) identity (s.opened v) (s.opened w)

/-- How deep values are compared. The runtime has no answer where a comparison would have to
go further. -/
def reach : Nat := 1000

/-- Equality of values as they are now. -/
def eq (s : TokenStore) (v w : Value) : Bool := s.alikeTo reach false v w

/-- One object, or equal as they are now. -/
def same (s : TokenStore) (v w : Value) : Bool := s.alikeTo reach true v w

/-- Whether a value is found in a list as they are now. -/
def isIn (s : TokenStore) (v : Value) (ws : List Value) : Bool := ws.any fun w => s.same w v

/-! ## Items -/

/-- An item as a token, if it is one. -/
def token? (s : TokenStore) : Value → Option Token
  | .token kind lexeme => some ⟨kind, lexeme⟩
  | .shared (.token i) => s.cells[i]?
  | _ => none

/-- The kind of an item, which only a token has. -/
def kindOf (s : TokenStore) (x : Value) : Except Fault Value :=
  match s.token? x with
  | some t => .ok t.kind
  | none => .error (.noAttribute x.typeName "type")

/-- Whether an item is of a kind. -/
def isOfKind (s : TokenStore) (kind : Value) (x : Value) : Except Fault Bool :=
  (s.eq · kind) <$> s.kindOf x

/-- The lexeme of an item: of a token, or of what was given one. -/
def lexemeOf (s : TokenStore) (x : Value) : Except Fault Value :=
  match s.token? x with
  | some t => .ok t.lexeme
  | none =>
    match (Holder.ofValue? x).bind (List.lookup · s.attached) with
    | some lexeme => .ok lexeme
    | none => .error (.noAttribute x.typeName "lexeme")

/-! ## Changing -/

/-- Replaces the items of a collection. -/
def setItems (s : TokenStore) (c : CollectionId) (xs : List Value) : TokenStore :=
  { s with collections := s.collections.setIfInBounds c xs.toArray }

/-- Appends items to a collection. -/
def pushItems (s : TokenStore) (c : CollectionId) (xs : List Value) : TokenStore :=
  { s with collections := s.collections.modify c (· ++ xs) }

/-- Makes a token. -/
def newCell (s : TokenStore) (t : Token) : TokenStore × Value :=
  let cell := s.cells.size
  ({ s with cells := s.cells.push t }, .shared (.token cell))

/-- Makes a collection. -/
def newCollection (s : TokenStore) (xs : List Value) : TokenStore × CollectionId :=
  let c := s.collections.size
  ({ s with collections := s.collections.push xs.toArray }, c)

/-- Replaces the lexeme of a token. -/
def setLexeme (s : TokenStore) (cell : Nat) (lexeme : Value) : TokenStore :=
  { s with cells := s.cells.modify cell fun t => { t with lexeme } }

/-- Assigns the lexeme of an item, if it takes one. -/
def assignLexeme (s : TokenStore) (x lexeme : Value) : TokenStore :=
  match x with
  | .shared (.token i) => s.setLexeme i lexeme
  | x =>
    match Holder.ofValue? x with
    | some h => { s with attached := (h, lexeme) :: s.attached }
    | none => s

/-- An item on its way into a collection. From then on a token is shared, so it gets a
cell. -/
def entering (s : TokenStore) : Value → TokenStore × Value
  | .token kind lexeme => s.newCell ⟨kind, lexeme⟩
  | x => (s, x)

/-- Several items on their way into a collection. -/
def enteringAll (s : TokenStore) : List Value → TokenStore × List Value
  | [] => (s, [])
  | x :: xs =>
    let (s, x) := s.entering x
    let (s, xs) := s.enteringAll xs
    (s, x :: xs)

/-! ## What changes and what does not -/

@[simp] theorem item?_eq_getElem?_items (s : TokenStore) (c : CollectionId) (i : Nat) :
    s.item? c i = (s.items c)[i]? := by
  simp [item?, items]

@[simp] theorem last?_eq_getLast?_items (s : TokenStore) (c : CollectionId) :
    s.last? c = (s.items c).getLast? := by
  simp [last?, items]

theorem items_setItems_of_ne (s : TokenStore) {c d : CollectionId} (h : c ≠ d) (xs : List Value) :
    (s.setItems c xs).items d = s.items d := by
  simp [setItems, items, Array.getElem?_setIfInBounds_ne h]

theorem items_setItems (s : TokenStore) {c : CollectionId} (h : c < s.collections.size)
    (xs : List Value) : (s.setItems c xs).items c = xs := by
  simp [setItems, items, h]

theorem items_pushItems (s : TokenStore) {c : CollectionId} (h : c < s.collections.size)
    (xs : List Value) : (s.pushItems c xs).items c = s.items c ++ xs := by
  simp [pushItems, items, h, Array.getElem_modify]

theorem items_pushItems_of_ne (s : TokenStore) {c d : CollectionId} (h : c ≠ d)
    (xs : List Value) : (s.pushItems c xs).items d = s.items d := by
  simp [pushItems, items, Array.getElem?_modify, h]

@[simp] theorem items_newCell (s : TokenStore) (t : Token) (c : CollectionId) :
    (s.newCell t).1.items c = s.items c := rfl

@[simp] theorem items_setLexeme (s : TokenStore) (cell : Nat) (lexeme : Value)
    (c : CollectionId) : (s.setLexeme cell lexeme).items c = s.items c := rfl

@[simp] theorem token?_setItems (s : TokenStore) (c : CollectionId) (xs : List Value)
    (x : Value) : (s.setItems c xs).token? x = s.token? x := rfl

@[simp] theorem token?_pushItems (s : TokenStore) (c : CollectionId) (xs : List Value)
    (x : Value) : (s.pushItems c xs).token? x = s.token? x := rfl

/-- A new token is what it was made. -/
@[simp] theorem token?_newCell (s : TokenStore) (t : Token) :
    (s.newCell t).1.token? (s.newCell t).2 = some t := by
  simp [newCell, token?]

/-- A new token does not disturb the old ones. -/
theorem token?_newCell_of_lt (s : TokenStore) (t : Token) {i : Nat} (h : i < s.cells.size) :
    (s.newCell t).1.token? (.shared (.token i)) = s.token? (.shared (.token i)) := by
  simp [newCell, token?, Array.getElem?_push, Nat.ne_of_lt h]

/-- Only the one token sees its new lexeme. -/
theorem token?_setLexeme_of_ne (s : TokenStore) {cell i : Nat} (h : cell ≠ i) (lexeme : Value) :
    (s.setLexeme cell lexeme).token? (.shared (.token i)) = s.token? (.shared (.token i)) := by
  simp [setLexeme, token?, Array.getElem?_modify, h]

@[simp] theorem enteringAll_nil (s : TokenStore) : s.enteringAll [] = (s, []) := rfl

/-- A closed value is the same at all times. -/
theorem read_of_isClosed (s : TokenStore) {v : Value} (h : v.isClosed = true) : s.read v = v :=
  Value.resolve_of_isClosed _ v h

/-- What a reference stands for is what it refers to: a token or a collection. -/
theorem typeName_target (s : TokenStore) (fuel : Nat) (way : List Reference) (r : Reference) :
    (s.target fuel way r).typeName = (Value.shared r).typeName := by
  cases fuel with
  | zero => rfl
  | succ fuel =>
    unfold target
    split
    · rfl
    · cases r with
      | token i => dsimp only; split <;> rfl
      | collection c => rfl

/-- Reading keeps the kind of value, so an error may name it without reading. -/
theorem typeName_read (s : TokenStore) (v : Value) : (s.read v).typeName = v.typeName :=
  Value.typeName_resolve (s.typeName_target _ _) v

@[simp] theorem read_str (s : TokenStore) (t : String) : s.read (.str t) = .str t := rfl

/-- A token of the store reads as its kind and its lexeme, read from inside it. -/
theorem read_token (s : TokenStore) {i : Nat} {t : Token} (h : s.cells[i]? = some t) :
    s.read (.shared (.token i)) =
      .token (t.kind.resolve (s.target (s.cells.size + s.collections.size) [.token i]))
        (t.lexeme.resolve (s.target (s.cells.size + s.collections.size) [.token i])) := by
  simp [read, depth, Value.resolve, target, h]

/-- A token of closed parts reads as them. -/
theorem read_token_of_isClosed (s : TokenStore) {i : Nat} {t : Token} (h : s.cells[i]? = some t)
    (hk : t.kind.isClosed = true) (hl : t.lexeme.isClosed = true) :
    s.read (.shared (.token i)) = .token t.kind t.lexeme := by
  rw [read_token s h, Value.resolve_of_isClosed _ _ hk, Value.resolve_of_isClosed _ _ hl]

end TokenStore

end SymbolMachine
