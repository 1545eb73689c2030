/-
Values as text.

A value has a plain text, which a string and an enumeration member show as they are, and
a quoted text, which shows what kind of value it is. Parts of a value are always shown
by their quoted text.

The plain text of a collection has a line for each of its tokens, and an item that is no
token has no line. So a plain text may fail, and with it everything that is worded by one.
A quoted text never fails.
-/
import SymbolMachine.Fault
import SymbolMachine.Text.Quoted

set_option autoImplicit false

namespace SymbolMachine

namespace Member

/-- The enumeration and the name. -/
def text (m : Member) : String := m.enumeration ++ "." ++ m.name

/-- The member with its number. -/
def quoted (m : Member) : String := "<" ++ m.text ++ ": " ++ toString m.number ++ ">"

end Member

namespace Value

/-! ## Quoted text -/

/-- Texts between brackets. -/
def bracketed (items : List String) : String := "[" ++ ", ".intercalate items ++ "]"

/-- Texts between parentheses; a single one keeps a comma behind it. -/
def parenthesised : List String → String
  | [x] => "(" ++ x ++ ",)"
  | xs => "(" ++ ", ".intercalate xs ++ ")"

mutual

/-- The quoted text of a value. -/
def quoted : Value → String
  | null => "None"
  | bool b => if b then "True" else "False"
  | int n => toString n
  | float x => x.toDecimal
  | nan _ => "nan"
  | str s => Text.quoted s
  | bytes bs => Text.quotedBytes bs
  | member m | intMember m => m.quoted
  | list xs => bracketed (allQuoted xs)
  | tuple xs => parenthesised (allQuoted xs)
  | named v => "Named(name=" ++ v.quoted ++ ")"
  | token k l => "Token(type=" ++ k.quoted ++ ", lexeme=" ++ l.quoted ++ ")"
  | equals _ v => "Equals(" ++ v.quoted ++ ")"
  | oneOf xs => "OneOf(" ++ bracketed (allQuoted xs) ++ ")"
  | noneOf xs => "NoneOf(" ++ bracketed (allQuoted xs) ++ ")"
  | collection xs => "TokenCollection(" ++ bracketed (allQuoted xs) ++ ")"
  | source _ => "<generator object>"
  -- What is part of itself is not shown again inside.
  | shared (.token _) => "..."
  | shared (.collection _) => "TokenCollection([...])"

/-- The quoted texts of some values. -/
def allQuoted : List Value → List String
  | [] => []
  | v :: vs => v.quoted :: allQuoted vs

end

/-! ## Plain text -/

/-- The name that a value has of its own: that of a member, or of a record named by a
string. -/
def ownName? : Value → Option String
  | member m | intMember m => some m.name
  | named (str s) => some s
  | _ => none

mutual

/-- The plain text of a value. -/
def text : Value → Except Fault String
  | str s => .ok s
  | member m => .ok m.text
  | intMember m => .ok (toString m.number)
  | collection xs => lines xs
  | v => .ok v.quoted

/-- A line for each token: the name under which its kind is shown, and its lexeme. -/
def lines : List Value → Except Fault String
  | [] => .ok ""
  | token k l :: rest => do
    let name ←
      match k.ownName? with
      | some name => pure name
      | none => text k
    let lexeme ← text l
    let others ← lines rest
    pure (name ++ " | " ++ lexeme ++ "\n" ++ others)
  | v :: _ => .error (.noAttribute v.typeName "type")

end

/-- The name under which a token kind is shown: its own if it has one, and otherwise the
plain text. -/
def displayName (v : Value) : Except Fault String :=
  match v.ownName? with
  | some name => .ok name
  | none => v.text

@[simp] theorem text_str (s : String) : (str s).text = .ok s := rfl

@[simp] theorem text_int (n : Int) : (int n).text = .ok (toString n) := rfl

@[simp] theorem text_intMember (m : Member) : (intMember m).text = .ok (toString m.number) := rfl

/-- The lines of some tokens: the line of the first, then those of the others. -/
theorem lines_cons (k l : Value) (rest : List Value) :
    lines (token k l :: rest) = (do
      let name ← k.displayName
      let lexeme ← l.text
      let others ← lines rest
      pure (name ++ " | " ++ lexeme ++ "\n" ++ others)) := by
  rw [lines]
  unfold displayName
  cases k.ownName? <;> rfl

end Value

end SymbolMachine
