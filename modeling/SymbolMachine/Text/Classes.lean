/-
Tests of a whole text by the classes of its characters.

The classes are those of ASCII: no character beyond it belongs to any. A class of
characters holds of a text if the text is not empty and all its characters belong to it;
upper case asks for one letter at least and for none in lower case.
-/
set_option autoImplicit false

namespace SymbolMachine

/-- A test that a text as a whole passes or fails. -/
inductive TextClass
  | digits
  | letters
  | blank
  | upper
deriving DecidableEq

namespace TextClass

/-- The name of the test. -/
def name : TextClass → String
  | digits => "isdigit"
  | letters => "isalpha"
  | blank => "isspace"
  | upper => "isupper"

/-- Blanks: the space, tab and the line breaks, and the four separators before the
space. -/
def isBlank (c : Char) : Bool :=
  let n := c.toNat
  n = 0x20 || (0x09 ≤ n && n ≤ 0x0d) || (0x1c ≤ n && n ≤ 0x1f)

/-- Whether the characters pass the test. -/
def holdsOf (cls : TextClass) (cs : List Char) : Bool :=
  match cls with
  | digits => !cs.isEmpty && cs.all Char.isDigit
  | letters => !cs.isEmpty && cs.all Char.isAlpha
  | blank => !cs.isEmpty && cs.all isBlank
  | upper => cs.any Char.isUpper && cs.all fun c => !c.isLower

/-- Every blank of the core library is one here. -/
theorem isBlank_of_isWhitespace (c : Char) (h : c.isWhitespace = true) : isBlank c = true := by
  simp only [Char.isWhitespace, Bool.or_eq_true, decide_eq_true_eq] at h
  rcases h with ((rfl | rfl) | rfl) | rfl <;> decide

end TextClass

end SymbolMachine
