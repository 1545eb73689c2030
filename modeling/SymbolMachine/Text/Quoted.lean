/-
Quoted text: how a string or a run of bytes is written so that it can be read back.

Both kinds choose the quote in the same way, and in both the chosen quote and the
backslash are escaped; they differ in which of the other characters are shown as
themselves. The writer is therefore one function over characters with the escape of a
single character as a parameter.
-/
import SymbolMachine.Text.Printable

set_option autoImplicit false

namespace SymbolMachine.Text

/-- A number in hexadecimal, padded with zeros to the width. -/
def hex (width n : Nat) : List Char :=
  let digits := Nat.toDigits 16 n
  List.replicate (width - digits.length) '0' ++ digits

/-- Double quotes only for a text that holds a single quote and no double one. -/
def quoteFor (cs : List Char) : Char :=
  if cs.contains '\'' && !cs.contains '"' then '"' else '\''

/-- The shortest numeric escape that has room for the character. -/
def numericEscape (c : Char) : List Char :=
  let n := c.toNat
  if n < 0x100 then '\\' :: 'x' :: hex 2 n
  else if n < 0x10000 then '\\' :: 'u' :: hex 4 n
  else '\\' :: 'U' :: hex 8 n

/-- One character of a quoted text, given the quote in use and the characters that are
shown as themselves. -/
def escape (shown : Char → Bool) (quote c : Char) : List Char :=
  if c = quote ∨ c = '\\' then ['\\', c]
  else if c = '\t' then ['\\', 't']
  else if c = '\n' then ['\\', 'n']
  else if c = '\r' then ['\\', 'r']
  else if shown c then [c]
  else numericEscape c

/-- The characters between their quotes. -/
def enclose (shown : Char → Bool) (cs : List Char) : List Char :=
  let quote := quoteFor cs
  quote :: (cs.flatMap (escape shown quote) ++ [quote])

/-- A string in quotes. -/
def quoted (s : String) : String := String.ofList (enclose isPrintable s.toList)

/-- A run of bytes in quotes; of these only ASCII is shown as itself. -/
def quotedBytes (bytes : List UInt8) : String :=
  let cs := bytes.map fun b => Char.ofNat b.toNat
  String.ofList ('b' :: enclose (fun c => decide (c.toNat < 0x80) && isPrintable c) cs)

end SymbolMachine.Text
