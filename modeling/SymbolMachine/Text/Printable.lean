/-
Which characters a quoted text shows as themselves.

A character is shown as itself unless it is a control, a separator other than the
space, a formatting mark or of private use. The ASCII part is a range; the rest is
the table below, whose ranges are closed at both ends and follow the Unicode
general categories Cc, Cf, Zl, Zp, Zs and Co. Unassigned code points count as
printable here.
-/
set_option autoImplicit false

namespace SymbolMachine.Text

/-- Closed ranges of code points beyond ASCII that are not shown as themselves. -/
def hiddenRanges : List (Nat × Nat) :=
  [(0x80, 0xa0), (0xad, 0xad), (0x600, 0x605), (0x61c, 0x61c), (0x6dd, 0x6dd),
   (0x70f, 0x70f), (0x890, 0x891), (0x8e2, 0x8e2), (0x1680, 0x1680), (0x180e, 0x180e),
   (0x2000, 0x200f), (0x2028, 0x202f), (0x205f, 0x206f), (0x3000, 0x3000),
   (0xe000, 0xf8ff), (0xfeff, 0xfeff), (0xfff9, 0xfffb), (0x110bd, 0x110bd),
   (0x110cd, 0x110cd), (0x13430, 0x1343f), (0x1bca0, 0x1bca3), (0x1d173, 0x1d17a),
   (0xe0001, 0xe007f), (0xf0000, 0x10ffff)]

/-- Whether a quoted text shows the character as itself. -/
def isPrintable (c : Char) : Bool :=
  let n := c.toNat
  if n < 0x80 then decide (0x20 ≤ n) && decide (n < 0x7f)
  else hiddenRanges.all fun r => decide (n < r.1) || decide (r.2 < n)

/-- Printable ASCII is the range from the space to the tilde. -/
theorem isPrintable_of_ascii (c : Char) (low : 0x20 ≤ c.toNat) (high : c.toNat < 0x7f) :
    isPrintable c = true := by
  have small : c.toNat < 0x80 := by omega
  simp [isPrintable, small, low, high]

end SymbolMachine.Text
