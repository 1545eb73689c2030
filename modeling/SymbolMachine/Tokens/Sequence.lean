/-
Searching and cutting a sequence by a test of its items that may fail.

The test says whether an item is of the kind in question; for an item that has no kind it
fails. Every operation here asks it of the items in order and only as far as its answer
needs, and its own failure is the first failure of the test: which items are asked is
part of what an operation means.
-/
import SymbolMachine.Fault

set_option autoImplicit false

namespace SymbolMachine.Sequence

variable {ι : Type}

/-- A test of an item that fails on items that it does not apply to. -/
abbrev Test (ι : Type) : Type := ι → Except Fault Bool

/-- The items that do not pass. -/
def without (is : Test ι) : List ι → Except Fault (List ι)
  | [] => pure []
  | x :: xs => do
    let b ← is x
    let rest ← without is xs
    pure (if b then rest else x :: rest)

/-- The place of the first item that passes, counted from `i`. -/
def findFrom (is : Test ι) (i : Nat) : List ι → Except Fault (Option Nat)
  | [] => pure none
  | x :: xs => do
    if ← is x then pure (some i) else findFrom is (i + 1) xs

/-- The items that are kept behind a kept item `last`: all but those that pass while the
item kept before them passes too. The kept item is asked only behind one that passes. -/
def collapseAfter (is : Test ι) (last : ι) : List ι → Except Fault (List ι)
  | [] => pure []
  | x :: xs => do
    if ← is x then
      if ← is last then collapseAfter is last xs
      else (x :: ·) <$> collapseAfter is x xs
    else (x :: ·) <$> collapseAfter is x xs

/-- The sequence with each run of passing items cut down to its first. -/
def collapse (is : Test ι) : List ι → Except Fault (List ι)
  | [] => pure []
  | x :: xs => (x :: ·) <$> collapseAfter is x xs

/-- The groups between passing items: one more than there are of these. -/
def groups (is : Test ι) : List ι → Except Fault (List (List ι))
  | [] => pure [[]]
  | x :: xs => do
    let b ← is x
    let rest ← groups is xs
    pure (if b then [] :: rest
      else match rest with
        | [] => [[x]]
        | g :: gs => (x :: g) :: gs)

/-- The sequence without the passing items at its start. -/
def trimStart (is : Test ι) : List ι → Except Fault (List ι)
  | [] => pure []
  | x :: xs => do
    if ← is x then trimStart is xs else pure (x :: xs)

/-- The sequence without the passing items at its end. -/
def trimEnd (is : Test ι) (xs : List ι) : Except Fault (List ι) :=
  List.reverse <$> trimStart is xs.reverse

/-- Whether there is a first item and it passes. -/
def startsWith (is : Test ι) : List ι → Except Fault Bool
  | [] => pure false
  | x :: _ => is x

/-- Whether there is a last item and it passes. -/
def endsWith (is : Test ι) (xs : List ι) : Except Fault Bool := startsWith is xs.reverse

@[simp] theorem without_nil (is : Test ι) : without is [] = .ok [] := rfl

@[simp] theorem findFrom_nil (is : Test ι) (i : Nat) : findFrom is i [] = .ok none := rfl

@[simp] theorem collapse_nil (is : Test ι) : collapse is [] = .ok [] := rfl

@[simp] theorem groups_nil (is : Test ι) : groups is [] = .ok [[]] := rfl

@[simp] theorem trimStart_nil (is : Test ι) : trimStart is [] = .ok [] := rfl

@[simp] theorem trimEnd_nil (is : Test ι) : trimEnd is [] = .ok [] := rfl

end SymbolMachine.Sequence
