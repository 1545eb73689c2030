/-
The arithmetic lexer as a program: takes the arguments, prints what
`Arithmetic.program` answers, and leaves with its exit code.
-/
import SymbolMachine.Arithmetic.CommandLine

set_option autoImplicit false

/-- Runs the arithmetic lexer. -/
def main (args : List String) : IO UInt32 := do
  let printed := SymbolMachine.Arithmetic.program args
  (← IO.getStdout).putStr printed.out
  (← IO.getStderr).putStr printed.err
  return printed.exitCode.toUInt32
