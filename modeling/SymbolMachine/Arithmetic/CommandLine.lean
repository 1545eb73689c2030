/-
The command line of the arithmetic lexer.

It lexes one expression. On success it prints a line for each token that is no white
space, or, if it is only asked to validate, that all is well. A rejected character is
reported with its place marked below the expression, and an expression that ends behind
a point is reported too.
-/
import SymbolMachine.Arithmetic.Arguments
import SymbolMachine.Arithmetic.Lexer

set_option autoImplicit false

namespace SymbolMachine.Arithmetic

/-- What a program run leaves behind. -/
structure Printed where
  exitCode : Nat
  out : String
  err : String
deriving DecidableEq

/-- The name of the program in its messages. -/
def programName : String := "main.py"

/-- How the program is called. -/
def usage : String :=
  "usage: " ++ programName ++ " [-h] [--validate-only] [--verbose] expression\n"

/-- The help text. -/
def help : String :=
  usage ++
  "\nArithmetic lexer -- lexfsm demo\n" ++
  "\npositional arguments:\n" ++
  "  expression       Expression to tokenize\n" ++
  "\noptions:\n" ++
  "  -h, --help       show this help message and exit\n" ++
  "  --validate-only  Check the expression without emitting tokens\n" ++
  "  --verbose        Log every transition\n"

/-- The name under which the program itself writes to the log. -/
def author : String := "arith_lexer"

/-- A line of the log as it is printed, the level in a column of eight. -/
def LogLine.printed (l : LogLine) : String :=
  l.level.name ++ String.ofList (List.replicate (8 - l.level.name.length) ' ') ++ " | " ++
    l.author ++ " | " ++ l.text ++ "\n"

/-- The log as it is printed. -/
def Desk.printedLog (d : Desk) : String := String.join (d.log.map LogLine.printed)

/-- The lines that report a rejected character: what is wrong, the expression, and a mark
below the character. -/
def rejection (expression : String) (fault : Fault) (position : Nat) : String :=
  "error: " ++ fault.message ++ "\n  " ++ expression ++ "\n  " ++
    String.ofList (List.replicate (position - 1) ' ') ++ "^\n"

/-- The line that reports an end in a state that does not accept. -/
def earlyEnd (state : StateId) : String :=
  "error: unexpected end of input in state " ++ toString state.toInt ++ "\n"

/-- Removes the white space from the tokens, notes their number, and answers their
lines. -/
def listing : Effect Desk String := do
  let tidy : Effect TokenStore (String × Nat) := do
    Collection.trim Desk.collection Kind.space.toValue
    Collection.removeKind Desk.collection Kind.space.toValue
    let lines ← Collection.lines Desk.collection
    return (lines, ((← get).items Desk.collection).length)
  let (lines, count) ← tidy.within Desk.tokens (fun s d => { d with tokens := s }) TokenStore.empty
  modify (·.write ⟨.info, author, "lexed " ++ toString count ++ " tokens"⟩)
  pure lines

/-- Lexes the expression; answers the exit code with what is printed on either channel,
the log left aside. -/
def respond (r : Request) : Effect Desk (Nat × String × String) := do
  let symbols := r.expression.toList.map Value.ofChar
  match ← lex Desk.collection (!r.validateOnly) symbols with
  | .failure _ symbol position failing =>
    let fault := Fault.unmatched ((← get).tokens.read symbol) (.int position) failing.toValue
    pure (1, "", rejection r.expression fault position)
  | .success final =>
    let state ← (host Desk.collection).stateNow final
    if !state.accepting.truthy then pure (1, "", earlyEnd final)
    else if r.validateOnly then pure (0, "ok\n", "")
    else return (0, ← listing, "")

/-- Answers a request. -/
def answer (r : Request) : Printed :=
  match respond r (Desk.new (if r.verbose then .debug else .warning)) with
  | (.ok (code, out, err), d) => ⟨code, out, d.printedLog ++ err⟩
  | (.error _, d) => ⟨1, "", d.printedLog⟩

/-- The program as a function of its arguments. -/
def program (args : List String) : Printed :=
  match readArguments args with
  | .help => ⟨0, help, ""⟩
  | .error e => ⟨2, "", usage ++ programName ++ ": error: " ++ e.message ++ "\n"⟩
  | .request r => answer r

end SymbolMachine.Arithmetic
