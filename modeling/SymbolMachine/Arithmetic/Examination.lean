/-
What the arithmetic lexer makes of an expression that need not be text.

The expression is a feed of a session: any value that can be iterated, or a script. It is
evaluated once and then read twice, first with actions and then for whether the lexer
accepts it. A script that was read in part goes on where it was; everything else is read
from its start again.
-/
import SymbolMachine.Arithmetic.Lexer
import SymbolMachine.Session.Survey

set_option autoImplicit false

namespace SymbolMachine.Arithmetic

open Session

/-- What the lexer makes of an expression: its report with the message of a failure, the
tokens as kind and lexeme, and whether it accepts the expression. -/
structure Examination where
  report : Except Stop (Report × Option String)
  tokens : List (String × Value)
  accepts : Except Stop Value

/-- The name of the kind and the lexeme of a token. -/
def tokenEntry : Value → String × Value
  | .token kind lexeme => (kind.ownName?.getD kind.quoted, lexeme)
  | v => (v.quoted, .null)

/-- The lexer in the world of a session beside what is left of the expression. Its tokens go
to a collection, and it keeps no log. -/
def bench (c : CollectionId) : Host (World × Supply) Rule TokenAction Value where
  machine _ := lexer
  test r x := do return r.accepts (← get).1.tokens x
  perform a x :=
    (a.perform c x).within (fun w => w.1.tokens) (fun s w => ({ w.1 with tokens := s }, w.2))
      TokenStore.empty
  record _ := pure ()
  detailed _ := false

variable (perform : List Command → Effect World Unit)

/-- What is left of the expression as a source, used up where it ends or fails. -/
def remaining : Source (World × Supply) Unit Value :=
  Source.kept (Supply.next perform) (.items [])

/-- The report of running the lexer. -/
def reportOf (c : CollectionId) (actions : Bool) :
    Effect (World × Supply) (Report × Option String) := do
  let outcome ← (bench c).run (remaining perform) patience (fun _ => actions) ()
  let r : Report := outcome.map StateId.toValue (← get).1.tokens.read fun (p : Nat) => .int p
  return (r, ← Effect.ofExcept r.message?)

/-- Whether the lexer accepts. -/
def acceptanceOf (c : CollectionId) : Effect (World × Supply) Value :=
  (bench c).accepts (remaining perform) patience ()

/-- Examines an expression. -/
def examine (expression : Feed) (actions : Bool) : Except Stop Examination :=
  inFreshWorld fun perform => do
    let source ← supply perform expression
    let c ← onTokens (Collection.new [])
    let (report, (w, left)) :=
      (reportOf perform c actions).mapFault Fault.shown (← get, source)
    let (accepts, _) :=
      (acceptanceOf perform c).mapFault Fault.shown (w, source.again left)
    pure ⟨report, (w.tokens.contents c).map tokenEntry, accepts⟩

end SymbolMachine.Arithmetic
