/-
The names that the two packages of the library make public, in their order, and the handlers that
are installed on its log. Nothing in the library reads them, and nothing is proved of them: they
are its answer to a caller who asks what it exports.
-/
set_option autoImplicit false

namespace SymbolMachine.Catalogue

/-- The public names of the machine package. -/
def machineNames : List String :=
  ["Machine", "State", "Transition", "Success", "Failure", "RunResult", "StateId", "Equals",
   "OneOf", "NoneOf", "UnmatchedSymbolError", "InvalidTargetError"]

/-- The public names of the token package. -/
def tokenNames : List String := ["Token", "TokenCollection", "type_name"]

/-- The handlers on the library's log: one that drops every note. -/
def logHandlers : List String := ["NullHandler"]

end SymbolMachine.Catalogue
