/-
The arguments of the lexer's command line.

An argument that starts with a dash is an option unless it looks like a negative number,
holds a space, or is the dash alone. Long options may be cut short as long as only one
fits. A double dash ends the options. All arguments are told apart before any is used, so
an ambiguous one is reported first of all; then they are used in order, and a request for
help ends the matter. What is left over is reported only if nothing is missing.
-/
import SymbolMachine.Text.Digits
import SymbolMachine.Text.Quoted

set_option autoImplicit false

namespace SymbolMachine.Arithmetic

/-! ## Options -/

/-- The options, none of which takes a value. -/
inductive Flag
  | help
  | validateOnly
  | verbose
deriving DecidableEq

/-- All spellings of the options. -/
def spellings : List (String × Flag) :=
  [("-h", .help), ("--help", .help), ("--validate-only", .validateOnly), ("--verbose", .verbose)]

/-- An option as messages name it. -/
def Flag.title : Flag → String
  | help => "-h/--help"
  | validateOnly => "--validate-only"
  | verbose => "--verbose"

/-- What is wrong with the arguments. -/
inductive UsageError
  | ambiguous (argument : String) (spellings : List String)
  | uselessValue (flag : Flag) (value : String)
  | missing
  | leftOver (arguments : List String)
deriving DecidableEq

/-- The wording of an error. -/
def UsageError.message : UsageError → String
  | ambiguous argument spellings =>
    "ambiguous option: " ++ argument ++ " could match " ++ ", ".intercalate spellings
  | uselessValue flag value =>
    "argument " ++ flag.title ++ ": ignored explicit argument " ++ Text.quoted value
  | missing => "the following arguments are required: expression"
  | leftOver arguments => "unrecognized arguments: " ++ " ".intercalate arguments

/-! ## Telling arguments apart -/

/-- An argument by its role. An option may come with a value behind an equals sign, and a
short one with further letters, which may also stand behind an equals sign. -/
inductive Argument
  | plain (text : String)
  | separator
  | option (flag : Flag) (value : Option String)
  | cluster (flag : Flag) (letters : List Char)
  | unknown (text : String)
deriving DecidableEq

/-- Whether an argument looks like a negative number: a dash and digits, with or without
a fraction. A line end at the end does not count. -/
def looksNegative (cs : List Char) : Bool :=
  match cs with
  | '-' :: rest =>
    let body := if rest.getLast? = some '\n' then rest.dropLast else rest
    let tail := body.dropWhile Text.isDecimalDigit
    match tail with
    | [] => !body.isEmpty
    | '.' :: fraction => !fraction.isEmpty && fraction.all Text.isDecimalDigit
    | _ => false
  | _ => false

/-- The text before the first equals sign and the text behind it. -/
def splitValue (cs : List Char) : List Char × Option (List Char) :=
  (cs.takeWhile (· ≠ '='),
    match cs.dropWhile (· ≠ '=') with
    | [] => none
    | _ :: value => some value)

/-- Whether an option is spelled with two dashes. -/
def isLong (spelling : List Char) : Bool := spelling.take 2 = ['-', '-']

/-- The spellings that an argument may mean, each with what the argument then is. One with
two dashes may be cut short; one with a single dash may have letters behind its own. -/
def candidates (cs : List Char) : List (String × Argument) :=
  if isLong cs then
    let (stem, value) := splitValue cs
    (spellings.filter fun s => stem.isPrefixOf s.1.toList).map fun s =>
      (s.1, .option s.2 (value.map String.ofList))
  else
    spellings.filterMap fun s =>
      if s.1.toList = cs.take 2 then some (s.1, .cluster s.2 (cs.drop 2))
      else if cs.isPrefixOf s.1.toList then some (s.1, .option s.2 none)
      else none

/-- Tells what an argument is that starts with a dash and has more behind it. -/
def classifyDashed (text : String) (cs : List Char) : Except UsageError Argument :=
  let (stem, value) := splitValue cs
  match value, spellings.lookup (String.ofList stem) with
  | some v, some flag =>
    -- Behind a short option the equals sign is dropped, and there may be more letters.
    .ok (if isLong stem || v.isEmpty then .option flag (some (String.ofList v))
      else .cluster flag v)
  | _, _ =>
    match candidates cs with
    | [(_, argument)] => .ok argument
    -- What is no option may still be an expression that starts with a minus sign.
    | [] => .ok (if looksNegative cs || cs.contains ' ' then .plain text else .unknown text)
    | several => .error (.ambiguous text (several.map fun c => c.1))

/-- Tells what an argument is. -/
def classify (text : String) : Except UsageError Argument :=
  match spellings.lookup text with
  | some flag => .ok (.option flag none)
  | none =>
    match text.toList with
    | '-' :: c :: cs => classifyDashed text ('-' :: c :: cs)
    | _ => .ok (.plain text)

/-- Tells what the arguments are. Behind a double dash all are plain. -/
def classifyAll : List String → Except UsageError (List Argument)
  | [] => pure []
  | a :: as =>
    if a = "--" then pure (.separator :: as.map .plain)
    else do
      let first ← classify a
      let rest ← classifyAll as
      pure (first :: rest)

/-! ## Using them -/

/-- What the arguments ask for. -/
structure Request where
  expression : String
  validateOnly : Bool
  verbose : Bool
deriving DecidableEq

/-- What is known while the arguments are used. -/
structure Progress where
  expression : Option String
  validateOnly : Bool
  verbose : Bool
  leftOver : List String

/-- How reading the arguments ends. -/
inductive Reading
  | request (r : Request)
  | help
  | error (e : UsageError)
deriving DecidableEq

/-- The options that a cluster of letters spells, the first option first. From the first
letter on that spells none, the rest is a value for the option before it. -/
def unfold (flag : Flag) : List Char → Except UsageError (List Flag)
  | [] => .ok [flag]
  | c :: cs =>
    match spellings.lookup (String.ofList ['-', c]) with
    | none => .error (.uselessValue flag (String.ofList (c :: cs)))
    | some next => (flag :: ·) <$> unfold next cs

/-- The progress with an option used. -/
def Progress.use (p : Progress) : Flag → Progress
  | .help => p
  | .validateOnly => { p with validateOnly := true }
  | .verbose => { p with verbose := true }

/-- The end of the arguments. -/
def Progress.finish (p : Progress) : Reading :=
  match p.expression with
  | none => .error .missing
  | some expression =>
    if p.leftOver.isEmpty then .request ⟨expression, p.validateOnly, p.verbose⟩
    else .error (.leftOver p.leftOver)

/-- Uses the arguments in order. The first plain one is the expression, and takes the
separator before or behind it along. -/
def useAll (p : Progress) : List Argument → Reading
  | [] => p.finish
  | .unknown text :: rest => useAll { p with leftOver := p.leftOver ++ [text] } rest
  | .option flag (some value) :: _ => .error (.uselessValue flag value)
  | .option flag none :: rest => if flag = .help then .help else useAll (p.use flag) rest
  | .cluster flag letters :: rest =>
    match unfold flag letters with
    | .error e => .error e
    | .ok flags =>
      if flags.contains .help then .help else useAll (flags.foldl Progress.use p) rest
  | .plain text :: .separator :: rest =>
    match p.expression with
    | none => useAll { p with expression := some text } rest
    | some _ => useAll { p with leftOver := p.leftOver ++ [text, "--"] } rest
  | .plain text :: rest =>
    match p.expression with
    | none => useAll { p with expression := some text } rest
    | some _ => useAll { p with leftOver := p.leftOver ++ [text] } rest
  | .separator :: .plain text :: rest =>
    match p.expression with
    | none => useAll { p with expression := some text } rest
    | some _ => useAll { p with leftOver := p.leftOver ++ ["--", text] } rest
  | .separator :: rest => useAll { p with leftOver := p.leftOver ++ ["--"] } rest

/-- Reads the arguments. -/
def readArguments (args : List String) : Reading :=
  match classifyAll args with
  | .error e => .error e
  | .ok as => useAll ⟨none, false, false, []⟩ as

end SymbolMachine.Arithmetic
