import SymbolMachine.Alternation
import SymbolMachine.Arithmetic.Examination
import SymbolMachine.Catalogue
import SymbolMachine.Main
import SymbolMachine.Proofs.Alternation
import SymbolMachine.Proofs.Arithmetic.Earliest
import SymbolMachine.Proofs.Arithmetic.Marking
import SymbolMachine.Proofs.Arithmetic.NormalForm
import SymbolMachine.Proofs.Arithmetic.Reuse
import SymbolMachine.Proofs.Arithmetic.Tokenization
import SymbolMachine.Proofs.Machine.Accepting
import SymbolMachine.Proofs.Machine.Calls
import SymbolMachine.Proofs.Machine.EqualInputs
import SymbolMachine.Proofs.Machine.Extension
import SymbolMachine.Proofs.Machine.Graph
import SymbolMachine.Proofs.Machine.Judging
import SymbolMachine.Proofs.Machine.Rearrangement
import SymbolMachine.Proofs.Machine.Reentry
import SymbolMachine.Proofs.Machine.Silence
import SymbolMachine.Proofs.Machine.Stepwise
import SymbolMachine.Proofs.Session.Building
import SymbolMachine.Proofs.Session.Keys
import SymbolMachine.Proofs.Session.Logging
import SymbolMachine.Proofs.Session.Noninterference
import SymbolMachine.Proofs.Session.SetRules
import SymbolMachine.Proofs.Tokens.Cutting
import SymbolMachine.Proofs.Tokens.Failing
import SymbolMachine.Proofs.Tokens.Lossless
import SymbolMachine.Proofs.Tokens.Normalizing
import SymbolMachine.Proofs.Tokens.Noticing
import SymbolMachine.Proofs.Tokens.Searching
import SymbolMachine.Proofs.Tokens.Sharing
