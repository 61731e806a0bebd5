import ListLanguage.Text.Blank
import ListLanguage.Text.Quoted
import ListLanguage.Text.Bracketed
import ListLanguage.Text.Window
import ListLanguage.Text.Hidden
import ListLanguage.Text.Listing
import ListLanguage.Number.Rounding
import ListLanguage.Number.Decimal
import ListLanguage.Number.Shortest
import ListLanguage.Number.Text
import ListLanguage.Arity
import ListLanguage.Error
import ListLanguage.Token
import ListLanguage.Token.Scanner
import ListLanguage.Form
import ListLanguage.Form.Reader
import ListLanguage.Value
import ListLanguage.Value.Elements
import ListLanguage.Operation
import ListLanguage.Builtin
import ListLanguage.Environment
import ListLanguage.Host
import ListLanguage.Expansion
import ListLanguage.Evaluation
import ListLanguage.Run
import ListLanguage.Proofs.Form.Nesting
import ListLanguage.Proofs.Form.Outline
import ListLanguage.Proofs.Form.Reading
import ListLanguage.Proofs.Form.Exactness
import ListLanguage.Proofs.Number.Numeral
import ListLanguage.Proofs.Number.Exact
import ListLanguage.Proofs.Number.Double
import ListLanguage.Proofs.Number.Notation
import ListLanguage.Proofs.Number.Readback
import ListLanguage.Proofs.Text.Bytes
import ListLanguage.Proofs.Text.Window
import ListLanguage.Proofs.Token.Atom
import ListLanguage.Proofs.Token.Cut
import ListLanguage.Proofs.Token.Decomposition
import ListLanguage.Proofs.Token.Spelling
import ListLanguage.Proofs.Form.Printing
import ListLanguage.Proofs.Value.Nesting
import ListLanguage.Proofs.Value.Reified
import ListLanguage.Proofs.Value.Elements
import ListLanguage.Proofs.Evaluation.Assignments
import ListLanguage.Proofs.Evaluation.Reified
import ListLanguage.Proofs.Run.Readback
import ListLanguage.Proofs.Except
import ListLanguage.Proofs.Operation.Checks
import ListLanguage.Proofs.Builtin.Outcome
import ListLanguage.Proofs.Builtin.Joining
import ListLanguage.Proofs.Form.Continuation
import ListLanguage.Proofs.Form.Leaves
import ListLanguage.Proofs.Form.Numbers
import ListLanguage.Proofs.Form.Limit
import ListLanguage.Proofs.Token.Continuation
import ListLanguage.Proofs.Token.String
import ListLanguage.Proofs.Expansion.Definition
import ListLanguage.Proofs.Evaluation.Invariant
import ListLanguage.Proofs.Evaluation.Strings
import ListLanguage.Proofs.Run.Stages
import ListLanguage.Proofs.Run.Continuation
import ListLanguage.Proofs.Run.Session
import ListLanguage.Proofs.Run.Guards
import ListLanguage.Proofs.Run.Strings
import ListLanguage.Proofs.Run.Depth
import ListLanguage.Proofs.Form.Reprinting
import ListLanguage.Proofs.Evaluation.Congruence
import ListLanguage.Proofs.Evaluation.Dependence
import ListLanguage.Proofs.Run.Limit
import ListLanguage.Proofs.Run.Display
import ListLanguage.Proofs.Evaluation.Independence
import ListLanguage.Proofs.Evaluation.Outcome
import ListLanguage.Proofs.Evaluation.Substitution
import ListLanguage.Proofs.Expansion.Exactness
import ListLanguage.Proofs.Run.Nesting
import ListLanguage.Proofs.Token.OpenString
import ListLanguage.Proofs.Form.Fault
import ListLanguage.Proofs.Evaluation.Origin
import ListLanguage.Proofs.Run.Blame
