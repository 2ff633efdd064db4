import Calculator.Main
import Calculator.Proofs.Expr.Nodes
import Calculator.Proofs.Expr.Walk
import Calculator.Proofs.Grammar
import Calculator.Proofs.Parsing.Phrase
import Calculator.Proofs.Parsing.Fault
import Calculator.Proofs.Parsing.Account
import Calculator.Proofs.Parsing.Completeness
import Calculator.Proofs.Parsing.Acceptance
import Calculator.Proofs.Token.Rendering
import Calculator.Proofs.Token.InvalidCharacter
import Calculator.Proofs.Token.Calls
import Calculator.Proofs.Parsing.Locality
import Calculator.Proofs.Parsing.ViablePrefix
import Calculator.Proofs.Number.Bits
import Calculator.Proofs.Number.Parts
import Calculator.Proofs.Number.Order
import Calculator.Proofs.Number.Rounding
import Calculator.Proofs.Number.Sum
import Calculator.Proofs.Factorial
import Calculator.Proofs.Number.Rank
import Calculator.Proofs.Number.Reading
import Calculator.Proofs.Expr.PrintedTokens
import Calculator.Proofs.Expr.RoundTrip
import Calculator.Proofs.Expr.Warnings
import Calculator.Proofs.Expr.InvalidCalls
import Calculator.Proofs.Expr.UniqueReading
import Calculator.Proofs.Expr.Equality
import Calculator.Proofs.Parsing.Parentheses
import Calculator.Proofs.Parsing.Payload
import Calculator.Proofs.Parsing.Grouping
import Calculator.Proofs.Parsing.Placement
import Calculator.Proofs.OneLine
import Calculator.Proofs.Script
import Calculator.Proofs.Composition
import Calculator.Proofs.Literals
import Calculator.Proofs.Parsing.Limit
import Calculator.Proofs.Recursion
import Calculator.Proofs.Parsing.EndOfInput
import Calculator.Proofs.Parsing.Surroundings
import Calculator.Proofs.Parsing.Lookahead
import Calculator.Proofs.Counting
import Calculator.Proofs.Token.PrefixSigns
import Calculator.Proofs.Parsing.Enclosing
import Calculator.Proofs.Parsing.Entry
