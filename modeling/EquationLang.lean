import EquationLang.Expr.Printer
import EquationLang.Json.Encode
import EquationLang.Dependency.Graph
import EquationLang.Proofs.Token.Terminators
import EquationLang.Proofs.Grammar.DepthLimit
import EquationLang.Proofs.Grammar.ErrorPosition
import EquationLang.Proofs.Grammar.TokenRoundTrip
import EquationLang.Proofs.Grammar.Juxtaposition
import EquationLang.Proofs.Dependency.Mentions
import EquationLang.Proofs.Dependency.CanonicalNames
import EquationLang.Proofs.Dependency.Graph
import EquationLang.Proofs.Token.Lines
import EquationLang.Proofs.Token.Context
import EquationLang.Proofs.Token.FirstFault
import EquationLang.Proofs.Expr.Height
import EquationLang.Proofs.Expr.Walk
import EquationLang.Proofs.Grammar.HeightLimit
import EquationLang.Proofs.Grammar.OnDemand
import EquationLang.Proofs.Grammar.Consumption
import EquationLang.Proofs.Grammar.Descent
import EquationLang.Proofs.Diagnostic.FirstReports
import EquationLang.Proofs.Diagnostic.Rendering
import EquationLang.Proofs.Diagnostic.Message
import EquationLang.Proofs.Expr.PrintedWords
import EquationLang.Proofs.Grammar.SurroundingLayout
import EquationLang.Proofs.Grammar.PrecedenceFaults
import EquationLang.Proofs.Json.Sameness
import EquationLang.Proofs.Position.Lookup
import EquationLang.Proofs.Token.LongestNumber
