import Worksheet.Expression.Value
import Worksheet.Session.Prompt
import Worksheet.Command
import Worksheet.Main
import Worksheet.Proofs.Expression.Precedence
import Worksheet.Proofs.Expression.Conventional
import Worksheet.Proofs.Expression.Acceptance
import Worksheet.Proofs.Session.Trace
import Worksheet.Proofs.Expression.Induction
import Worksheet.Proofs.Expression.Leaves
import Worksheet.Proofs.Expression.Effects
import Worksheet.Proofs.Session.Independence
import Worksheet.Proofs.Expression.Margins
import Worksheet.Proofs.Expression.Layout
import Worksheet.Proofs.Expression.Halves
import Worksheet.Proofs.Expression.Known
import Worksheet.Proofs.Expression.Pending
import Worksheet.Proofs.Expression.Depth
import Worksheet.Proofs.Expression.Budget
import Worksheet.Proofs.Statement.Marks
import Worksheet.Proofs.Statement.Targets
import Worksheet.Proofs.Statement.Chained
import Worksheet.Proofs.Statement.Classification
import Worksheet.Proofs.Session.Reachable
import Worksheet.Proofs.Session.ReadBack
import Worksheet.Proofs.Expression.Alike
import Worksheet.Proofs.Expression.Respacing
import Worksheet.Proofs.Expression.Pasted
import Worksheet.Proofs.Expression.Glyphs
import Worksheet.Proofs.Expression.Substitution
import Worksheet.Proofs.Expression.NormalForm
import Worksheet.Proofs.Session.Compound
import Worksheet.Proofs.Expression.Recursion
import Worksheet.Proofs.Session.Nesting
import Worksheet.Proofs.Session.History
import Worksheet.Proofs.Session.Dialogue
import Worksheet.Proofs.Session.Solve
import Worksheet.Proofs.Number.Shown
import Worksheet.Proofs.Session.OneLine
import Worksheet.Proofs.Expression.Figures
import Worksheet.Proofs.Session.Literals
import Worksheet.Proofs.Command.Printed
import Worksheet.Proofs.Expression.Turns
import Worksheet.Proofs.Session.Output
import Worksheet.Proofs.Text.LineEnds
import Worksheet.Proofs.Text.Strictness
import Worksheet.Proofs.Command.Sources
import Worksheet.Proofs.Session.Callers
