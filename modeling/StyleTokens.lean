import StyleTokens.Css.Dialect
import StyleTokens.Cursor
import StyleTokens.Dialect.Draft
import StyleTokens.Json5.Dialect
import StyleTokens.Proofs.Css.ReadBack.Separated
import StyleTokens.Proofs.Structure.Resync
import StyleTokens.Proofs.Stylesheet.Comments
import StyleTokens.Proofs.Stylesheet.Concat
import StyleTokens.Queue.Program
import StyleTokens.Selector.Group
import StyleTokens.Strategy.Spec
import StyleTokens.Structure.Stylesheet
import StyleTokens.Proofs.Structure.Flatten
import StyleTokens.Proofs.Structure.Counted
import StyleTokens.Proofs.Structure.Truncate
import StyleTokens.Proofs.Structure.Balanced
import StyleTokens.Proofs.Structure.Resolved
import StyleTokens.Proofs.Stylesheet.Balanced
import StyleTokens.Proofs.Structure.Wrapped
import StyleTokens.Proofs.Css.ReadBack.Run
import StyleTokens.Proofs.Json5.ObjectMap
import StyleTokens.Proofs.Selector.Canonical
import StyleTokens.Proofs.Selector.Reparse
import StyleTokens.Proofs.Dialect.Located
import StyleTokens.Proofs.Structure.Ending
import StyleTokens.Proofs.Queue.Transaction
import StyleTokens.Proofs.Structure.Kept
import StyleTokens.Proofs.Structure.Clean
import StyleTokens.Proofs.Stylesheet.Clean
import StyleTokens.Strategy.Composed
import StyleTokens.Proofs.Outcome.Messages
import StyleTokens.Proofs.Strategy.Division
import StyleTokens.Proofs.Strategy.FirstClean
import StyleTokens.Proofs.Strategy.Splitting
import StyleTokens.Proofs.Selector.Flat
import StyleTokens.Proofs.Css.ReadBack.Quoted
import StyleTokens.Proofs.Structure.Printed
import StyleTokens.Proofs.Selector.Distribution
import StyleTokens.Proofs.Structure.Normal
import StyleTokens.Proofs.Selector.Grammar
import StyleTokens.Proofs.Css.Address
import StyleTokens.Proofs.Css.Numeric
import StyleTokens.Proofs.Json5.Numeric
import StyleTokens.Proofs.Strategy.Skipping
import StyleTokens.Proofs.Strategy.Progress
import StyleTokens.Proofs.Strategy.Collecting
import StyleTokens.Proofs.Strategy.Selection
import StyleTokens.Proofs.Selector.Isolated
import StyleTokens.Proofs.Strategy.Flags
import StyleTokens.Proofs.Engine.Sweep
import StyleTokens.Proofs.Dialect.Order
import StyleTokens.Proofs.Kind.FirstRegistration
