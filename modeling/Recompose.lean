import Recompose.Annotation
import Recompose.CacheScope
import Recompose.CallGraph
import Recompose.Completion
import Recompose.Condition
import Recompose.Diagnostic
import Recompose.Digest.Sha256
import Recompose.Glue
import Recompose.Hazard
import Recompose.Identity
import Recompose.Imports
import Recompose.Json
import Recompose.Marker
import Recompose.Number.Double
import Recompose.Number.Literal
import Recompose.Number.Printed
import Recompose.Number.Shortest
import Recompose.Options
import Recompose.Options.Json
import Recompose.Parameter
import Recompose.Proofs.Agreement
import Recompose.Proofs.Apart
import Recompose.Proofs.Arity
import Recompose.Proofs.Bracketing
import Recompose.Proofs.Builders
import Recompose.Proofs.CacheScope
import Recompose.Proofs.Completion
import Recompose.Proofs.Condition
import Recompose.Proofs.Consumed
import Recompose.Proofs.Declarations
import Recompose.Proofs.Enclosure
import Recompose.Proofs.Everywhere
import Recompose.Proofs.Execution
import Recompose.Proofs.Glue
import Recompose.Proofs.Hazard
import Recompose.Proofs.Identity
import Recompose.Proofs.Imports
import Recompose.Proofs.Insertion
import Recompose.Proofs.Json
import Recompose.Proofs.Jump
import Recompose.Proofs.Labels
import Recompose.Proofs.Leniency
import Recompose.Proofs.Marked
import Recompose.Proofs.Marker
import Recompose.Proofs.Numbering
import Recompose.Proofs.Offset
import Recompose.Proofs.Options
import Recompose.Proofs.Outcome
import Recompose.Proofs.Position
import Recompose.Proofs.Preamble
import Recompose.Proofs.Reachability
import Recompose.Proofs.Reading.Cursor
import Recompose.Proofs.Reading.Expression
import Recompose.Proofs.Reading.Import
import Recompose.Proofs.Reading.Order
import Recompose.Proofs.Reading.Order.Class
import Recompose.Proofs.Reading.Order.Expression
import Recompose.Proofs.Reading.Order.File
import Recompose.Proofs.Reading.Snippet
import Recompose.Proofs.Reading.Spelled
import Recompose.Proofs.Reading.Statement
import Recompose.Proofs.Reading.Threading
import Recompose.Proofs.Reading.Token
import Recompose.Proofs.Reading.Type
import Recompose.Proofs.References
import Recompose.Proofs.Replay
import Recompose.Proofs.Resolution
import Recompose.Proofs.Returns
import Recompose.Proofs.Roles
import Recompose.Proofs.Scoping
import Recompose.Proofs.Shadowing
import Recompose.Proofs.Slots
import Recompose.Proofs.Statistics
import Recompose.Proofs.Termination
import Recompose.Proofs.Traverse
import Recompose.Proofs.Unmarked
import Recompose.Proofs.Untouched
import Recompose.Proofs.Weave.Awaited
import Recompose.Proofs.Weave.Balance
import Recompose.Proofs.Weave.Callee
import Recompose.Proofs.Weave.Ends
import Recompose.Proofs.Weave.Known
import Recompose.Proofs.Weave.Lookup
import Recompose.Proofs.Weave.Memo
import Recompose.Proofs.Weave.Run
import Recompose.Proofs.Weave.Step
import Recompose.Proofs.Weave.Tame
import Recompose.Proofs.Weave.Throughout
import Recompose.Proofs.Weave.Unobscured
import Recompose.Scope
import Recompose.Script.Cursor
import Recompose.Script.Names
import Recompose.Script.Node
import Recompose.Script.Operator
import Recompose.Script.Parse
import Recompose.Script.Parse.Class
import Recompose.Script.Parse.Expression
import Recompose.Script.Parse.Function
import Recompose.Script.Parse.Goal
import Recompose.Script.Parse.Jsx
import Recompose.Script.Parse.Module
import Recompose.Script.Parse.Pattern
import Recompose.Script.Parse.Statement
import Recompose.Script.Parse.Target
import Recompose.Script.Parse.Type
import Recompose.Script.Print
import Recompose.Script.Print.Literal
import Recompose.Script.Print.Out
import Recompose.Script.Print.Shape
import Recompose.Script.Scan
import Recompose.Script.Token
import Recompose.Script.Traverse
import Recompose.Text.Blank
import Recompose.Text.Letter
import Recompose.Text.Name
import Recompose.Text.Offset
import Recompose.Text.WordChar
import Recompose.Transform
import Recompose.Weave.Call
import Recompose.Weave.Signature
import Recompose.Weave.State
import Recompose.Weave.Walk
