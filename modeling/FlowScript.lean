import FlowScript.Flow.Document
import FlowScript.Flow.Edit
import FlowScript.Script.Compile
import FlowScript.Flow.File
import FlowScript.Text.Base64
import FlowScript.Report.Summary
import FlowScript.Template.Builtin
import FlowScript.Log.Compact
import FlowScript.Log.Document
import FlowScript.Watch.Change
import FlowScript.Publish.Broker
import FlowScript.Session.Pass
import FlowScript.Command.Basic
import FlowScript.Web.Server
import FlowScript.Main
import FlowScript.Proofs.Graph.Path
import FlowScript.Proofs.Graph.Placing
import FlowScript.Proofs.Graph.Cycles
import FlowScript.Proofs.Script.Collect
import FlowScript.Proofs.Script.Plan
import FlowScript.Proofs.Text.Lines
import FlowScript.Proofs.Script.Order
import FlowScript.Proofs.Flow.Editing
import FlowScript.Proofs.Script.DefinedBeforeUse
import FlowScript.Proofs.Script.Hygiene
import FlowScript.Proofs.Script.Dangling
import FlowScript.Proofs.Source.Headers
import FlowScript.Proofs.Script.Binding
import FlowScript.Proofs.Flow.Storage
import FlowScript.Proofs.Flow.Alike
import FlowScript.Proofs.Flow.Success
import FlowScript.Proofs.Script.Normal
import FlowScript.Proofs.Script.Outline
import FlowScript.Proofs.Script.LiteralSyntax
import FlowScript.Proofs.Text.SourceLines
import FlowScript.Proofs.Script.Literals
import FlowScript.Proofs.Script.BlockLines
import FlowScript.Proofs.Script.DocText
import FlowScript.Proofs.Script.Header
import FlowScript.Proofs.Json.Content
import FlowScript.Proofs.Yaml.Reading
import FlowScript.Proofs.Flow.YamlStorage
import FlowScript.Proofs.Flow.YamlRoundTrip
import FlowScript.Proofs.Script.Alike
import FlowScript.Proofs.Flow.Decoded
import FlowScript.Proofs.Publish.Requests
import FlowScript.Proofs.Publish.Delivery
import FlowScript.Proofs.Watch.Batches
import FlowScript.Proofs.Web.Latest
import FlowScript.Proofs.Web.Responses
import FlowScript.Proofs.Web.Refusals
import FlowScript.Proofs.Script.Findings
import FlowScript.Proofs.Flow.Accepted
import FlowScript.Proofs.Script.SharedFindings
import FlowScript.Proofs.Workspace.Places
import FlowScript.Proofs.Workspace.Paths
import FlowScript.Proofs.Workspace.Directories
import FlowScript.Proofs.Workspace.Tidy
import FlowScript.Proofs.Run.Figures
import FlowScript.Proofs.Run.Repeated
import FlowScript.Proofs.Flow.Files
import FlowScript.Proofs.Session.Turns
import FlowScript.Proofs.Session.Independence
import FlowScript.Proofs.Session.FigureFiles
import FlowScript.Proofs.Graph.Unplaced
import FlowScript.Proofs.Graph.Course
import FlowScript.Proofs.Graph.Report
import FlowScript.Proofs.Flow.Matching
import FlowScript.Proofs.Flow.Recoding
import FlowScript.Proofs.Flow.Regular
import FlowScript.Proofs.Flow.NewCode
import FlowScript.Proofs.Flow.Validity
import FlowScript.Proofs.Source.Bracketing
import FlowScript.Proofs.Source.Continued
import FlowScript.Proofs.Source.Printed
import FlowScript.Proofs.Script.PlainCalls
import FlowScript.Proofs.Script.Banner
import FlowScript.Proofs.Script.Blocked
import FlowScript.Proofs.Source.LogicalLines
import FlowScript.Proofs.Script.Dedent
import FlowScript.Proofs.Script.Hoisting
import FlowScript.Proofs.Script.Supplies
import FlowScript.Proofs.Template.Closure
import FlowScript.Proofs.Run.Output
import FlowScript.Proofs.Json.Control
import FlowScript.Proofs.Publish.Stream
import FlowScript.Proofs.Run.Packages
import FlowScript.Proofs.Graph.Layers
import FlowScript.Proofs.Log.Derived
import FlowScript.Proofs.Source.TopLevel
import FlowScript.Proofs.Script.NameTable
