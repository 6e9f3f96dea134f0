import FlowScript.Flow.Basic
import FlowScript.Json.Value

/-!
# Diagnostics

What compiling a flow has to say besides the script. Nothing here stops a compilation.
-/

namespace FlowScript

/-- How much a diagnostic matters. -/
inductive Severity where
  | warning
  | info
  deriving DecidableEq

/-- The name of a severity. -/
def Severity.name : Severity → String
  | warning => "warning"
  | info => "info"

/-- What a diagnostic is about. -/
inductive DiagnosticCode where
  | cycle
  | danglingConnection
  | invalidNode
  | missingDefinition
  | duplicateFunction
  | invalidPreview
  | unconnectedInput
  | blockedByCycle
  deriving DecidableEq

/-- The name of a code. -/
def DiagnosticCode.name : DiagnosticCode → String
  | cycle => "cycle"
  | danglingConnection => "dangling-connection"
  | invalidNode => "invalid-node"
  | missingDefinition => "missing-definition"
  | duplicateFunction => "duplicate-function"
  | invalidPreview => "invalid-preview"
  | unconnectedInput => "unconnected-input"
  | blockedByCycle => "blocked-by-cycle"

/-- One finding of a compilation. Ids that do not apply are empty. -/
structure Diagnostic where
  code : DiagnosticCode
  severity : Severity
  nodeId : String := ""
  connectionId : String := ""
  message : String

/-- A warning about a node. -/
def Diagnostic.warning (code : DiagnosticCode) (nodeId message : String) : Diagnostic :=
  { code := code, severity := .warning, nodeId := nodeId, message := message }

/-- The written form of a diagnostic. -/
def Diagnostic.toTree (d : Diagnostic) : Json.Tree :=
  .record ([("code", .text d.code.name), ("severity", .text d.severity.name)]
    ++ Json.textUnlessEmpty "nodeId" d.nodeId
    ++ Json.textUnlessEmpty "connectionId" d.connectionId ++ [("message", .text d.message)])

end FlowScript
